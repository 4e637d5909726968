import Sparreal.Paging.MapSpec
import Sparreal.Paging.UnmapSpec
import Sparreal.Paging.Accounting

/-!
# Unmapping what was mapped

`unmap` of a range that `map` has just mapped returns the table to what it translated before, and
gives the frames of the tables `map` made back.

For the translations: the range is `Covered` by final entries that lie in it whole, so the loop of
`unmap_range_recursive` never steps over an entry from its middle, and gets to every address of the
range (`Covered.clears`) and to no other.

For the frames: every table `map` makes translates something, and so do the tables below it (`Grown`,
`Populated`). Every table `unmap` keeps is unchanged or not empty (`Pruned`). So a table that `map` made
and `unmap` kept would still translate an address, which the table before `map` did not.
-/

namespace Sparreal.Paging

variable {P : Type} [PageTableEntry P] {T : TableMeta P} {A : FrameAllocator} {limit level : Nat}
  {t t₁ t' t'' : Tree P} {template : PteConfig}

/-! ### Translations -/

/-- Every address of the range translates through a final entry that lies in the range. -/
def Covered (T : TableMeta P) (level : Nat) (t : Tree P) (v e : Nat) : Prop :=
  ∀ x, v ≤ x → x < e → ∃ pte l, lookup T level t x = some (pte, l) ∧
    v ≤ x / T.size l * T.size l ∧ T.entryEnd l x ≤ e

variable {v e x a i : Nat}

theorem Maps.covered {p : Nat} (h : Maps T limit template level t t' v p e) :
    Covered T level t' v e := by
  intro x hle hlt
  obtain ⟨l, pa, hlookup, -, -, hstart, hend⟩ := h.mapped x hle hlt
  exact ⟨_, l, hlookup, hstart, hend⟩

theorem Covered.reachedAt_eq (h : Covered T (level + 1) t v e) (hvx : v ≤ x) (hxe : x < e) :
    reachedAt T (level + 1) t v x = max v (x / T.size (level + 1) * T.size (level + 1)) := by
  have hle : v / T.size (level + 1) ≤ x / T.size (level + 1) := Nat.div_le_div_right hvx
  rcases hle.eq_or_lt with hdiv | hlt
  · have := Nat.div_mul_le_self v (T.size (level + 1))
    rw [reachedAt_of_div_eq hdiv.symm, ← hdiv, max_eq_left this]
  · have hnext : v ≤ x / T.size (level + 1) * T.size (level + 1) := by
      have := T.lt_entryEnd (level + 1) v
      have := Nat.mul_le_mul_right (T.size (level + 1)) (show v / T.size (level + 1) + 1 ≤ _ from hlt)
      rw [TableMeta.entryEnd] at *
      omega
    rw [max_eq_right hnext]
    cases hp : pointsToTable (level + 1) (t.entry (T.slot (level + 1) v)) with
    | true => exact reachedAt_of_pointsToTable hp hlt
    | false =>
      -- the entry of `v` is final, and lies in the range, so the range begins with it
      obtain ⟨pte, l, hlookup, hstart, -⟩ := h v le_rfl (by omega)
      rw [lookup_succ] at hlookup
      split_ifs at hlookup with hvalid hp'
      · rw [hp'] at hp
        exact absurd hp (by decide)
      · obtain rfl : level + 1 = l := (Prod.mk.inj (Option.some.inj hlookup)).2
        refine reachedAt_of_dvd (Dvd.intro_left (v / T.size (level + 1)) ?_) hle
        exact le_antisymm (Nat.div_mul_le_self _ _) hstart

/-- The loop gets to every address of a covered range. -/
theorem Covered.clears (h : Covered T level t v e) (hvx : v ≤ x) (hxe : x < e) :
    Clears T level t v e x := by
  induction level generalizing t v e with
  | zero =>
    obtain ⟨pte, l, hlookup, -⟩ := h x hvx hxe
    simp [lookup] at hlookup
  | succ level ih =>
    have hle : v / T.size (level + 1) ≤ x / T.size (level + 1) := Nat.div_le_div_right hvx
    have hfloor := Nat.div_mul_le_self x (T.size (level + 1))
    rw [Clears, h.reachedAt_eq hvx hxe]
    refine ⟨hle, by omega, fun hp => ih (fun z hz hze => ?_) (by omega) ?_⟩
    · have hdiv : z / T.size (level + 1) = x / T.size (level + 1) :=
        T.div_eq_div_iff.mpr ⟨by omega, by omega⟩
      obtain ⟨pte, l, hlookup, hstart, hend⟩ := h z (by omega) (by omega)
      rw [lookup_kid hp (T.slot_eq_of_div_eq hdiv)] at hlookup
      have hl : l ≤ level + 1 := (lookup_level hlookup).2.trans (Nat.le_succ _)
      have hlow := T.floor_le_floor hl z
      have hhigh := T.entryEnd_le_entryEnd hl z
      rw [hdiv] at hlow
      rw [T.entryEnd_congr hdiv] at hhigh
      exact ⟨pte, l, hlookup, by omega, by omega⟩
    · have := T.lt_entryEnd (level + 1) x
      omega

theorem Covered.unmapped (h : Covered T level t v e) (hunmaps : Unmaps T level e v t t') (hvx : v ≤ x) (hxe : x < e)
    (hax : a ≡ x [MOD T.size (level + 1)]) : lookup T level t' a = none := by
  obtain ⟨pte, l, hlookup, -⟩ := h x hvx hxe
  exact (hunmaps.none_iff a (by simp [lookup_modEq hax, hlookup])).mpr ⟨x, hax, h.clears hvx hxe⟩

theorem Covered.kept (h : Covered T level t v e) (hunmaps : Unmaps T level e v t t')
    (ha : ∀ x, v ≤ x → x < e → ¬ a ≡ x [MOD T.size (level + 1)]) :
    lookup T level t' a = lookup T level t a := by
  rcases hunmaps.cases a with hnone | hsame
  · rw [hnone]
    by_contra hne
    -- the entry the loop got to lies in the range whole, and `a` with it
    obtain ⟨⟨pte, l⟩, hlookup⟩ := Option.ne_none_iff_exists'.mp (Ne.symm hne)
    obtain ⟨b, hab, hclears⟩ := (hunmaps.none_iff a (Ne.symm hne)).mp hnone
    rw [lookup_modEq hab] at hlookup
    obtain ⟨y, hvy, hye, hdiv⟩ := hclears.exists_mem hlookup
    obtain ⟨pte', l', hlookup', hstart, hend⟩ := h y hvy hye
    obtain rfl : l = l' := by
      rw [lookup_of_div_eq hlookup hdiv] at hlookup'
      exact (Prod.mk.inj (Option.some.inj hlookup')).2
    have hb := T.div_eq_div_iff.mp hdiv.symm
    exact ha b (by omega) (by omega) hab
  · exact hsame

theorem Maps.undone {p : Nat} (hmaps : Maps T limit template level t t' v p e) (hunmaps : Unmaps T level e v t' t'')
    (a : Nat) : lookup T level t'' a = lookup T level t a := by
  by_cases ha : ∃ x, v ≤ x ∧ x < e ∧ a ≡ x [MOD T.size (level + 1)]
  · obtain ⟨x, hvx, hxe, hax⟩ := ha
    rw [hmaps.covered.unmapped hunmaps hvx hxe hax, lookup_modEq hax, hmaps.free x hvx hxe]
  · have ha' : ∀ x, v ≤ x → x < e → ¬ a ≡ x [MOD T.size (level + 1)] :=
      fun x hvx hxe hax => ha ⟨x, hvx, hxe, hax⟩
    rw [hmaps.covered.kept hunmaps ha', hmaps.frame a ha']

/-! ### Tables a run keeps -/

/-- Every table of `t'` below the root is the same in `t`, or is not empty and pruned itself. -/
def Pruned (T : TableMeta P) : Nat → Tree P → Tree P → Prop
  | 0, _, _ => True
  | level + 1, t, t' => ∀ i, pointsToTable (level + 1) (t'.entry i) = true → t'.entry i = t.entry i ∧
      (t'.kid i = t.kid i ∨ (t'.kid i).isEmpty T = false ∧ Pruned T level (t.kid i) (t'.kid i))

theorem Pruned.refl (t : Tree P) : Pruned T level t t := by
  cases level with
  | zero => exact trivial
  | succ level => exact fun i _ => ⟨rfl, Or.inl rfl⟩

theorem Pruned.trans (h₁ : Pruned T level t t₁) (h₂ : Pruned T level t₁ t') : Pruned T level t t' := by
  induction level generalizing t t₁ t' with
  | zero => exact trivial
  | succ level ih =>
    intro i hp
    obtain ⟨hentry₂, hkid₂⟩ := h₂ i hp
    obtain ⟨hentry₁, hkid₁⟩ := h₁ i (hentry₂ ▸ hp)
    refine ⟨hentry₂.trans hentry₁, ?_⟩
    rcases hkid₂ with hsame₂ | ⟨hne, hkid₂⟩
    · rw [hsame₂]
      exact hkid₁
    · right
      rcases hkid₁ with hsame₁ | ⟨-, hkid₁⟩
      · exact ⟨hne, hsame₁ ▸ hkid₂⟩
      · exact ⟨hne, ih hkid₁ hkid₂⟩

theorem Pruned.set (ht : t.IsTable) {pte : P} {k : Tree P}
    (h : pointsToTable (level + 1) pte = true → pte = t.entry i ∧ k.isEmpty T = false ∧ Pruned T level (t.kid i) k) :
    Pruned T (level + 1) t (t.set i pte k) := by
  intro j hp
  rw [Tree.entry_set ht] at hp ⊢
  rw [Tree.kid_set ht]
  by_cases hj : j = i
  · subst hj
    rw [if_pos rfl] at hp ⊢
    rw [if_pos rfl]
    exact ⟨(h hp).1, Or.inr (h hp).2⟩
  · rw [if_neg hj, if_neg hj]
    exact ⟨rfl, Or.inl rfl⟩

theorem isEmpty_of_pointsToTable (hind : ValidIndependent P) (hi : i < T.len)
    (hp : pointsToTable level (t.entry i) = true) : t.isEmpty T = false := by
  rw [← Bool.not_eq_true]
  intro hempty
  have hvalid := (pointsToTable_eq_true.mp hp).2.1
  rw [← hind, (Tree.isEmpty_eq_true T).mp hempty i hi] at hvalid
  exact absurd hvalid (by decide)

variable {log log' : Ledger PhysAddr}

section

variable (hcodec : RoundTrips T limit) (hind : ValidIndependent P)

include hcodec hind

/-- A call that does not report its table as reclaimable has left something in it. The flag is down
only if the table below an earlier entry was kept, and a range that fits into the table does not come
back to that entry. -/
theorem UnmapRun.isEmpty_eq_false {e v : Nat} {flag r : Bool} (h : UnmapRun T level e v flag t log r t' log')
    (ht : WellFormed T limit level t) (hlevel : 0 < level) (hr : r = false)
    (hfits : ∀ x y, v ≤ x → x < e → v ≤ y → y < e → T.slot level x = T.slot level y →
      x / T.size level = y / T.size level)
    (hflag : flag = false → ∃ i < T.len, pointsToTable level (t.entry i) = true ∧
      ∀ y, v ≤ y → y < e → T.slot level y ≠ i) : t'.isEmpty T = false := by
  have hdirs := hcodec.keepsDirectories
  induction h with
  | @done level e v flag t log hv =>
    cases flag with
    | true => simpa using hr
    | false =>
      obtain ⟨i, hi, hp, -⟩ := hflag rfl
      exact isEmpty_of_pointsToTable hind hi hp
  | skip hv _ _ ih =>
    refine ih ht hlevel hr (fun x y hx hxe hy hye => hfits x y (by omega) hxe (by omega) hye) fun hf => ?_
    obtain ⟨i, hi, hp, hlater⟩ := hflag hf
    exact ⟨i, hi, hp, fun y hy hye => hlater y (by omega) hye⟩
  | clear hv _ _ _ ih =>
    refine ih (ht.clear hdirs) hlevel hr (fun x y hx hxe hy hye => hfits x y (by omega) hxe (by omega) hye)
      fun hf => ?_
    obtain ⟨i, hi, hp, hlater⟩ := hflag hf
    refine ⟨i, hi, ?_, fun y hy hye => hlater y (by omega) hye⟩
    rwa [Tree.entry_set (ht.isTable hlevel), if_neg (hlater _ le_rfl hv).symm]
  | @reclaim level e v flag t log k log₁ r t' log' hv hp child _ _ ih =>
    have hlt := T.lt_entryEnd (level + 1) v
    refine ih (ht.clear hdirs) hlevel hr (fun x y hx hxe hy hye => hfits x y (by omega) hxe (by omega) hye)
      fun hf => ?_
    obtain ⟨i, hi, hp, hlater⟩ := hflag hf
    refine ⟨i, hi, ?_, fun y hy hye => hlater y (by omega) hye⟩
    rwa [Tree.entry_set ht.1, if_neg (hlater _ le_rfl hv).symm]
  | @keep level e v flag t log k log₁ r t' log' hv hp child _ _ ih =>
    have hlt := T.lt_entryEnd (level + 1) v
    have hkid := ht.kid (T.slot_lt _ _) hp
    refine ih (ht.setKid (T.slot_lt _ _) hp (child.wellFormed hdirs hkid) child.root_eq) hlevel hr
      (fun x y hx hxe hy hye => hfits x y (by omega) hxe (by omega) hye) fun _ => ?_
    refine ⟨T.slot (level + 1) v, T.slot_lt _ _, by rwa [Tree.entry_setKid], fun y hy hye hslot => ?_⟩
    have := (T.div_eq_div_iff.mp (hfits y v (by omega) hye le_rfl hv hslot)).2
    omega

theorem UnmapRun.pruned {e v : Nat} {flag r : Bool} (h : UnmapRun T level e v flag t log r t' log')
    (ht : WellFormed T limit level t) (hlevel : 0 < level) : Pruned T level t t' := by
  have hdirs := hcodec.keepsDirectories
  -- an entry that is cleared points to no table
  have hclear : ∀ {level} {t : Tree P} {i}, WellFormed T limit level t → 0 < level →
      Pruned T level t (t.set i (fromConfig invalidConfig) .nil) := by
    intro level t i ht hlevel
    obtain ⟨level, rfl⟩ := Nat.exists_eq_add_one.mpr hlevel
    refine Pruned.set ht.1 fun hp => ?_
    rw [hdirs.pointsToTable_invalid] at hp
    exact absurd hp (by decide)
  induction h with
  | done => exact Pruned.refl _
  | skip _ _ _ ih => exact ih ht hlevel
  | clear _ _ _ _ ih | reclaim _ _ _ _ _ ih => exact (hclear ht hlevel).trans (ih (ht.clear hdirs) hlevel)
  | @keep level e v flag t log k log₁ r t' log' hv hp child _ ihchild ih =>
    have hpos := pos_of_pointsToTable hp
    have hkid := ht.kid (T.slot_lt _ _) hp
    have hne : k.isEmpty T = false := by
      refine child.isEmpty_eq_false hcodec hind hkid hpos rfl (fun x y hx hxe hy hye => ?_) (by simp)
      refine T.div_eq_of_slot_eq hpos ?_
      rw [T.div_eq_of_lt_entryEnd hx (by omega), T.div_eq_of_lt_entryEnd hy (by omega)]
    refine (Pruned.set ht.1 fun _ => ⟨rfl, hne, ihchild hkid hpos⟩).trans (ih ?_ hlevel)
    exact ht.setKid (T.slot_lt _ _) hp (child.wellFormed hdirs hkid) child.root_eq

end

/-! ### Tables a run makes -/

/-- The table translates something, and so do the tables below it. -/
def Populated (T : TableMeta P) : Nat → Tree P → Prop
  | 0, _ => False
  | level + 1, t => (∃ a, lookup T (level + 1) t a ≠ none) ∧
      ∀ i, pointsToTable (level + 1) (t.entry i) = true → Populated T level (t.kid i)

/-- `t'` translates what `t` does, and its tables are those of `t` and populated ones below entries
that translated nothing. -/
def Grown (T : TableMeta P) : Nat → Tree P → Tree P → Prop
  | 0, _, _ => True
  | level + 1, t, t' => (∀ a, lookup T (level + 1) t a ≠ none → lookup T (level + 1) t' a ≠ none) ∧
      ∀ i, pointsToTable (level + 1) (t'.entry i) = true →
        t'.entry i = t.entry i ∧ Grown T level (t.kid i) (t'.kid i) ∨
        (∀ a, T.slot (level + 1) a = i → lookup T (level + 1) t a = none) ∧
          Populated T level (t'.kid i)

theorem Grown.refl (t : Tree P) : Grown T level t t := by
  induction level generalizing t with
  | zero => exact trivial
  | succ level ih => exact ⟨fun _ h => h, fun i _ => Or.inl ⟨rfl, ih _⟩⟩

theorem Populated.grown (h : Populated T level t) (hgrown : Grown T level t t') :
    Populated T level t' := by
  induction level generalizing t t' with
  | zero => exact h
  | succ level ih =>
    obtain ⟨⟨a, ha⟩, hkids⟩ := h
    refine ⟨⟨a, hgrown.1 a ha⟩, fun i hp => ?_⟩
    rcases hgrown.2 i hp with ⟨hentry, hkid⟩ | ⟨-, hnew⟩
    · exact ih (hkids i (hentry ▸ hp)) hkid
    · exact hnew

theorem Grown.trans (h₁ : Grown T level t t₁) (h₂ : Grown T level t₁ t') : Grown T level t t' := by
  induction level generalizing t t₁ t' with
  | zero => exact trivial
  | succ level ih =>
    refine ⟨fun a ha => h₂.1 a (h₁.1 a ha), fun i hp => ?_⟩
    rcases h₂.2 i hp with ⟨hentry₂, hkid₂⟩ | ⟨hnone, hnew⟩
    · rcases h₁.2 i (hentry₂ ▸ hp) with ⟨hentry₁, hkid₁⟩ | ⟨hnone, hnew⟩
      · exact Or.inl ⟨hentry₂.trans hentry₁, ih hkid₁ hkid₂⟩
      · exact Or.inr ⟨hnone, hnew.grown hkid₂⟩
    · refine Or.inr ⟨fun a ha => ?_, hnew⟩
      by_contra hne
      exact h₁.1 a hne (hnone a ha)

theorem Grown.set (ht : t.IsTable) {pte : P} {k : Tree P}
    (hmono : ∀ a, T.slot (level + 1) a = i → lookup T (level + 1) t a ≠ none →
      lookup T (level + 1) (t.set i pte k) a ≠ none)
    (h : pointsToTable (level + 1) pte = true →
      pte = t.entry i ∧ Grown T level (t.kid i) k ∨
        (∀ a, T.slot (level + 1) a = i → lookup T (level + 1) t a = none) ∧ Populated T level k) :
    Grown T (level + 1) t (t.set i pte k) := by
  refine ⟨fun a ha => ?_, fun j hp => ?_⟩
  · by_cases hslot : T.slot (level + 1) a = i
    · exact hmono a hslot ha
    · rwa [lookup_set_of_ne ht hslot]
  · rw [Tree.entry_set ht] at hp ⊢
    rw [Tree.kid_set ht]
    by_cases hj : j = i
    · subst hj
      rw [if_pos rfl] at hp ⊢
      rw [if_pos rfl]
      exact h hp
    · rw [if_neg hj, if_neg hj]
      exact Or.inl ⟨rfl, Grown.refl _⟩

theorem Grown.lookup_ne_none (h : Grown T level t t') (ha : lookup T level t a ≠ none) :
    lookup T level t' a ≠ none := by
  cases level with
  | zero => exact absurd rfl ha
  | succ level => exact h.1 a ha

section

variable (hcodec : RoundTrips T limit)

include hcodec

theorem Grown.populated {frame : PhysAddr} (h : Grown T level (Tree.fresh frame) t) {a : Nat}
    (ha : lookup T level t a ≠ none) : Populated T level t := by
  cases level with
  | zero => exact absurd rfl ha
  | succ level =>
    refine ⟨⟨a, ha⟩, fun i hp => ?_⟩
    rcases h.2 i hp with ⟨hentry, -⟩ | ⟨-, hnew⟩
    · rw [hentry, Tree.entry_fresh, pointsToTable, hcodec.keepsDirectories.zeroed, Bool.and_false] at hp
      exact absurd hp (by decide)
    · exact hnew

/-- A run that returns `Ok` makes populated tables only. -/
theorem MapRun.grown (hA : A.Fresh T limit) {e v p : Nat} {r : Except PagingError Unit}
    (h : MapRun T A limit template level e v p t log r t' log') (ht : WellFormed T limit level t)
    (hv : v < e → T.pageSize ∣ v) (hr : r = .ok ()) : Grown T level t t' := by
  have hdirs := hcodec.keepsDirectories
  induction h with
  | done => exact Grown.refl _
  | fail | noMemory | descendFail => simp at hr
  | @place level e v p t log r t' log' hlt hlevel haligned hbelow hfits hfree _ ih =>
    have hlevel := hlevel.imp_right fun h => (⟨h.1, h.2.1⟩ : 1 < level ∧ level ≤ T.maxBlockLevel)
    have hpos : 0 < level := by omega
    have hrest := ih (ht.place hdirs hlevel haligned hbelow hfits)
      (fun _ => Nat.dvd_add (hv hlt) (T.pageSize_dvd_size level)) hr
    have hfinal := hdirs.pointsToTable_final template hlevel haligned hbelow
    obtain ⟨level, rfl⟩ := Nat.exists_eq_add_one.mpr hpos
    refine (Grown.set ht.1 (fun a ha hne => absurd (lookup_invalid ?_) hne) fun hp => ?_).trans hrest
    · rw [ha]
      exact (ht.written hpos _).invalid hcodec hfree
    · rw [hfinal] at hp
      exact absurd hp (by decide)
  | @descend level e v p t log t₁ log₁ k log₂ r t' log' hlt hlevel ready child rest ihchild ih =>
    obtain ⟨ht₁, hp, hkid⟩ := ready.wellFormed hdirs hA hlevel ht
    have hgrown := ihchild hkid (fun _ => hv hlt) rfl
    have hrest := ih (ht₁.setKid (T.slot_lt _ _) hp (child.wellFormed hdirs hA hkid) child.root_eq)
      (fun h => by
        rw [Nat.min_eq_left (by omega)]
        exact T.pageSize_dvd_entryEnd _ _) hr
    refine Grown.trans ?_ hrest
    cases ready with
    | present hdir =>
      refine Grown.set ht.1 (fun a ha hne => ?_) fun _ => Or.inl ⟨rfl, hgrown⟩
      rw [lookup_kid hp ha] at hne
      rw [lookup_set_table ht.1 ha hp]
      exact hgrown.lookup_ne_none hne
    | @created frame hfree halloc =>
      have hnone : ∀ a, T.slot (level + 1) a = T.slot (level + 1) v → lookup T (level + 1) t a = none := by
        intro a ha
        refine lookup_invalid ?_
        rw [ha, decide_eq_true (show 1 < level + 1 by omega), hfree]
      -- the call below maps at least the page at `v`
      have hmapped : lookup T level k v ≠ none := by
        obtain ⟨stop, -, -, hok, hmaps⟩ := child.maps hcodec hA hkid fun _ => hv hlt
        have := T.lt_entryEnd (level + 1) v
        obtain ⟨l, pa, hlookup, -⟩ := hmaps.mapped v le_rfl (by have := hok rfl; omega)
        simp [hlookup]
      rw [Tree.kid_set ht.1, if_pos rfl] at hgrown
      rw [Tree.setKid, Tree.set_set]
      exact Grown.set ht.1 (fun a ha hne => absurd (hnone a ha) hne) fun _ =>
        Or.inr ⟨hnone, hgrown.populated hcodec hmapped⟩

end

/-- A populated table that is kept translates something. -/
theorem Populated.lookup_of_pruned (hind : ValidIndependent P) (h : Populated T level t)
    (hkept : t' = t ∨ t'.isEmpty T = false ∧ Pruned T level t t') :
    ∃ a, lookup T level t' a ≠ none := by
  induction level generalizing t t' with
  | zero => exact h.elim
  | succ level ih =>
    rcases hkept with rfl | ⟨hne, hpruned⟩
    · exact h.1
    · obtain ⟨i, hi, hvalid⟩ : ∃ i < T.len, (toConfig (t'.entry i) false).valid = true := by
        by_contra hnone
        push Not at hnone
        rw [(Tree.isEmpty_eq_true T).mpr fun i hi => (Bool.not_eq_true _).mp (hnone i hi)] at hne
        exact absurd hne (by decide)
      cases hp : pointsToTable (level + 1) (t'.entry i) with
      | true =>
        obtain ⟨hentry, hkid⟩ := hpruned i hp
        obtain ⟨a, ha⟩ := ih (h.2 i (hentry ▸ hp)) hkid
        obtain ⟨b, hb, hab⟩ := T.exists_slot_eq (level + 1) hi a
        refine ⟨b, ?_⟩
        rwa [lookup_kid hp hb, ← lookup_modEq hab]
      | false =>
        obtain ⟨b, hb, -⟩ := T.exists_slot_eq (level + 1) hi 0
        refine ⟨b, ?_⟩
        rw [lookup_final (Nat.succ_pos _) (by rw [hb, hind.eq, hvalid]) (by rw [hb, hp])]
        exact Option.some_ne_none _

theorem frames_subset (hind : ValidIndependent P) (hlevel : 0 < level) (ht : WellFormed T limit level t)
    (ht'' : WellFormed T limit level t'') (hroot : t''.root = t.root) (hgrown : Grown T level t t')
    (hpruned : Pruned T level t' t'') (hlookup : ∀ a, lookup T level t'' a = lookup T level t a) :
    t''.frames ⊆ t.frames := by
  induction level generalizing t t' t'' with
  | zero => exact absurd hlevel (lt_irrefl 0)
  | succ level ih =>
    intro g hg
    rcases Tree.mem_frames_iff.mp hg with hg | ⟨i, hg⟩
    · exact Tree.mem_frames_iff.mpr (Or.inl (hroot ▸ hg))
    · by_cases hp : i < T.len ∧ pointsToTable (level + 1) (t''.entry i) = true
      · obtain ⟨hi, hp⟩ := hp
        obtain ⟨hentry, hkept⟩ := hpruned i hp
        rcases hgrown.2 i (hentry ▸ hp) with ⟨hentry', hkid⟩ | ⟨hnone, hnew⟩
        · have hsame := hentry.trans hentry'
          have hp' : pointsToTable (level + 1) (t.entry i) = true := hsame ▸ hp
          refine Tree.mem_frames_of_kid (ih (pos_of_pointsToTable hp)
            (ht.kid hi hp') (ht''.kid hi hp) ?_ hkid ?_ (fun a => ?_) hg)
          · rw [ht''.kid_root hi hp, ht.kid_root hi hp', hsame]
          · rcases hkept with hsame | ⟨-, hkept⟩
            · exact hsame ▸ Pruned.refl _
            · exact hkept
          · obtain ⟨b, hb, hab⟩ := T.exists_slot_eq (level + 1) hi a
            rw [lookup_modEq hab, lookup_modEq hab, ← lookup_kid hp hb, ← lookup_kid hp' hb, hlookup]
        · -- a new table: it still translates something, which the table before did not
          obtain ⟨a, ha⟩ := hnew.lookup_of_pruned hind hkept
          obtain ⟨b, hb, hab⟩ := T.exists_slot_eq (level + 1) hi a
          rw [lookup_modEq hab, ← lookup_kid hp hb, hlookup, hnone b hb] at ha
          exact absurd rfl ha
      · have hkid := ht''.2.2 i
        rw [if_neg hp] at hkid
        rw [hkid] at hg
        exact hg.elim

/-! ### Calls -/

variable {root : PhysAddr} {m m' : Machine P} {config : MapConfig}

/-- `unmap` returns on accepted ranges whose top-level entries end inside the address space. -/
theorem unmap_returns (root : PhysAddr) {start size : Nat} (hl : T.Addressable T.ptLevel)
    (haccepted : UnmapAccepted T start size) (hend : start + size + T.size T.ptLevel ≤ usizeRange)
    (m : Machine P) : ∃ m', PageTableRef.unmap T root start size m = (.ok (), m') := by
  rcases PageTableRef.unmap_eq T root start size m with ⟨hnot, -⟩ | ⟨-, hrun⟩
  · exact absurd haccepted hnot
  · obtain ⟨r, m', hcall⟩ := unmapRangeRecursive_returns hl root
      { startVaddr := start, endVaddr := start + size, flush := true } hend m
    exact ⟨m', by rw [hrun, Exec.bind_apply_ok hcall, Exec.pure_apply]⟩

/-- `unmap` undoes `map`: it returns `Ok`, every address translates as before the two calls, and no
frame is in use that was not in use before them. -/
theorem unmap_map (hcodec : RoundTrips T limit) (hind : ValidIndependent P) (hA : A.Fresh T limit)
    (hm : Reachable T A limit root m) (hsize : T.pageSize ∣ config.size)
    (hlimit : config.paddr + config.size ≤ limit)
    (hend : config.vaddr + config.size + T.size T.ptLevel ≤ usizeRange)
    (h : PageTableRef.map T A root config m = (.ok (), m')) :
    ∃ m'', PageTableRef.unmap T root config.vaddr config.size m' = (.ok (), m'') ∧
      (∀ a, PageTableRef.translate T m'' root a = PageTableRef.translate T m root a) ∧
      ∀ g, Ledger.Live m''.log g → Ledger.Live m.log g := by
  have hdirs := hcodec.keepsDirectories
  have hscan := hcodec.scanSeesDirectories hind
  obtain ⟨t, ht, hlive⟩ := hm.accounted hdirs hscan hA
  obtain ⟨haccepted, t', ht', hmap⟩ := map_run hcodec hA ht hlimit h
  have hmaps := hmap.maps_range hcodec hA ht.wellFormed haccepted.vaddr_aligned
    (Nat.dvd_add haccepted.vaddr_aligned hsize) (Nat.lt_add_of_pos_right haccepted.size_pos)
  obtain ⟨m'', hok⟩ := unmap_returns root (map_addressable haccepted h trivial)
    ⟨haccepted.size_pos, haccepted.vaddr_aligned, hsize, haccepted.vaddr_fits⟩ hend m'
  obtain ⟨t'', ht'', hlive''⟩ :=
    (Reachable.unmap (.map hm hlimit h trivial) hok trivial).accounted hdirs hscan hA
  obtain ⟨r, t₂, ht₂, hunmap⟩ := unmap_run hcodec ht' hok
  obtain rfl : t₂ = t'' := ht₂.represents.table.symm.trans ht''.represents.table
  have hlookup := hmaps.undone (hunmap.unmaps hcodec hind ht'.wellFormed T.ptLevel_pos)
  refine ⟨m'', hok, fun a => ht.translate_congr ht'' (hlookup a), fun g hg => ?_⟩
  refine (hlive g).mpr (frames_subset hind T.ptLevel_pos ht.wellFormed ht''.wellFormed ?_
    (hmap.grown hcodec hA ht.wellFormed (fun _ => haccepted.vaddr_aligned) rfl)
    (hunmap.pruned hcodec hind ht'.wellFormed T.ptLevel_pos) hlookup ((hlive'' g).mp hg))
  rw [hunmap.root_eq, hmap.root_eq]

/-- A 4 KiB page of an x86_64 table: the three tables made for it are given back. -/
theorem unmap_map_x86 :
    ∃ m'', PageTableRef.unmap X86.generic X86.root X86.page.vaddr X86.page.size
        (X86.mapped X86.page X86.start) = (.ok (), m'') ∧
      (∀ a, PageTableRef.translate X86.generic m'' X86.root a =
        PageTableRef.translate X86.generic X86.start X86.root a) ∧
      ∀ g, Ledger.Live m''.log g → Ledger.Live X86.start.log g := by
  have hok : PageTableRef.map X86.generic X86.bump X86.root X86.page X86.start =
      (.ok (), X86.mapped X86.page X86.start) := X86.map_eq (by decide +kernel)
  exact unmap_map X86.roundTrips X86.validIndependent X86.bump_fresh X86.reachable_start
    (show X86.generic.pageSize ∣ 0x1000 by decide) (by decide) (by decide +kernel) hok

end Sparreal.Paging
