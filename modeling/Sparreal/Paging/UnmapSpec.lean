import Sparreal.Paging.Translate
import Sparreal.Arch.X86

/-!
# What unmapping does to translation

The loop of `unmap_range_recursive` goes from entry to entry. It steps over an invalid or a final
entry by the size of the entry, so it keeps the offset of its start inside the entries, and goes to the
beginning of the next entry after a table it has descended into. `reachedAt` is where it stands when it
reaches the entry of an address; an entry reached at or after the end of the range is not treated, and
a table is entered at that position, not at its beginning. `Clears` follows an address down the tree on
these terms, on the table before the call.

A run unmaps exactly the addresses it `Clears` and leaves all other translations as they are
(`UnmapRun.unmaps`).
-/

namespace Sparreal.Paging

variable {P : Type} [PageTableEntry P]

/-- Where the loop that started at `v` stands when it reaches the entry of `a`. -/
def reachedAt (T : TableMeta P) (level : Nat) (t : Tree P) (v a : Nat) : Nat :=
  if ∃ j < a / T.size level,
      v / T.size level ≤ j ∧ pointsToTable level (t.entry (j % T.len)) = true then
    a / T.size level * T.size level
  else v + (a / T.size level - v / T.size level) * T.size level

/-- The loop from `v` to `e` on the level-`level` table `t` gets to the final entry of `a`. -/
def Clears (T : TableMeta P) : Nat → Tree P → Nat → Nat → Nat → Prop
  | 0, _, _, _, _ => False
  | level + 1, t, v, e, a =>
    v / T.size (level + 1) ≤ a / T.size (level + 1) ∧ reachedAt T (level + 1) t v a < e ∧
      (pointsToTable (level + 1) (t.entry (T.slot (level + 1) a)) = true →
        Clears T level (t.kid (T.slot (level + 1) a)) (reachedAt T (level + 1) t v a)
          (min (T.entryEnd (level + 1) a) e) a)

variable {T : TableMeta P} {limit level : Nat} {t t₁ t' : Tree P}

/-! ### Where the loop reaches an entry -/

variable {v a e v₁ : Nat}

theorem reachedAt_of_div_eq (h : a / T.size level = v / T.size level) :
    reachedAt T level t v a = v := by
  rw [reachedAt, if_neg, h, Nat.sub_self, Nat.zero_mul, Nat.add_zero]
  rintro ⟨j, hj, hvj, -⟩
  omega

theorem reachedAt_of_dvd (hv : T.size level ∣ v) (h : v / T.size level ≤ a / T.size level) :
    reachedAt T level t v a = a / T.size level * T.size level := by
  rw [reachedAt]
  split_ifs
  · rfl
  · have := Nat.div_mul_cancel hv
    rw [Nat.sub_mul, this]
    have := Nat.mul_le_mul_right (T.size level) h
    omega

theorem reachedAt_div (h : v / T.size level ≤ a / T.size level) :
    reachedAt T level t v a / T.size level = a / T.size level := by
  have hpos := T.size_pos level
  rw [reachedAt]
  split_ifs
  · exact Nat.mul_div_cancel _ hpos
  · rw [Nat.add_mul_div_right _ _ hpos]
    omega

theorem le_reachedAt (h : v / T.size level ≤ a / T.size level) :
    v ≤ reachedAt T level t v a := by
  rw [reachedAt]
  split_ifs with hdir
  · obtain ⟨j, hj, hvj, -⟩ := hdir
    have hlt := T.lt_entryEnd level v
    have := Nat.mul_le_mul_right (T.size level) (show v / T.size level + 1 ≤ a / T.size level by omega)
    rw [TableMeta.entryEnd] at hlt
    omega
  · exact Nat.le_add_right _ _

theorem reachedAt_of_pointsToTable (hp : pointsToTable level (t.entry (T.slot level v)) = true)
    (h : v / T.size level < a / T.size level) :
    reachedAt T level t v a = a / T.size level * T.size level :=
  if_pos ⟨v / T.size level, h, le_rfl, hp⟩

theorem reachedAt_add (hp : pointsToTable level (t.entry (T.slot level v)) = false)
    (hsame : ∀ i, pointsToTable level (t₁.entry i) = pointsToTable level (t.entry i))
    (h : v / T.size level < a / T.size level) :
    reachedAt T level t₁ (v + T.size level) a = reachedAt T level t v a := by
  have hdiv : (v + T.size level) / T.size level = v / T.size level + 1 :=
    Nat.add_div_right _ (T.size_pos level)
  have hiff : (∃ j < a / T.size level,
      v / T.size level + 1 ≤ j ∧ pointsToTable level (t.entry (j % T.len)) = true) ↔
      ∃ j < a / T.size level,
        v / T.size level ≤ j ∧ pointsToTable level (t.entry (j % T.len)) = true := by
    constructor
    · rintro ⟨j, hj, hvj, hjp⟩
      exact ⟨j, hj, by omega, hjp⟩
    · rintro ⟨j, hj, hvj, hjp⟩
      refine ⟨j, hj, ?_, hjp⟩
      by_contra hlt
      obtain rfl : j = v / T.size level := by omega
      rw [TableMeta.slot] at hp
      rw [hp] at hjp
      exact absurd hjp (by decide)
  rw [reachedAt, reachedAt, hdiv]
  simp only [hsame, hiff]
  split_ifs
  · rfl
  · obtain ⟨d, hd⟩ : ∃ d, a / T.size level = v / T.size level + 1 + d := ⟨_, (Nat.add_sub_of_le h).symm⟩
    rw [hd, Nat.add_sub_cancel_left, Nat.add_assoc (v / _), Nat.add_sub_cancel_left, Nat.add_mul]
    omega

/-! ### The addresses a loop gets to -/

theorem Clears.div_le (h : Clears T level t v e a) (hlevel : 0 < level) :
    v / T.size level ≤ a / T.size level ∧ a / T.size level * T.size level < e := by
  obtain ⟨level, rfl⟩ := Nat.exists_eq_add_one.mpr hlevel
  obtain ⟨hle, hlt, -⟩ := h
  refine ⟨hle, lt_of_le_of_lt ?_ hlt⟩
  rw [← reachedAt_div hle (t := t)]
  exact Nat.div_mul_le_self _ _

theorem Clears.div_eq_of_le (h : Clears T level t v e a) (hlevel : 0 < level) (he : e ≤ T.entryEnd (level + 1) v) :
    a / T.size (level + 1) = v / T.size (level + 1) := by
  obtain ⟨hle, hlt⟩ := h.div_le hlevel
  have hlow := T.floor_le_floor (show level ≤ level + 1 by omega) v
  have hmul := Nat.mul_le_mul_right (T.size level) hle
  have hdown := Nat.div_mul_le_self a (T.size level)
  refine T.div_eq_div_iff.mpr ⟨by omega, ?_⟩
  -- the entry of `a` on the level below begins before the end of the entry, so it ends by it
  obtain ⟨d, hd⟩ := (T.size_dvd_size (Nat.le_succ level)).trans (T.dvd_entryEnd (level + 1) v)
  have ha := T.lt_entryEnd level a
  rw [hd, Nat.mul_comm] at he
  have hlt' : a / T.size level < d := Nat.lt_of_mul_lt_mul_right (lt_of_lt_of_le hlt he)
  have := Nat.mul_le_mul_right (T.size level) hlt'
  rw [hd, Nat.mul_comm]
  rw [TableMeta.entryEnd] at ha
  exact lt_of_lt_of_le ha this

/-- From the beginning of an entry on, a loop gets to the final entry of an address iff that entry
begins before the end of the range. -/
theorem clears_iff_of_dvd {pte : P} {l : Nat} (hv : T.size level ∣ v) (hlookup : lookup T level t a = some (pte, l)) :
    Clears T level t v e a ↔ v / T.size level ≤ a / T.size level ∧ a / T.size l * T.size l < e := by
  induction level generalizing t v e with
  | zero => simp [lookup] at hlookup
  | succ level ih =>
    rw [Clears]
    refine and_congr_right fun hle => ?_
    rw [reachedAt_of_dvd hv hle]
    rw [lookup_succ] at hlookup
    split_ifs at hlookup with hvalid hp
    · have hpos := pos_of_pointsToTable hp
      have hbase : T.size level ∣ a / T.size (level + 1) * T.size (level + 1) :=
        (T.size_dvd_size (Nat.le_succ level)).mul_left _
      have hl := lookup_level hlookup
      have hdown : a / T.size (level + 1) * T.size (level + 1) ≤ a / T.size l * T.size l :=
        T.floor_le_floor (by omega) a
      have hup : a / T.size l * T.size l < T.entryEnd (level + 1) a :=
        lt_of_le_of_lt (Nat.div_mul_le_self _ _) (T.lt_entryEnd _ _)
      rw [ih hbase hlookup]
      constructor
      · rintro ⟨-, h⟩
        exact lt_of_lt_of_le (h hp).2 (Nat.min_le_right _ _)
      · intro h
        refine ⟨by omega, fun _ => ⟨Nat.div_le_div_right (Nat.div_mul_le_self _ _), ?_⟩⟩
        exact lt_min hup h
    · simp only [Option.some.injEq, Prod.mk.injEq] at hlookup
      obtain ⟨-, rfl⟩ := hlookup
      exact ⟨fun h => h.1, fun h => ⟨h, fun hp' => absurd hp' hp⟩⟩

theorem Clears.exists_mem {pte : P} {l : Nat} (h : Clears T level t v e a)
    (hlookup : lookup T level t a = some (pte, l)) :
    ∃ y, v ≤ y ∧ y < e ∧ y / T.size l = a / T.size l := by
  induction level generalizing t v e with
  | zero => simp [lookup] at hlookup
  | succ level ih =>
    obtain ⟨hle, hlt, hkid⟩ := h
    have hv := le_reachedAt (t := t) hle
    rw [lookup_succ] at hlookup
    split_ifs at hlookup with hvalid hp
    · obtain ⟨y, hvy, hye, hy⟩ := ih (hkid hp) hlookup
      exact ⟨y, by omega, by omega, hy⟩
    · simp only [Option.some.injEq, Prod.mk.injEq] at hlookup
      obtain ⟨-, rfl⟩ := hlookup
      exact ⟨_, hv, hlt, reachedAt_div hle⟩

theorem not_clears_of_le (hv : e ≤ v) : ¬ Clears T level t v e a := by
  cases level with
  | zero => exact fun h => h
  | succ level =>
    rintro ⟨hle, hlt, -⟩
    have := le_reachedAt (t := t) hle
    omega

/-! ### Runs -/

/-- `t'` is `t` without the final entries a loop from `v` to `e` gets to. -/
structure Unmaps (T : TableMeta P) (level e v : Nat) (t t' : Tree P) : Prop where
  cases : ∀ a, lookup T level t' a = none ∨ lookup T level t' a = lookup T level t a
  none_iff : ∀ a, lookup T level t a ≠ none →
    (lookup T level t' a = none ↔ ∃ b, a ≡ b [MOD T.size (level + 1)] ∧ Clears T level t v e b)

/-- `t₁` is `t` after one iteration of the loop, from `v` to `v₁`: the entry of `v` has been treated,
and what the loop gets to from `v₁` on is what it would have got to afterwards. -/
structure UnmapsEntry (T : TableMeta P) (level e v v₁ : Nat) (t t₁ : Tree P) : Prop where
  cases : ∀ a, lookup T level t₁ a = none ∨ lookup T level t₁ a = lookup T level t a
  none_iff : ∀ a, lookup T level t a ≠ none →
    (lookup T level t₁ a = none ↔ ∃ b, a ≡ b [MOD T.size (level + 1)] ∧
      b / T.size level = v / T.size level ∧ Clears T level t v e b)
  later : ∀ b, lookup T level t b ≠ none → lookup T level t₁ b = lookup T level t b →
    (Clears T level t₁ v₁ e b ↔ v / T.size level < b / T.size level ∧ Clears T level t v e b)

theorem Unmaps.refl (hv : e ≤ v) : Unmaps T level e v t t where
  cases _ := Or.inr rfl
  none_iff _ ha := ⟨fun h => absurd h ha, fun ⟨_, _, hb⟩ => absurd hb (not_clears_of_le hv)⟩

theorem UnmapsEntry.trans (hlevel : 0 < level) (h : UnmapsEntry T level e v v₁ t t₁) (h' : Unmaps T level e v₁ t₁ t') :
    Unmaps T level e v t t' where
  cases a := by
    rcases h'.cases a with hnone | hsame
    · exact Or.inl hnone
    · rw [hsame]
      exact h.cases a
  none_iff a ha := by
    rcases h.cases a with hnone | hsame
    · obtain ⟨b, hab, -, hb⟩ := (h.none_iff a ha).mp hnone
      refine ⟨fun _ => ⟨b, hab, hb⟩, fun _ => ?_⟩
      rcases h'.cases a with hnone' | hsame'
      · exact hnone'
      · rw [hsame', hnone]
    · rw [h'.none_iff a (by rwa [hsame])]
      -- the addresses congruent to `a` are translated like `a` before and after the iteration
      have hb : ∀ b, a ≡ b [MOD T.size (level + 1)] →
          lookup T level t b ≠ none ∧ lookup T level t₁ b = lookup T level t b := by
        intro b hab
        rw [← lookup_modEq hab, ← lookup_modEq hab]
        exact ⟨ha, hsame⟩
      constructor
      · rintro ⟨b, hab, hclears⟩
        exact ⟨b, hab, ((h.later b (hb b hab).1 (hb b hab).2).mp hclears).2⟩
      · rintro ⟨b, hab, hclears⟩
        refine ⟨b, hab, (h.later b (hb b hab).1 (hb b hab).2).mpr ⟨?_, hclears⟩⟩
        refine lt_of_le_of_ne (hclears.div_le hlevel).1 fun hdiv => ?_
        have hnone := (h.none_iff a ha).mpr ⟨b, hab, hdiv.symm, hclears⟩
        exact ha (hsame ▸ hnone)

theorem clears_congr {b : Nat} (hv : v / T.size level ≤ b / T.size level) (hv₁ : v₁ / T.size level ≤ b / T.size level)
    (hreach : reachedAt T level t₁ v₁ b = reachedAt T level t v b)
    (hentry : t₁.entry (T.slot level b) = t.entry (T.slot level b))
    (hkid : t₁.kid (T.slot level b) = t.kid (T.slot level b)) :
    Clears T level t₁ v₁ e b ↔ Clears T level t v e b := by
  cases level with
  | zero => exact Iff.rfl
  | succ level =>
    rw [Clears, Clears, hreach, hentry, hkid]
    exact ⟨fun h => ⟨hv, h.2⟩, fun h => ⟨hv₁, h.2⟩⟩

theorem clears_step_iff {b : Nat} (hp : pointsToTable level (t.entry (T.slot level v)) = false)
    (hsame : ∀ i, pointsToTable level (t₁.entry i) = pointsToTable level (t.entry i))
    (hentry : t₁.entry (T.slot level b) = t.entry (T.slot level b))
    (hkid : t₁.kid (T.slot level b) = t.kid (T.slot level b))
    (hv₁ : v₁ = v + T.size level ∨ e ≤ v₁ ∧ v₁ ≤ v + T.size level) (hlevel : 0 < level) :
    Clears T level t₁ v₁ e b ↔ v / T.size level < b / T.size level ∧ Clears T level t v e b := by
  have hdiv : (v + T.size level) / T.size level = v / T.size level + 1 :=
    Nat.add_div_right _ (T.size_pos level)
  have hnext : v / T.size level < b / T.size level →
      (Clears T level t₁ (v + T.size level) e b ↔ Clears T level t v e b) := fun hlt =>
    clears_congr (by omega) (by omega) (reachedAt_add hp hsame hlt) hentry hkid
  rcases hv₁ with rfl | ⟨hle, hle'⟩
  · constructor
    · intro h
      have hlt : v / T.size level < b / T.size level := by
        have := (h.div_le hlevel).1
        omega
      exact ⟨hlt, (hnext hlt).mp h⟩
    · rintro ⟨hlt, h⟩
      exact (hnext hlt).mpr h
  · -- the loop is over; before, it was at least one entry away from `b`
    refine ⟨fun h => absurd h (not_clears_of_le hle), ?_⟩
    rintro ⟨hlt, h⟩
    exact absurd ((hnext hlt).mpr h) (not_clears_of_le (by omega))

theorem pointsToTable_of_invalid {pte : P}
    (h : (toConfig pte (decide (1 < level))).valid = false) : pointsToTable level pte = false := by
  by_contra hp
  obtain ⟨hlevel, hvalid, -⟩ := pointsToTable_eq_true.mp ((Bool.not_eq_false _).mp hp)
  rw [decide_eq_true hlevel, hvalid] at h
  exact absurd h (by decide)

theorem lookup_of_isEmpty (hind : ValidIndependent P) (h : t.isEmpty T = true) (a : Nat) :
    lookup T level t a = none := by
  refine lookup_invalid ?_
  rw [hind.eq]
  exact (Tree.isEmpty_eq_true T).mp h (T.slot level a) (T.slot_lt _ _)

theorem UnmapsEntry.skip (hlevel : 0 < level) (hv : v < e)
    (hinvalid : (toConfig (t.entry (T.slot level v)) (decide (1 < level))).valid = false) :
    UnmapsEntry T level e v (v + min (T.size level) (e - v)) t t where
  cases _ := Or.inr rfl
  none_iff a ha := by
    refine ⟨fun h => absurd h ha, ?_⟩
    rintro ⟨b, hab, hdiv, -⟩
    refine absurd (lookup_invalid ?_) ha
    rwa [T.slot_modEq hlevel hab, T.slot_eq_of_div_eq hdiv]
  later b _ _ :=
    clears_step_iff (pointsToTable_of_invalid hinvalid) (fun _ => rfl) rfl rfl (by omega) hlevel

section

variable (hcodec : RoundTrips T limit)

include hcodec

variable {v e : Nat}

theorem UnmapsEntry.clear (hlevel : 0 < level) (hv : v < e) (ht : t.IsTable)
    (hfinal : pointsToTable level (t.entry (T.slot level v)) = false) :
    UnmapsEntry T level e v (v + T.size level) t
      (t.set (T.slot level v) (fromConfig invalidConfig) .nil) where
  cases a := by
    by_cases ha : T.slot level a = T.slot level v
    · exact Or.inl (lookup_set_invalid ht ha (hcodec.invalid _))
    · exact Or.inr (lookup_set_of_ne ht ha _ _)
  none_iff a ha := by
    constructor
    · intro h
      have hslot : T.slot level a = T.slot level v := by
        by_contra hslot
        rw [lookup_set_of_ne ht hslot] at h
        exact ha h
      obtain ⟨b, hab, hdiv⟩ := T.exists_modEq_div_eq hlevel hslot
      refine ⟨b, hab, hdiv, ?_⟩
      obtain ⟨level, rfl⟩ := Nat.exists_eq_add_one.mpr hlevel
      refine ⟨hdiv.ge, by rwa [reachedAt_of_div_eq hdiv], fun hp => ?_⟩
      rw [T.slot_eq_of_div_eq hdiv, hfinal] at hp
      exact absurd hp (by decide)
    · rintro ⟨b, hab, hdiv, -⟩
      refine lookup_set_invalid ht ?_ (hcodec.invalid _)
      rw [T.slot_modEq hlevel hab, T.slot_eq_of_div_eq hdiv]
  later b hb hsame := by
    have hslot : T.slot level b ≠ T.slot level v := by
      intro hslot
      rw [lookup_set_invalid ht hslot (hcodec.invalid _)] at hsame
      exact hb hsame.symm
    refine clears_step_iff hfinal (fun i => ?_) ?_ ?_ (Or.inl rfl) hlevel
    · rw [Tree.entry_set ht]
      split_ifs with hi
      · rw [hi, hfinal]
        exact hcodec.keepsDirectories.pointsToTable_invalid level
      · rfl
    · rw [Tree.entry_set ht, if_neg hslot]
    · rw [Tree.kid_set ht, if_neg hslot]

omit hcodec

section Descend

/-! The table below an entry is treated: the entry and the table below it become `pte` and `k'`, which look up what the
call on the table below has left. -/

variable {pte : P} {k k' : Tree P} (ht : t.IsTable)
  (hp : pointsToTable (level + 1) (t.entry (T.slot (level + 1) v)) = true)
  (hk : ∀ a, T.slot (level + 1) a = T.slot (level + 1) v →
    lookup T (level + 1) (t.set (T.slot (level + 1) v) pte k') a = lookup T level k a)
  (hpte : pointsToTable (level + 1) pte = true ∧ k' = k ∨ ∀ a, lookup T level k a = none)

include ht hp hk hpte

theorem clears_set_iff {v₁ b : Nat}
    (hsame : lookup T (level + 1) (t.set (T.slot (level + 1) v) pte k') b = lookup T (level + 1) t b)
    (hb : lookup T (level + 1) t b ≠ none)
    (hreach₁ : reachedAt T (level + 1) (t.set (T.slot (level + 1) v) pte k') v₁ b =
      b / T.size (level + 1) * T.size (level + 1))
    (hreach : reachedAt T (level + 1) t v b = b / T.size (level + 1) * T.size (level + 1))
    (hv₁ : v₁ / T.size (level + 1) ≤ b / T.size (level + 1)) (hv : v / T.size (level + 1) ≤ b / T.size (level + 1)) :
    Clears T (level + 1) (t.set (T.slot (level + 1) v) pte k') v₁ e b ↔
      Clears T (level + 1) t v e b := by
  by_cases hslot : T.slot (level + 1) b = T.slot (level + 1) v
  · rcases hpte with ⟨hpte, rfl⟩ | hnone
    · obtain ⟨⟨found, l⟩, hlookup⟩ := Option.ne_none_iff_exists'.mp hb
      have hkid : lookup T level (t.kid (T.slot (level + 1) v)) b = some (found, l) := by
        rw [← lookup_kid hp hslot, hlookup]
      have hkid' : lookup T level k' b = some (found, l) := by rw [← hk b hslot, hsame, hlookup]
      have hbase : T.size level ∣ b / T.size (level + 1) * T.size (level + 1) :=
        (T.size_dvd_size (Nat.le_succ level)).mul_left _
      rw [Clears, Clears, hreach₁, hreach, Tree.entry_set ht, Tree.kid_set ht, hslot, if_pos rfl,
        if_pos rfl, clears_iff_of_dvd hbase hkid, clears_iff_of_dvd hbase hkid']
      simp only [hp, hpte, hv, hv₁]
    · rw [hk b hslot, hnone] at hsame
      exact absurd hsame.symm hb
  · refine clears_congr hv hv₁ (hreach₁.trans hreach.symm) ?_ ?_
    · rw [Tree.entry_set ht, if_neg hslot]
    · rw [Tree.kid_set ht, if_neg hslot]

theorem UnmapsEntry.descend (hv : v < e) (hlevel : 0 < level)
    (hchild : Unmaps T level (min (T.entryEnd (level + 1) v) e) v (t.kid (T.slot (level + 1) v)) k) :
    UnmapsEntry T (level + 1) e v (min (T.entryEnd (level + 1) v) e) t
      (t.set (T.slot (level + 1) v) pte k') where
  cases a := by
    by_cases ha : T.slot (level + 1) a = T.slot (level + 1) v
    · rw [hk a ha, lookup_kid hp ha]
      exact hchild.cases a
    · exact Or.inr (lookup_set_of_ne ht ha _ _)
  none_iff a ha := by
    by_cases hslot : T.slot (level + 1) a = T.slot (level + 1) v
    · rw [lookup_kid hp hslot] at ha
      rw [hk a hslot, hchild.none_iff a ha]
      constructor
      · rintro ⟨b, hab, hclears⟩
        -- the call below stays inside the entry
        have hdiv : b / T.size (level + 1) = v / T.size (level + 1) :=
          hclears.div_eq_of_le hlevel (Nat.min_le_left _ _)
        refine ⟨b, (T.modEq_size_succ (Nat.succ_pos _)).mpr
          ⟨hab, hslot.trans (T.slot_eq_of_div_eq hdiv).symm⟩, hdiv, hdiv.ge, ?_, fun _ => ?_⟩
        · rwa [reachedAt_of_div_eq hdiv]
        · rw [reachedAt_of_div_eq hdiv, T.slot_eq_of_div_eq hdiv, T.entryEnd_congr hdiv]
          exact hclears
      · rintro ⟨b, hab, hdiv, -, -, hclears⟩
        rw [reachedAt_of_div_eq hdiv, T.slot_eq_of_div_eq hdiv, T.entryEnd_congr hdiv] at hclears
        exact ⟨b, T.modEq_size_mono (Nat.le_succ _) hab, hclears hp⟩
    · rw [lookup_set_of_ne ht hslot]
      refine ⟨fun h => absurd h ha, ?_⟩
      rintro ⟨b, hab, hdiv, -⟩
      exact absurd ((T.slot_modEq (Nat.succ_pos _) hab).trans (T.slot_eq_of_div_eq hdiv)) hslot
  later b hb hsame := by
    have hafter : v / T.size (level + 1) < b / T.size (level + 1) →
        reachedAt T (level + 1) t v b = b / T.size (level + 1) * T.size (level + 1) :=
      reachedAt_of_pointsToTable hp
    by_cases hend : T.entryEnd (level + 1) v < e
    · have hdiv : T.entryEnd (level + 1) v / T.size (level + 1) = v / T.size (level + 1) + 1 :=
        Nat.mul_div_cancel _ (T.size_pos _)
      rw [Nat.min_eq_left (by omega)]
      have hiff := fun hlt => clears_set_iff (e := e) ht hp hk hpte hsame hb
        (reachedAt_of_dvd (T.dvd_entryEnd (level + 1) v) (hdiv.trans_le hlt)) (hafter hlt)
        (hdiv.trans_le hlt) (Nat.le_of_lt hlt)
      constructor
      · intro h
        have hlt : v / T.size (level + 1) < b / T.size (level + 1) := by
          have := (h.div_le (Nat.succ_pos _)).1
          omega
        exact ⟨hlt, (hiff hlt).mp h⟩
      · rintro ⟨hlt, h⟩
        exact (hiff hlt).mpr h
    · rw [Nat.min_eq_right (by omega)]
      refine ⟨fun h => absurd h (not_clears_of_le le_rfl), ?_⟩
      rintro ⟨hlt, -, hreach, -⟩
      have := Nat.mul_le_mul_right (T.size (level + 1)) (show v / T.size (level + 1) + 1 ≤ _ from hlt)
      rw [hafter hlt] at hreach
      rw [TableMeta.entryEnd] at hend
      omega

end Descend

include hcodec

theorem UnmapRun.unmaps (hind : ValidIndependent P) {flag r : Bool} {log log' : Ledger PhysAddr}
    (h : UnmapRun T level e v flag t log r t' log') (ht : WellFormed T limit level t) (hlevel : 0 < level) :
    Unmaps T level e v t t' := by
  induction h with
  | done hle => exact Unmaps.refl hle
  | skip hv hinvalid _ ih => exact (UnmapsEntry.skip hlevel hv hinvalid).trans hlevel (ih ht hlevel)
  | clear hv _ hfinal _ ih =>
    exact (UnmapsEntry.clear hcodec hlevel hv (ht.isTable hlevel) hfinal).trans hlevel
      (ih (ht.clear hcodec.keepsDirectories) hlevel)
  | @reclaim level e v flag t log k log₁ r t' log' hv hp child _ ihchild ih =>
    have hpos := pos_of_pointsToTable hp
    have hnone : ∀ a, lookup T level k a = none := fun a => lookup_of_isEmpty hind (child.isEmpty rfl) a
    refine (UnmapsEntry.descend ht.1 hp ?_ (.inr hnone) hv hpos
      (ihchild (ht.kid (T.slot_lt _ _) hp) hpos)).trans hlevel (ih (ht.clear hcodec.keepsDirectories) hlevel)
    exact fun a ha => (lookup_set_invalid ht.1 ha (hcodec.invalid _)).trans (hnone a).symm
  | @keep level e v flag t log k log₁ r t' log' hv hp child _ ihchild ih =>
    have hpos := pos_of_pointsToTable hp
    have hkid := ht.kid (T.slot_lt _ _) hp
    have hentry := UnmapsEntry.descend ht.1 hp (fun a ha => lookup_setKid ht.1 hp ha) (.inl ⟨hp, rfl⟩) hv hpos
      (ihchild hkid hpos)
    exact hentry.trans hlevel (ih (ht.setKid (T.slot_lt _ _) hp
      (child.wellFormed hcodec.keepsDirectories hkid) child.root_eq) hlevel)

/-! ### Calls of `unmap` -/

variable {A : FrameAllocator} {root : PhysAddr} {m m' : Machine P} {start size : Nat}

theorem unmap_run (hm : Holds T limit root m t)
    (h : PageTableRef.unmap T root start size m = (.ok (), m')) :
    ∃ r t', Holds T limit root m' t' ∧
      UnmapRun T T.ptLevel (start + size) start true t m.log r t' m'.log := by
  rcases unmap_refines hcodec.keepsDirectories (r := .ok ()) h hm with
    ⟨_, hr, -⟩ | ⟨-, -, r, t', hrun, ht', -⟩
  · simp at hr
  · exact ⟨r, t', ht', hrun⟩

theorem unmap_unmaps (hind : ValidIndependent P) (hm : Holds T limit root m t)
    (h : PageTableRef.unmap T root start size m = (.ok (), m')) :
    ∃ t', Holds T limit root m' t' ∧ Unmaps T T.ptLevel (start + size) start t t' := by
  obtain ⟨r, t', ht', hrun⟩ := unmap_run hcodec hm h
  exact ⟨t', ht', hrun.unmaps hcodec hind hm.wellFormed T.ptLevel_pos⟩

/-- `unmap` is complete iff the loop gets to every mapped address of the range. -/
theorem unmap_complete_iff (hind : ValidIndependent P) (hA : A.Fresh T limit)
    (hm : Reachable T A limit root m)
    (h : PageTableRef.unmap T root start size m = (.ok (), m')) :
    (∀ a, start ≤ a → a < start + size → PageTableRef.isMapped T m' root a = false) ↔
      ∀ a, start ≤ a → a < start + size → PageTableRef.isMapped T m root a = true →
        ∃ b, a ≡ b [MOD 2 ^ T.ptValidBits] ∧
          Clears T T.ptLevel (tableAt T m.mem T.ptLevel root) start (start + size) b := by
  obtain ⟨t, ht⟩ := hm.holds hcodec.keepsDirectories hA
  obtain ⟨t', ht', hunmaps⟩ := unmap_unmaps hcodec hind ht h
  have hl := unmap_addressable h
  rw [← T.size_ptLevel_succ, ht.represents.table]
  refine forall_congr' fun a => forall_congr' fun _ => forall_congr' fun _ => ?_
  rw [← Bool.not_eq_true, ht'.isMapped_iff hcodec hl, ht.isMapped_iff hcodec hl, not_not]
  by_cases ha : lookup T T.ptLevel t a = none
  · refine ⟨fun _ hne => absurd ha hne, fun _ => ?_⟩
    rcases hunmaps.cases a with hnone | hsame
    · exact hnone
    · rw [hsame, ha]
  · rw [hunmaps.none_iff a ha]
    exact ⟨fun hb _ => hb, fun hb => hb ha⟩

omit hcodec in
/-- A 4 KiB page of an x86_64 table, unmapped on its own. -/
theorem unmap_complete_iff_x86 :
    (∀ a, 0x200000 ≤ a → a < 0x200000 + 0x1000 → PageTableRef.isMapped X86.generic
        (X86.unmapped 0x200000 0x1000 (X86.mapped X86.page X86.start)) X86.root a = false) ↔
      ∀ a, 0x200000 ≤ a → a < 0x200000 + 0x1000 → PageTableRef.isMapped X86.generic
          (X86.mapped X86.page X86.start) X86.root a = true →
        ∃ b, a ≡ b [MOD 2 ^ X86.generic.ptValidBits] ∧
          Clears X86.generic X86.generic.ptLevel
            (tableAt X86.generic (X86.mapped X86.page X86.start).mem X86.generic.ptLevel X86.root)
            0x200000 (0x200000 + 0x1000) b := by
  have hok : PageTableRef.unmap X86.generic X86.root 0x200000 0x1000 (X86.mapped X86.page X86.start) =
      (.ok (), X86.unmapped 0x200000 0x1000 (X86.mapped X86.page X86.start)) :=
    X86.unmap_eq (by decide +kernel)
  exact unmap_complete_iff X86.roundTrips X86.validIndependent X86.bump_fresh X86.reachable_page hok

omit hcodec in
/-- The range starts in the middle of an invalid 2 MiB entry. The loop steps over it by 2 MiB, which is
past the end of the range, and the page at the beginning of the next entry stays mapped. -/
theorem unmap_misses_page :
    (PageTableRef.unmap X86.generic X86.root 0x100000 0x101000 (X86.mapped X86.page X86.start)).1 =
        .ok () ∧
      PageTableRef.isMapped X86.generic
        (X86.unmapped 0x100000 0x101000 (X86.mapped X86.page X86.start)) X86.root 0x200000 = true := by
  decide +kernel

/-- An address keeps its translation if the page that maps it, of whatever size, contains no address
of the range modulo the index space. -/
theorem unmap_keeps (hind : ValidIndependent P) (hA : A.Fresh T limit) (hm : Reachable T A limit root m)
    (h : PageTableRef.unmap T root start size m = (.ok (), m')) {a : Nat} {pte : P}
    (hfound : Frame.translateRecursiveWithLevel T m.mem T.ptLevel root a = .ok (pte, level))
    (houtside : ∀ b y, a ≡ b [MOD 2 ^ T.ptValidBits] → start ≤ y → y < start + size →
      y / T.size level ≠ b / T.size level) :
    PageTableRef.translate T m' root a = PageTableRef.translate T m root a := by
  obtain ⟨t, ht⟩ := hm.holds hcodec.keepsDirectories hA
  obtain ⟨t', ht', hunmaps⟩ := unmap_unmaps hcodec hind ht h
  have hl := unmap_addressable h
  rw [translateRecursiveWithLevel_eq hl, ht.lookup_eq] at hfound
  have hlookup : lookup T T.ptLevel t a = some (pte, level) := by
    rcases hcases : lookup T T.ptLevel t a with _ | r
    · rw [hcases] at hfound
      simp at hfound
    · rw [hcases] at hfound
      exact congrArg some (Except.ok.inj hfound)
  refine ht.translate_congr ht' ((hunmaps.cases a).resolve_left fun hnone => ?_)
  obtain ⟨b, hab, hclears⟩ := (hunmaps.none_iff a (by simp [hlookup])).mp hnone
  rw [lookup_modEq hab] at hlookup
  obtain ⟨y, hy, hy', hdiv⟩ := hclears.exists_mem hlookup
  rw [T.size_ptLevel_succ] at hab
  exact houtside b y hab hy hy' hdiv

end

/-- A 4 KiB page of an x86_64 table next to one that is unmapped. -/
theorem unmap_keeps_x86 :
    PageTableRef.translate X86.generic (X86.unmapped 0x201000 0x1000 (X86.mapped X86.page X86.start))
        X86.root 0x200000 =
      PageTableRef.translate X86.generic (X86.mapped X86.page X86.start) X86.root 0x200000 := by
  have hok : PageTableRef.unmap X86.generic X86.root 0x201000 0x1000 (X86.mapped X86.page X86.start) =
      (.ok (), X86.unmapped 0x201000 0x1000 (X86.mapped X86.page X86.start)) :=
    X86.unmap_eq (by decide +kernel)
  have hfound : Frame.translateRecursiveWithLevel X86.generic (X86.mapped X86.page X86.start).mem
      X86.generic.ptLevel X86.root 0x200000 = .ok (⟨9223372036854796323⟩, 1) := by
    decide +kernel
  refine unmap_keeps X86.roundTrips X86.validIndependent X86.bump_fresh X86.reachable_page hok hfound ?_
  intro b y hab hy hy'
  have hsize : X86.generic.size 1 = 0x1000 := by decide
  have hbits : 2 ^ X86.generic.ptValidBits = 0x1000000000000 := by decide
  rw [hsize]
  rw [hbits, Nat.ModEq] at hab
  omega

/-- Unmapping 4 KiB of a 2 MiB page takes the rest of it away. -/
theorem unmap_takes_huge_page :
    (PageTableRef.unmap X86.generic X86.root 0x200000 0x1000
        (X86.mapped X86.hugePage X86.start)).1 = .ok () ∧
      PageTableRef.isMapped X86.generic (X86.mapped X86.hugePage X86.start) X86.root 0x201000 = true ∧
      PageTableRef.isMapped X86.generic
        (X86.unmapped 0x200000 0x1000 (X86.mapped X86.hugePage X86.start)) X86.root 0x201000 = false := by
  decide +kernel

end Sparreal.Paging
