import Sparreal.Lib.Align
import Sparreal.Paging.MapSpec

/-!
# Where `map` uses huge pages

A huge page of a level fits around an address if the range has the whole block of that level and the block
begins at a physical address that is a multiple of its size. `map` places huge pages only where they fit
(`MapRun.fitsBlock`), and with `allow_huge` the address then translates through an entry of that level or a
higher one (`map_huge`).
-/

namespace Sparreal.Paging

variable {P : Type} {T : TableMeta P} {A : FrameAllocator} {limit level : Nat}

/-- The block of level `k` around `x` is in the range from `v` to `e`, and begins at a physical address that
is a multiple of its size. -/
structure FitsBlock (T : TableMeta P) (e v p k x : Nat) : Prop where
  start : v ≤ x / T.size k * T.size k
  stop : T.entryEnd k x ≤ e
  aligned : T.size k ∣ p + (x / T.size k * T.size k - v)

namespace FitsBlock

variable {e v p k x : Nat}

theorem le (h : FitsBlock T e v p k x) : v ≤ x := h.start.trans (Nat.div_mul_le_self _ _)

theorem lt (h : FitsBlock T e v p k x) : x < e := (T.lt_entryEnd k x).trans_le h.stop

theorem next (h : FitsBlock T e v p k x) {v' : Nat} (hvv' : v ≤ v') (hdvd : T.size k ∣ v') (hx : v' ≤ x) :
    FitsBlock T e v' (p + (v' - v)) k x := by
  have hstart := (Align.le_block_iff (T.size_pos k) hdvd).mpr hx
  refine ⟨hstart, h.stop, ?_⟩
  rw [show p + (v' - v) + (x / T.size k * T.size k - v') = p + (x / T.size k * T.size k - v) by omega]
  exact h.aligned

theorem prev {v' p' : Nat} (h : FitsBlock T e v' p' k x) (hvv' : v ≤ v') (hp' : p' = p + (v' - v)) :
    FitsBlock T e v p k x := by
  have hstart := h.start
  have haligned := h.aligned
  rw [show p' + (x / T.size k * T.size k - v') = p + (x / T.size k * T.size k - v) by omega] at haligned
  exact ⟨by omega, h.stop, haligned⟩

theorem mono {l : Nat} (h : FitsBlock T e v p l x) (hkl : k ≤ l) : FitsBlock T e v p k x := by
  have hstart := h.start
  have hfloor := T.floor_le_floor hkl x
  refine ⟨hstart.trans hfloor, (T.entryEnd_le_entryEnd hkl x).trans h.stop, ?_⟩
  have hsub : T.size k ∣ x / T.size k * T.size k - x / T.size l * T.size l :=
    Nat.dvd_sub (Nat.dvd_mul_left _ _) ((T.size_dvd_size hkl).mul_left _)
  have hsum := Nat.dvd_add ((T.size_dvd_size hkl).trans h.aligned) hsub
  rwa [show p + (x / T.size l * T.size l - v) + (x / T.size k * T.size k - x / T.size l * T.size l) =
    p + (x / T.size k * T.size k - v) by omega] at hsum

theorem congr {y : Nat} (h : FitsBlock T e v p k x) (hdiv : x / T.size k = y / T.size k) :
    FitsBlock T e v p k y := by
  obtain ⟨hstart, hstop, haligned⟩ := h
  rw [hdiv] at hstart haligned
  rw [T.entryEnd_congr hdiv] at hstop
  exact ⟨hstart, hstop, haligned⟩

end FitsBlock

variable [PageTableEntry P] {t t' : Tree P}

/-- The address translates through an entry of level `k` or a higher one. -/
def HugeAt (T : TableMeta P) (level : Nat) (t : Tree P) (k x : Nat) : Prop :=
  ∃ pte l, lookup T level t x = some (pte, l) ∧ k ≤ l

/-- A call that returns `Ok` leaves huge pages wherever they fit. -/
def MapHuge (T : TableMeta P) (limit level : Nat) (call : PhysAddr → MapRecursiveConfig → Run P Unit) : Prop :=
  ∀ {frame c m t m' t'}, OnPage T limit c.endVaddr c.startVaddr c.startPaddr → c.endVaddr ≤ usizeMax →
    c.allowHuge = true → Represents T level frame m t → WellFormed T limit level t →
    call frame c m = (.ok (), m') → Represents T level frame m' t' →
    ∀ {k x}, 1 < k → k ≤ level → k ≤ T.maxBlockLevel →
      FitsBlock T c.endVaddr c.startVaddr c.startPaddr k x → HugeAt T level t' k x

/-! ### Huge pages fit -/

section Fits

variable (hcodec : RoundTrips T limit) (hA : A.Fresh T limit)

include hcodec hA

variable {e v p x l : Nat}

omit hcodec hA in
theorem fitsBlock_of_kid {t₁ kid : Tree P} {pte : P} (ht₁ : t₁.IsTable)
    (hp : pointsToTable (level + 1) (t₁.entry (T.slot (level + 1) v)) = true)
    (hnone : lookup T (level + 1) t₁ x = none)
    (hlookup : lookup T (level + 1) (t₁.setKid (T.slot (level + 1) v) kid) x = some (pte, l))
    (hkid : lookup T level (t₁.kid (T.slot (level + 1) v)) x = none → lookup T level kid x = some (pte, l) →
      ∃ y, x ≡ y [MOD T.size (level + 1)] ∧ FitsBlock T (min (T.entryEnd (level + 1) v) e) v p l y) :
    ∃ y, x ≡ y [MOD T.size (level + 1 + 1)] ∧ FitsBlock T e v p l y := by
  by_cases hslot : T.slot (level + 1) x = T.slot (level + 1) v
  · obtain ⟨y, hxy, hy⟩ := hkid ((lookup_kid hp hslot).symm.trans hnone)
      ((lookup_setKid ht₁ hp hslot).symm.trans hlookup)
    have hlt : y < T.entryEnd (level + 1) v := hy.lt.trans_le (min_le_left _ _)
    have hyslot := T.slot_eq_of_div_eq (T.div_eq_of_lt_entryEnd hy.le hlt)
    refine ⟨y, (T.modEq_size_succ (Nat.succ_pos _)).mpr ⟨hxy, hslot.trans hyslot.symm⟩, hy.start, ?_, hy.aligned⟩
    exact hy.stop.trans (min_le_right _ _)
  · rw [lookup_setKid_of_ne ht₁ hslot, hnone] at hlookup
    exact absurd hlookup.symm (Option.some_ne_none _)

theorem MapRun.lookup_eq {template : PteConfig} {log log' : Ledger PhysAddr} {r : Except PagingError Unit} {pte : P}
    (h : MapRun T A limit template level e v p t log r t' log') (ht : WellFormed T limit level t)
    (hv : v < e → T.pageSize ∣ v) (hlookup : lookup T level t x = some (pte, l)) :
    lookup T level t' x = some (pte, l) := by
  obtain ⟨stop, -, -, -, hmaps⟩ := h.maps hcodec hA ht hv
  refine (hmaps.frame x fun y hvy hys hxy => ?_).trans hlookup
  have hfree := hmaps.free y hvy hys
  rw [← lookup_modEq hxy, hlookup] at hfree
  exact Option.some_ne_none _ hfree

theorem MapRun.fitsBlock {template : PteConfig} {log log' : Ledger PhysAddr} {r : Except PagingError Unit} {pte : P}
    (h : MapRun T A limit template level e v p t log r t' log') (ht : WellFormed T limit level t)
    (hv : v < e → T.pageSize ∣ v) (hnone : lookup T level t x = none) (hlookup : lookup T level t' x = some (pte, l))
    (hl : 1 < l) : ∃ y, x ≡ y [MOD T.size (level + 1)] ∧ FitsBlock T e v p l y := by
  have hdirs := hcodec.keepsDirectories
  have hsame {t : Tree P} {level : Nat} (h₁ : lookup T level t x = none)
      (h₂ : lookup T level t x = some (pte, l)) : False := by
    rw [h₁] at h₂
    exact Option.some_ne_none _ h₂.symm
  induction h with
  | done | fail | noMemory => exact (hsame hnone hlookup).elim
  | @place level e v p t log r t' log' hlt hlevel haligned hbelow hfits hfree rest ih =>
    have hlevel' := hlevel.imp_right fun h => (⟨h.1, h.2.1⟩ : 1 < level ∧ level ≤ T.maxBlockLevel)
    have hpos : 0 < level := by omega
    have hwf := @WellFormed.place _ _ _ _ _ _ template hdirs (T.slot level v) ht p hlevel' haligned hbelow hfits
    have hnext : v + T.size level < e → T.pageSize ∣ v + T.size level :=
      fun _ => Nat.dvd_add (hv hlt) (T.pageSize_dvd_size level)
    by_cases hslot : T.slot level x = T.slot level v
    · -- the entry just placed
      have hfinal := lookup_set_final (k := .nil) (ht.isTable hpos) hslot hpos
        (hcodec.valid_final template hlevel' haligned hbelow)
        (hdirs.pointsToTable_final template hlevel' haligned hbelow)
      obtain ⟨-, rfl⟩ := Prod.mk.inj (Option.some.inj
        ((rest.lookup_eq hcodec hA hwf hnext hfinal).symm.trans hlookup))
      obtain ⟨-, -, hsize, hpsize, hroom⟩ := hlevel.resolve_left (by omega)
      obtain ⟨y, hxy, hdiv⟩ := T.exists_modEq_div_eq hpos hslot
      have hfloor : y / T.size level * T.size level = v := by rw [hdiv, Nat.div_mul_cancel hsize]
      refine ⟨y, hxy, hfloor.ge, ?_, ?_⟩
      · rw [T.entryEnd_congr hdiv, T.entryEnd_of_dvd hsize]
        omega
      · rwa [hfloor, Nat.sub_self]
    · obtain ⟨y, hxy, hy⟩ := ih hwf hnext ((lookup_set_of_ne (ht.isTable hpos) hslot _ _).trans hnone) hlookup
      exact ⟨y, hxy, hy.prev (Nat.le_add_right _ _) (by rw [Nat.add_sub_cancel_left])⟩
  | @descend level e v p t log t₁ log₁ k log₂ r t' log' hlt hlevel ready child rest ihchild ih =>
    obtain ⟨ht₁, hp, hkid⟩ := ready.wellFormed hdirs hA hlevel ht
    have hwf := ht₁.setKid (T.slot_lt _ _) hp (child.wellFormed hdirs hA hkid) child.root_eq
    have hnone₁ := (ready.lookup_eq hcodec hA hlevel ht.1 x).trans hnone
    have hend := T.lt_entryEnd (level + 1) v
    have hnext : min (T.entryEnd (level + 1) v) e < e → T.pageSize ∣ min (T.entryEnd (level + 1) v) e := by
      intro hlt
      rw [Nat.min_eq_left (by omega)]
      exact T.pageSize_dvd_entryEnd _ _
    rcases hmid : lookup T (level + 1) (t₁.setKid (T.slot (level + 1) v) k) x with _ | ⟨pte', l'⟩
    · obtain ⟨y, hxy, hy⟩ := ih hwf hnext hmid hlookup
      exact ⟨y, hxy, hy.prev (by omega) rfl⟩
    · obtain ⟨rfl, rfl⟩ := Prod.mk.inj (Option.some.inj
        ((rest.lookup_eq hcodec hA hwf hnext hmid).symm.trans hlookup))
      exact fitsBlock_of_kid ht₁.1 hp hnone₁ hmid fun h₁ h₂ => ihchild hkid (fun _ => hv hlt) h₁ h₂
  | @descendFail level e v p t log t₁ log₁ k log₂ error hlt hlevel ready child ihchild =>
    obtain ⟨ht₁, hp, hkid⟩ := ready.wellFormed hdirs hA hlevel ht
    exact fitsBlock_of_kid ht₁.1 hp ((ready.lookup_eq hcodec hA hlevel ht.1 x).trans hnone) hlookup
      fun h₁ h₂ => ihchild hkid (fun _ => hv hlt) h₁ h₂

end Fits

/-! ### Huge pages are used -/

section Step

variable {child : PhysAddr → MapRecursiveConfig → Run P Unit} {frame : PhysAddr} {c : MapRecursiveConfig}
  {m m' : Machine P} {v p v' p' k x : Nat}

theorem mapStep_boundary (hdeep : 1 < level) (he : c.endVaddr ≤ usizeMax) (hv : v < c.endVaddr)
    (hv' : v' < c.endVaddr)
    (h : Frame.mapStep T A child level frame c (v, p) m = (.ok (v', p'), m')) :
    T.size level ∣ v' ∧ p' = p + (v' - v) := by
  rcases (Frame.mapStep_ok h).2 with ⟨hplace, -, rfl, rfl, -⟩ | ⟨-, -, new, m₁, -, -, hnext, rfl⟩
  · obtain ⟨-, -, hdvd, -⟩ := hplace.resolve_left (by omega)
    exact ⟨Nat.dvd_add hdvd dvd_rfl, by omega⟩
  · have hend : v' = min (T.entryEnd level v) c.endVaddr := hnext.trans (Frame.childConfig_endVaddr T level p he hv)
    rw [show v' = T.entryEnd level v by omega]
    exact ⟨T.dvd_entryEnd _ _, rfl⟩

variable (hcodec : RoundTrips T limit) (hA : A.Fresh T limit)

include hcodec hA

theorem mapStep_huge (hchild : 0 < level → MapHuge T limit level child)
    (hrefines : MapRefines T A limit level child) (he : c.endVaddr ≤ usizeMax) (hallow : c.allowHuge = true)
    (hrep : Represents T (level + 1) frame m t) (ht : WellFormed T limit (level + 1) t)
    (hpage : OnPage T limit c.endVaddr v p) (hv : v < c.endVaddr)
    (h : Frame.mapStep T A child (level + 1) frame c (v, p) m = (.ok (v', p'), m'))
    (hrep' : Represents T (level + 1) frame m' t') (hk : 1 < k) (hlevel : k ≤ level + 1)
    (hblock : k ≤ T.maxBlockLevel) (hfits : FitsBlock T c.endVaddr v p k x) (hx : x < v') :
    HugeAt T (level + 1) t' k x := by
  have hdirs := hcodec.keepsDirectories
  obtain ⟨hpv, hpp, hle⟩ := hpage hv
  have hvx := hfits.le
  obtain ⟨hl, hcases⟩ := Frame.mapStep_ok h
  rcases hcases with ⟨hplace, hput, rfl, rfl, -⟩ | ⟨hdeep, hnot, new, m₁, hnew, hcall, rfl, rfl⟩
  · -- the entry placed is the whole block of the level
    have hsize : T.size (level + 1) ∣ v := (hplace.resolve_left (by omega)).2.2.1
    have hdiv : x / T.size (level + 1) = v / T.size (level + 1) :=
      T.div_eq_of_lt_entryEnd hvx (by rw [T.entryEnd_of_dvd hsize]; omega)
    have hplace' := hplace.imp_right fun h => (⟨h.1, h.2.1⟩ : 1 < level + 1 ∧ level + 1 ≤ T.maxBlockLevel)
    obtain ⟨-, -, hrep₂, -⟩ := placeEntry_refines hdirs hrep hpage hv hplace' hput
    obtain rfl := hrep₂.table.symm.trans hrep'.table
    exact ⟨_, level + 1, lookup_set_final ht.1 (T.slot_eq_of_div_eq hdiv) (Nat.succ_pos _)
      (hcodec.valid_final _ hplace' hpp (by omega)) (hdirs.pointsToTable_final _ hplace' hpp (by omega)), hlevel⟩
  · have hnext := Frame.childConfig_endVaddr T (level + 1) p he hv
    obtain ⟨t₁, kid, hready, hp, hrepkid, -, hrepkid', hrep₂, -⟩ :=
      child_refines hdirs hA hrefines hrep hpage he hv (r := .ok ()) hdeep hnew hcall
    obtain rfl := hrep₂.table.symm.trans hrep'.table
    rw [hnext] at hx
    have hpos : 0 < level := by omega
    have hdiv : x / T.size (level + 1) = v / T.size (level + 1) := T.div_eq_of_lt_entryEnd hvx (by omega)
    have hslot := T.slot_eq_of_div_eq hdiv
    obtain ⟨ht₁, -, hwfkid⟩ := hready.wellFormed hdirs hA hpos ht
    rcases hlevel.eq_or_lt with rfl | hlt
    · -- the block of this level fits, so the iteration has not gone below
      obtain ⟨hstart, hstop, haligned⟩ := hfits.congr hdiv
      have heq : v / T.size (level + 1) * T.size (level + 1) = v :=
        le_antisymm (Nat.div_mul_le_self v _) hstart
      have hsize : T.size (level + 1) ∣ v := Dvd.intro_left _ heq
      rw [heq, Nat.sub_self] at haligned
      rw [T.entryEnd_of_dvd hsize] at hstop
      have hcan := (Frame.canUseHuge_eq_true (p := p) hl).mpr ⟨hallow, hk, hblock, by omega, hsize, haligned⟩
      exact absurd (hnot.symm.trans hcan) Bool.false_ne_true
    · have hkid : HugeAt T level kid k x := by
        refine hchild hpos (c := Frame.childConfig T (level + 1) c v p) (by rw [hnext]; exact hpage.child hv _)
          (by rw [hnext]; omega) hallow hrepkid hwfkid hcall hrepkid' hk (by omega)
          hblock ⟨hfits.start, ?_, hfits.aligned⟩
        have hinner := T.entryEnd_le_entryEnd hlt.le x
        rw [T.entryEnd_congr hdiv] at hinner
        rw [hnext]
        exact le_min hinner hfits.stop
      obtain ⟨pte, l, hlookup, hkl⟩ := hkid
      exact ⟨pte, l, (lookup_setKid ht₁.1 hp hslot).trans hlookup, hkl⟩

theorem mapLoop_huge (hchild : 0 < level → MapHuge T limit level child)
    (hrefines : MapRefines T A limit level child) (he : c.endVaddr ≤ usizeMax) (hallow : c.allowHuge = true)
    {fuel : Nat} {cursor cursor' : Nat × Nat}
    (h : Frame.mapLoop T A child (level + 1) frame c fuel cursor m = (.ok cursor', m')) (t : Tree P)
    (hrep : Represents T (level + 1) frame m t) (ht : WellFormed T limit (level + 1) t)
    (hpage : OnPage T limit c.endVaddr cursor.1 cursor.2) :
    ∃ t', MapRun T A limit c.pteTemplate (level + 1) c.endVaddr cursor.1 cursor.2 t m.log (.ok ()) t' m'.log ∧
      Represents T (level + 1) frame m' t' ∧
      ∀ {k x}, 1 < k → k ≤ level + 1 → k ≤ T.maxBlockLevel →
        FitsBlock T c.endVaddr cursor.1 cursor.2 k x → HugeAt T (level + 1) t' k x := by
  revert t hpage
  refine Exec.loop_ok_elim h ?_ ?_
  · intro hcond t hrep _ _
    have hend : c.endVaddr ≤ cursor'.1 := by simpa using hcond
    refine ⟨t, .done hend, hrep, fun _ _ _ hfits => ?_⟩
    have := hfits.le
    have := hfits.lt
    omega
  · rintro ⟨v, p⟩ m ⟨v', p'⟩ m₁ hcond hstep ih t hrep ht hpage
    have hv : v < c.endVaddr := by simpa using hcond
    obtain ⟨hpage', hlt, t₁, hrep₁, -, hrun⟩ :=
      mapStep_run hcodec.keepsDirectories hA hrefines hrep hpage he hv hstep
    have ht₁ := (hrun (.inr rfl) (.done le_rfl)).wellFormed hcodec.keepsDirectories hA ht
    obtain ⟨t', hrest, hrep', hhuge⟩ := ih t₁ hrep₁ ht₁ hpage'
    refine ⟨t', hrun (.inl rfl) hrest, hrep', fun {k x} hk hlevel hblock hfits => ?_⟩
    have hfits : FitsBlock T c.endVaddr v p k x := hfits
    have hxe := hfits.lt
    rcases lt_or_ge x v' with hx | hx
    · -- the rest of the loop maps free addresses only
      obtain ⟨pte, l, hlookup, hkl⟩ := mapStep_huge hcodec hA hchild hrefines he hallow hrep ht hpage hv hstep
        hrep₁ hk hlevel hblock hfits hx
      exact ⟨pte, l, hrest.lookup_eq hcodec hA ht₁ (fun h => (hpage' h).1) hlookup, hkl⟩
    · obtain ⟨hdvd, rfl⟩ := mapStep_boundary (by omega) he hv (by omega) hstep
      exact hhuge hk hlevel hblock (hfits.next hlt.le ((T.size_dvd_size hlevel).trans hdvd) hx)

end Step

section Calls

variable (hcodec : RoundTrips T limit) (hA : A.Fresh T limit)

include hcodec hA

theorem mapRangeRecursive_huge (level : Nat) : MapHuge T limit level (Frame.mapRangeRecursive T A level) := by
  induction level with
  | zero =>
    intro frame c m t m' t' _ _ _ _ _ _ _ k x hk hlevel
    omega
  | succ level ih =>
    intro frame c m t m' t' hpage he hallow hrep ht h hrep'
    obtain ⟨cursor, m₁, hloop, hpure⟩ := Exec.bind_eq_ok.mp h
    obtain rfl : m₁ = m' := congrArg Prod.snd hpure
    obtain ⟨t₁, -, hrep₁, hhuge⟩ := mapLoop_huge hcodec hA (fun _ => ih)
      (mapRangeRecursive_refines hcodec.keepsDirectories hA level) he hallow hloop t hrep ht hpage
    obtain rfl : t₁ = t' := hrep₁.table.symm.trans hrep'.table
    exact fun hk hlevel hblock hfits => hhuge hk hlevel hblock hfits

/-- A call of `map` that returns `Ok` leaves huge pages wherever they fit. -/
theorem map_huge {root : PhysAddr} {m m' : Machine P} {config : MapConfig} (hm : Holds T limit root m t)
    (hm' : Holds T limit root m' t') (hlimit : config.paddr + config.size ≤ limit)
    (hallow : config.allowHuge = true) (h : PageTableRef.map T A root config m = (.ok (), m')) {k x : Nat}
    (hk : 1 < k) (hlevel : k ≤ T.ptLevel) (hblock : k ≤ T.maxBlockLevel)
    (hfits : FitsBlock T (config.vaddr + config.size) config.vaddr config.paddr k x) :
    HugeAt T T.ptLevel t' k x := by
  rcases PageTableRef.map_eq T A root config m with ⟨-, error, herror⟩ | ⟨haccepted, hrun⟩
  · rw [herror] at h
    simp at h
  · rw [hrun] at h
    refine mapRangeRecursive_huge hcodec hA T.ptLevel (c := PageTableRef.rootConfig config) (fun _ => ?_)
      haccepted.vaddr_fits hallow hm.represents hm.wellFormed h hm'.represents hk hlevel hblock hfits
    exact ⟨haccepted.vaddr_aligned, haccepted.paddr_aligned, by
      change config.paddr + (config.vaddr + config.size - config.vaddr) ≤ limit
      omega⟩

end Calls

end Sparreal.Paging
