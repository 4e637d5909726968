import Sparreal.Paging.Translate
import Sparreal.Arch.X86

/-!
# What mapping does to translation

`Maps` says that a run has turned a stretch `[v, stop)` of virtual addresses that translated nowhere
into a mapping onto the physical addresses from `p` on, and changed nothing else. A table sees
addresses modulo its span only, so "else" means: not congruent to an address of the stretch.

Stretches compose (`Maps.trans`), and a stretch of the table below one entry is a stretch of the table
(`Maps.lift`). Every run of `map_range_recursive` maps a stretch; the whole range if it returns `Ok`, a
page-aligned part from its start on if it returns an error (`MapRun.maps`).
-/

namespace Sparreal.Paging

variable {P : Type} [PageTableEntry P] {T : TableMeta P} {A : FrameAllocator} {limit level : Nat}
  {t t₁ t' : Tree P} {template : PteConfig}

/-- `x` translates through a final entry of the template, which lies in the stretch `[v, stop)` whole
and maps it onto the addresses from `p` on. -/
def MappedAt (T : TableMeta P) (limit : Nat) (template : PteConfig) (level : Nat) (t : Tree P)
    (v p stop x : Nat) : Prop :=
  ∃ l pa, lookup T level t x = some (fromConfig (template.final l pa), l) ∧
    Encodable T limit l (template.final l pa) ∧ pa + x % T.size l = p + (x - v) ∧
    v ≤ x / T.size l * T.size l ∧ T.entryEnd l x ≤ stop

/-- `t'` is `t` with the free stretch `[v, stop)` mapped onto the addresses from `p` on. -/
structure Maps (T : TableMeta P) (limit : Nat) (template : PteConfig) (level : Nat) (t t' : Tree P)
    (v p stop : Nat) : Prop where
  free : ∀ x, v ≤ x → x < stop → lookup T level t x = none
  mapped : ∀ x, v ≤ x → x < stop → MappedAt T limit template level t' v p stop x
  frame : ∀ a, (∀ x, v ≤ x → x < stop → ¬ a ≡ x [MOD T.size (level + 1)]) →
    lookup T level t' a = lookup T level t a

namespace Maps

theorem refl (v p : Nat) : Maps T limit template level t t v p v where
  free x hle hlt := by omega
  mapped x hle hlt := by omega
  frame _ _ := rfl

variable {v p : Nat}

theorem congr_left {t₀ : Tree P} {stop : Nat} (h : Maps T limit template level t t' v p stop)
    (heq : ∀ a, lookup T level t a = lookup T level t₀ a) :
    Maps T limit template level t₀ t' v p stop where
  free x hle hlt := (heq x).symm.trans (h.free x hle hlt)
  mapped := h.mapped
  frame a ha := (h.frame a ha).trans (heq a)

theorem trans {w stop : Nat} (h₁ : Maps T limit template level t t₁ v p w)
    (h₂ : Maps T limit template level t₁ t' w (p + (w - v)) stop) (hvw : v ≤ w) (hws : w ≤ stop) :
    Maps T limit template level t t' v p stop := by
  -- the second stretch was free when the first was mapped, so no address is in both
  have hapart : ∀ x y, v ≤ x → x < w → w ≤ y → y < stop → ¬ x ≡ y [MOD T.size (level + 1)] := by
    intro x y hvx hxw hwy hys hxy
    obtain ⟨l, pa, hlookup, -⟩ := h₁.mapped x hvx hxw
    have hnone := h₂.free y hwy hys
    rw [← lookup_modEq hxy, hlookup] at hnone
    exact absurd hnone (by simp)
  refine ⟨fun x hle hlt => ?_, fun x hle hlt => ?_, fun a ha => ?_⟩
  · by_cases hxw : x < w
    · exact h₁.free x hle hxw
    · rw [← h₂.free x (by omega) hlt]
      exact (h₁.frame x fun y hvy hyw hxy => hapart y x hvy hyw (by omega) hlt hxy.symm).symm
  · by_cases hxw : x < w
    · obtain ⟨l, pa, hlookup, henc, hoff, hstart, hend⟩ := h₁.mapped x hle hxw
      refine ⟨l, pa, ?_, henc, hoff, hstart, by omega⟩
      rw [h₂.frame x fun y hwy hys => hapart x y hle hxw hwy hys, hlookup]
    · obtain ⟨l, pa, hlookup, henc, hoff, hstart, hend⟩ := h₂.mapped x (by omega) hlt
      exact ⟨l, pa, hlookup, henc, by omega, by omega, hend⟩
  · rw [h₂.frame a fun x hwx hxs => ha x (by omega) hxs,
      h₁.frame a fun x hvx hxw => ha x hvx (by omega)]

/-- A stretch of the table below an entry, inside the addresses of that entry. -/
theorem lift {k : Tree P} {stop : Nat} (ht : t.IsTable)
    (hp : pointsToTable (level + 1) (t.entry (T.slot (level + 1) v)) = true)
    (h : Maps T limit template level (t.kid (T.slot (level + 1) v)) k v p stop)
    (hstop : stop ≤ T.entryEnd (level + 1) v) :
    Maps T limit template (level + 1) t (t.setKid (T.slot (level + 1) v) k) v p stop := by
  have hslot : ∀ x, v ≤ x → x < stop → T.slot (level + 1) x = T.slot (level + 1) v :=
    fun x hle hlt => T.slot_eq_of_div_eq (T.div_eq_of_lt_entryEnd hle (by omega))
  refine ⟨fun x hle hlt => ?_, fun x hle hlt => ?_, fun a ha => ?_⟩
  · have hx := hslot x hle hlt
    rw [lookup_kid hp hx]
    exact h.free x hle hlt
  · obtain ⟨l, pa, hlookup, hrest⟩ := h.mapped x hle hlt
    exact ⟨l, pa, (lookup_setKid ht hp (hslot x hle hlt)).trans hlookup, hrest⟩
  · by_cases ha' : T.slot (level + 1) a = T.slot (level + 1) v
    · rw [lookup_setKid ht hp ha', lookup_kid hp ha']
      refine h.frame a fun x hle hlt hax => ha x hle hlt ?_
      exact (T.modEq_size_succ (Nat.succ_pos _)).mpr ⟨hax, ha'.trans (hslot x hle hlt).symm⟩
    · exact lookup_setKid_of_ne ht ha'

end Maps

section

variable (hcodec : RoundTrips T limit)

include hcodec

variable {v p e : Nat} {log' : Ledger PhysAddr} {r : Except PagingError Unit}

theorem Maps.place (template : PteConfig) (ht : WellFormed T limit level t)
    (hlevel : level = 1 ∨ 1 < level ∧ level ≤ T.maxBlockLevel) (hv : T.size level ∣ v) (haligned : T.pageSize ∣ p)
    (hbelow : p < limit) (hfree : PageTableEntry.valid (t.entry (T.slot level v)) = false) :
    Maps T limit template level t
      (t.set (T.slot level v) (fromConfig (template.final level p)) .nil) v p (v + T.size level) := by
  have hpos : 0 < level := by omega
  have hspan : T.entryEnd level v = v + T.size level := T.entryEnd_of_dvd hv
  have hdiv : ∀ x, v ≤ x → x < v + T.size level → x / T.size level = v / T.size level :=
    fun x hle hlt => T.div_eq_of_lt_entryEnd hle (by omega)
  have hbase : v / T.size level * T.size level = v := Nat.div_mul_cancel hv
  refine ⟨fun x hle hlt => ?_, fun x hle hlt => ?_, fun a ha => ?_⟩
  · refine lookup_invalid ?_
    rw [T.slot_eq_of_div_eq (hdiv x hle hlt)]
    exact (ht.written hpos _).invalid hcodec hfree
  · refine ⟨level, p, lookup_set_final (ht.isTable hpos) (T.slot_eq_of_div_eq (hdiv x hle hlt)) hpos
      (hcodec.valid_final template hlevel haligned hbelow)
      (hcodec.keepsDirectories.pointsToTable_final template hlevel haligned hbelow),
      encodable_final template hlevel haligned hbelow, ?_, ?_, ?_⟩
    · have := Nat.div_add_mod' x (T.size level)
      rw [hdiv x hle hlt, hbase] at this
      omega
    · rw [hdiv x hle hlt, hbase]
    · rw [T.entryEnd_congr (hdiv x hle hlt), hspan]
  · -- every address of the slot is an alias of one of the entry
    refine lookup_set_of_ne (ht.isTable hpos) (fun hslot => ?_) _ _
    obtain ⟨b, hab, hb⟩ := T.exists_modEq_div_eq hpos hslot
    rw [T.div_eq_div_iff, hbase, hspan] at hb
    exact ha b hb.1 hb.2 hab

variable {log : Ledger PhysAddr}

omit hcodec in
theorem MapRun.eq_of_le (h : MapRun T A limit template level e v p t log r t' log') (hv : e ≤ v) : t' = t := by
  cases h with
  | done | fail | noMemory => rfl
  | place hlt | descend hlt | descendFail hlt => omega

omit [PageTableEntry P] hcodec in
theorem stop_le_entryEnd {mid : Nat}
    (hmid : mid = v ∨ T.pageSize ∣ mid ∧ mid < min (T.entryEnd (level + 1) v) e + T.pageSize) :
    mid ≤ T.entryEnd (level + 1) v := by
  have := T.lt_entryEnd (level + 1) v
  rcases hmid with rfl | ⟨hdvd, hmid⟩
  · omega
  · exact T.le_entryEnd hdvd (by omega)

/-- Every run maps a stretch from its start on, the whole range if it returns `Ok`. -/
theorem MapRun.maps (hA : A.Fresh T limit) (h : MapRun T A limit template level e v p t log r t' log')
    (ht : WellFormed T limit level t) (hv : v < e → T.pageSize ∣ v) :
    ∃ stop, v ≤ stop ∧ (stop = v ∨ T.pageSize ∣ stop ∧ stop < e + T.pageSize) ∧
      (r = .ok () → e ≤ stop) ∧ Maps T limit template level t t' v p stop := by
  have hdirs := hcodec.keepsDirectories
  induction h with
  | done hle => exact ⟨_, le_rfl, Or.inl rfl, fun _ => hle, Maps.refl _ _⟩
  | fail | noMemory => exact ⟨_, le_rfl, Or.inl rfl, by simp, Maps.refl _ _⟩
  | @place level e v p t log r t' log' hlt hlevel haligned hbelow hfits hfree _ ih =>
    have hlevel' := hlevel.imp_right fun h => (⟨h.1, h.2.1⟩ : 1 < level ∧ level ≤ T.maxBlockLevel)
    have hsize : T.size level ∣ v := by
      rcases hlevel with rfl | h
      · rw [T.size_one]
        exact hv hlt
      · exact h.2.2.1
    have hstep : v + T.size level < e + T.pageSize := by
      rcases hlevel with rfl | h
      · rw [T.size_one]
        omega
      · have := T.pageSize_pos
        omega
    have hdvd : T.pageSize ∣ v + T.size level := Nat.dvd_add (hv hlt) (T.pageSize_dvd_size level)
    obtain ⟨stop, hle, hstop, hok, hmaps⟩ :=
      ih (ht.place hdirs hlevel' haligned hbelow hfits) fun _ => hdvd
    have hfirst := Maps.place hcodec template ht hlevel' hsize haligned hbelow hfree
    refine ⟨stop, by omega, Or.inr ?_, hok, hfirst.trans ?_ (Nat.le_add_right _ _) hle⟩
    · rcases hstop with rfl | hstop
      · exact ⟨hdvd, hstep⟩
      · exact hstop
    · rwa [Nat.add_sub_cancel_left]
  | @descend level e v p t log t₁ log₁ k log₂ r t' log' hlt hlevel ready child rest ihchild ih =>
    obtain ⟨ht₁, hp, hkid⟩ := ready.wellFormed hdirs hA hlevel ht
    have hwf := ht₁.setKid (T.slot_lt _ _) hp (child.wellFormed hdirs hA hkid) child.root_eq
    obtain ⟨mid, hle, hmid, hok, hmaps⟩ := ihchild hkid fun _ => hv hlt
    have hok := hok rfl
    have hmid' := stop_le_entryEnd hmid
    have hfirst := (hmaps.lift ht₁.1 hp hmid').congr_left
      (ready.lookup_eq hcodec hA hlevel ht.1)
    by_cases hnext : min (T.entryEnd (level + 1) v) e < e
    · -- the range goes on after this entry, so the entry was covered to its end
      obtain ⟨stop, hle', hstop, hok', hmaps'⟩ := ih hwf fun _ => by
        rw [Nat.min_eq_left (by omega)]
        exact T.pageSize_dvd_entryEnd _ _
      have heq : mid = min (T.entryEnd (level + 1) v) e := by omega
      rw [← heq] at hmaps' hle' hstop
      refine ⟨stop, by omega, ?_, hok', hfirst.trans hmaps' hle hle'⟩
      rcases hstop with rfl | hstop
      · rcases hmid with hmid | ⟨hdvd, hmid⟩
        · exact Or.inl hmid
        · exact Or.inr ⟨hdvd, by omega⟩
      · exact Or.inr hstop
    · rw [rest.eq_of_le (by omega)]
      refine ⟨mid, hle, hmid.imp_right fun h => ⟨h.1, by omega⟩, fun _ => by omega, hfirst⟩
  | @descendFail level e v p t log t₁ log₁ k log₂ error hlt hlevel ready child ihchild =>
    obtain ⟨ht₁, hp, hkid⟩ := ready.wellFormed hdirs hA hlevel ht
    obtain ⟨mid, hle, hmid, -, hmaps⟩ := ihchild hkid fun _ => hv hlt
    have hmid' := stop_le_entryEnd hmid
    exact ⟨mid, hle, hmid.imp_right fun h => ⟨h.1, by omega⟩, by simp,
      (hmaps.lift ht₁.1 hp hmid').congr_left (ready.lookup_eq hcodec hA hlevel ht.1)⟩

theorem MapRun.maps_range (hA : A.Fresh T limit) (h : MapRun T A limit template level e v p t log (.ok ()) t' log')
    (ht : WellFormed T limit level t) (hv : T.pageSize ∣ v) (he : T.pageSize ∣ e) (hlt : v < e) :
    Maps T limit template level t t' v p e := by
  obtain ⟨stop, -, hstop, hok, hmaps⟩ := h.maps hcodec hA ht fun _ => hv
  have hok := hok rfl
  obtain ⟨hdvd, hlt'⟩ := hstop.resolve_left (by omega)
  obtain ⟨a, rfl⟩ := he
  obtain ⟨b, rfl⟩ := hdvd
  have : b < a + 1 := Nat.lt_of_mul_lt_mul_left (a := T.pageSize) (by rw [Nat.mul_add]; omega)
  have : a ≤ b := Nat.le_of_mul_le_mul_left hok T.pageSize_pos
  rwa [show b = a by omega] at hmaps

/-! ### Calls of `map` -/

variable {root : PhysAddr} {m m' : Machine P} {config : MapConfig}

theorem MappedAt.translate (hm : Holds T limit root m t) (hl : T.Addressable T.ptLevel) {stop x : Nat}
    (h : MappedAt T limit template T.ptLevel t v p stop x) :
    ∃ l base, PageTableRef.translate T m root x =
      .ok (p + (x - v), fromConfig (template.final l base)) := by
  obtain ⟨l, base, hlookup, henc, hoffset, -⟩ := h
  refine ⟨l, base, ?_⟩
  have hpaddr := hcodec.paddr l _ henc
  rw [henc.isDir] at hpaddr
  rw [hm.translate_some hcodec hl hlookup, hpaddr, ← hoffset]
  rfl

/-- A call of `map` that is not refused maps a stretch from the start of the range on. -/
theorem map_stretch (hA : A.Fresh T limit) (hm : Holds T limit root m t) (hlimit : config.paddr + config.size ≤ limit)
    (haccepted : config.Accepted T) (h : PageTableRef.map T A root config m = (r.mapError .err, m')) :
    ∃ stop t', config.vaddr ≤ stop ∧ stop < config.vaddr + config.size + T.pageSize ∧
      (T.pageSize ∣ stop) ∧ (r = .ok () → config.vaddr + config.size ≤ stop) ∧
      Holds T limit root m' t' ∧ Maps T limit config.pte T.ptLevel t t' config.vaddr config.paddr stop := by
  have hpage := T.pageSize_pos
  rcases map_refines hcodec.keepsDirectories hA hlimit h hm with ⟨hnot, -⟩ | ⟨-, t', hrun, hm', -⟩
  · exact absurd haccepted hnot
  · obtain ⟨stop, hle, hstop, hok, hmaps⟩ :=
      hrun.maps hcodec hA hm.wellFormed fun _ => haccepted.vaddr_aligned
    refine ⟨stop, t', hle, ?_, ?_, hok, hm', hmaps⟩
    · rcases hstop with rfl | ⟨-, hlt⟩ <;> omega
    · rcases hstop with rfl | ⟨hdvd, -⟩
      · exact haccepted.vaddr_aligned
      · exact hdvd

theorem map_run (hA : A.Fresh T limit) (hm : Holds T limit root m t)
    (hlimit : config.paddr + config.size ≤ limit)
    (h : PageTableRef.map T A root config m = (.ok (), m')) :
    config.Accepted T ∧ ∃ t', Holds T limit root m' t' ∧
      MapRun T A limit config.pte T.ptLevel (config.vaddr + config.size) config.vaddr config.paddr t
        m.log (.ok ()) t' m'.log := by
  rcases map_refines hcodec.keepsDirectories hA hlimit (r := .ok ()) h hm with
    ⟨-, ⟨_, hr⟩, -⟩ | ⟨haccepted, t', hrun, hm', -⟩
  · simp at hr
  · exact ⟨haccepted, t', hm', hrun⟩

/-- `map` is exact: after `Ok` every address of the range translates to its own physical address,
through an entry with the flags of the template, and every address that no address of the range is
congruent to modulo the index space translates as before. -/
theorem map_translate (hA : A.Fresh T limit) (hm : Reachable T A limit root m)
    (hsize : T.pageSize ∣ config.size) (hlimit : config.paddr + config.size ≤ limit)
    (h : PageTableRef.map T A root config m = (.ok (), m')) :
    (∀ v, config.vaddr ≤ v → v < config.vaddr + config.size → ∃ level base,
      PageTableRef.translate T m' root v =
        .ok (config.paddr + (v - config.vaddr), fromConfig (config.pte.final level base))) ∧
    ∀ a, (∀ v, config.vaddr ≤ v → v < config.vaddr + config.size → ¬ a ≡ v [MOD 2 ^ T.ptValidBits]) →
      PageTableRef.translate T m' root a = PageTableRef.translate T m root a := by
  obtain ⟨t, ht⟩ := hm.holds hcodec.keepsDirectories hA
  obtain ⟨haccepted, t', ht', hrun⟩ := map_run hcodec hA ht hlimit h
  have hl := map_addressable haccepted h trivial
  have hmaps := hrun.maps_range hcodec hA ht.wellFormed haccepted.vaddr_aligned
    (Nat.dvd_add haccepted.vaddr_aligned hsize) (Nat.lt_add_of_pos_right haccepted.size_pos)
  refine ⟨fun v hle hlt => (hmaps.mapped v hle hlt).translate hcodec ht' hl, fun a ha => ?_⟩
  refine ht.translate_congr ht' (hmaps.frame a fun x hle hlt => ?_)
  rw [T.size_ptLevel_succ]
  exact ha x hle hlt

omit hcodec in
/-- One 4 KiB page of an x86_64 table. -/
theorem map_translate_x86 :
    (∀ v, 0x1000 ≤ v → v < 0x1000 + 0x1000 → ∃ level base,
      PageTableRef.translate X86.generic (X86.mapped (X86.request 0x1000 0x5000 0x1000 false) X86.start)
          X86.root v =
        .ok (0x5000 + (v - 0x1000),
          fromConfig ((X86.request 0x1000 0x5000 0x1000 false).pte.final level base))) ∧
    ∀ a, (∀ v, 0x1000 ≤ v → v < 0x1000 + 0x1000 → ¬ a ≡ v [MOD 2 ^ X86.generic.ptValidBits]) →
      PageTableRef.translate X86.generic (X86.mapped (X86.request 0x1000 0x5000 0x1000 false) X86.start)
          X86.root a =
        PageTableRef.translate X86.generic X86.start X86.root a :=
  map_translate X86.roundTrips X86.bump_fresh X86.reachable_start
    (show X86.generic.pageSize ∣ (X86.request 0x1000 0x5000 0x1000 false).size by decide) (by decide)
    (X86.map_eq (by decide +kernel))

omit hcodec in
/-- The address `2 ^ 48` above a page that is mapped has the same indices, and is mapped with it. -/
theorem map_translate_alias :
    (PageTableRef.map X86.generic X86.bump X86.root (X86.request 0x1000 0x5000 0x1000 false)
        X86.start).1 = .ok () ∧
      PageTableRef.isMapped X86.generic X86.start X86.root (0x1000 + 2 ^ 48) = false ∧
      PageTableRef.isMapped X86.generic
        (X86.mapped (X86.request 0x1000 0x5000 0x1000 false) X86.start) X86.root (0x1000 + 2 ^ 48) =
        true := by
  decide +kernel

/-- A call of `map` that returns an error has mapped a part of the range, from its start on, as
requested; the part was free before, nothing else has changed, and a refused configuration maps
nothing. -/
theorem map_error_prefix (hA : A.Fresh T limit) (hm : Reachable T A limit root m)
    (hlimit : config.paddr + config.size ≤ limit) {error : PagingError}
    (h : PageTableRef.map T A root config m = (.error (.err error), m')) :
    ∃ stop, config.vaddr ≤ stop ∧ stop < config.vaddr + config.size + T.pageSize ∧
      (¬ config.Accepted T → stop = config.vaddr) ∧
      (∀ v, config.vaddr ≤ v → v < stop →
        PageTableRef.translate T m root v = .error (.err .notMapped) ∧ ∃ level base,
        PageTableRef.translate T m' root v =
          .ok (config.paddr + (v - config.vaddr), fromConfig (config.pte.final level base))) ∧
      ∀ a, (∀ v, config.vaddr ≤ v → v < stop → ¬ a ≡ v [MOD 2 ^ T.ptValidBits]) →
        PageTableRef.translate T m' root a = PageTableRef.translate T m root a := by
  obtain ⟨t, ht⟩ := hm.holds hcodec.keepsDirectories hA
  by_cases haccepted : config.Accepted T
  · obtain ⟨stop, t', hle, hlt, -, -, ht', hmaps⟩ :=
      map_stretch hcodec hA ht hlimit haccepted (r := .error error) h
    have hl := map_addressable haccepted h trivial
    refine ⟨stop, hle, hlt, fun hnot => absurd haccepted hnot, fun v hle hlt => ⟨?_, ?_⟩, fun a ha => ?_⟩
    · exact ht.translate_none hl (hmaps.free v hle hlt)
    · exact (hmaps.mapped v hle hlt).translate hcodec ht' hl
    · refine ht.translate_congr ht' (hmaps.frame a fun x hle hlt => ?_)
      rw [T.size_ptLevel_succ]
      exact ha x hle hlt
  · have hpage := T.pageSize_pos
    rcases map_refines hcodec.keepsDirectories hA hlimit (r := .error error) h ht with
      ⟨-, -, rfl⟩ | ⟨haccepted', -⟩
    · exact ⟨config.vaddr, le_rfl, by omega, fun _ => rfl, fun v hle hlt => by omega, fun _ _ => rfl⟩
    · exact absurd haccepted' haccepted

end

/-- The page at `0x200000` is in the way of the second page of a range. -/
theorem map_error_prefix_x86 :
    ∃ stop, 0x1ff000 ≤ stop ∧ stop < 0x1ff000 + 0x2000 + X86.generic.pageSize ∧
      (¬ (X86.request 0x1ff000 0x8000 0x2000 false).Accepted X86.generic → stop = 0x1ff000) ∧
      (∀ v, 0x1ff000 ≤ v → v < stop →
        PageTableRef.translate X86.generic (X86.mapped X86.page X86.start) X86.root v =
          .error (.err .notMapped) ∧ ∃ level base,
        PageTableRef.translate X86.generic (X86.mapped (X86.request 0x1ff000 0x8000 0x2000 false)
            (X86.mapped X86.page X86.start)) X86.root v =
          .ok (0x8000 + (v - 0x1ff000),
            fromConfig ((X86.request 0x1ff000 0x8000 0x2000 false).pte.final level base))) ∧
      ∀ a, (∀ v, 0x1ff000 ≤ v → v < stop → ¬ a ≡ v [MOD 2 ^ X86.generic.ptValidBits]) →
        PageTableRef.translate X86.generic (X86.mapped (X86.request 0x1ff000 0x8000 0x2000 false)
            (X86.mapped X86.page X86.start)) X86.root a =
          PageTableRef.translate X86.generic (X86.mapped X86.page X86.start) X86.root a := by
  have hconflict : PageTableRef.map X86.generic X86.bump X86.root
      (X86.request 0x1ff000 0x8000 0x2000 false) (X86.mapped X86.page X86.start) =
        (.error (.err (.mappingConflict 0x200000 0x9000)), _) := X86.map_eq (by decide +kernel)
  exact map_error_prefix X86.roundTrips X86.bump_fresh X86.reachable_page (by decide) hconflict

/-- The first page of the range stays mapped after the conflict at the second. -/
theorem map_error_keeps_prefix :
    (PageTableRef.map X86.generic X86.bump X86.root (X86.request 0x1ff000 0x8000 0x2000 false)
        (X86.mapped X86.page X86.start)).1 =
        .error (.err (.mappingConflict 0x200000 0x9000)) ∧
      PageTableRef.isMapped X86.generic
        (X86.mapped X86.page X86.start) X86.root 0x1ff000 = false ∧
      PageTableRef.isMapped X86.generic (X86.mapped (X86.request 0x1ff000 0x8000 0x2000 false)
        (X86.mapped X86.page X86.start)) X86.root 0x1ff000 = true := by
  decide +kernel

end Sparreal.Paging
