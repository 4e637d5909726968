import Sparreal.Paging.Calls
import Sparreal.Paging.Lookup

/-!
# `translate` on a well-formed table

On a table a machine holds, `translate` returns the address and the entry that `lookup` finds, and
`NotMapped` where it finds none (`Holds.translate_some`, `Holds.translate_none`): the addition of the
offset cannot overflow, because no final entry is written whose span leaves the address space. What
is asked for is that the index computation of the root level does not overflow; a call of `map` or
`unmap` that came back has shown as much (`map_addressable`, `unmap_addressable`).
-/

namespace Sparreal.Paging

variable {P : Type} [PageTableEntry P] {T : TableMeta P} {A : FrameAllocator} {limit : Nat}
  {root : PhysAddr} {m m' : Machine P} {t : Tree P}

/-! ### Calls that come back -/

theorem mapRangeRecursive_addressable {level : Nat} {c : MapRecursiveConfig} {r : Except Fault Unit}
    (h : Frame.mapRangeRecursive T A level root c m = (r, m')) (hr : Returned r)
    (hv : c.startVaddr < c.endVaddr) : T.Addressable level := by
  obtain ⟨res, rfl⟩ := returned_iff.mp hr
  have hloop : ∀ {child : PhysAddr → MapRecursiveConfig → Run P Unit} {fuel cursor},
      (Frame.mapLoop T A child level root c fuel cursor >>= fun _ => pure ()) m = (res.mapError .err, m') →
      cursor.1 < c.endVaddr → T.Addressable level := by
    intro child fuel cursor hloop
    refine Frame.mapLoop_elim hloop ?_ ?_ ?_
    · intro cursor hend _ hlt
      omega
    · intro cursor m error _ _ hstep _
      exact (Frame.mapStep_error hstep).1
    · intro cursor m cursor₁ m₁ _ hstep _ _
      exact (Frame.mapStep_ok hstep).1
  cases level with
  | zero => exact hloop h hv
  | succ level => exact hloop h hv

/-- A call of `map` that came back and was not refused has computed an index of the root level. -/
theorem map_addressable {config : MapConfig} (haccepted : config.Accepted T) {r : Except Fault Unit}
    (h : PageTableRef.map T A root config m = (r, m')) (hr : Returned r) : T.Addressable T.ptLevel := by
  rcases PageTableRef.map_eq T A root config m with ⟨hnot, -⟩ | ⟨-, hrun⟩
  · exact absurd haccepted hnot
  · rw [hrun] at h
    have := haccepted.size_pos
    refine mapRangeRecursive_addressable h hr ?_
    show config.vaddr < config.vaddr + config.size
    omega

theorem unmapLoop_addressable {child : PhysAddr → UnmapRecursiveConfig → Run P Bool} {level : Nat}
    {c : UnmapRecursiveConfig} {fuel : Nat} {cursor cursor' : Nat × Bool}
    (h : Frame.unmapLoop T child level root c fuel cursor m = (.ok cursor', m'))
    (hv : cursor.1 < c.endVaddr) : T.Addressable level := by
  revert hv
  refine Exec.loop_ok_elim h ?_ ?_
  · intro hcond hlt
    simp at hcond
    omega
  · intro cursor m cursor₁ m₁ _ hstep _ _
    exact (Frame.unmapStep_ok hstep).1

theorem unmap_addressable {startVaddr size : Nat}
    (h : PageTableRef.unmap T root startVaddr size m = (.ok (), m')) : T.Addressable T.ptLevel := by
  rcases unmap_cases (r := .ok ()) h with ⟨_, herror, -⟩ | ⟨-, haccepted, b, hcall⟩
  · cases herror
  · obtain ⟨n, hn⟩ := Nat.exists_eq_add_one.mpr T.ptLevel_pos
    have hsize := haccepted.size_pos
    rw [hn] at hcall ⊢
    obtain ⟨cursor, m₂, hloop, -⟩ := Exec.bind_eq_ok.mp hcall
    refine unmapLoop_addressable hloop ?_
    show startVaddr < startVaddr + size
    omega

/-! ### Translation -/

variable {a : Nat}

theorem WellFormed.lookup_written {level : Nat} (h : WellFormed T limit level t) {pte : P} {l : Nat}
    (hlookup : lookup T level t a = some (pte, l)) : Written T limit l pte := by
  induction level generalizing t with
  | zero => simp [lookup] at hlookup
  | succ level ih =>
    rw [lookup_succ] at hlookup
    split_ifs at hlookup with hvalid hp
    · exact ih (h.kid (T.slot_lt _ _) hp) hlookup
    · simp only [Option.some.injEq, Prod.mk.injEq] at hlookup
      obtain ⟨rfl, rfl⟩ := hlookup
      exact h.written (Nat.succ_pos _) _

namespace Holds

section

variable (hm : Holds T limit root m t)

include hm

theorem lookup_eq (a : Nat) : lookup T T.ptLevel (tableAt T m.mem T.ptLevel root) a = lookup T T.ptLevel t a := by
  rw [hm.represents.table]

theorem translate_none (hl : T.Addressable T.ptLevel) (h : lookup T T.ptLevel t a = none) :
    PageTableRef.translate T m root a = .error (.err .notMapped) := by
  rw [PageTableRef.translate, translateRecursiveWithLevel_eq hl, hm.lookup_eq, h]

theorem translate_congr {t' : Tree P} {root' : PhysAddr} (hm' : Holds T limit root' m' t')
    (h : lookup T T.ptLevel t' a = lookup T T.ptLevel t a) :
    PageTableRef.translate T m' root' a = PageTableRef.translate T m root a := by
  refine Paging.translate_congr ?_
  rw [hm.lookup_eq, hm'.lookup_eq, h]

end

variable (hcodec : RoundTrips T limit)

include hcodec

variable (hm : Holds T limit root m t)

include hm

theorem lookup_encoded {pte : P} {l : Nat} (h : lookup T T.ptLevel t a = some (pte, l)) :
    ∃ c, pte = fromConfig c ∧ Encodable T limit l c ∧ c.huge = decide (1 < l) ∧
      c.paddr + T.size l < usizeRange := by
  obtain ⟨hvalid, hfinal⟩ := lookup_entry h
  have hpos := (lookup_level h).1
  cases hm.wellFormed.lookup_written h with
  | zeroed => rw [hcodec.zeroed] at hvalid; exact absurd hvalid (by decide)
  | cleared => rw [hcodec.invalid] at hvalid; exact absurd hvalid (by decide)
  | @encoded c hc hfits =>
    refine ⟨c, rfl, hc, ?_, hfits hfinal⟩
    by_cases hone : 1 < l
    · rw [decide_eq_true hone]
      by_contra hhuge
      obtain ⟨hdir, -⟩ := hcodec.keepsDirectories.directory l c hc hone (by simpa using hhuge)
      rw [pointsToTable, decide_eq_true hone, hdir] at hfinal
      exact absurd hfinal (by decide)
    · rw [decide_eq_false hone]
      by_contra hhuge
      exact hone (hc.huge (by simpa using hhuge)).1

theorem translate_some (hl : T.Addressable T.ptLevel) {pte : P} {l : Nat}
    (h : lookup T T.ptLevel t a = some (pte, l)) :
    PageTableRef.translate T m root a =
      .ok ((toConfig pte (decide (1 < l))).paddr + a % T.size l, pte) := by
  obtain ⟨c, rfl, hc, hhuge, hfits⟩ := hm.lookup_encoded hcodec h
  obtain ⟨hpos, hle⟩ := lookup_level h
  have hpaddr : (toConfig (fromConfig c : P) (decide (1 < l))).paddr = c.paddr := by
    rw [← hc.isDir]
    exact hcodec.paddr l c hc
  have hkind := hcodec.huge l c hc
  rw [hc.isDir, hhuge] at hkind
  have hoffset : (if decide (1 < l) = true then a % T.levelSize l else a % T.pageSize) = a % T.size l := by
    by_cases hone : 1 < l
    · rw [if_pos (decide_eq_true hone), T.levelSize_eq (hl.mono hpos hle)]
    · obtain rfl : l = 1 := by omega
      rw [if_neg (by decide), T.size_one]
  have hadd : addUsize c.paddr (a % T.size l) = .ok (c.paddr + a % T.size l) :=
    addUsize_eq_ok.mpr ⟨by have := Nat.mod_lt a (T.size_pos l); omega, rfl⟩
  rw [PageTableRef.translate, translateRecursiveWithLevel_eq hl, hm.lookup_eq, h]
  simp only [hpaddr, hkind, hoffset, hadd]

theorem isMapped_iff (hl : T.Addressable T.ptLevel) (a : Nat) :
    PageTableRef.isMapped T m root a = true ↔ lookup T T.ptLevel t a ≠ none := by
  rw [PageTableRef.isMapped]
  rcases h : lookup T T.ptLevel t a with _ | ⟨pte, l⟩
  · simp [hm.translate_none hl h, Except.isOk, Except.toBool]
  · simp [hm.translate_some hcodec hl h, Except.isOk, Except.toBool]

end Holds

end Sparreal.Paging
