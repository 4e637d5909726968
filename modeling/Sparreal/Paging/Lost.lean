import Sparreal.Paging.Translate

/-!
# Codecs that lose directory entries

A codec may encode a pointer to a table in such a way that the entry does not read back as valid.
Where it does, and the levels above the leaves hold no huge pages, a table is never found again once it
is linked: `map` makes a new one in its place each time it passes, and `translate` stops at the root.
No address of a reachable table ever translates (`Reachable.notMapped`).

The invariant is about the memory and not about a tree: the entries of the root read as invalid. A call
of `map` on such a table writes to the table itself and to frames it has just been given.
-/

namespace Sparreal.Paging

variable {P : Type} {T : TableMeta P} {A : FrameAllocator} {limit level : Nat} {root frame : PhysAddr}
  {m m₁ m' : Machine P}

/-- Of the frames in use before, only `frame` may have been written to, and none has been released. -/
structure Spares (frame : PhysAddr) (m m' : Machine P) : Prop where
  mem_eq : ∀ g, Ledger.Live m.log g → g ≠ frame → m'.mem g = m.mem g
  live : ∀ g, Ledger.Live m.log g → Ledger.Live m'.log g

theorem Spares.refl (frame : PhysAddr) (m : Machine P) : Spares frame m m :=
  ⟨fun _ _ _ => rfl, fun _ h => h⟩

theorem Spares.trans (h : Spares frame m m₁) (h' : Spares frame m₁ m') : Spares frame m m' where
  mem_eq g hg hne := (h'.mem_eq g (h.live g hg) hne).trans (h.mem_eq g hg hne)
  live g hg := h'.live g (h.live g hg)

theorem Spares.write (frame : PhysAddr) (m : Machine P) {pte : P} {i : Nat}
    (hmem : m'.mem = (m.write frame i pte).mem) (hlog : m'.log = m.log) : Spares frame m m' where
  mem_eq g _ hne := by rw [hmem, Machine.write_mem, Function.update_of_ne hne]
  live g hg := by rwa [hlog]

variable [PageTableEntry P]

/-- Pointers to tables read as invalid, and there are no huge pages. -/
structure LosesDirectories (T : TableMeta P) : Prop where
  zeroed : (toConfig (zeroed : P) true).valid = false
  directory : ∀ (template : PteConfig) (frame : PhysAddr),
    (toConfig (fromConfig (template.directory frame) : P) true).valid = false
  noBlocks : T.maxBlockLevel ≤ 1

/-- The entries of `frame`, a table above the leaves, read as invalid. -/
def Blank (level : Nat) (frame : PhysAddr) (m : Machine P) : Prop :=
  1 < level → ∀ i, (toConfig (m.mem frame i) true).valid = false

/-- What a call on a table that reads as invalid keeps. -/
def SparesBlank (level : Nat) (call : PhysAddr → MapRecursiveConfig → Run P Unit) : Prop :=
  ∀ frame c m m' (r : Except PagingError Unit), call frame c m = (r.mapError .err, m') →
    Ledger.Live m.log frame → Blank level frame m → Spares frame m m' ∧ Blank level frame m'

section

variable (hlost : LosesDirectories T) (hA : A.Fresh T limit)
  {child : PhysAddr → MapRecursiveConfig → Run P Unit} {c : MapRecursiveConfig}

include hlost hA

theorem descend_spares (hchild : SparesBlank level child) (hlive : Ledger.Live m.log frame)
    (hblank : Blank (level + 1) frame m) (hlevel : 1 < level + 1) {i : Nat} {template : PteConfig}
    {new : PhysAddr} (hnew : Frame.childFrame A frame i template m = (.ok new, m₁))
    {c' : MapRecursiveConfig} {r : Except PagingError Unit}
    (hcall : child new c' m₁ = (r.mapError .err, m')) :
    Spares frame m m' ∧ Blank (level + 1) frame m' := by
  rcases Frame.childFrame_ok hnew with ⟨hdir, -, -⟩ | ⟨-, halloc, rfl⟩
  · rw [isDirectory, hblank hlevel i, Bool.false_and] at hdir
    exact absurd hdir (by decide)
  · obtain ⟨hfresh, -, -⟩ := hA _ _ halloc
    have hne : ∀ g, Ledger.Live m.log g → g ≠ new := fun g hg heq => hfresh (heq ▸ hg)
    have hzero : ((m.alloc new zeroed).write frame i (fromConfig (template.directory new))).mem new =
        fun _ => zeroed := by
      rw [Machine.write_mem, Function.update_of_ne (hne frame hlive).symm, Machine.alloc_mem,
        Function.update_self]
    obtain ⟨hspares, -⟩ := hchild _ _ _ _ _ hcall (Or.inl rfl) fun _ j => by rw [hzero, hlost.zeroed]
    refine ⟨⟨fun g hg hgf => ?_, fun g hg => hspares.live g (Or.inr hg)⟩, fun _ j => ?_⟩
    · rw [hspares.mem_eq g (Or.inr hg) (hne g hg), Machine.write_mem, Function.update_of_ne hgf,
        Machine.alloc_mem, Function.update_of_ne (hne g hg)]
    · rw [hspares.mem_eq frame (Or.inr hlive) (hne frame hlive), Machine.write_mem, Function.update_self,
        Function.update_apply, Machine.alloc_mem, Function.update_of_ne (hne frame hlive)]
      split_ifs
      · exact hlost.directory _ _
      · exact hblank hlevel j

theorem mapLoop_spares (hchild : SparesBlank level child) {fuel : Nat} {cursor : Nat × Nat}
    {r : Except PagingError Unit}
    (h : (Frame.mapLoop T A child (level + 1) frame c fuel cursor >>= fun _ => pure ()) m = (r.mapError .err, m'))
    (hlive : Ledger.Live m.log frame) (hblank : Blank (level + 1) frame m) :
    Spares frame m m' ∧ Blank (level + 1) frame m' := by
  revert hlive hblank
  refine Frame.mapLoop_elim h ?_ ?_ ?_
  · intro _ _ _ _ hblank
    exact ⟨Spares.refl _ _, hblank⟩
  · rintro ⟨v, p⟩ m error _ rfl hstep hlive hblank
    rcases (Frame.mapStep_error hstep).2 with rfl | ⟨-, rfl⟩ | ⟨hlevel, new, m₁, hnew, hcall⟩
    · exact ⟨Spares.refl _ _, hblank⟩
    · exact ⟨⟨fun _ _ _ => rfl, fun _ hg => hg⟩, hblank⟩
    · exact descend_spares hlost hA hchild hlive hblank hlevel hnew (r := .error error) hcall
  · rintro ⟨v, p⟩ m ⟨v', p'⟩ m₁ _ hstep ih hlive hblank
    have hfirst : Spares frame m m₁ ∧ Blank (level + 1) frame m₁ := by
      rcases (Frame.mapStep_ok hstep).2 with ⟨hplace, hwrite, -⟩ | ⟨hlevel, -, new, m₂, hnew, hcall, -⟩
      · obtain ⟨-, hmem, hlog⟩ := Frame.placeEntry_ok hwrite
        have := hlost.noBlocks
        exact ⟨Spares.write frame m hmem hlog, fun hlevel => by omega⟩
      · exact descend_spares hlost hA hchild hlive hblank hlevel hnew (r := .ok ()) hcall
    obtain ⟨hspares, hblank'⟩ := ih (hfirst.1.live frame hlive) hfirst.2
    exact ⟨hfirst.1.trans hspares, hblank'⟩

theorem mapRangeRecursive_spares (level : Nat) :
    SparesBlank level (Frame.mapRangeRecursive T A level) := by
  induction level with
  | zero =>
    intro frame c m m' r h hlive hblank
    obtain ⟨-, -, rfl⟩ := mapLoop_zero h
    exact ⟨Spares.refl _ _, hblank⟩
  | succ level ih =>
    intro frame c m m' r h hlive hblank
    exact mapLoop_spares hlost hA ih h hlive hblank

end

/-- A table that reads as invalid is not touched by `unmap`. -/
theorem unmapRangeRecursive_blank (hlevel : 1 < level) {c : UnmapRecursiveConfig} {r : Bool}
    (hblank : Blank level frame m) (h : Frame.unmapRangeRecursive T level frame c m = (.ok r, m')) :
    m' = m := by
  obtain ⟨level, rfl⟩ : ∃ l, level = l + 1 := ⟨level - 1, by omega⟩
  obtain ⟨cursor', m₁, hrun, h⟩ := Exec.bind_eq_ok.mp h
  obtain rfl : m₁ = m' := congrArg Prod.snd h
  revert hblank
  refine Exec.loop_ok_elim hrun ?_ ?_
  · exact fun _ _ => rfl
  · rintro ⟨v, flag⟩ m ⟨v', flag'⟩ m₂ _ hstep ih hblank
    rcases (Frame.unmapStep_ok hstep).2 with ⟨-, -, -, rfl⟩ | ⟨hvalid, -⟩ | ⟨hp, -⟩
    · exact ih hblank
    · rw [decide_eq_true hlevel, hblank hlevel] at hvalid
      exact absurd hvalid (by decide)
    · have hvalid := (pointsToTable_eq_true.mp hp).2.1
      rw [hblank hlevel] at hvalid
      exact absurd hvalid (by decide)

theorem Reachable.blank (hlost : LosesDirectories T) (hA : A.Fresh T limit) (hdeep : 1 < T.ptLevel)
    (h : Reachable T A limit root m) : Ledger.Live m.log root ∧ Blank T.ptLevel root m := by
  induction h with
  | new hlog hnew =>
    unfold PageTableRef.new Frame.new at hnew
    split at hnew
    · simp at hnew
    · obtain ⟨hok, rfl⟩ := Prod.mk.inj hnew
      obtain rfl := Except.ok.inj hok
      refine ⟨Or.inl rfl, fun _ i => ?_⟩
      rw [Machine.alloc_mem, Function.update_self, hlost.zeroed]
  | @map m m' config r _ hlimit hmap hr ih =>
    obtain ⟨res, rfl⟩ := returned_iff.mp hr
    rcases PageTableRef.map_eq T A root config m with ⟨-, error, herror⟩ | ⟨-, hrun⟩
    · rw [herror] at hmap
      obtain ⟨-, rfl⟩ := Prod.mk.inj hmap
      exact ih
    · rw [hrun] at hmap
      obtain ⟨hspares, hblank⟩ := mapRangeRecursive_spares hlost hA _ _ _ _ _ _ hmap ih.1 ih.2
      exact ⟨hspares.live root ih.1, hblank⟩
  | @unmap m m' start size r _ hunmap hr ih =>
    obtain ⟨res, rfl⟩ := returned_iff.mp hr
    rcases unmap_cases hunmap with ⟨_, -, rfl⟩ | ⟨-, -, b, hcall⟩
    · exact ih
    · rw [unmapRangeRecursive_blank hdeep ih.2 hcall]
      exact ih

theorem Reachable.notMapped (hlost : LosesDirectories T) (hA : A.Fresh T limit) (hdeep : 1 < T.ptLevel)
    (hl : T.Addressable T.ptLevel) (h : Reachable T A limit root m) (a : Nat) :
    PageTableRef.translate T m root a = .error (.err .notMapped) := by
  obtain ⟨-, hblank⟩ := h.blank hlost hA hdeep
  rw [PageTableRef.translate, translateRecursiveWithLevel_eq hl, lookup_invalid]
  rw [decide_eq_true hdeep, entry_tableAt _ T.ptLevel_pos, hblank hdeep]

end Sparreal.Paging
