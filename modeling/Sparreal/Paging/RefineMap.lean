import Sparreal.Paging.Represent

/-!
# `map_range_recursive` refines its runs on trees

A call on a represented table that returns is a `MapRun`, leaves the table represented and keeps to
its frames (`mapRangeRecursive_refines`). One iteration of the loop is taken apart by the inversion
lemmas `mapStep_ok` and `mapStep_error`; the loop is an induction over its iterations and the
recursion an induction over the level. The contract on entries this rests on is `KeepsDirectories`.
-/

namespace Sparreal.Paging

variable {P : Type} {T : TableMeta P} {A : FrameAllocator} {limit : Nat}

/-! ### The range -/

/-- While the loop of `map_range_recursive` goes on, both addresses are page-aligned and the rest of
the physical range is below `limit`. -/
def OnPage (T : TableMeta P) (limit e v p : Nat) : Prop :=
  v < e → T.pageSize ∣ v ∧ T.pageSize ∣ p ∧ p + (e - v) ≤ limit

variable {e : Nat} {v p : Nat}

theorem OnPage.add (h : OnPage T limit e v p) (hv : v < e) {step : Nat} (hstep : T.pageSize ∣ step) :
    OnPage T limit e (v + step) (p + step) := by
  intro hlt
  obtain ⟨hpv, hpp, hle⟩ := h hv
  exact ⟨Nat.dvd_add hpv hstep, Nat.dvd_add hpp hstep, by omega⟩

theorem OnPage.child (h : OnPage T limit e v p) (hv : v < e) (level : Nat) :
    OnPage T limit (min (T.entryEnd level v) e) v p := by
  intro hlt
  obtain ⟨hpv, hpp, hle⟩ := h hv
  exact ⟨hpv, hpp, by omega⟩

theorem OnPage.next (h : OnPage T limit e v p) (hv : v < e) (level : Nat) :
    OnPage T limit e (min (T.entryEnd level v) e) (p + (min (T.entryEnd level v) e - v)) := by
  intro hlt
  obtain ⟨hpv, hpp, hle⟩ := h hv
  have hend : min (T.entryEnd level v) e = T.entryEnd level v := by omega
  have hvend := T.lt_entryEnd level v
  have hdvd : T.pageSize ∣ T.entryEnd level v := (T.pageSize_dvd_size level).mul_left _
  rw [hend] at hlt ⊢
  exact ⟨hdvd, Nat.dvd_add hpp (Nat.dvd_sub hdvd hpv), by omega⟩

variable {template : PteConfig}

namespace Frame

def childConfig (T : TableMeta P) (level : Nat) (c : MapRecursiveConfig) (v p : Nat) : MapRecursiveConfig :=
  { c with
    startVaddr := v
    startPaddr := p
    endVaddr := min (saturatingEntryEnd v (T.size level)) c.endVaddr }

theorem childConfig_endVaddr (T : TableMeta P) (level p : Nat) {c : MapRecursiveConfig} {v : Nat}
    (he : c.endVaddr ≤ usizeMax) (hv : v < c.endVaddr) :
    (childConfig T level c v p).endVaddr = min (T.entryEnd level v) c.endVaddr := by
  have hdiv : v / T.size level ≤ v := Nat.div_le_self _ _
  simp only [childConfig, saturatingEntryEnd, TableMeta.entryEnd,
    Nat.min_eq_left (show v / T.size level + 1 ≤ usizeMax by omega)]
  omega

/-! ### One iteration of `map_range_recursive` -/

section Map

variable {m m' : Machine P} {fault : Fault} {r : Except PagingError Unit}

/-- Where one iteration may place a final entry of its own level. -/
theorem canUseHuge_eq_true {c : MapRecursiveConfig} {level v p : Nat} (hl : T.Addressable level) :
    canUseHuge T c level v p = true ↔
      c.allowHuge = true ∧ 1 < level ∧ level ≤ T.maxBlockLevel ∧
        T.size level ≤ c.endVaddr - v ∧ T.size level ∣ v ∧ T.size level ∣ p := by
  simp only [canUseHuge, T.levelSize_eq hl, Bool.and_eq_true, decide_eq_true_eq, beq_iff_eq,
    Nat.dvd_iff_mod_eq_zero, and_assoc]

/-- Stepping on by `step` after a placed entry. -/
def advance (v p step : Nat) : Run P (Nat × Nat) := do
  let v' ← Exec.ofExcept (addUsize v step)
  let p' ← Exec.ofExcept (addUsize p step)
  pure (v', p')

theorem advance_eq_ok {v p v' p' step : Nat} (h : advance v p step m = (.ok (v', p'), m')) :
    v' = v + step ∧ p' = p + step ∧ p + step < usizeRange ∧ m' = m := by
  obtain ⟨v₁, hv₁, h⟩ := Exec.ofExcept_bind_eq_ok.mp h
  obtain ⟨p₁, hp₁, h⟩ := Exec.ofExcept_bind_eq_ok.mp h
  simp only [Exec.pure_apply, Prod.mk.injEq, Except.ok.injEq] at h
  obtain ⟨⟨rfl, rfl⟩, rfl⟩ := h
  obtain ⟨hfits, rfl⟩ := addUsize_eq_ok.mp hp₁
  exact ⟨(addUsize_eq_ok.mp hv₁).2, rfl, hfits, rfl⟩

theorem advance_eq_error {v p step : Nat} (h : advance v p step m = (.error fault, m')) :
    (usizeRange ≤ v + step ∨ usizeRange ≤ p + step) ∧ fault = .panic := by
  rcases Exec.ofExcept_bind_eq_error.mp h with ⟨hv, -⟩ | ⟨v₁, -, h⟩
  · exact (addUsize_eq_error.mp hv).imp_left .inl
  · rcases Exec.ofExcept_bind_eq_error.mp h with ⟨hp, -⟩ | ⟨p₁, -, h⟩
    · exact (addUsize_eq_error.mp hp).imp_left .inr
    · simp at h

theorem discard_eq {loop : Run P (Nat × Nat)} (h : (loop >>= fun _ => pure ()) m = (r.mapError .err, m')) :
    ∃ out, loop m = (out, m') ∧ out.map (fun _ => ()) = r.mapError .err := by
  rcases hloop : loop m with ⟨out, m₁⟩
  rw [Exec.bind_apply, hloop] at h
  cases out
  all_goals
    obtain ⟨hr, rfl⟩ := Prod.mk.inj h
    exact ⟨_, rfl, hr⟩

variable [PageTableEntry P] {frame : PhysAddr} {index : Nat}

theorem placeEntry_eq (config : PteConfig) (flush : Bool) (v p : Nat) :
    placeEntry frame index config flush v p m =
      if PageTableEntry.valid (m.mem frame index) then (.error (.err (.mappingConflict v p)), m)
      else (.ok (), if flush then (m.write frame index (fromConfig config)).flush v
        else m.write frame index (fromConfig config)) := by
  cases hvalid : PageTableEntry.valid (m.mem frame index) <;> cases flush <;>
    simp [placeEntry, Exec.bind_apply, readEntry, writeEntry, Frame.flush, hvalid]

theorem placeEntry_ok {config : PteConfig} {flush : Bool} {u : Unit}
    (h : placeEntry frame index config flush v p m = (.ok u, m')) :
    PageTableEntry.valid (m.mem frame index) = false ∧
      m'.mem = (m.write frame index (fromConfig config)).mem ∧ m'.log = m.log := by
  rw [placeEntry_eq] at h
  split_ifs at h with hvalid hflush
  · simp at h
  · obtain rfl : _ = m' := congrArg Prod.snd h
    exact ⟨(Bool.not_eq_true _).mp hvalid, rfl, rfl⟩
  · obtain rfl : _ = m' := congrArg Prod.snd h
    exact ⟨(Bool.not_eq_true _).mp hvalid, rfl, rfl⟩

theorem placeEntry_error {config : PteConfig} {flush : Bool}
    (h : placeEntry frame index config flush v p m = (.error fault, m')) :
    PageTableEntry.valid (m.mem frame index) = true ∧ fault = .err (.mappingConflict v p) ∧ m' = m := by
  rw [placeEntry_eq] at h
  split_ifs at h with hvalid
  · obtain ⟨hfault, rfl⟩ := Prod.mk.inj h
    exact ⟨hvalid, (Except.error.inj hfault).symm, rfl⟩
  all_goals simp at h

theorem childFrame_eq (template : PteConfig) :
    childFrame A frame index template m =
      if (toConfig (m.mem frame index) true).valid then
        if (toConfig (m.mem frame index) true).huge then
          (.error (.err (.hierarchyError "Cannot create page table under huge page")), m)
        else (.ok (childPaddr (m.mem frame index)), m)
      else
        match A.allocFrame m.log with
        | none => (.error (.err .noMemory), m.refuse)
        | some new =>
          (.ok new, (m.alloc new zeroed).write frame index (fromConfig (template.directory new))) := by
  cases hvalid : (toConfig (m.mem frame index) true).valid <;>
    cases hhuge : (toConfig (m.mem frame index) true).huge <;>
    cases halloc : A.allocFrame m.log <;>
    simp [childFrame, Exec.bind_apply, readEntry, writeEntry, Frame.new, childPaddr, hvalid, hhuge,
      halloc]

theorem childFrame_ok {child : PhysAddr} (h : childFrame A frame index template m = (.ok child, m')) :
    (isDirectory (m.mem frame index) = true ∧ child = childPaddr (m.mem frame index) ∧ m' = m) ∨
      ((toConfig (m.mem frame index) true).valid = false ∧ A.allocFrame m.log = some child ∧
        m' = (m.alloc child zeroed).write frame index (fromConfig (template.directory child))) := by
  rw [childFrame_eq] at h
  split_ifs at h with hvalid hhuge
  · simp at h
  · simp only [Prod.mk.injEq, Except.ok.injEq] at h
    exact Or.inl ⟨by simp [isDirectory, hvalid, hhuge], h.1.symm, h.2.symm⟩
  · split at h
    · simp at h
    · rename_i new halloc
      simp only [Prod.mk.injEq, Except.ok.injEq] at h
      obtain ⟨rfl, rfl⟩ := h
      exact Or.inr ⟨(Bool.not_eq_true _).mp hvalid, halloc, rfl⟩

theorem childFrame_error (h : childFrame A frame index template m = (.error fault, m')) :
    ((toConfig (m.mem frame index) true).valid = true ∧ (toConfig (m.mem frame index) true).huge = true ∧
        fault = .err (.hierarchyError "Cannot create page table under huge page") ∧ m' = m) ∨
      fault = .err .noMemory ∧ m' = m.refuse := by
  rw [childFrame_eq] at h
  split_ifs at h with hvalid hhuge
  · obtain ⟨hfault, rfl⟩ := Prod.mk.inj h
    exact Or.inl ⟨hvalid, hhuge, (Except.error.inj hfault).symm, rfl⟩
  · simp at h
  · split at h
    · simp only [Prod.mk.injEq, Except.error.injEq] at h
      exact Or.inr ⟨h.1.symm, h.2.symm⟩
    · simp at h

variable {child : PhysAddr → MapRecursiveConfig → Run P Unit} {level : Nat} {c : MapRecursiveConfig}

variable {v p v' p' : Nat}

/-- An iteration places an entry and steps on by its size, or goes below. -/
theorem mapStep_eq (hl : T.Addressable level) : mapStep T A child level frame c (v, p) =
    if level = 1 ∨ canUseHuge T c level v p = true then
      placeEntry frame (T.slot level v) (c.pteTemplate.final level p) c.flush v p >>= fun _ =>
        advance v p (T.size level)
    else
      childFrame A frame (T.slot level v) c.pteTemplate >>= fun new =>
        child new (childConfig T level c v p) >>= fun _ =>
          Exec.ofExcept (addUsize p ((childConfig T level c v p).endVaddr - v)) >>= fun p' =>
            pure ((childConfig T level c v p).endVaddr, p') := by
  rw [mapStep, T.virtToIndex_eq_ok.mpr ⟨hl, rfl⟩, Exec.ofExcept_ok_bind, T.levelSize_eq hl]
  by_cases hhuge : canUseHuge T c level v p = true
  · rw [if_pos hhuge, if_pos (.inr hhuge)]
    rfl
  · rw [if_neg hhuge]
    by_cases hone : level = 1
    · rw [if_pos hone, if_pos (.inl hone), hone, T.size_one]
      rfl
    · rw [if_neg hone, if_neg (not_or.mpr ⟨hone, hhuge⟩)]
      rfl

theorem mapStep_ok (h : mapStep T A child level frame c (v, p) m = (.ok (v', p'), m')) :
    T.Addressable level ∧
      ((level = 1 ∨ 1 < level ∧ level ≤ T.maxBlockLevel ∧ T.size level ∣ v ∧ T.size level ∣ p ∧
          T.size level ≤ c.endVaddr - v) ∧
        placeEntry frame (T.slot level v) (c.pteTemplate.final level p) c.flush v p m = (.ok (), m') ∧
        v' = v + T.size level ∧ p' = p + T.size level ∧ p + T.size level < usizeRange ∨
      1 < level ∧ canUseHuge T c level v p = false ∧ ∃ new m₁,
        childFrame A frame (T.slot level v) c.pteTemplate m = (.ok new, m₁) ∧
        child new (childConfig T level c v p) m₁ = (.ok (), m') ∧
        v' = (childConfig T level c v p).endVaddr ∧ p' = p + (v' - v)) := by
  obtain ⟨index, hindex, -⟩ := Exec.ofExcept_bind_eq_ok.mp h
  have hl := (T.virtToIndex_eq_ok.mp hindex).1
  refine ⟨hl, ?_⟩
  rw [mapStep_eq hl] at h
  split_ifs at h with hfinal
  · obtain ⟨⟨⟩, m₁, hplace, h⟩ := Exec.bind_eq_ok.mp h
    obtain ⟨rfl, rfl, hfits, rfl⟩ := advance_eq_ok h
    refine .inl ⟨hfinal.imp_right fun hhuge => ?_, hplace, rfl, rfl, hfits⟩
    obtain ⟨-, hone, hblock, hfit, hv, hp⟩ := (canUseHuge_eq_true hl).mp hhuge
    exact ⟨hone, hblock, hv, hp, hfit⟩
  · obtain ⟨new, m₁, hnew, h⟩ := Exec.bind_eq_ok.mp h
    obtain ⟨⟨⟩, m₂, hchild, h⟩ := Exec.bind_eq_ok.mp h
    obtain ⟨p₁, hp₁, h⟩ := Exec.ofExcept_bind_eq_ok.mp h
    simp only [Exec.pure_apply, Prod.mk.injEq, Except.ok.injEq] at h
    obtain ⟨⟨rfl, rfl⟩, rfl⟩ := h
    obtain ⟨hone, hhuge⟩ := not_or.mp hfinal
    have := hl.1
    exact .inr ⟨by omega, Bool.eq_false_iff.mpr hhuge, new, m₁, hnew, hchild, rfl, (addUsize_eq_ok.mp hp₁).2⟩

/-- Why one iteration stops: it panics, its slot is taken, it cannot have a table below, or the call below stops. -/
theorem mapStep_stops (h : mapStep T A child level frame c (v, p) m = (.error fault, m')) :
    ¬ T.Addressable level ∧ fault = .panic ∨ T.Addressable level ∧
      ((level = 1 ∨ canUseHuge T c level v p = true) ∧
          (placeEntry frame (T.slot level v) (c.pteTemplate.final level p) c.flush v p m = (.error fault, m') ∨
            (usizeRange ≤ v + T.size level ∨ usizeRange ≤ p + T.size level) ∧ fault = .panic) ∨
        1 < level ∧ (childFrame A frame (T.slot level v) c.pteTemplate m = (.error fault, m') ∨
          ∃ new m₁, childFrame A frame (T.slot level v) c.pteTemplate m = (.ok new, m₁) ∧
            (child new (childConfig T level c v p) m₁ = (.error fault, m') ∨
              usizeRange ≤ p + ((childConfig T level c v p).endVaddr - v) ∧ fault = .panic))) := by
  rcases Exec.ofExcept_bind_eq_error.mp h with ⟨hindex, -⟩ | ⟨index, hindex, -⟩
  · exact .inl (T.virtToIndex_eq_error.mp hindex)
  have hl := (T.virtToIndex_eq_ok.mp hindex).1
  refine .inr ⟨hl, ?_⟩
  rw [mapStep_eq hl] at h
  split_ifs at h with hfinal
  · refine .inl ⟨hfinal, ?_⟩
    rcases Exec.bind_eq_error.mp h with hplace | ⟨_, m₁, -, h⟩
    · exact .inl hplace
    · exact .inr (advance_eq_error h)
  · have hpos := hl.1
    refine .inr ⟨by omega, ?_⟩
    rcases Exec.bind_eq_error.mp h with hnew | ⟨new, m₁, hnew, h⟩
    · exact .inl hnew
    refine .inr ⟨new, m₁, hnew, ?_⟩
    rcases Exec.bind_eq_error.mp h with hchild | ⟨_, m₂, -, h⟩
    · exact .inl hchild
    rcases Exec.ofExcept_bind_eq_error.mp h with ⟨hp, -⟩ | ⟨p₁, -, h⟩
    · exact .inr (addUsize_eq_error.mp hp)
    · simp at h

theorem mapStep_error {error : PagingError}
    (h : mapStep T A child level frame c (v, p) m = (.error (.err error), m')) :
    T.Addressable level ∧
      (m' = m ∨ error = .noMemory ∧ m' = m.refuse ∨
      1 < level ∧ ∃ new m₁,
        childFrame A frame (T.slot level v) c.pteTemplate m = (.ok new, m₁) ∧
        child new (childConfig T level c v p) m₁ = (.error (.err error), m')) := by
  rcases mapStep_stops h with ⟨-, hpanic⟩ | ⟨hl, ⟨-, hplace | ⟨-, hpanic⟩⟩ |
    ⟨hdeep, hnew | ⟨new, m₁, hnew, hchild | ⟨-, hpanic⟩⟩⟩⟩
  · cases hpanic
  · exact ⟨hl, Or.inl (placeEntry_error hplace).2.2⟩
  · cases hpanic
  · rcases childFrame_error hnew with ⟨-, -, -, hm⟩ | ⟨he, hm⟩
    · exact ⟨hl, Or.inl hm⟩
    · exact ⟨hl, Or.inr (Or.inl ⟨Fault.err.inj he, hm⟩)⟩
  · exact ⟨hl, Or.inr (Or.inr ⟨hdeep, new, m₁, hnew, hchild⟩)⟩
  · cases hpanic

/-- Induction over the iterations of a loop of `map_range_recursive` that comes back. -/
@[elab_as_elim]
theorem mapLoop_elim {motive : Nat × Nat → Machine P → Prop} {fuel : Nat} {cursor : Nat × Nat}
    (h : (mapLoop T A child level frame c fuel cursor >>= fun _ => pure ()) m = (r.mapError .err, m'))
    (done : ∀ cursor, c.endVaddr ≤ cursor.1 → r = .ok () → motive cursor m')
    (stop : ∀ cursor m error, cursor.1 < c.endVaddr → r = .error error →
      mapStep T A child level frame c cursor m = (.error (.err error), m') → motive cursor m)
    (step : ∀ cursor m cursor₁ m₁, cursor.1 < c.endVaddr →
      mapStep T A child level frame c cursor m = (.ok cursor₁, m₁) → motive cursor₁ m₁ → motive cursor m) :
    motive cursor m := by
  obtain ⟨out, hloop, hr⟩ := discard_eq h
  refine Exec.loop_elim (motive := fun cursor m out m₁ => out.map (fun _ => ()) = r.mapError .err → m₁ = m' →
    motive cursor m) ?_ ?_ ?_ ?_ hloop hr rfl
  · rintro cursor m hcond hr rfl
    cases r with
    | error e => simp [Except.map, Except.mapError] at hr
    | ok u => exact done cursor (by simpa using hcond) rfl
  · intro _ _ _ hr
    cases r <;> simp [Except.map, Except.mapError] at hr
  · rintro cursor m fault m₁ hcond hstep hr rfl
    cases r with
    | error e =>
      obtain rfl : fault = .err e := by simpa [Except.map, Except.mapError] using hr
      exact stop cursor m e (by simpa using hcond) rfl hstep
    | ok u => simp [Except.map, Except.mapError] at hr
  · intro cursor m cursor₁ m₁ out m₂ hcond hstep ih hr hm
    exact step cursor m cursor₁ m₁ (by simpa using hcond) hstep (ih hr hm)

end Map

end Frame

/-! ### Mapping -/

variable [PageTableEntry P]

/-- A call on a level-`level` table that returns is a run on its tree. -/
def MapRefines (T : TableMeta P) (A : FrameAllocator) (limit level : Nat)
    (call : PhysAddr → MapRecursiveConfig → Run P Unit) : Prop :=
  ∀ {frame c m t r m'}, OnPage T limit c.endVaddr c.startVaddr c.startPaddr →
    c.endVaddr ≤ usizeMax → Represents T level frame m t →
    call frame c m = (Except.mapError Fault.err r, m') →
    ∃ t', MapRun T A limit c.pteTemplate level c.endVaddr c.startVaddr c.startPaddr t m.log r t' m'.log ∧
      Represents T level frame m' t' ∧ Keeps m t m' t'

section Map

variable (hcodec : KeepsDirectories T limit) (hA : A.Fresh T limit)
  {child : PhysAddr → MapRecursiveConfig → Run P Unit} {level : Nat} {frame : PhysAddr}
  {c : MapRecursiveConfig} {m m' : Machine P} {t : Tree P}

include hcodec hA

theorem childFrame_refines {index : Nat} {new : PhysAddr} (hrep : Represents T (level + 1) frame m t)
    (hlevel : 0 < level) (hi : index < T.len) (h : Frame.childFrame A frame index template m = (.ok new, m')) :
    ∃ t₁, ChildReady A template t index m.log t₁ m'.log ∧ Represents T (level + 1) frame m' t₁ ∧
      Keeps m t m' t₁ ∧ pointsToTable (level + 1) (t₁.entry index) = true ∧
      childPaddr (t₁.entry index) = new := by
  have hdeep : 1 < level + 1 := by omega
  rcases Frame.childFrame_ok h with ⟨hdir, rfl, rfl⟩ | ⟨hfree, halloc, rfl⟩
  · rw [← hrep.entry] at hdir ⊢
    refine ⟨t, .present hdir, hrep, Keeps.refl _ _, ?_, rfl⟩
    rw [pointsToTable, decide_eq_true hdeep, hdir, Bool.and_true]
  · obtain ⟨hfresh, haligned, hlt⟩ := hA m.log new halloc
    obtain ⟨hp, hpaddr⟩ := hcodec.pointsToTable_directory template hdeep haligned hlt
    obtain ⟨hrep', hkeeps⟩ := hrep.link hcodec.zeroed hlevel hi hfresh hp hpaddr
    rw [← hrep.entry] at hfree
    refine ⟨_, .created hfree halloc, hrep', hkeeps, ?_⟩
    rw [Tree.entry_set hrep.isTable, if_pos rfl]
    exact ⟨hp, hpaddr⟩

section Step

variable {v p : Nat} (hchild : MapRefines T A limit level child) (hrep : Represents T (level + 1) frame m t)
  (hpage : OnPage T limit c.endVaddr v p) (he : c.endVaddr ≤ usizeMax) (hv : v < c.endVaddr)

include hchild hrep hpage he hv

variable {v' p' : Nat}

omit hA hchild he in
theorem placeEntry_refines (hlevel : level + 1 = 1 ∨ 1 < level + 1 ∧ level + 1 ≤ T.maxBlockLevel)
    (h : Frame.placeEntry frame (T.slot (level + 1) v) (c.pteTemplate.final (level + 1) p) c.flush v p m = (.ok (), m')) :
    PageTableEntry.valid (t.entry (T.slot (level + 1) v)) = false ∧ m'.log = m.log ∧
      Represents T (level + 1) frame m'
        (t.set (T.slot (level + 1) v) (fromConfig (c.pteTemplate.final (level + 1) p)) .nil) ∧
      Keeps m t m' (t.set (T.slot (level + 1) v) (fromConfig (c.pteTemplate.final (level + 1) p)) .nil) := by
  obtain ⟨hfree, hmem, hlog⟩ := Frame.placeEntry_ok h
  obtain ⟨-, hpp, hle⟩ := hpage hv
  obtain ⟨hrep₁, hkeeps₁⟩ := hrep.write (i := T.slot (level + 1) v)
    (hcodec.pointsToTable_final c.pteTemplate hlevel hpp (by omega))
  obtain ⟨hrep₂, hkeeps₂⟩ := hrep₁.congr hmem hlog
  rw [← hrep.entry] at hfree
  exact ⟨hfree, hlog, hrep₂, hkeeps₁.trans hkeeps₂⟩

/-- The call below goes through the table of an entry. -/
theorem child_refines {r : Except PagingError Unit} {new : PhysAddr} {m₁ : Machine P} (hlevel : 1 < level + 1)
    (hnew : Frame.childFrame A frame (T.slot (level + 1) v) c.pteTemplate m = (.ok new, m₁))
    (hcall : child new (Frame.childConfig T (level + 1) c v p) m₁ = (r.mapError .err, m')) :
    ∃ t₁ k, ChildReady A c.pteTemplate t (T.slot (level + 1) v) m.log t₁ m₁.log ∧
      pointsToTable (level + 1) (t₁.entry (T.slot (level + 1) v)) = true ∧
      Represents T level new m₁ (t₁.kid (T.slot (level + 1) v)) ∧
      MapRun T A limit c.pteTemplate level (min (T.entryEnd (level + 1) v) c.endVaddr) v p
        (t₁.kid (T.slot (level + 1) v)) m₁.log r k m'.log ∧
      Represents T level new m' k ∧ Represents T (level + 1) frame m' (t₁.setKid (T.slot (level + 1) v) k) ∧
      Keeps m t m' (t₁.setKid (T.slot (level + 1) v) k) := by
  have hi : T.slot (level + 1) v < T.len := T.slot_lt _ _
  have hnext := Frame.childConfig_endVaddr T (level + 1) p he hv
  obtain ⟨t₁, hready, hrep₁, hkeeps₁, hp, rfl⟩ := childFrame_refines hcodec hA hrep (by omega) hi hnew
  obtain ⟨k, hrun, hrepk, hkeepsk⟩ := hchild (by rw [hnext]; exact hpage.child hv _) (by rw [hnext]; omega)
    (hrep₁.kid hi hp) hcall
  obtain ⟨hrep₂, hkeeps₂⟩ := hrep₁.setKid hi hp hrepk hkeepsk
  rw [hnext] at hrun
  exact ⟨t₁, k, hready, hp, hrep₁.kid hi hp, hrun, hrepk, hrep₂, hkeeps₁.trans hkeeps₂⟩

/-- One iteration that goes on, followed by a run from where it stops. The run may end where the call ends,
or where the iteration stops. -/
theorem mapStep_run (h : Frame.mapStep T A child (level + 1) frame c (v, p) m = (.ok (v', p'), m')) :
    OnPage T limit c.endVaddr v' p' ∧ v < v' ∧ ∃ t', Represents T (level + 1) frame m' t' ∧
      Keeps m t m' t' ∧ ∀ {e r t'' log''}, e = c.endVaddr ∨ e = v' →
        MapRun T A limit c.pteTemplate (level + 1) e v' p' t' m'.log r t'' log'' →
        MapRun T A limit c.pteTemplate (level + 1) e v p t m.log r t'' log'' := by
  have hsize := T.size_pos (level + 1)
  obtain ⟨-, hpp, hle⟩ := hpage hv
  rcases (Frame.mapStep_ok h).2 with ⟨hplace, hput, rfl, rfl, hfits⟩ | ⟨hdeep, -, new, m₁, hnew, hcall, rfl, rfl⟩
  · obtain ⟨hfree, hlog, hrep', hkeeps⟩ := placeEntry_refines hcodec hrep hpage hv
      (hplace.imp_right fun h => ⟨h.1, h.2.1⟩) hput
    refine ⟨hpage.add hv (T.pageSize_dvd_size _), by omega, _, hrep', hkeeps,
      fun {e r t'' log''} hend hrest => ?_⟩
    rw [hlog] at hrest
    refine .place (by omega) (hplace.imp_right fun h => ⟨h.1, h.2.1, h.2.2.1, h.2.2.2.1, ?_⟩) hpp (by omega)
      hfits hfree hrest
    have := h.2.2.2.2
    omega
  · have hlt := T.lt_entryEnd (level + 1) v
    obtain ⟨t₁, k, hready, -, -, hrun, -, hrep', hkeeps⟩ :=
      child_refines hcodec hA hchild hrep hpage he hv (r := .ok ()) hdeep hnew hcall
    rw [Frame.childConfig_endVaddr T (level + 1) p he hv]
    refine ⟨hpage.next hv _, by omega, _, hrep', hkeeps, fun {e r t'' log''} hend hrest => ?_⟩
    have hmin : min (T.entryEnd (level + 1) v) c.endVaddr = min (T.entryEnd (level + 1) v) e := by omega
    rw [hmin] at hrun hrest
    exact .descend (by omega) (by omega) hready hrun hrest

theorem mapStep_fails {error : PagingError}
    (h : Frame.mapStep T A child (level + 1) frame c (v, p) m = (.error (.err error), m')) :
    ∃ t', MapRun T A limit c.pteTemplate (level + 1) c.endVaddr v p t m.log (.error error) t' m'.log ∧
      Represents T (level + 1) frame m' t' ∧ Keeps m t m' t' := by
  rcases (Frame.mapStep_error h).2 with rfl | ⟨rfl, rfl⟩ | ⟨hdeep, new, m₁, hnew, hcall⟩
  · exact ⟨t, .fail, hrep, Keeps.refl _ _⟩
  · exact ⟨t, .noMemory, hrep.refuse⟩
  · obtain ⟨t₁, k, hready, -, -, hrun, -, hrep', hkeeps⟩ :=
      child_refines hcodec hA hchild hrep hpage he hv (r := .error error) hdeep hnew hcall
    exact ⟨_, .descendFail hv (by omega) hready hrun, hrep', hkeeps⟩

end Step

variable {r : Except PagingError Unit} {fuel : Nat} {cursor : Nat × Nat}

theorem mapLoop_refines (hchild : MapRefines T A limit level child) (he : c.endVaddr ≤ usizeMax)
    (h : (Frame.mapLoop T A child (level + 1) frame c fuel cursor >>= fun _ => pure ()) m = (r.mapError .err, m'))
    (t : Tree P) (hrep : Represents T (level + 1) frame m t) (hpage : OnPage T limit c.endVaddr cursor.1 cursor.2) :
    ∃ t', MapRun T A limit c.pteTemplate (level + 1) c.endVaddr cursor.1 cursor.2 t m.log r t' m'.log ∧
      Represents T (level + 1) frame m' t' ∧ Keeps m t m' t' := by
  revert t hpage
  refine Frame.mapLoop_elim h ?_ ?_ ?_
  · intro cursor hv hr t hrep _
    subst hr
    exact ⟨t, .done hv, hrep, Keeps.refl _ _⟩
  · intro cursor m error hv hr hstep t hrep hpage
    subst hr
    exact mapStep_fails hcodec hA hchild hrep hpage he hv hstep
  · intro cursor m cursor₁ m₁ hv hstep ih t hrep hpage
    obtain ⟨hpage₁, -, t₁, hrep₁, hkeeps₁, hrun⟩ := mapStep_run hcodec hA hchild hrep hpage he hv hstep
    obtain ⟨t', hrest, hrep', hkeeps'⟩ := ih t₁ hrep₁ hpage₁
    exact ⟨t', hrun (.inl rfl) hrest, hrep', hkeeps₁.trans hkeeps'⟩

omit hcodec hA in
/-- There is no level 0: a call there returns only if the range is empty. -/
theorem mapLoop_zero
    (h : (Frame.mapLoop T A child 0 frame c fuel cursor >>= fun _ => pure ()) m = (r.mapError .err, m')) :
    c.endVaddr ≤ cursor.1 ∧ r = .ok () ∧ m' = m := by
  refine Frame.mapLoop_elim h ?_ ?_ ?_
  · intro _ hv hr
    exact ⟨hv, hr, rfl⟩
  · intro _ _ _ _ _ hstep
    exact absurd (Frame.mapStep_error hstep).1.1 (lt_irrefl 0)
  · intro _ _ _ _ _ hstep _
    exact absurd (Frame.mapStep_ok hstep).1.1 (lt_irrefl 0)

theorem mapRangeRecursive_refines (level : Nat) :
    MapRefines T A limit level (Frame.mapRangeRecursive T A level) := by
  induction level with
  | zero =>
    intro frame c m t r m' _ _ hrep h
    obtain ⟨hv, rfl, rfl⟩ := mapLoop_zero h
    exact ⟨t, .done hv, hrep, Keeps.refl _ _⟩
  | succ level ih =>
    intro frame c m t r m' hpage he hrep h
    exact mapLoop_refines hcodec hA ih he h t hrep hpage

end Map

end Sparreal.Paging
