import Sparreal.Paging.Represent

/-!
# `unmap_range_recursive` refines its runs on trees

The counterpart of `RefineMap`. Unmapping returns no error of its own, so a call that returns is an
`UnmapRun` (`unmapRangeRecursive_refines`, `unmapRangeRecursive_ne_err`).
-/

namespace Sparreal.Paging

variable {P : Type} [PageTableEntry P] {T : TableMeta P} {limit : Nat}

namespace Frame

variable {child : PhysAddr → UnmapRecursiveConfig → Run P Bool} {level : Nat} {frame : PhysAddr}
  {c : UnmapRecursiveConfig} {m m' : Machine P} {v v' : Nat} {flag flag' : Bool} {fault : Fault}

/-- Whether the loop of `unmap_range_recursive` clears a valid entry or descends below it. -/
theorem pointsToTable_of_valid {pte : P} (hpos : 0 < level)
    (hvalid : (toConfig pte (decide (1 < level))).valid = true) :
    pointsToTable level pte = !(level == 1 || (toConfig pte (decide (1 < level))).huge) := by
  by_cases hone : 1 < level
  · have hne : (level == 1) = false := beq_false_of_ne (by omega)
    simp only [hone, decide_true] at hvalid ⊢
    rw [pointsToTable, isDirectory, hvalid, hne, decide_eq_true hone]
    rfl
  · have heq : (level == 1) = true := beq_iff_eq.mpr (by omega)
    rw [pointsToTable, heq, decide_eq_false hone]
    rfl

omit [PageTableEntry P] in
theorem step_eq {huge : Bool} (hfinal : (level == 1 || huge) = true) :
    (if huge then T.size level else T.pageSize) = T.size level := by
  cases huge with
  | true => rfl
  | false =>
    obtain rfl : level = 1 := by simpa using hfinal
    exact T.size_one.symm

theorem clearEntry_eq (index : Nat) (flush : Bool) (v : Nat) :
    clearEntry frame index flush v m =
      (.ok (), if flush then (m.write frame index (fromConfig invalidConfig)).flush v
        else m.write frame index (fromConfig invalidConfig)) := by
  cases flush <;> rfl

theorem clearEntry_ok {index : Nat} {flush : Bool} {u : Unit} (h : clearEntry frame index flush v m = (.ok u, m')) :
    m'.mem = (m.write frame index (fromConfig invalidConfig)).mem ∧ m'.log = m.log := by
  rw [clearEntry_eq] at h
  obtain rfl : _ = m' := congrArg Prod.snd h
  split_ifs <;> exact ⟨rfl, rfl⟩

def unmapChildConfig (T : TableMeta P) (level : Nat) (c : UnmapRecursiveConfig) (v : Nat) :
    UnmapRecursiveConfig :=
  { c with startVaddr := v, endVaddr := min (T.entryEnd level v) c.endVaddr }

/-! ### The cases of an iteration -/

omit [PageTableEntry P] in
theorem ofExcept_virtToIndex (hl : T.Addressable level) (v : Nat) (m : Machine P) :
    (Exec.ofExcept (T.virtToIndex v level) : Run P Nat) m = (.ok (T.slot level v), m) := by
  rw [Exec.ofExcept_apply, T.virtToIndex_eq_ok.mpr ⟨hl, rfl⟩]

theorem unmapStep_of_not_addressable (hl : ¬ T.Addressable level) (cursor : Nat × Bool) :
    unmapStep T child level frame c cursor m = (.error .panic, m) := by
  have hindex : T.virtToIndex cursor.1 level = .error .panic := T.virtToIndex_eq_error.mpr ⟨hl, rfl⟩
  rw [unmapStep, hindex]
  rfl

/-- An invalid entry is stepped over and a final one cleared. A table is entered, and given back if nothing is left in
it. -/
theorem unmapStep_eq (hl : T.Addressable level) : unmapStep T child level frame c (v, flag) m =
    (if (toConfig (m.mem frame (T.slot level v)) (decide (1 < level))).valid = false then
      Exec.ofExcept (addUsize v (min (T.size level) (c.endVaddr - v))) >>= fun v' => pure (v', flag)
    else if pointsToTable level (m.mem frame (T.slot level v)) = false then
      clearEntry frame (T.slot level v) c.flush v >>= fun _ =>
        Exec.ofExcept (addUsize v (T.size level)) >>= fun v' => pure (v', flag)
    else
      Exec.ofExcept (mulUsize (v / T.size level + 1) (T.size level)) >>= fun _ =>
        child (childPaddr (m.mem frame (T.slot level v))) (unmapChildConfig T level c v) >>= fun reclaim =>
          if reclaim then do
            writeEntry frame (T.slot level v) (fromConfig invalidConfig)
            deallocFrame (childPaddr (m.mem frame (T.slot level v)))
            pure (min (T.entryEnd level v) c.endVaddr, flag)
          else pure (min (T.entryEnd level v) c.endVaddr, false) : Run P (Nat × Bool)) m := by
  rw [unmapStep, Exec.bind_apply_ok (ofExcept_virtToIndex hl v m), T.levelSize_eq hl, readEntry,
    Exec.bind_apply_ok (Exec.gets_apply _ m)]
  cases hvalid : (toConfig (m.mem frame (T.slot level v)) (decide (1 < level))).valid with
  | false => rfl
  | true =>
    have hfinal := pointsToTable_of_valid hl.1 hvalid
    rw [if_neg (by decide), if_neg (show ¬ true = false from nofun)]
    cases hp : pointsToTable level (m.mem frame (T.slot level v)) with
    | false =>
      rw [hp, eq_comm, Bool.not_eq_false'] at hfinal
      rw [if_pos hfinal, if_pos rfl, step_eq hfinal]
    | true =>
      rw [hp, eq_comm, Bool.not_eq_true'] at hfinal
      rw [if_neg (by rw [hfinal]; exact Bool.false_ne_true), if_neg nofun,
        decide_eq_true (pointsToTable_eq_true.mp hp).1, Exec.bind_apply, Exec.bind_apply, Exec.ofExcept_apply]
      rcases hstop : mulUsize (v / T.size level + 1) (T.size level) with fault | stop
      · rfl
      · obtain ⟨-, rfl⟩ := mulUsize_eq_ok.mp hstop
        rfl

theorem unmapStep_ok (h : unmapStep T child level frame c (v, flag) m = (.ok (v', flag'), m')) :
    T.Addressable level ∧
      ((toConfig (m.mem frame (T.slot level v)) (decide (1 < level))).valid = false ∧
        v' = v + min (T.size level) (c.endVaddr - v) ∧ flag' = flag ∧ m' = m ∨
      (toConfig (m.mem frame (T.slot level v)) (decide (1 < level))).valid = true ∧
        pointsToTable level (m.mem frame (T.slot level v)) = false ∧
        v' = v + T.size level ∧ v' < usizeRange ∧ flag' = flag ∧
        m'.mem = (m.write frame (T.slot level v) (fromConfig invalidConfig)).mem ∧ m'.log = m.log ∨
      pointsToTable level (m.mem frame (T.slot level v)) = true ∧
        v' = min (T.entryEnd level v) c.endVaddr ∧ T.entryEnd level v < usizeRange ∧ ∃ reclaim m₁,
        child (childPaddr (m.mem frame (T.slot level v))) (unmapChildConfig T level c v) m =
          (.ok reclaim, m₁) ∧
        (reclaim = true ∧ flag' = flag ∧
          m' = (m₁.write frame (T.slot level v) (fromConfig invalidConfig)).release
            (childPaddr (m.mem frame (T.slot level v))) ∨
        reclaim = false ∧ flag' = false ∧ m' = m₁)) := by
  by_cases hl : T.Addressable level
  swap
  · rw [unmapStep_of_not_addressable hl] at h
    exact absurd (congrArg Prod.fst h) (by simp)
  refine ⟨hl, ?_⟩
  rw [unmapStep_eq hl] at h
  split_ifs at h with hvalid hp
  · obtain ⟨v₁, hv₁, h⟩ := Exec.ofExcept_bind_eq_ok.mp h
    simp only [Exec.pure_apply, Prod.mk.injEq, Except.ok.injEq] at h
    obtain ⟨⟨rfl, rfl⟩, rfl⟩ := h
    exact .inl ⟨hvalid, (addUsize_eq_ok.mp hv₁).2, rfl, rfl⟩
  · obtain ⟨⟨⟩, m₁, hclear, h⟩ := Exec.bind_eq_ok.mp h
    obtain ⟨v₁, hv₁, h⟩ := Exec.ofExcept_bind_eq_ok.mp h
    simp only [Exec.pure_apply, Prod.mk.injEq, Except.ok.injEq] at h
    obtain ⟨⟨rfl, rfl⟩, rfl⟩ := h
    obtain ⟨hfits, rfl⟩ := addUsize_eq_ok.mp hv₁
    exact .inr (.inl ⟨Bool.eq_true_of_not_eq_false hvalid, hp, rfl, hfits, rfl, clearEntry_ok hclear⟩)
  · obtain ⟨stop, hstop, h⟩ := Exec.ofExcept_bind_eq_ok.mp h
    obtain ⟨reclaim, m₁, hchild, h⟩ := Exec.bind_eq_ok.mp h
    refine .inr (.inr ⟨Bool.eq_true_of_not_eq_false hp, ?_⟩)
    cases reclaim with
    | true =>
      simp only [if_true, writeEntry, deallocFrame, Exec.modify_apply, Exec.bind_apply,
        Exec.pure_apply, Prod.mk.injEq, Except.ok.injEq] at h
      exact ⟨h.1.1.symm, (mulUsize_eq_ok.mp hstop).1, true, m₁, hchild, .inl ⟨rfl, h.1.2.symm, h.2.symm⟩⟩
    | false =>
      rw [if_neg Bool.false_ne_true] at h
      simp only [Exec.pure_apply, Prod.mk.injEq, Except.ok.injEq] at h
      exact ⟨h.1.1.symm, (mulUsize_eq_ok.mp hstop).1, false, m₁, hchild, .inr ⟨rfl, h.1.2.symm, h.2.symm⟩⟩

omit [PageTableEntry P] in
theorem advance_error {step : Nat}
    (h : (Exec.ofExcept (addUsize v step) >>= fun v' => pure (v', flag) : Run P (Nat × Bool)) m =
      (.error fault, m')) : usizeRange ≤ v + step ∧ fault = .panic := by
  rcases Exec.ofExcept_bind_eq_error.mp h with ⟨hv, -⟩ | ⟨v', -, h⟩
  · exact addUsize_eq_error.mp hv
  · simp at h

/-- Where one iteration can fault: in its own machine arithmetic, or in the call below. -/
theorem unmapStep_error (h : unmapStep T child level frame c (v, flag) m = (.error fault, m')) :
    fault = .panic ∧ (¬ T.Addressable level ∨ usizeRange ≤ v + min (T.size level) (c.endVaddr - v) ∨
        (toConfig (m.mem frame (T.slot level v)) (decide (1 < level))).valid = true ∧
          (usizeRange ≤ v + T.size level ∨ usizeRange ≤ T.entryEnd level v)) ∨
      pointsToTable level (m.mem frame (T.slot level v)) = true ∧
        child (childPaddr (m.mem frame (T.slot level v))) (unmapChildConfig T level c v) m =
          (.error fault, m') := by
  by_cases hl : T.Addressable level
  swap
  · rw [unmapStep_of_not_addressable hl] at h
    exact .inl ⟨(Except.error.inj (congrArg Prod.fst h)).symm, .inl hl⟩
  rw [unmapStep_eq hl] at h
  split_ifs at h with hvalid hp
  · obtain ⟨hover, hfault⟩ := advance_error h
    exact .inl ⟨hfault, .inr (.inl hover)⟩
  · rw [Exec.bind_apply_ok (clearEntry_eq _ _ _)] at h
    obtain ⟨hover, hfault⟩ := advance_error h
    exact .inl ⟨hfault, .inr (.inr ⟨Bool.eq_true_of_not_eq_false hvalid, .inl hover⟩)⟩
  · rcases Exec.ofExcept_bind_eq_error.mp h with ⟨hstop, -⟩ | ⟨stop, hstop, h⟩
    · obtain ⟨hover, hfault⟩ := mulUsize_eq_error.mp hstop
      exact .inl ⟨hfault, .inr (.inr ⟨Bool.eq_true_of_not_eq_false hvalid, .inr hover⟩)⟩
    rcases Exec.bind_eq_error.mp h with hchild | ⟨reclaim, m₁, -, h⟩
    · exact .inr ⟨Bool.eq_true_of_not_eq_false hp, hchild⟩
    · cases reclaim <;> simp [Exec.bind_apply, writeEntry, deallocFrame] at h

end Frame

/-! ### Unmapping -/

/-- A call on a level-`level` table that returns is a run on its tree. -/
def UnmapRefines (T : TableMeta P) (level : Nat)
    (call : PhysAddr → UnmapRecursiveConfig → Run P Bool) : Prop :=
  ∀ {frame c m t r m'}, Represents T level frame m t → call frame c m = (.ok r, m') →
    ∃ t', UnmapRun T level c.endVaddr c.startVaddr true t m.log r t' m'.log ∧
      Represents T level frame m' t' ∧ Keeps m t m' t'

variable {level : Nat}

section Unmap

variable (hcodec : KeepsDirectories T limit) {child : PhysAddr → UnmapRecursiveConfig → Run P Bool}
  {level : Nat} {frame : PhysAddr} {c : UnmapRecursiveConfig} {m m' : Machine P} {t : Tree P}

include hcodec

theorem unmapStep_refines {v v' : Nat} {flag flag' : Bool}
    (hchild : 0 < level → UnmapRefines T level child) (hrep : Represents T (level + 1) frame m t)
    (hv : v < c.endVaddr)
    (h : Frame.unmapStep T child (level + 1) frame c (v, flag) m = (.ok (v', flag'), m')) :
    ∃ t', Represents T (level + 1) frame m' t' ∧ Keeps m t m' t' ∧
      ∀ {r t'' log''}, UnmapRun T (level + 1) c.endVaddr v' flag' t' m'.log r t'' log'' →
        UnmapRun T (level + 1) c.endVaddr v flag t m.log r t'' log'' := by
  obtain ⟨hl, hcases⟩ := Frame.unmapStep_ok h
  have hi : T.slot (level + 1) v < T.len := T.slot_lt _ _
  have hinvalid := hcodec.pointsToTable_invalid (level + 1)
  rw [← hrep.entry] at hcases
  rcases hcases with ⟨hfree, rfl, rfl, rfl⟩ | ⟨hvalid, hfinal, rfl, -, rfl, hmem, hlog⟩ |
    ⟨hp, rfl, -, reclaim, m₁, hcall, hend⟩
  · exact ⟨t, hrep, Keeps.refl _ _, .skip hv hfree⟩
  · obtain ⟨hrep₁, hkeeps₁⟩ := hrep.write (i := T.slot (level + 1) v) hinvalid
    obtain ⟨hrep₂, hkeeps₂⟩ := hrep₁.congr hmem hlog
    refine ⟨_, hrep₂, hkeeps₁.trans hkeeps₂, fun hrest => ?_⟩
    rw [hlog] at hrest
    exact .clear hv hvalid hfinal hrest
  · have hlevel := pos_of_pointsToTable hp
    obtain ⟨k, hrun, hrepk, hkeepsk⟩ := hchild hlevel (hrep.kid hi hp) hcall
    obtain ⟨hrep₁, hkeeps₁⟩ := hrep.setKid hi hp hrepk hkeepsk
    rcases hend with ⟨rfl, rfl, rfl⟩ | ⟨rfl, rfl, rfl⟩
    · obtain ⟨hrep₂, hkeeps₂⟩ := hrep₁.unlink hlevel hi (by simpa using hp) hinvalid
      rw [Tree.entry_setKid, Tree.setKid, Tree.set_set] at hrep₂ hkeeps₂
      exact ⟨_, hrep₂, hkeeps₁.trans hkeeps₂, .reclaim hv hp hrun⟩
    · exact ⟨_, hrep₁, hkeeps₁, .keep hv hp hrun⟩

theorem unmapLoop_refines (hchild : 0 < level → UnmapRefines T level child) {fuel : Nat}
    {cursor cursor' : Nat × Bool}
    (h : Frame.unmapLoop T child (level + 1) frame c fuel cursor m = (.ok cursor', m')) (t : Tree P)
    (hrep : Represents T (level + 1) frame m t) :
    ∃ t', UnmapRun T (level + 1) c.endVaddr cursor.1 cursor.2 t m.log (cursor'.2 && t'.isEmpty T) t'
        m'.log ∧ Represents T (level + 1) frame m' t' ∧ Keeps m t m' t' := by
  revert t
  refine Exec.loop_ok_elim h ?_ ?_
  · intro hcond t hrep
    exact ⟨t, .done (by simpa using hcond), hrep, Keeps.refl _ _⟩
  · intro cursor m cursor₁ m₁ hcond hstep ih t hrep
    obtain ⟨t₁, hrep₁, hkeeps₁, hrun⟩ :=
      unmapStep_refines hcodec hchild hrep (by simpa using hcond) hstep
    obtain ⟨t', hrest, hrep', hkeeps'⟩ := ih t₁ hrep₁
    exact ⟨t', hrun hrest, hrep', hkeeps₁.trans hkeeps'⟩

theorem unmapRangeRecursive_refines (hlevel : 0 < level) :
    UnmapRefines T level (Frame.unmapRangeRecursive T level) := by
  induction level with
  | zero => exact absurd hlevel (lt_irrefl 0)
  | succ level ih =>
    intro frame c m t r m' hrep h
    obtain ⟨cursor, m₁, hloop, h⟩ := Exec.bind_eq_ok.mp h
    obtain ⟨t', hrun, hrep', hkeeps⟩ := unmapLoop_refines hcodec (fun hpos => ih hpos) hloop t hrep
    simp only [Frame.reclaimable, Exec.gets_apply, Prod.mk.injEq, Except.ok.injEq] at h
    obtain ⟨rfl, rfl⟩ := h
    have hempty : Frame.isFrameEmpty T m₁.mem frame = t'.isEmpty T := by
      rw [← hrep'.table]
      rfl
    rw [hempty]
    exact ⟨t', hrun, hrep', hkeeps⟩

end Unmap

variable {child : PhysAddr → UnmapRecursiveConfig → Run P Bool} {c : UnmapRecursiveConfig} {frame : PhysAddr}

theorem unmapLoop_ne_err {error : PagingError} (hchild : ∀ frame c m m', child frame c m ≠ (.error (.err error), m'))
    {fuel : Nat} {cursor : Nat × Bool} {m m' : Machine P} :
    Frame.unmapLoop T child level frame c fuel cursor m ≠ (.error (.err error), m') := by
  intro h
  refine Exec.loop_elim (motive := fun _ _ out _ => out ≠ .error (.err error)) ?_ ?_ ?_ ?_ h rfl
  · intro _ _ _ hout
    simp at hout
  · intro _ _ _ hout
    simp at hout
  · intro cursor m fault m' _ hstep hout
    obtain rfl := Except.error.inj hout
    rcases Frame.unmapStep_error hstep with ⟨hfault, -⟩ | ⟨-, hcall⟩
    · exact Fault.noConfusion hfault
    · exact hchild _ _ _ _ hcall
  · intro _ _ _ _ _ _ _ _ ih
    exact ih

theorem unmapRangeRecursive_ne_err (T : TableMeta P) (level : Nat) (frame : PhysAddr)
    (c : UnmapRecursiveConfig) (m m' : Machine P) (error : PagingError) :
    Frame.unmapRangeRecursive T level frame c m ≠ (.error (.err error), m') := by
  induction level generalizing frame c m m' with
  | zero =>
    intro h
    rcases Exec.bind_eq_error.mp h with h | ⟨_, _, -, h⟩
    · exact unmapLoop_ne_err (fun _ _ _ _ h => by simp at h) h
    · simp [Frame.reclaimable] at h
  | succ level ih =>
    intro h
    rcases Exec.bind_eq_error.mp h with h | ⟨_, _, -, h⟩
    · exact unmapLoop_ne_err ih h
    · simp [Frame.reclaimable] at h

/-- One iteration returns, and the loop advances, if a valid entry ends inside the address space and the call
below returns. -/
theorem unmapStep_returns (hl : T.Addressable level) {v : Nat} (flag : Bool) (m : Machine P)
    (hend : c.endVaddr < usizeRange) (hv : v < c.endVaddr)
    (hroom : (toConfig (m.mem frame (T.slot level v)) (decide (1 < level))).valid = true →
      v + T.size level < usizeRange ∧ T.entryEnd level v < usizeRange)
    (hchild : pointsToTable level (m.mem frame (T.slot level v)) = true → ∃ r m',
      child (childPaddr (m.mem frame (T.slot level v))) (Frame.unmapChildConfig T level c v) m = (.ok r, m')) :
    ∃ cursor' m', Frame.unmapStep T child level frame c (v, flag) m = (.ok cursor', m') ∧
      v < cursor'.1 := by
  rcases hrun : Frame.unmapStep T child level frame c (v, flag) m with ⟨fault | ⟨v', flag'⟩, m'⟩
  · exfalso
    rcases Frame.unmapStep_error hrun with ⟨-, hl' | hover | ⟨hvalid, hover⟩⟩ | ⟨hp, hcall⟩
    · exact hl' hl
    · omega
    · have := hroom hvalid
      omega
    · obtain ⟨r, m'', hok⟩ := hchild hp
      rw [hok] at hcall
      simp at hcall
  · refine ⟨(v', flag'), m', rfl, ?_⟩
    have hpos := T.size_pos level
    have hlt := T.lt_entryEnd level v
    show v < v'
    rcases (Frame.unmapStep_ok hrun).2 with ⟨-, rfl, -⟩ | ⟨-, -, rfl, -⟩ | ⟨-, rfl, -⟩ <;> omega

theorem unmapLoop_returns (hl : T.Addressable level) (hend : c.endVaddr + T.size level ≤ usizeRange)
    (hchild : ∀ v (m : Machine P) (pte : P), pointsToTable level pte = true →
      ∃ r m', child (childPaddr pte) (Frame.unmapChildConfig T level c v) m = (.ok r, m')) (cursor : Nat × Bool)
    (m : Machine P) :
    ∃ cursor' m', Frame.unmapLoop T child level frame c (c.endVaddr - cursor.1) cursor m =
      (.ok cursor', m') := by
  refine Exec.loop_returns (I := fun _ _ => True) (fun cursor => c.endVaddr - cursor.1) ?_ _ cursor m le_rfl trivial
  rintro ⟨v, flag⟩ m _ hv
  have hv : v < c.endVaddr := of_decide_eq_true hv
  have hentry : T.entryEnd level v ≤ v + T.size level := by
    rw [TableMeta.entryEnd, Nat.succ_mul]
    exact Nat.add_le_add_right (Nat.div_mul_le_self v (T.size level)) _
  have hpos := T.size_pos level
  obtain ⟨cursor', m', hstep, hlt⟩ :=
    unmapStep_returns hl flag m (by omega) hv (fun _ => by omega) (hchild v m _)
  exact ⟨cursor', m', hstep, trivial, by show c.endVaddr - cursor'.1 < c.endVaddr - v; omega⟩

theorem unmapRangeRecursive_returns (hl : T.Addressable level) (frame : PhysAddr) (c : UnmapRecursiveConfig)
    (hend : c.endVaddr + T.size level ≤ usizeRange) (m : Machine P) :
    ∃ r m', Frame.unmapRangeRecursive T level frame c m = (.ok r, m') := by
  induction level generalizing frame c m with
  | zero => exact absurd hl.1 (lt_irrefl 0)
  | succ level ih =>
    have hchild : ∀ v (m : Machine P) (pte : P), pointsToTable (level + 1) pte = true → ∃ r m',
        Frame.unmapRangeRecursive T level (childPaddr pte) (Frame.unmapChildConfig T (level + 1) c v) m =
          (.ok r, m') := by
      intro v m pte hp
      have hpos := pos_of_pointsToTable hp
      have hsize : T.size level ≤ T.size (level + 1) := T.size_le_size (Nat.le_succ level)
      have hle : (Frame.unmapChildConfig T (level + 1) c v).endVaddr ≤ c.endVaddr := Nat.min_le_right _ _
      exact ih (hl.mono hpos (Nat.le_succ _)) _ _ (by omega) m
    obtain ⟨cursor', m', hloop⟩ := unmapLoop_returns hl hend hchild (c.startVaddr, true) m
    exact ⟨_, _, Exec.bind_apply_ok hloop⟩

end Sparreal.Paging
