import Sparreal.Paging.Tree

/-!
# The page-table walker

`PageTableWalker` of `walk.rs`: an iterator over the entries of a page table that keeps its place in
the tables on a stack of at most `MAX_WALK_DEPTH` states. Walking only reads memory; the state of the
computation is the walker. `walk_all`, `walk` and `walk_valid` of `table.rs` are modelled by the list
of what the iterator yields.

The walker visits the entries depth first and does not enter, or yield, an entry that begins before
the start of the range (`visit`). `walkAll_eq` shows that it yields exactly these entries up to the end
of the range.
-/

namespace Sparreal.Paging

variable {P : Type}

structure PteInfo (P : Type) where
  level : Nat
  vaddr : Nat
  isFinalMapping : Bool
  pte : P
  deriving DecidableEq, Repr

structure WalkConfig where
  startVaddr : Nat
  endVaddr : Nat

structure WalkState where
  frame : PhysAddr
  level : Nat
  index : Nat
  baseVaddr : Nat

/-- `PageTableWalker`; the top of the stack is the head of the list. -/
structure PageTableWalker where
  config : WalkConfig
  stack : List WalkState
  finished : Bool

def maxWalkDepth : Nat := 8

namespace PageTableWalker

variable [PageTableEntry P] (T : TableMeta P)

/-- `stack.push(state).ok()`, which drops the state if the stack is full. -/
def push (stack : List WalkState) (state : WalkState) : List WalkState :=
  if stack.length < maxWalkDepth then state :: stack else stack

def new (root : PhysAddr) (config : WalkConfig) : PageTableWalker :=
  if config.startVaddr < config.endVaddr then
    { config := config
      stack := push [] { frame := root, level := T.ptLevel, index := 0, baseVaddr := 0 }
      finished := false }
  else { config := config, stack := [], finished := true }

/-- One iteration of the loop of `PageTableWalker::find_next_entry`; `none` is `continue`. -/
def findNextStep (mem : PhysAddr → Nat → P) :
    Exec Fault PageTableWalker (Option (Option (PteInfo P))) := fun walker =>
  if walker.finished then (.ok (some none), walker)
  else match walker.stack with
  | [] => (.ok (some none), { walker with finished := true })
  | state :: rest =>
    if T.len ≤ state.index then (.ok none, { walker with stack := rest })
    else
      let pte := mem state.frame state.index
      let stack := { state with index := state.index + 1 } :: rest
      match T.reconstructVaddr state.index state.level state.baseVaddr with
      | .error fault => (.error fault, { walker with stack := stack })
      | .ok currentVaddr =>
        if currentVaddr < walker.config.startVaddr then (.ok none, { walker with stack := stack })
        else if walker.config.endVaddr ≤ currentVaddr then
          (.ok (some none), { walker with stack := stack, finished := true })
        else
          let pteConfig := toConfig pte (decide (1 < state.level))
          let info : PteInfo P :=
            { level := state.level
              vaddr := currentVaddr
              isFinalMapping := pteConfig.valid && (pteConfig.huge || state.level == 1)
              pte := pte }
          if pteConfig.valid && !pteConfig.huge && decide (1 < state.level) then
            let child : WalkState :=
              { frame := pteConfig.paddr
                level := state.level - 1
                index := 0
                baseVaddr := currentVaddr }
            (.ok (some (some info)), { walker with stack := push stack child })
          else (.ok (some (some info)), { walker with stack := stack })

/-- `PageTableWalker::find_next_entry`, which is all `next` does. -/
def findNextEntry (mem : PhysAddr → Nat → P) (fuel : Nat) :
    Exec Fault PageTableWalker (Option (PteInfo P)) :=
  Exec.repeatUntil .diverge (findNextStep T mem) fuel

/-- The iterations one entry of a level-`level` table can cost: its own, and those for the entries and
the end of a table below it. -/
def entryCost : Nat → Nat
  | 0 => 1
  | level + 1 => T.len * entryCost level + 2

/-- More iterations than a walk can take. -/
def fuel : Nat := T.len * entryCost T T.ptLevel + 2

end PageTableWalker

namespace PageTableRef

variable [PageTableEntry P] (T : TableMeta P)

/-- What the iterator of `PageTableRef::walk_all` yields. -/
def walkAll (m : Machine P) (root : PhysAddr) (config : WalkConfig) :
    Except Fault (List (PteInfo P)) :=
  (Exec.collect .diverge (PageTableWalker.findNextEntry T m.mem (PageTableWalker.fuel T))
    (PageTableWalker.fuel T) (PageTableWalker.new T root config)).1

/-- What the iterator of `PageTableRef::walk` yields. -/
def walk (m : Machine P) (root : PhysAddr) (startVaddr endVaddr : Nat) :
    Except Fault (List (PteInfo P)) :=
  (walkAll T m root { startVaddr := startVaddr, endVaddr := endVaddr }).map fun infos =>
    infos.filter fun p => (toConfig p.pte false).valid

/-- What the iterator of `PageTableRef::walk_valid` yields. -/
def walkValid (m : Machine P) (root : PhysAddr) : Except Fault (List (PteInfo P)) :=
  (walk T m root 0 usizeMax).map fun infos =>
    infos.filter fun p => (toConfig p.pte false).valid && p.isFinalMapping

end PageTableRef

/-! ### The entries in depth-first order -/

section

variable [PageTableEntry P] (T : TableMeta P)

/-- Entry `i` of a level-`level` table whose range begins at `base`. -/
def entryInfo (level : Nat) (t : Tree P) (base i : Nat) : PteInfo P where
  level := level
  vaddr := base + i * T.size level
  isFinalMapping :=
    (toConfig (t.entry i) (decide (1 < level))).valid &&
      ((toConfig (t.entry i) (decide (1 < level))).huge || level == 1)
  pte := t.entry i

/-- Entry `i` and what is below it, unless the entry begins before `start`; `below` visits a table one
level below. -/
def visitEntry (start : Nat) (below : Tree P → Nat → List (PteInfo P)) (level : Nat) (t : Tree P)
    (base i : Nat) : List (PteInfo P) :=
  if base + i * T.size level < start then []
  else entryInfo T level t base i ::
    if pointsToTable level (t.entry i) then below (t.kid i) (base + i * T.size level) else []

/-- The entries of a level-`level` table whose range begins at `base`, depth first, leaving out what
begins before `start`. -/
def visit (start : Nat) : Nat → Tree P → Nat → List (PteInfo P)
  | 0, _, _ => []
  | level + 1, t, base =>
    (List.range T.len).flatMap (visitEntry T start (visit start level) (level + 1) t base)

end

/-! ### The walker visits the entries in this order -/

theorem TableMeta.row_le (T : TableMeta P) {level i : Nat} (hpos : 0 < level) (hi : i < T.len) :
    i * T.size level + T.size level ≤ T.size (level + 1) := by
  rw [T.size_succ hpos, Nat.mul_comm (T.size level), ← Nat.succ_mul]
  exact Nat.mul_le_mul_right _ hi

theorem TableMeta.size_le_usizeRange (T : TableMeta P) (hbits : T.ptValidBits ≤ 64) :
    T.size (T.ptLevel + 1) ≤ usizeRange := by
  rw [T.size_ptLevel_succ]
  exact Nat.pow_le_pow_right (by norm_num) hbits

namespace PageTableWalker

variable [PageTableEntry P] (T : TableMeta P)

/-- What a state on the stack stands for: the entries from `index` on. -/
def rest (mem : PhysAddr → Nat → P) (start : Nat) (state : WalkState) : List (PteInfo P) :=
  (List.range' state.index (T.len - state.index)).flatMap
    (visitEntry T start (visit T start (state.level - 1)) state.level
      (tableAt T mem state.level state.frame) state.baseVaddr)

/-- Does an entry begin before the end of the range? -/
def beforeEnd (endVaddr : Nat) (info : PteInfo P) : Bool := decide (info.vaddr < endVaddr)

def remaining (mem : PhysAddr → Nat → P) (walker : PageTableWalker) : List (PteInfo P) :=
  if walker.finished then []
  else (walker.stack.flatMap (rest T mem walker.config.startVaddr)).takeWhile
    (beforeEnd walker.config.endVaddr)

theorem remaining_false (mem : PhysAddr → Nat → P) (config : WalkConfig) (stack : List WalkState) :
    remaining T mem ⟨config, stack, false⟩ =
      (stack.flatMap (rest T mem config.startVaddr)).takeWhile (beforeEnd config.endVaddr) :=
  if_neg Bool.false_ne_true

def cost (stack : List WalkState) : Nat :=
  (stack.map fun state => (T.len - state.index) * entryCost T state.level + 1).sum

/-- The levels of the stack go down from the root without a gap, and every table lies in the index
space. -/
def Stacked : List WalkState → Prop
  | [] => True
  | state :: rest => 0 < state.level ∧ state.level + rest.length = T.ptLevel ∧
      state.baseVaddr + T.size (state.level + 1) ≤ T.size (T.ptLevel + 1) ∧ Stacked rest

variable {T} {mem : PhysAddr → Nat → P} {state : WalkState}

theorem rest_eq {start : Nat} (h : state.index < T.len) :
    rest T mem start state =
      visitEntry T start (visit T start (state.level - 1)) state.level
          (tableAt T mem state.level state.frame) state.baseVaddr state.index ++
        rest T mem start { state with index := state.index + 1 } := by
  obtain ⟨n, hn⟩ := Nat.exists_eq_add_one.mpr (Nat.sub_pos_of_lt h)
  rw [rest, rest, hn, show T.len - (state.index + 1) = n by omega, List.range'_succ, List.flatMap_cons]

theorem rest_zero {start frame level base : Nat} (h : 0 < level) :
    rest T mem start ⟨frame, level, 0, base⟩ = visit T start level (tableAt T mem level frame) base := by
  obtain ⟨level, rfl⟩ := Nat.exists_eq_add_one.mpr (by omega)
  rw [rest, visit, Nat.sub_zero, ← List.range_eq_range', Nat.add_sub_cancel]

theorem descends_eq (level : Nat) (pte : P) :
    ((toConfig pte (decide (1 < level))).valid && !(toConfig pte (decide (1 < level))).huge &&
      decide (1 < level)) = pointsToTable level pte := by
  by_cases h : 1 < level
  · simp only [pointsToTable, isDirectory, h, decide_true, Bool.and_true, Bool.true_and]
  · simp only [pointsToTable, h, decide_false, Bool.and_false, Bool.false_and]

omit [PageTableEntry P] in
theorem cost_cons (state : WalkState) (stack : List WalkState) :
    cost T (state :: stack) = (T.len - state.index) * entryCost T state.level + 1 + cost T stack := by
  rw [cost, List.map_cons, List.sum_cons, cost]

omit [PageTableEntry P] in
theorem cost_next (hpos : 0 < state.level) (hi : state.index < T.len) (stack : List WalkState) :
    cost T ({ state with index := state.index + 1 } :: stack) +
      (T.len * entryCost T (state.level - 1) + 1) < cost T (state :: stack) := by
  obtain ⟨level, hlevel⟩ := Nat.exists_eq_add_one.mpr hpos
  obtain ⟨n, hn⟩ := Nat.exists_eq_add_one.mpr (Nat.sub_pos_of_lt hi)
  rw [cost_cons, cost_cons, hlevel, hn, show T.len - (state.index + 1) = n by omega, Nat.succ_mul,
    entryCost, Nat.add_sub_cancel]
  omega

section

variable (hl : T.Addressable T.ptLevel) (hbits : T.ptValidBits ≤ 64)

include hl hbits

omit [PageTableEntry P] in
theorem reconstructVaddr_eq {level index base : Nat} (hpos : 0 < level) (hle : level ≤ T.ptLevel)
    (hbase : base + T.size (level + 1) ≤ T.size (T.ptLevel + 1)) (hi : index < T.len) :
    T.reconstructVaddr index level base = .ok (base + index * T.size level) := by
  have hspace := T.size_le_usizeRange hbits
  have hsize := T.size_pos level
  have hrow := T.row_le hpos hi
  have hmul : mulUsize index (T.size level) = .ok (index * T.size level) :=
    mulUsize_eq_ok.mpr ⟨by omega, rfl⟩
  have hadd : addUsize base (index * T.size level) = .ok (base + index * T.size level) :=
    addUsize_eq_ok.mpr ⟨by omega, rfl⟩
  rw [Layout.reconstructVaddr, T.levelSize_eq (hl.mono hpos hle), hmul]
  exact hadd

omit hl hbits in
theorem findNextStep_eq (mem : PhysAddr → Nat → P) (config : WalkConfig) (stack : List WalkState) {vaddr : Nat}
    (hi : state.index < T.len)
    (hvaddr : T.reconstructVaddr state.index state.level state.baseVaddr =
      .ok (state.baseVaddr + state.index * T.size state.level))
    (hv : state.baseVaddr + state.index * T.size state.level = vaddr) (hpos : 0 < state.level) :
    findNextStep T mem ⟨config, state :: stack, false⟩ =
      if vaddr < config.startVaddr then
        (.ok none, ⟨config, { state with index := state.index + 1 } :: stack, false⟩)
      else if config.endVaddr ≤ vaddr then
        (.ok (some none), ⟨config, { state with index := state.index + 1 } :: stack, true⟩)
      else
        (.ok (some (some (entryInfo T state.level (tableAt T mem state.level state.frame) state.baseVaddr
          state.index))),
          ⟨config,
            if pointsToTable state.level (mem state.frame state.index) then
              push ({ state with index := state.index + 1 } :: stack)
                ⟨childPaddr (mem state.frame state.index), state.level - 1, 0, vaddr⟩
            else { state with index := state.index + 1 } :: stack, false⟩) := by
  obtain ⟨frame, level, index, base⟩ := state
  obtain ⟨level, rfl⟩ := Nat.exists_eq_add_one.mpr hpos
  subst hv
  simp only [findNextStep, hvaddr, descends_eq, if_neg (Nat.not_le.mpr hi), Bool.false_eq_true, if_false]
  split_ifs with h₁ h₂ hp
  · rfl
  · rfl
  · simp only [entryInfo, childPaddr, decide_eq_true (pointsToTable_eq_true.mp hp).1,
      entry_tableAt mem (Nat.succ_pos level)]
  · rfl

omit hl hbits in
theorem remaining_eq {config : WalkConfig} {stack : List WalkState} (hi : state.index < T.len) :
    remaining T mem ⟨config, state :: stack, false⟩ =
      (visitEntry T config.startVaddr (visit T config.startVaddr (state.level - 1)) state.level
          (tableAt T mem state.level state.frame) state.baseVaddr state.index ++
        ({ state with index := state.index + 1 } :: stack).flatMap
          (rest T mem config.startVaddr)).takeWhile (beforeEnd config.endVaddr) := by
  rw [remaining_false, List.flatMap_cons, rest_eq hi, List.append_assoc, List.flatMap_cons]

omit hl hbits in
theorem yield_spec (hdepth : T.ptLevel ≤ maxWalkDepth) {config : WalkConfig} {stack : List WalkState}
    (hstack : Stacked T (state :: stack)) (hi : state.index < T.len)
    (hstart : ¬ state.baseVaddr + state.index * T.size state.level < config.startVaddr)
    (hend : ¬ config.endVaddr ≤ state.baseVaddr + state.index * T.size state.level) {stack' : List WalkState}
    (hstack' : (if pointsToTable state.level (mem state.frame state.index) then
        push ({ state with index := state.index + 1 } :: stack) ⟨childPaddr (mem state.frame state.index),
          state.level - 1, 0, state.baseVaddr + state.index * T.size state.level⟩
      else { state with index := state.index + 1 } :: stack) = stack') :
    Stacked T stack' ∧
      remaining T mem ⟨config, state :: stack, false⟩ =
        entryInfo T state.level (tableAt T mem state.level state.frame) state.baseVaddr state.index ::
          remaining T mem ⟨config, stack', false⟩ ∧
      cost T stack' < cost T (state :: stack) := by
  obtain ⟨hpos, hlevel, hbase, hbelow⟩ := hstack
  have hcost := cost_next hpos hi stack
  have hnext : Stacked T ({ state with index := state.index + 1 } :: stack) := ⟨hpos, hlevel, hbase, hbelow⟩
  have hin : beforeEnd config.endVaddr (entryInfo T state.level (tableAt T mem state.level state.frame)
      state.baseVaddr state.index) = true := decide_eq_true (Nat.lt_of_not_le hend)
  rw [remaining_eq hi, visitEntry, if_neg hstart, List.cons_append, List.takeWhile_cons_of_pos hin,
    entry_tableAt mem hpos, remaining_false]
  by_cases hp : pointsToTable state.level (mem state.frame state.index) = true
  · have hdeep := (pointsToTable_eq_true.mp hp).1
    have hrow := T.row_le hpos hi
    rw [if_pos hp, push, if_pos (by rw [List.length_cons]; omega)] at hstack'
    subst hstack'
    rw [if_pos hp, kid_tableAt mem hi hp, ← rest_zero (by omega), ← List.flatMap_cons, cost_cons,
      Nat.sub_zero]
    refine ⟨⟨by dsimp only; omega, by dsimp only [List.length_cons]; omega, ?_, hnext⟩, rfl,
      by dsimp only; omega⟩
    dsimp only
    rw [show state.level - 1 + 1 = state.level by omega]
    omega
  · rw [if_neg hp] at hstack'
    subst hstack'
    rw [if_neg hp, List.nil_append]
    exact ⟨hnext, rfl, by omega⟩

theorem findNextStep_spec (mem : PhysAddr → Nat → P) (hdepth : T.ptLevel ≤ maxWalkDepth)
    {walker : PageTableWalker} (hstack : Stacked T walker.stack) :
    ∃ r walker', findNextStep T mem walker = (.ok r, walker') ∧ Stacked T walker'.stack ∧
      match r with
      | none => remaining T mem walker' = remaining T mem walker ∧
          cost T walker'.stack < cost T walker.stack
      | some none => remaining T mem walker = []
      | some (some info) => remaining T mem walker = info :: remaining T mem walker' ∧
          cost T walker'.stack < cost T walker.stack := by
  obtain ⟨config, stack, finished⟩ := walker
  cases finished with
  | true => exact ⟨some none, _, rfl, hstack, rfl⟩
  | false =>
    cases stack with
    | nil => exact ⟨some none, _, rfl, hstack, rfl⟩
    | cons state stack =>
      obtain ⟨hpos, hlevel, hbase, hbelow⟩ := hstack
      by_cases hi : state.index < T.len
      · have hcost := cost_next hpos hi stack
        have hnext : Stacked T ({ state with index := state.index + 1 } :: stack) :=
          ⟨hpos, hlevel, hbase, hbelow⟩
        rw [findNextStep_eq mem config stack hi
          (reconstructVaddr_eq hl hbits hpos (by omega) hbase hi) rfl hpos]
        by_cases hstart : state.baseVaddr + state.index * T.size state.level < config.startVaddr
        · rw [if_pos hstart]
          refine ⟨none, _, rfl, hnext, ?_, by dsimp only; omega⟩
          rw [remaining_eq hi, visitEntry, if_pos hstart, List.nil_append, remaining_false]
        · rw [if_neg hstart]
          by_cases hend : config.endVaddr ≤ state.baseVaddr + state.index * T.size state.level
          · rw [if_pos hend]
            refine ⟨some none, _, rfl, hnext, ?_⟩
            rw [remaining_eq hi, visitEntry, if_neg hstart, List.cons_append]
            refine List.takeWhile_cons_of_neg fun h => ?_
            exact absurd (of_decide_eq_true h) (Nat.not_lt.mpr hend)
          · rw [if_neg hend]
            exact ⟨some (some _), _, rfl,
              yield_spec hdepth ⟨hpos, hlevel, hbase, hbelow⟩ hi hstart hend rfl⟩
      · have hstep : findNextStep T mem ⟨config, state :: stack, false⟩ =
            (.ok none, ⟨config, stack, false⟩) := by
          rw [findNextStep, if_neg Bool.false_ne_true]
          exact if_pos (Nat.le_of_not_lt hi)
        refine ⟨none, _, hstep, hbelow, ?_, by rw [cost_cons]; dsimp only; omega⟩
        rw [remaining_false, remaining_false, List.flatMap_cons, rest, show T.len - state.index = 0 by omega]
        rfl

/-- `next` hands out the next entry in depth-first order. -/
theorem findNextEntry_spec (mem : PhysAddr → Nat → P) (hdepth : T.ptLevel ≤ maxWalkDepth)
    {walker : PageTableWalker} {fuel : Nat} (hstack : Stacked T walker.stack)
    (hfuel : cost T walker.stack < fuel) :
    (remaining T mem walker = [] ∧ ∃ walker', findNextEntry T mem fuel walker = (.ok none, walker')) ∨
      ∃ info walker', findNextEntry T mem fuel walker = (.ok (some info), walker') ∧
        Stacked T walker'.stack ∧ remaining T mem walker = info :: remaining T mem walker' ∧
        cost T walker'.stack < cost T walker.stack := by
  have hreturns : ∃ r walker', findNextEntry T mem fuel walker = (.ok r, walker') ∧
      match r with
      | none => remaining T mem walker = []
      | some info => Stacked T walker'.stack ∧ remaining T mem walker = info :: remaining T mem walker' ∧
          cost T walker'.stack < cost T walker.stack := by
    refine Exec.repeatUntil_returns
      (I := fun w => Stacked T w.stack ∧ remaining T mem w = remaining T mem walker ∧
        cost T w.stack ≤ cost T walker.stack) (fun w => cost T w.stack) ?_ hfuel ⟨hstack, rfl, le_rfl⟩
    rintro w ⟨hw, hsame, hle⟩
    obtain ⟨r, w', hstep, hw', hspec⟩ := findNextStep_spec hl hbits mem hdepth hw
    match r, hspec with
    | none, ⟨hsame', hlt⟩ => exact Or.inr ⟨w', hstep, ⟨hw', hsame'.trans hsame, by omega⟩, hlt⟩
    | some none, hnil => exact Or.inl ⟨none, w', hstep, hsame ▸ hnil⟩
    | some (some info), ⟨hcons, hlt⟩ =>
      exact Or.inl ⟨some info, w', hstep, hw', hsame ▸ hcons, by omega⟩
  obtain ⟨r, walker', hrun, hspec⟩ := hreturns
  match r, hspec with
  | none, hnil => exact Or.inl ⟨hnil, walker', hrun⟩
  | some info, ⟨hw', hcons, hlt⟩ => exact Or.inr ⟨info, walker', hrun, hw', hcons, hlt⟩

end

end PageTableWalker

/-- A walk of a table of at most eight levels yields the entries in depth-first order, up to the end
of the range. -/
theorem walkAll_eq [PageTableEntry P] {T : TableMeta P} (hl : T.Addressable T.ptLevel)
    (hbits : T.ptValidBits ≤ 64) (hdepth : T.ptLevel ≤ maxWalkDepth) (m : Machine P) (root : PhysAddr)
    (config : WalkConfig) (hrange : config.startVaddr < config.endVaddr) :
    PageTableRef.walkAll T m root config =
      .ok ((visit T config.startVaddr T.ptLevel (tableAt T m.mem T.ptLevel root) 0).takeWhile
        (PageTableWalker.beforeEnd config.endVaddr)) := by
  have hnew : PageTableWalker.new T root config = ⟨config, [⟨root, T.ptLevel, 0, 0⟩], false⟩ :=
    if_pos hrange
  have hcost : PageTableWalker.cost T [⟨root, T.ptLevel, 0, 0⟩] < PageTableWalker.fuel T := by
    rw [PageTableWalker.cost_cons, PageTableWalker.fuel]
    simp [PageTableWalker.cost]
  have hstacked : PageTableWalker.Stacked T [⟨root, T.ptLevel, 0, 0⟩] :=
    ⟨T.ptLevel_pos, rfl, (Nat.zero_add _).le, trivial⟩
  have hcollect : ∃ walker', Exec.collect .diverge
      (PageTableWalker.findNextEntry T m.mem (PageTableWalker.fuel T)) (PageTableWalker.fuel T)
      ⟨config, [⟨root, T.ptLevel, 0, 0⟩], false⟩ =
        (.ok (PageTableWalker.remaining T m.mem ⟨config, [⟨root, T.ptLevel, 0, 0⟩], false⟩), walker') := by
    refine Exec.collect_eq
      (I := fun w : PageTableWalker => PageTableWalker.Stacked T w.stack ∧
        PageTableWalker.cost T w.stack < PageTableWalker.fuel T)
      _ (fun w => PageTableWalker.cost T w.stack) ?_ hcost ⟨hstacked, hcost⟩
    rintro w ⟨hw, hlt⟩
    rcases PageTableWalker.findNextEntry_spec hl hbits m.mem hdepth hw hlt with
      hdone | ⟨info, w', hnext, hw', hcons, hlt'⟩
    · exact Or.inl hdone
    · exact Or.inr ⟨info, w', hnext, ⟨hw', by omega⟩, hcons, hlt'⟩
  obtain ⟨walker', hcollect⟩ := hcollect
  rw [PageTableRef.walkAll, hnew, hcollect, PageTableWalker.remaining_false, List.flatMap_cons,
    PageTableWalker.rest_zero T.ptLevel_pos, List.flatMap_nil, List.append_nil]

end Sparreal.Paging
