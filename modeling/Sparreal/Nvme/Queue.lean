import Mathlib.Algebra.Group.Nat.Defs
import Mathlib.Order.Nat
import Sparreal.Lib.Machine
import Sparreal.Lib.PhaseRing
import Sparreal.Nvme.Command

/-!
# NVMe queues

The queue pair of `nvme/src/queue.rs` with the controller on the other side of it. The driver writes a command
into the slot at its tail, rings the doorbell and spins until the slot at its head is marked as filled. The
controller fetches from its own head up to the doorbell and posts completions at its own tail; it does so at
any time, and may complete what it has fetched in any order. Disabling the controller and enabling it again
takes its indices back to the start and leaves those of the driver as they are.

While nobody does that the two sides agree, however often the queues wrap around (`synchronised_of_calls`).
-/

namespace Sparreal.Nvme

open PhaseRing

/-! ### The driver -/

/-- A command in the submission queue. Its number, the count of those submitted before it, is not in memory. -/
structure Submission where
  serial : Nat
  command : CommandSet
  deriving DecidableEq, Repr

/-- `NvmeCompletion`. The number of the command it completes is not in memory; a slot that was never written
completes none. -/
structure NvmeCompletion where
  sqHead : Nat := 0
  commandId : UInt32 := 0
  status : Nat := 0
  origin : Option Nat := none
  deriving DecidableEq, Repr

/-- `CompletionStatus::phase`. -/
def NvmeCompletion.phase (e : NvmeCompletion) : Bool := decide (0 < e.status % 2)

/-- `CompletionStatus::is_success`. -/
def NvmeCompletion.isSuccess (e : NvmeCompletion) : Bool := decide (e.status / 2 % 2 = 0)

structure SubmitQueue where
  queue : Nat → Option Submission
  len : Nat
  busAddr : Nat
  tail : Nat

/-- `SubmitQueue::new`, with the address of its memory. -/
def SubmitQueue.new (queueSize busAddr : Nat) : SubmitQueue := ⟨fun _ => none, queueSize, busAddr, 0⟩

/-- `SubmitQueue::submit`. The length is cast to `u32`. -/
def SubmitQueue.submit (q : SubmitQueue) (data : Submission) : SubmitQueue :=
  { q with
    queue := Function.update q.queue q.tail (some data)
    tail := if q.len % 2 ^ 32 ≤ q.tail + 1 then 0 else q.tail + 1 }

structure CompleteQueue where
  queue : Nat → NvmeCompletion
  len : Nat
  busAddr : Nat
  head : Nat
  phase : Bool

/-- `CompleteQueue::new`, with the address of its memory. -/
def CompleteQueue.new (queueSize busAddr : Nat) : CompleteQueue := ⟨fun _ => {}, queueSize, busAddr, 0, false⟩

def CompleteQueue.complete (q : CompleteQueue) : Option NvmeCompletion :=
  if q.head < q.len then
    if (q.queue q.head).phase ≠ q.phase then some (q.queue q.head) else none
  else none

/-- One turn of the loop of `CompleteQueue::spin_for_complete`. The length is cast to `u32`. -/
def CompleteQueue.spinForComplete (q : CompleteQueue) : Option (NvmeCompletion × CompleteQueue) :=
  q.complete.map fun e =>
    (e, if q.len % 2 ^ 32 ≤ q.head + 1 then { q with head := 0, phase := !q.phase }
      else { q with head := q.head + 1 })

/-- The controller writes to a slot. -/
def CompleteQueue.post (q : CompleteQueue) (i : Nat) (e : NvmeCompletion) : CompleteQueue :=
  { q with queue := Function.update q.queue i e }

/-! ### The controller -/

/-- The fields of `CC` the driver sets. -/
structure ControllerConfiguration where
  enable : Bool
  ioSubmissionQueueEntrySize : Nat := 0
  ioCompletionQueueEntrySize : Nat := 0
  deriving DecidableEq, Repr

/-- The registers of the controller and what it does with one queue pair. -/
structure Controller where
  cc : ControllerConfiguration
  ready : Bool
  /-- `AQA`: the sizes of the admin queues, less one. -/
  adminSubmissionQueueSize : Nat
  adminCompletionQueueSize : Nat
  asq : Nat
  acq : Nat
  sqHead : Nat
  /-- The doorbell of the submission queue. -/
  sqTail : Nat
  cqTail : Cursor
  /-- The doorbell of the completion queue. -/
  cqHead : Nat
  /-- What is fetched and not completed. -/
  inflight : List (Option Submission)

namespace Controller

/-- `CSTS.RDY` follows `CC.EN`. An enabled controller starts its queues anew. -/
def notice (c : Controller) : Option Controller :=
  if c.ready = c.cc.enable then none
  else if c.cc.enable then
    some { c with ready := true, sqHead := 0, sqTail := 0, cqTail := ⟨0, true⟩, cqHead := 0, inflight := [] }
  else some { c with ready := false, inflight := [] }

def fetch (c : Controller) (sq : SubmitQueue) : Option (Option Submission × Controller) :=
  if c.ready ∧ c.sqHead ≠ c.sqTail then
    let command := if c.asq = sq.busAddr then sq.queue c.sqHead else none
    some (command, { c with
      sqHead := nextIndex (c.adminSubmissionQueueSize + 1) c.sqHead
      inflight := c.inflight ++ [command] })
  else none

def entry (c : Controller) (command : Option Submission) (code : Nat) : NvmeCompletion where
  sqHead := c.sqHead
  commandId := (command.map fun s => s.command.commandId).getD 0
  status := 2 * code + c.cqTail.phase.toNat
  origin := command.map (·.serial)

def complete (c : Controller) (cq : CompleteQueue) (i code : Nat) : Option (CompleteQueue × Controller) :=
  c.inflight[i]?.bind fun command =>
    let cqTail := c.cqTail.next (c.adminCompletionQueueSize + 1)
    if c.ready ∧ cqTail.index ≠ c.cqHead then
      some (if c.acq = cq.busAddr then cq.post c.cqTail.index (c.entry command code) else cq,
        { c with cqTail := cqTail, inflight := c.inflight.eraseIdx i })
    else none

end Controller

/-! ### Both together -/

/-- What the driver does to the controller, step by step. -/
inductive Instr where
  | writeCc (cc : ControllerConfiguration)
  /-- `spin_for_true` on `CSTS.RDY`. -/
  | waitReady (ready : Bool)
  | configureAdminQueue
  /-- A buffer or a queue is allocated. -/
  | allocate
  /-- `submit_admin_data`. -/
  | submit (data : CommandSet)
  /-- The rest of `command_sync`. -/
  | waitComplete
  deriving DecidableEq, Repr

def commandSync (data : CommandSet) : List Instr := [.submit data, .waitComplete]

/-- The driver, its queue pair, the controller, and what has passed between them, the newest first. -/
structure QueuePair where
  /-- What is left of the program of the driver. -/
  todo : List Instr
  sq : SubmitQueue
  cq : CompleteQueue
  ctrl : Controller
  submitted : Nat
  /-- The numbers of the commands in the slots that were fetched. -/
  fetched : List (Option Nat)
  /-- The completions the driver took: the number of its command, and of the one that was completed. -/
  consumed : List (Nat × Option Nat)

/-- `QUEUE_BASE_MASK`. -/
def queueBase (addr : Nat) : Nat := addr / 4096 * 4096

inductive Event where
  | driver
  | allocFails
  | notice
  | fetch
  | complete (i code : Nat)
  deriving DecidableEq, Repr

namespace QueuePair

/-- The driver takes its next step, unless it has to spin. A command that fails ends the program. -/
def driverStep (s : QueuePair) : Option QueuePair :=
  match s.todo with
  | [] => none
  | .writeCc cc :: todo => some { s with todo := todo, ctrl := { s.ctrl with cc := cc } }
  | .waitReady ready :: todo => if s.ctrl.ready = ready then some { s with todo := todo } else none
  | .configureAdminQueue :: todo =>
    some { s with
      todo := todo
      ctrl := { s.ctrl with
        adminSubmissionQueueSize := (s.sq.len - 1) % 2 ^ 12
        adminCompletionQueueSize := (s.cq.len - 1) % 2 ^ 12
        asq := queueBase s.sq.busAddr
        acq := queueBase s.cq.busAddr } }
  | .allocate :: todo => some { s with todo := todo }
  | .submit data :: todo =>
    let sq := s.sq.submit ⟨s.submitted, data⟩
    some { s with todo := todo, sq := sq, submitted := s.submitted + 1, ctrl := { s.ctrl with sqTail := sq.tail } }
  | .waitComplete :: todo =>
    s.cq.spinForComplete.map fun r =>
      { s with
        todo := if r.1.isSuccess then todo else []
        cq := r.2
        ctrl := { s.ctrl with cqHead := r.2.head }
        consumed := (s.submitted - 1, r.1.origin) :: s.consumed }

def step (s : QueuePair) : Event → Option QueuePair
  | .driver => s.driverStep
  | .allocFails =>
    match s.todo with
    | .allocate :: _ => some { s with todo := [] }
    | _ => none
  | .notice => s.ctrl.notice.map fun ctrl => { s with ctrl := ctrl }
  | .fetch =>
    (s.ctrl.fetch s.sq).map fun r =>
      { s with ctrl := r.2, fetched := r.1.map (·.serial) :: s.fetched }
  | .complete i code =>
    (s.ctrl.complete s.cq i code).map fun r => { s with cq := r.1, ctrl := r.2 }

/-- The number of the command the driver waits for. -/
def waitsFor (s : QueuePair) : Option Nat :=
  if s.todo.head? = some .waitComplete then some (s.submitted - 1) else none

/-- Every command is fetched once and nothing else is, and the driver takes the completions of its own
commands. -/
structure Synchronised (s : QueuePair) : Prop where
  once : ∀ n < s.submitted, s.waitsFor ≠ some n → s.fetched.count (some n) = 1
  atMostOnce : ∀ n, s.fetched.count (some n) ≤ 1
  only : ∀ f ∈ s.fetched, ∃ n < s.submitted, f = some n
  own : ∀ p ∈ s.consumed, p.2 = some p.1

end QueuePair

/-! ### The submission queue -/

/-- The commands of the last round are in the queue, whatever the controller does. -/
structure SubmitQueue.Holds (q : SubmitQueue) (submitted : Nat) : Prop where
  tail : q.tail = submitted % q.len
  slot : ∀ n < submitted, submitted ≤ n + q.len → ∃ data, q.queue (n % q.len) = some ⟨n, data⟩

theorem SubmitQueue.tail_submit {q : SubmitQueue} (hlt : q.len < 2 ^ 32) (data : Submission) :
    (q.submit data).tail = nextIndex q.len q.tail := by
  show (if q.len % 2 ^ 32 ≤ q.tail + 1 then 0 else q.tail + 1) = _
  rw [Nat.mod_eq_of_lt hlt, nextIndex]

theorem SubmitQueue.Holds.submit {q : SubmitQueue} {k : Nat} (h : q.Holds k) (hlen : 0 < q.len)
    (hlt : q.len < 2 ^ 32) (data : CommandSet) : (q.submit ⟨k, data⟩).Holds (k + 1) := by
  refine ⟨?_, fun n hn hround => ?_⟩
  · show (q.submit ⟨k, data⟩).tail = (k + 1) % q.len
    rw [SubmitQueue.tail_submit hlt, h.tail, nextIndex_mod hlen]
  · show ∃ data', Function.update q.queue q.tail (some ⟨k, data⟩) (n % q.len) = some ⟨n, data'⟩
    rcases Nat.lt_succ_iff_lt_or_eq.mp hn with hlt | rfl
    · have hne : n % q.len ≠ q.tail := h.tail ▸ mod_ne_mod hlt hround
      rw [Function.update_of_ne hne]
      exact h.slot n hlt (Nat.le_of_succ_le hround)
    · rw [h.tail, Function.update_self]
      exact ⟨data, rfl⟩

/-! ### What a step does -/

variable {q : CompleteQueue}

namespace QueuePair

variable {s s' : QueuePair} {todo : List Instr}

theorem driver_nil (h : s.todo = []) : s.step .driver = none := by
  simp only [step, driverStep, h]

theorem driver_allocate (h : s.todo = .allocate :: todo) (hstep : s.step .driver = some s') :
    s' = { s with todo := todo } := by
  simp only [step, driverStep, h] at hstep
  exact (Option.some.inj hstep).symm

theorem driver_submit {data : CommandSet} (h : s.todo = .submit data :: todo)
    (hstep : s.step .driver = some s') :
    s' = { s with
      todo := todo
      sq := s.sq.submit ⟨s.submitted, data⟩
      submitted := s.submitted + 1
      ctrl := { s.ctrl with sqTail := (s.sq.submit ⟨s.submitted, data⟩).tail } } := by
  simp only [step, driverStep, h] at hstep
  exact (Option.some.inj hstep).symm

theorem driver_waitComplete (h : s.todo = .waitComplete :: todo) (hstep : s.step .driver = some s') :
    ∃ r, s.cq.spinForComplete = some r ∧
      s' = { s with
        todo := if r.1.isSuccess then todo else []
        cq := r.2
        ctrl := { s.ctrl with cqHead := r.2.head }
        consumed := (s.submitted - 1, r.1.origin) :: s.consumed } := by
  simp only [step, driverStep, h] at hstep
  obtain ⟨r, hr, hs⟩ := Option.map_eq_some_iff.mp hstep
  exact ⟨r, hr, hs.symm⟩

theorem allocFails_step (hstep : s.step .allocFails = some s') :
    (∃ todo, s.todo = .allocate :: todo) ∧ s' = { s with todo := [] } := by
  simp only [step] at hstep
  split at hstep
  · next todo htodo => exact ⟨⟨todo, htodo⟩, (Option.some.inj hstep).symm⟩
  · cases hstep

/-- What every step does: the program goes on or is given up, the controller fetches or not, the driver submits
one command or none, and the completion queue stays where it is. -/
structure GoesOn (s s' : QueuePair) : Prop where
  todo : s'.todo <:+ s.todo
  fetched : s.fetched <:+ s'.fetched
  cq : s'.cq.len = s.cq.len ∧ s'.cq.busAddr = s.cq.busAddr
  submitted : (s'.sq = s.sq ∧ s'.submitted = s.submitted) ∨
    ∃ data, s'.sq = s.sq.submit ⟨s.submitted, data⟩ ∧ s'.submitted = s.submitted + 1

theorem spin_keeps {r : NvmeCompletion × CompleteQueue} (h : q.spinForComplete = some r) :
    r.2.len = q.len ∧ r.2.busAddr = q.busAddr := by
  obtain ⟨e, -, rfl⟩ := Option.map_eq_some_iff.mp h
  dsimp only
  split_ifs
  · exact ⟨rfl, rfl⟩
  · exact ⟨rfl, rfl⟩

theorem complete_keeps {c : Controller} {i code : Nat} {r : CompleteQueue × Controller}
    (h : c.complete q i code = some r) : r.1.len = q.len ∧ r.1.busAddr = q.busAddr := by
  obtain ⟨command, -, h⟩ := Option.bind_eq_some_iff.mp h
  dsimp only at h
  split_ifs at h
  · exact Option.some.inj h ▸ ⟨rfl, rfl⟩
  · exact Option.some.inj h ▸ ⟨rfl, rfl⟩

theorem goes_on_driver (hstep : s.step .driver = some s') : s.GoesOn s' := by
  rcases htodo : s.todo with _ | ⟨i, rest⟩
  · cases (driver_nil htodo).symm.trans hstep
  · have hsuffix : rest <:+ s.todo := htodo ▸ List.suffix_cons ..
    cases i with
    | waitReady ready =>
      simp only [step, driverStep, htodo] at hstep
      split_ifs at hstep
      obtain rfl := Option.some.inj hstep
      exact ⟨hsuffix, List.suffix_rfl, ⟨rfl, rfl⟩, .inl ⟨rfl, rfl⟩⟩
    | waitComplete =>
      obtain ⟨r, hr, rfl⟩ := driver_waitComplete htodo hstep
      refine ⟨?_, List.suffix_rfl, spin_keeps hr, .inl ⟨rfl, rfl⟩⟩
      show (if _ then rest else []) <:+ _
      split_ifs
      · exact hsuffix
      · exact List.nil_suffix
    | submit data =>
      obtain rfl := driver_submit htodo hstep
      exact ⟨hsuffix, List.suffix_rfl, ⟨rfl, rfl⟩, .inr ⟨data, rfl, rfl⟩⟩
    | _ =>
      simp only [step, driverStep, htodo] at hstep
      obtain rfl := Option.some.inj hstep
      exact ⟨hsuffix, List.suffix_rfl, ⟨rfl, rfl⟩, .inl ⟨rfl, rfl⟩⟩

theorem goes_on {e : Event} (hstep : s.step e = some s') : s.GoesOn s' := by
  cases e with
  | driver => exact goes_on_driver hstep
  | allocFails =>
    obtain ⟨-, rfl⟩ := allocFails_step hstep
    exact ⟨List.nil_suffix, List.suffix_rfl, ⟨rfl, rfl⟩, .inl ⟨rfl, rfl⟩⟩
  | notice =>
    obtain ⟨c, -, rfl⟩ := Option.map_eq_some_iff.mp hstep
    exact ⟨List.suffix_rfl, List.suffix_rfl, ⟨rfl, rfl⟩, .inl ⟨rfl, rfl⟩⟩
  | fetch =>
    obtain ⟨r, -, rfl⟩ := Option.map_eq_some_iff.mp hstep
    exact ⟨List.suffix_rfl, List.suffix_cons .., ⟨rfl, rfl⟩, .inl ⟨rfl, rfl⟩⟩
  | complete i code =>
    obtain ⟨r, hr, rfl⟩ := Option.map_eq_some_iff.mp hstep
    exact ⟨List.suffix_rfl, List.suffix_rfl, complete_keeps hr, .inl ⟨rfl, rfl⟩⟩

/-- The driver files its commands in order. -/
structure Filed (s : QueuePair) : Prop where
  holds : s.sq.Holds s.submitted
  len_pos : 0 < s.sq.len
  len_lt : s.sq.len < 2 ^ 32

theorem Filed.step {e : Event} (h : s.Filed) (hstep : s.step e = some s') : s'.Filed := by
  rcases (goes_on hstep).submitted with ⟨hsq, hsubmitted⟩ | ⟨data, hsq, hsubmitted⟩
  · exact ⟨hsq ▸ hsubmitted ▸ h.holds, hsq ▸ h.len_pos, hsq ▸ h.len_lt⟩
  · exact ⟨hsq ▸ hsubmitted ▸ h.holds.submit h.len_pos h.len_lt data, hsq ▸ h.len_pos, hsq ▸ h.len_lt⟩

end QueuePair

/-! ### A session

From the time the controller is ready until it is disabled. There is at most one command at a time, and the two
sides are in one of four positions around it. -/

/-- What the driver compares the marks with. -/
def CompleteQueue.cursor (q : CompleteQueue) : Cursor := ⟨q.head, q.phase⟩

/-- The phase bits of the slots. -/
def CompleteQueue.marks (q : CompleteQueue) (i : Nat) : Bool := (q.queue i).phase

theorem marks_post (q : CompleteQueue) (i : Nat) (e : NvmeCompletion) :
    (q.post i e).marks = Function.update q.marks i e.phase := by
  funext j
  show (Function.update q.queue i e j).phase = _
  rw [Function.update_apply, Function.update_apply]
  split_ifs <;> rfl

theorem phase_entry (c : Controller) (command : Option Submission) (code : Nat) :
    (c.entry command code).phase = c.cqTail.phase := by
  show decide (0 < (2 * code + c.cqTail.phase.toNat) % 2) = _
  cases c.cqTail.phase <;> simp [Nat.add_mod]

/-- Neither half of `command_sync`. -/
def Instr.Single : Instr → Prop
  | .submit _ => False
  | .waitComplete => False
  | _ => True

/-- Every command is waited for before the next one. -/
inductive Paired : List Instr → Prop
  | nil : Paired []
  | call (data : CommandSet) {todo : List Instr} : Paired todo → Paired (.submit data :: .waitComplete :: todo)
  | single {i : Instr} {todo : List Instr} : i.Single → Paired todo → Paired (i :: todo)

namespace Paired

variable {data : CommandSet} {todo : List Instr}

theorem submit (h : Paired (.submit data :: todo)) : ∃ rest, todo = .waitComplete :: rest ∧ Paired rest := by
  cases h with
  | call _ hrest => exact ⟨_, rfl, hrest⟩
  | single hi => exact hi.elim

theorem allocate (h : Paired (.allocate :: todo)) : Paired todo := by
  cases h with
  | single _ hrest => exact hrest

theorem not_waitComplete : ¬ Paired (.waitComplete :: todo) := by
  intro h
  cases h with
  | single hi => exact hi

end Paired

/-- The numbers below a bound, the newest first. -/
def upTo (k : Nat) : List Nat := (List.range k).reverse

theorem upTo_succ (k : Nat) : upTo (k + 1) = k :: upTo k := by
  rw [upTo, List.range_succ, List.reverse_append]
  rfl

theorem count_upTo (k n : Nat) : ((upTo k).map some).count (some n) = if n < k then 1 else 0 := by
  induction k with
  | zero => rfl
  | succ k ih =>
    rw [upTo_succ, List.map_cons, List.count_cons, ih]
    by_cases hn : k = n
    · subst hn
      simp
    · have hne : (some k == some n) = false := by simpa using hn
      rw [hne]
      exact if_congr (by omega) rfl rfl

namespace QueuePair

/-- The first commands were fetched and answered in their order. -/
structure Logged (s : QueuePair) (fetched consumed : Nat) : Prop where
  fetched : s.fetched = (upTo fetched).map some
  consumed : s.consumed = (upTo consumed).map fun n => (n, some n)

/-- The controller is up and knows the queues. -/
structure Linked (s : QueuePair) : Prop where
  ready : s.ctrl.ready = true
  enabled : s.ctrl.cc.enable = true
  sqSize : s.ctrl.adminSubmissionQueueSize + 1 = s.sq.len
  cqSize : s.ctrl.adminCompletionQueueSize + 1 = s.cq.len
  asq : s.ctrl.asq = s.sq.busAddr
  acq : s.ctrl.acq = s.cq.busAddr
  doorbell : s.ctrl.sqTail = s.sq.tail
  tail_lt : s.sq.tail < s.sq.len
  head_lt : s.cq.head < s.cq.len
  sq_lt : s.sq.len < 2 ^ 32
  cq_lt : s.cq.len < 2 ^ 32

/-- Nothing is posted that the driver has not taken. -/
structure Drained (s : QueuePair) : Prop where
  cqTail : s.ctrl.cqTail = s.cq.cursor.across
  passed : Passed s.cq.len s.cq.marks s.cq.cursor

/-- The two sides agree: there is no command, or one that is submitted, fetched or completed. -/
inductive InSync (s : QueuePair) : Prop
  | idle (linked : s.Linked) (drained : s.Drained) (head : s.ctrl.sqHead = s.sq.tail)
      (inflight : s.ctrl.inflight = []) (todo : Paired s.todo) (logged : s.Logged s.submitted s.submitted)
  | submitted (n : Nat) (data : CommandSet) (linked : s.Linked) (drained : s.Drained)
      (head : nextIndex s.sq.len s.ctrl.sqHead = s.sq.tail) (slot : s.sq.queue s.ctrl.sqHead = some ⟨n, data⟩)
      (inflight : s.ctrl.inflight = []) (todo : ∃ todo, s.todo = .waitComplete :: todo ∧ Paired todo)
      (count : s.submitted = n + 1) (logged : s.Logged n n)
  | fetched (n : Nat) (data : CommandSet) (linked : s.Linked) (drained : s.Drained)
      (head : s.ctrl.sqHead = s.sq.tail) (inflight : s.ctrl.inflight = [some ⟨n, data⟩])
      (todo : ∃ todo, s.todo = .waitComplete :: todo ∧ Paired todo)
      (count : s.submitted = n + 1) (logged : s.Logged (n + 1) n)
  | completed (n : Nat) (linked : s.Linked) (cqTail : s.ctrl.cqTail = (s.cq.cursor.next s.cq.len).across)
      (passed : Passed s.cq.len s.cq.marks (s.cq.cursor.next s.cq.len))
      (filled : s.cq.marks s.cq.head = !s.cq.phase) (origin : (s.cq.queue s.cq.head).origin = some n)
      (head : s.ctrl.sqHead = s.sq.tail) (inflight : s.ctrl.inflight = [])
      (todo : ∃ todo, s.todo = .waitComplete :: todo ∧ Paired todo)
      (count : s.submitted = n + 1) (logged : s.Logged (n + 1) n)

variable {s s' : QueuePair}

/-- Commands that are fetched in their order, with the last of them perhaps not yet. -/
theorem Logged.synchronised {f c : Nat} (h : s.Logged f c) (hle : f ≤ s.submitted)
    (hwaits : ∀ n < s.submitted, f ≤ n → s.waitsFor = some n) : s.Synchronised := by
  refine ⟨fun n hn hwait => ?_, fun n => ?_, fun e he => ?_, fun p hp => ?_⟩
  · have hlt : n < f := Nat.lt_of_not_le fun hge => hwait (hwaits n hn hge)
    rw [h.fetched, count_upTo, if_pos hlt]
  · rw [h.fetched, count_upTo]
    split_ifs <;> omega
  · rw [h.fetched] at he
    obtain ⟨n, hn, rfl⟩ := List.mem_map.mp he
    exact ⟨n, Nat.lt_of_lt_of_le (List.mem_range.mp (List.mem_reverse.mp hn)) hle, rfl⟩
  · rw [h.consumed] at hp
    obtain ⟨n, -, rfl⟩ := List.mem_map.mp hp
    rfl

theorem Logged.length {f c : Nat} (h : s.Logged f c) : s.fetched.length = f ∧ s.consumed.length = c := by
  rw [h.fetched, h.consumed, List.length_map, List.length_map]
  simp only [upTo, List.length_reverse, List.length_range, and_self]

variable {todo : List Instr}

theorem waitsFor_eq (h : s.todo = .waitComplete :: todo) : s.waitsFor = some (s.submitted - 1) := by
  rw [waitsFor, h]
  rfl

theorem InSync.synchronised (h : s.InSync) : s.Synchronised := by
  cases h with
  | idle _ _ _ _ _ logged =>
    exact logged.synchronised (Nat.le_refl _) fun n hn hge => absurd hn (Nat.not_lt.mpr hge)
  | submitted n _ _ _ _ _ _ todo count logged =>
    obtain ⟨_, htodo, -⟩ := todo
    refine logged.synchronised (by omega) fun m hm hge => ?_
    rw [waitsFor_eq htodo, show s.submitted - 1 = m by omega]
  | fetched n _ _ _ _ _ _ count logged | completed n _ _ _ _ _ _ _ _ count logged =>
    exact logged.synchronised (by omega) fun m hm hge => absurd hm (by omega)

/-! ### The steps of a session -/

theorem Linked.notice (h : s.Linked) : s.ctrl.notice = none := by
  rw [Controller.notice, if_pos (h.ready.trans h.enabled.symm)]

theorem fetch_eq_none (h : s.Linked) (hhead : s.ctrl.sqHead = s.sq.tail) : s.step .fetch = none := by
  rw [step, Controller.fetch, if_neg fun hc => hc.2 (hhead.trans h.doorbell.symm)]
  rfl

theorem complete_eq_none (h : s.ctrl.inflight = []) (i code : Nat) : s.step (.complete i code) = none := by
  rw [step, Controller.complete, h]
  rfl

theorem spin_eq_none (hhead : q.head < q.len) (hpassed : Passed q.len q.marks q.cursor) :
    q.spinForComplete = none := by
  have hempty : (q.queue q.head).phase = q.phase := hpassed.not_filled hhead
  rw [CompleteQueue.spinForComplete, CompleteQueue.complete, if_pos hhead, if_neg (not_not.mpr hempty)]
  rfl

theorem spin_eq_some (h : s.Linked) (hfilled : s.cq.marks s.cq.head = !s.cq.phase) :
    ∃ cq, s.cq.spinForComplete = some (s.cq.queue s.cq.head, cq) ∧ cq.cursor = s.cq.cursor.next s.cq.len ∧
      cq.queue = s.cq.queue ∧ cq.len = s.cq.len ∧ cq.busAddr = s.cq.busAddr := by
  have hne : (s.cq.queue s.cq.head).phase ≠ s.cq.phase := by
    rw [show (s.cq.queue s.cq.head).phase = !s.cq.phase from hfilled]
    cases s.cq.phase <;> decide
  rw [CompleteQueue.spinForComplete, CompleteQueue.complete, if_pos h.head_lt, if_pos hne]
  refine ⟨_, rfl, ?_⟩
  rw [Cursor.next, show s.cq.cursor.index = s.cq.head from rfl, Nat.mod_eq_of_lt h.cq_lt]
  split_ifs
  · exact ⟨rfl, rfl, rfl, rfl⟩
  · exact ⟨rfl, rfl, rfl, rfl⟩

theorem InSync.fetch (h : s.InSync) (hstep : s.step .fetch = some s') : s'.InSync := by
  cases h with
  | idle linked _ head | fetched _ _ linked _ head | completed _ linked _ _ _ _ head =>
    cases (fetch_eq_none linked head).symm.trans hstep
  | submitted n data linked drained head slot inflight todo count logged =>
    obtain ⟨r, hr, rfl⟩ := Option.map_eq_some_iff.mp hstep
    simp only [Controller.fetch, if_pos linked.asq, slot, linked.sqSize, head, inflight] at hr
    split_ifs at hr
    obtain rfl := Option.some.inj hr
    refine .fetched n data { linked with } ⟨drained.cqTail, drained.passed⟩ rfl rfl todo count
      ⟨?_, logged.consumed⟩
    rw [upTo_succ, List.map_cons, ← logged.fetched]
    rfl

theorem InSync.complete {i code : Nat} (h : s.InSync) (hstep : s.step (.complete i code) = some s') :
    s'.InSync := by
  cases h with
  | idle _ _ _ inflight | submitted _ _ _ _ _ _ inflight | completed _ _ _ _ _ _ _ inflight =>
    cases (complete_eq_none inflight ..).symm.trans hstep
  | fetched n data linked drained head inflight todo count logged =>
    obtain ⟨r, hr, rfl⟩ := Option.map_eq_some_iff.mp hstep
    rw [Controller.complete, inflight] at hr
    obtain ⟨command, hcommand, hr⟩ := Option.bind_eq_some_iff.mp hr
    have hindex : s.ctrl.cqTail.index = s.cq.head := congrArg Cursor.index drained.cqTail
    cases i with
    | succ i => cases hcommand
    | zero =>
      obtain rfl := Option.some.inj hcommand
      have hphase : (s.ctrl.entry (some ⟨n, data⟩) code).phase = !s.cq.phase :=
        (phase_entry ..).trans (congrArg Cursor.phase drained.cqTail)
      simp only [if_pos linked.acq, linked.cqSize, hindex] at hr
      split_ifs at hr
      obtain rfl := Option.some.inj hr
      refine .completed n { linked with } ?_ ?_ ?_ ?_ head rfl todo count ⟨logged.fetched, logged.consumed⟩
      · show s.ctrl.cqTail.next s.cq.len = (s.cq.cursor.next s.cq.len).across
        rw [drained.cqTail, Cursor.across_next]
      · rw [marks_post, hphase]
        exact drained.passed.next linked.head_lt
      · rw [marks_post, hphase]
        exact Function.update_self ..
      · exact congrArg NvmeCompletion.origin (Function.update_self s.cq.head _ s.cq.queue)

theorem inSync_submit {data : CommandSet} (linked : s.Linked) (drained : s.Drained) (head : s.ctrl.sqHead = s.sq.tail)
    (inflight : s.ctrl.inflight = []) (hpaired : Paired todo) (logged : s.Logged s.submitted s.submitted)
    (htodo : s.todo = .submit data :: .waitComplete :: todo) (hstep : s.step .driver = some s') : s'.InSync := by
  obtain rfl := driver_submit htodo hstep
  have htail := SubmitQueue.tail_submit linked.sq_lt ⟨s.submitted, data⟩
  have hlt : nextIndex s.sq.len s.sq.tail < s.sq.len := nextIndex_lt (Nat.zero_lt_of_lt linked.tail_lt)
  refine .submitted s.submitted data { linked with doorbell := rfl, tail_lt := htail ▸ hlt }
    ⟨drained.cqTail, drained.passed⟩ (head ▸ htail.symm) ?_ inflight ⟨todo, rfl, hpaired⟩ rfl
    ⟨logged.fetched, logged.consumed⟩
  show Function.update s.sq.queue s.sq.tail (some ⟨s.submitted, data⟩) s.ctrl.sqHead = _
  rw [head, Function.update_self]

theorem inSync_consume {n : Nat} (linked : s.Linked) (cqTail : s.ctrl.cqTail = (s.cq.cursor.next s.cq.len).across)
    (passed : Passed s.cq.len s.cq.marks (s.cq.cursor.next s.cq.len)) (filled : s.cq.marks s.cq.head = !s.cq.phase)
    (origin : (s.cq.queue s.cq.head).origin = some n) (head : s.ctrl.sqHead = s.sq.tail)
    (inflight : s.ctrl.inflight = []) (hpaired : Paired todo) (count : s.submitted = n + 1)
    (logged : s.Logged (n + 1) n) (htodo : s.todo = .waitComplete :: todo) (hstep : s.step .driver = some s') :
    s'.InSync := by
  obtain ⟨r, hr, rfl⟩ := driver_waitComplete htodo hstep
  obtain ⟨cq, hspin, hcursor, hqueue, hlen, hbus⟩ := spin_eq_some linked filled
  obtain rfl := Option.some.inj (hspin.symm.trans hr)
  have hmarks : cq.marks = s.cq.marks := by
    funext i
    rw [CompleteQueue.marks, CompleteQueue.marks, hqueue]
  have hhead : cq.head < cq.len := by
    rw [show cq.head = cq.cursor.index from rfl, hcursor, Cursor.next_index, hlen]
    exact nextIndex_lt (Nat.zero_lt_of_lt linked.head_lt)
  refine .idle { linked with
    cqSize := hlen ▸ linked.cqSize, acq := hbus ▸ linked.acq, head_lt := hhead, cq_lt := hlen ▸ linked.cq_lt }
    ⟨?_, ?_⟩ head inflight ?_ ⟨count ▸ logged.fetched, ?_⟩
  · show s.ctrl.cqTail = cq.cursor.across
    rw [cqTail, hcursor]
  · show Passed cq.len cq.marks cq.cursor
    rwa [hlen, hmarks, hcursor]
  · show Paired (if _ then todo else [])
    split_ifs
    · exact hpaired
    · exact .nil
  · show (s.submitted - 1, (s.cq.queue s.cq.head).origin) :: s.consumed = _
    rw [origin, logged.consumed, count, upTo_succ]
    rfl

/-- The instructions that do not touch the set-up of the controller. -/
def Calls (todo : List Instr) : Prop := ∀ i ∈ todo, i = .allocate ∨ i = .waitComplete ∨ ∃ data, i = .submit data

theorem InSync.driver (h : s.InSync) (hcalls : Calls s.todo.head?.toList)
    (hstep : s.step .driver = some s') : s'.InSync := by
  cases h with
  | idle linked drained head inflight todo logged =>
    rcases htodo : s.todo with _ | ⟨i, rest⟩
    · cases (driver_nil htodo).symm.trans hstep
    · rw [htodo] at todo hcalls
      rcases hcalls i (List.mem_singleton_self i) with rfl | rfl | ⟨data, rfl⟩
      · obtain rfl := driver_allocate htodo hstep
        exact .idle { linked with } ⟨drained.cqTail, drained.passed⟩ head inflight todo.allocate
          ⟨logged.fetched, logged.consumed⟩
      · exact (Paired.not_waitComplete todo).elim
      · obtain ⟨rest, rfl, hpaired⟩ := todo.submit
        exact inSync_submit linked drained head inflight hpaired logged htodo hstep
  | submitted _ _ linked drained _ _ _ todo | fetched _ _ linked drained _ _ todo =>
    obtain ⟨_, htodo, -⟩ := todo
    obtain ⟨_, hspin, -⟩ := driver_waitComplete htodo hstep
    cases (spin_eq_none linked.head_lt drained.passed).symm.trans hspin
  | completed n linked cqTail passed filled origin head inflight todo count logged =>
    obtain ⟨_, htodo, hpaired⟩ := todo
    exact inSync_consume linked cqTail passed filled origin head inflight hpaired count logged htodo hstep

/-- There is a command only while the driver waits for it. -/
theorem InSync.idle_of_todo (h : s.InSync) (htodo : ∀ todo, s.todo ≠ .waitComplete :: todo) :
    s.Linked ∧ s.Drained ∧ s.ctrl.sqHead = s.sq.tail ∧ s.ctrl.inflight = [] ∧
      s.Logged s.submitted s.submitted := by
  cases h with
  | idle linked drained head inflight _ logged => exact ⟨linked, drained, head, inflight, logged⟩
  | submitted _ _ _ _ _ _ _ todo | fetched _ _ _ _ _ _ todo | completed _ _ _ _ _ _ _ _ todo =>
    exact absurd todo.choose_spec.1 (htodo _)

/-- What the controller does keeps the agreement, and so does an allocation that fails. -/
theorem InSync.step {e : Event} (h : s.InSync) (hcalls : Calls s.todo.head?.toList)
    (hstep : s.step e = some s') : s'.InSync := by
  cases e with
  | driver => exact h.driver hcalls hstep
  | fetch => exact h.fetch hstep
  | complete i code => exact h.complete hstep
  | notice =>
    have linked : s.Linked := by cases h <;> assumption
    simp only [QueuePair.step, linked.notice, Option.map_none] at hstep
    cases hstep
  | allocFails =>
    obtain ⟨⟨_, htodo⟩, rfl⟩ := allocFails_step hstep
    obtain ⟨linked, drained, head, inflight, logged⟩ :=
      h.idle_of_todo fun _ hwait => Instr.noConfusion (List.cons.inj (htodo.symm.trans hwait)).1
    exact .idle { linked with } ⟨drained.cqTail, drained.passed⟩ head inflight .nil
      ⟨logged.fetched, logged.consumed⟩

/-- As long as the driver only calls `command_sync` the two sides are synchronised. -/
theorem synchronised_of_calls {es : List Event} (h : s.InSync) (hcalls : Calls s.todo)
    (hrun : Machine.run QueuePair.step s es = some s') : s'.Synchronised := by
  have hkeeps := Machine.run_keeps (I := fun s => s.InSync ∧ Calls s.todo) (fun {s e s'} hs hstep => by
    obtain ⟨hsync, hcalls⟩ := hs
    have hhead : Calls s.todo.head?.toList := fun i hi =>
      hcalls i (List.mem_of_mem_head? (Option.mem_toList.mp hi))
    exact ⟨hsync.step hhead hstep, fun i hi => hcalls i ((goes_on hstep).todo.subset hi)⟩) hrun ⟨h, hcalls⟩
  exact hkeeps.1.synchronised

end QueuePair

end Sparreal.Nvme
