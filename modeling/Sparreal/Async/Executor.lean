import Sparreal.Lib.Machine
import Mathlib.Data.List.MinMax
import Mathlib.Data.List.Pairwise
import Mathlib.Data.Prod.Lex
import Mathlib.Data.Bool.Basic
import Mathlib.Tactic.Common

/-!
# The asynchronous executor

`SingleCpuExecutor` of `os/async/executor.rs` with the tasks of `os/async/task.rs`. A task is in one of two
queues, or in none, or several times in the second: wakers put its id into the wakeup queue, once, and
`process_wake_queue` moves the ids on to the priority queue, where `process_one_task` finds them.

The executor takes steps (`step`): a round of the loop of `process_wake_queue`, a call of
`process_one_task` up to the point where it polls, the return of the poll. Between any two of them, and
during a poll, the rest of the system spawns tasks, invokes wakers and wakes tasks through their handles. A
poll holds the lock of the metadata of its task, so a handle of that task waits for it to return.

The counter of the task ids has 64 bits in the source and does not wrap here: fewer than `2 ^ 64` tasks are spawned.
-/

namespace Sparreal.Async

abbrev TaskId := Nat

inductive TaskState where
  | pending
  | woken
  | running
  | completed
  deriving DecidableEq, Repr

/-- `TaskMetadata`. Times are milliseconds since boot. -/
structure TaskMetadata where
  id : TaskId
  state : TaskState
  createdAt : Nat
  lastWakeAt : Nat
  lastRunAt : Option Nat
  runCount : Nat
  deriving DecidableEq, Repr

namespace TaskMetadata

def new (now : Nat) (id : TaskId) : TaskMetadata where
  id := id
  state := .woken
  createdAt := now
  lastWakeAt := now
  lastRunAt := none
  runCount := 0

def isExpired (now timeout : Nat) (t : TaskMetadata) : Bool :=
  match t.lastRunAt with
  | some lastRun => decide (timeout < now - lastRun)
  | none => decide (timeout < now - t.createdAt)

def updateExecution (now : Nat) (t : TaskMetadata) : TaskMetadata :=
  { t with lastRunAt := some now, runCount := t.runCount + 1, state := .running }

def markWoken (now : Nat) (t : TaskMetadata) : TaskMetadata :=
  { t with lastWakeAt := now, state := .woken }

def markCompleted (t : TaskMetadata) : TaskMetadata := { t with state := .completed }

end TaskMetadata

structure TaskPriority where
  isWoken : Bool
  timestamp : Nat
  taskId : TaskId
  deriving DecidableEq, Repr

def TaskPriority.new (t : TaskMetadata) : TaskPriority :=
  ⟨decide (t.state = .woken), t.lastWakeAt, t.id⟩

/-- The derived order of `TaskPriority` compares field by field. -/
def TaskPriority.key (p : TaskPriority) : Bool ×ₗ Nat ×ₗ Nat :=
  toLex (p.isWoken, toLex (p.timestamp, p.taskId))

/-- `PriorityTaskWrapper`: the priority a task had when it was queued, and the task. -/
structure PriorityTaskWrapper where
  taskPriority : TaskPriority
  taskReference : TaskId
  deriving DecidableEq, Repr

def PriorityTaskWrapper.new (id : TaskId) (t : TaskMetadata) : PriorityTaskWrapper := ⟨.new t, id⟩

def PriorityTaskWrapper.key (w : PriorityTaskWrapper) : Bool ×ₗ Nat ×ₗ Nat := w.taskPriority.key

/-- `BinaryHeap::pop`. The greatest wrapper is one with the least priority. -/
def pop (queue : List PriorityTaskWrapper) : Option (PriorityTaskWrapper × List PriorityTaskWrapper) :=
  (queue.argmin PriorityTaskWrapper.key).map fun w => (w, queue.erase w)

/-- Where the executor is: outside `tick`, in `process_wake_queue`, in the loop over `process_one_task` with
`processed` tasks done, or in a poll there. -/
inductive Phase where
  | idle
  | draining
  | processing (processed : Nat)
  | polling (processed : Nat) (task : TaskId)
  deriving DecidableEq, Repr

/-- What a run is judged by. -/
inductive Action where
  | wake (task : TaskId)
  | pollBegan (task : TaskId)
  | pollReturned (task : TaskId) (ready : Bool)
  deriving DecidableEq, Repr

/-- The executor with the wakeup queue, the tasks and the clock. -/
structure Executor where
  now : Nat
  /-- `GLOBAL_WAKEUP_QUEUE`. -/
  wakeupQueue : List TaskId
  /-- `priority_task_queue`. -/
  queue : List PriorityTaskWrapper
  /-- The keys of `active_task_registry`. -/
  registry : List TaskId
  /-- The metadata of the tasks; a handle or a wrapper keeps a task that is not registered any more. -/
  tasks : TaskId → TaskMetadata
  /-- `COUNTER` of `TaskId::new`. -/
  counter : TaskId
  /-- `task_timeout_milliseconds`. -/
  timeout : Nat
  phase : Phase
  /-- What has happened, the last first. -/
  log : List Action

def maxTasksPerTick : Nat := 10

namespace Executor

/-- `with_timeout`, at boot. -/
def new (timeout : Nat) : Executor where
  now := 0
  wakeupQueue := []
  queue := []
  registry := []
  tasks := .new 0
  counter := 1
  timeout := timeout
  phase := .idle
  log := []

def updateTask (s : Executor) (id : TaskId) (f : TaskMetadata → TaskMetadata) : Executor :=
  { s with tasks := Function.update s.tasks id (f (s.tasks id)) }

/-- `registry.remove`. -/
def unregister (s : Executor) (id : TaskId) : Executor :=
  { s with registry := s.registry.filter (· ≠ id) }

/-! ### The rest of the system -/

def spawn (s : Executor) : Executor :=
  let t := TaskMetadata.new s.now s.counter
  { s.updateTask s.counter (fun _ => t) with
    registry := s.counter :: s.registry
    queue := .new s.counter t :: s.queue
    counter := s.counter + 1 }

/-- `enqueue_task_wakeup`, called by `wake` and `wake_by_ref` of the waker of a task. -/
def enqueueTaskWakeup (s : Executor) (id : TaskId) : Executor :=
  { s with
    wakeupQueue := if id ∈ s.wakeupQueue then s.wakeupQueue else s.wakeupQueue ++ [id]
    log := .wake id :: s.log }

/-- `TaskHandle::wake`, for the handle `spawn` returned; it returns `true`. -/
def handleWake (s : Executor) (id : TaskId) : Executor := s.updateTask id (.markWoken s.now)

/-! ### The executor -/

/-- A round of the loop of `process_wake_queue`. -/
def drain (s : Executor) : Executor :=
  match s.wakeupQueue with
  | [] => { s with phase := .processing 0 }
  | id :: rest =>
    let s := { s with wakeupQueue := rest }
    if id ∈ s.registry then
      let s := s.updateTask id (.markWoken s.now)
      { s with queue := .new id (s.tasks id) :: s.queue }
    else s

/-- `TaskRef::poll` up to the call of the future. -/
def beginPoll (s : Executor) (processed : Nat) (id : TaskId) : Executor :=
  { s.updateTask id (.updateExecution s.now) with
    phase := .polling processed id
    log := .pollBegan id :: s.log }

/-- `process_one_task` up to the poll, and the way out of the loop of `tick` if there is no task. -/
def processOneTask (s : Executor) (processed : Nat) : Executor :=
  match pop s.queue with
  | none => { s with phase := .idle }
  | some (w, queue) =>
    let id := w.taskReference
    let s := { s with queue := queue }
    let skipped := { s with phase := .processing (processed + 1) }
    if (s.tasks id).state = .completed then skipped.unregister id
    else if (s.tasks id).state = .woken then s.beginPoll processed id
    else if (s.tasks id).isExpired s.now s.timeout then
      (s.updateTask id (.markWoken s.now)).beginPoll processed id
    else skipped

/-- The rest of `TaskRef::poll` and of `process_one_task` when the future has returned. -/
def pollReturned (s : Executor) (processed : Nat) (id : TaskId) (ready : Bool) : Executor :=
  let s := { s with phase := .processing (processed + 1), log := .pollReturned id ready :: s.log }
  if ready then (s.updateTask id .markCompleted).unregister id
  else s.updateTask id fun t => { t with state := .pending }

end Executor

/-! ### Steps -/

inductive Event where
  | elapse (milliseconds : Nat)
  | spawn
  | wake (task : TaskId)
  | handleWake (task : TaskId)
  | beginTick
  | drain
  | processOneTask
  | pollReturned (ready : Bool)
  | endTick
  deriving DecidableEq, Repr

def Phase.polled : Phase → Option TaskId
  | .polling _ id => some id
  | _ => none

def step (s : Executor) : Event → Option Executor
  | .elapse milliseconds => some { s with now := s.now + milliseconds }
  | .spawn => some s.spawn
  | .wake id => some (s.enqueueTaskWakeup id)
  | .handleWake id =>
    if 0 < id ∧ id < s.counter ∧ s.phase.polled ≠ some id then some (s.handleWake id) else none
  | .beginTick => if s.phase = .idle then some { s with phase := .draining } else none
  | .drain => if s.phase = .draining then some s.drain else none
  | .processOneTask =>
    match s.phase with
    | .processing processed =>
      if processed < maxTasksPerTick then some (s.processOneTask processed) else none
    | _ => none
  | .pollReturned ready =>
    match s.phase with
    | .polling processed id => some (s.pollReturned processed id ready)
    | _ => none
  | .endTick =>
    match s.phase with
    | .processing processed =>
      if maxTasksPerTick ≤ processed then some { s with phase := .idle } else none
    | _ => none

def Reachable (timeout : Nat) (s : Executor) : Prop :=
  ∃ events, Machine.run step (.new timeout) events = some s

/-! ### What a step can do -/

/-- The steps, with the branch each takes. -/
inductive Takes (s : Executor) : Executor → Prop
  | elapse (milliseconds : Nat) : Takes s { s with now := s.now + milliseconds }
  | spawn : Takes s s.spawn
  | wake (id : TaskId) : Takes s (s.enqueueTaskWakeup id)
  | handleWake {id : TaskId} : id < s.counter → s.phase.polled ≠ some id → Takes s (s.handleWake id)
  | beginTick : s.phase = .idle → Takes s { s with phase := .draining }
  | drained : s.phase = .draining → s.wakeupQueue = [] → Takes s { s with phase := .processing 0 }
  | drainOne {id : TaskId} {rest : List TaskId} : s.phase = .draining → s.wakeupQueue = id :: rest →
      id ∈ s.registry →
      Takes s { s with
        wakeupQueue := rest
        tasks := Function.update s.tasks id ((s.tasks id).markWoken s.now)
        queue := .new id ((s.tasks id).markWoken s.now) :: s.queue }
  | drainStale {id : TaskId} {rest : List TaskId} : s.phase = .draining → s.wakeupQueue = id :: rest →
      id ∉ s.registry → Takes s { s with wakeupQueue := rest }
  | noTask {processed : Nat} : s.phase = .processing processed → processed < maxTasksPerTick →
      s.queue = [] → Takes s { s with phase := .idle }
  | cleanUp {processed : Nat} {w : PriorityTaskWrapper} {rest : List PriorityTaskWrapper} :
      s.phase = .processing processed → processed < maxTasksPerTick → pop s.queue = some (w, rest) →
      (s.tasks w.taskReference).state = .completed →
      Takes s { s with
        queue := rest
        registry := s.registry.filter (· ≠ w.taskReference)
        phase := .processing (processed + 1) }
  | poll {processed : Nat} {w : PriorityTaskWrapper} {rest : List PriorityTaskWrapper}
      {t : TaskMetadata} : s.phase = .processing processed → processed < maxTasksPerTick →
      pop s.queue = some (w, rest) → (s.tasks w.taskReference).state ≠ .completed →
      t = s.tasks w.taskReference ∨ t = (s.tasks w.taskReference).markWoken s.now →
      Takes s { s with
        queue := rest
        tasks := Function.update s.tasks w.taskReference (t.updateExecution s.now)
        phase := .polling processed w.taskReference
        log := .pollBegan w.taskReference :: s.log }
  | skip {processed : Nat} {w : PriorityTaskWrapper} {rest : List PriorityTaskWrapper} :
      s.phase = .processing processed → processed < maxTasksPerTick → pop s.queue = some (w, rest) →
      (s.tasks w.taskReference).state ≠ .woken →
      Takes s { s with queue := rest, phase := .processing (processed + 1) }
  | ready {processed : Nat} {id : TaskId} : s.phase = .polling processed id →
      Takes s (s.pollReturned processed id true)
  | pending {processed : Nat} {id : TaskId} : s.phase = .polling processed id →
      Takes s (s.pollReturned processed id false)
  | endTick {processed : Nat} : s.phase = .processing processed → maxTasksPerTick ≤ processed →
      Takes s { s with phase := .idle }

variable {s s' : Executor}

theorem takes_drain (hphase : s.phase = .draining) : Takes s s.drain := by
  unfold Executor.drain
  split
  · next hnil => exact .drained hphase hnil
  · next id rest hcons =>
    dsimp only
    split_ifs with hreg
    · refine (congrArg (Takes s) ?_).mpr (.drainOne hphase hcons hreg)
      simp only [Executor.updateTask, Function.update_self]
    · exact .drainStale hphase hcons hreg

/-- The ways `process_one_task` goes until it polls. -/
theorem processOneTask_cases (s : Executor) (processed : Nat) :
    (s.queue = [] ∧ s.processOneTask processed = { s with phase := .idle }) ∨
      ∃ w rest, pop s.queue = some (w, rest) ∧
        ((s.tasks w.taskReference).state = .completed ∧
            s.processOneTask processed =
              { s with
                queue := rest
                registry := s.registry.filter (· ≠ w.taskReference)
                phase := .processing (processed + 1) } ∨
          (s.tasks w.taskReference).state ≠ .completed ∧
            (∃ t, (t = s.tasks w.taskReference ∨ t = (s.tasks w.taskReference).markWoken s.now) ∧
              s.processOneTask processed =
                { s with
                  queue := rest
                  tasks := Function.update s.tasks w.taskReference (t.updateExecution s.now)
                  phase := .polling processed w.taskReference
                  log := .pollBegan w.taskReference :: s.log }) ∨
          (s.tasks w.taskReference).state ≠ .woken ∧
            (s.tasks w.taskReference).isExpired s.now s.timeout = false ∧
            s.processOneTask processed = { s with queue := rest, phase := .processing (processed + 1) }) := by
  unfold Executor.processOneTask
  split
  · next hpop => exact .inl ⟨List.argmin_eq_none.mp (Option.map_eq_none_iff.mp hpop), rfl⟩
  · next w rest hpop =>
    refine .inr ⟨w, rest, hpop, ?_⟩
    dsimp only
    split_ifs with hcompleted hwoken hexpired
    · exact .inl ⟨hcompleted, rfl⟩
    · exact .inr (.inl ⟨hcompleted, _, .inl rfl, rfl⟩)
    · refine .inr (.inl ⟨hcompleted, _, .inr rfl, ?_⟩)
      simp only [Executor.updateTask, Executor.beginPoll, Function.update_self, Function.update_idem]
    · exact .inr (.inr ⟨hwoken, by simpa using hexpired, rfl⟩)

theorem takes_processOneTask {processed : Nat} (hphase : s.phase = .processing processed)
    (hlt : processed < maxTasksPerTick) : Takes s (s.processOneTask processed) := by
  rcases processOneTask_cases s processed with ⟨hnil, hresult⟩ | ⟨w, rest, hpop, hround⟩
  · exact hresult ▸ .noTask hphase hlt hnil
  · rcases hround with ⟨hstate, hresult⟩ | ⟨hstate, t, ht, hresult⟩ | ⟨hstate, -, hresult⟩
    · exact hresult ▸ .cleanUp hphase hlt hpop hstate
    · exact hresult ▸ .poll hphase hlt hpop hstate ht
    · exact hresult ▸ .skip hphase hlt hpop hstate

theorem step_processOneTask (h : step s .processOneTask = some s') :
    ∃ processed, s.phase = .processing processed ∧ processed < maxTasksPerTick ∧ s' = s.processOneTask processed := by
  simp only [step] at h
  split at h
  · next processed hphase =>
    obtain ⟨hlt, heq⟩ := Option.ite_none_right_eq_some.mp h
    exact ⟨processed, hphase, hlt, (Option.some.inj heq).symm⟩
  · cases h

theorem step_pollReturned {ready : Bool} (h : step s (.pollReturned ready) = some s') :
    ∃ processed id, s.phase = .polling processed id ∧ s' = s.pollReturned processed id ready := by
  simp only [step] at h
  split at h
  · next processed id hphase => exact ⟨processed, id, hphase, (Option.some.inj h).symm⟩
  · cases h

theorem step_endTick (h : step s .endTick = some s') :
    ∃ processed, s.phase = .processing processed ∧ maxTasksPerTick ≤ processed ∧ s' = { s with phase := .idle } := by
  simp only [step] at h
  split at h
  · next processed hphase =>
    obtain ⟨hle, heq⟩ := Option.ite_none_right_eq_some.mp h
    exact ⟨processed, hphase, hle, (Option.some.inj heq).symm⟩
  · cases h

theorem takes_of_step {e : Event} (h : step s e = some s') : Takes s s' := by
  cases e with
  | elapse milliseconds => exact Option.some.inj h ▸ .elapse milliseconds
  | spawn => exact Option.some.inj h ▸ .spawn
  | wake id => exact Option.some.inj h ▸ .wake id
  | handleWake id =>
    obtain ⟨⟨-, hid, hfree⟩, ⟨⟩⟩ := Option.ite_none_right_eq_some.mp h
    exact .handleWake hid hfree
  | beginTick =>
    obtain ⟨hphase, ⟨⟩⟩ := Option.ite_none_right_eq_some.mp h
    exact .beginTick hphase
  | drain =>
    obtain ⟨hphase, ⟨⟩⟩ := Option.ite_none_right_eq_some.mp h
    exact takes_drain hphase
  | processOneTask =>
    obtain ⟨processed, hphase, hlt, rfl⟩ := step_processOneTask h
    exact takes_processOneTask hphase hlt
  | pollReturned ready =>
    obtain ⟨processed, id, hphase, rfl⟩ := step_pollReturned h
    cases ready with
    | true => exact .ready hphase
    | false => exact .pending hphase
  | endTick =>
    obtain ⟨processed, hphase, hle, rfl⟩ := step_endTick h
    exact .endTick hphase hle

variable {queue rest : List PriorityTaskWrapper} {w x : PriorityTaskWrapper}

theorem pop_eq_some (h : pop queue = some (w, rest)) :
    w ∈ queue ∧ rest = queue.erase w ∧ ∀ x ∈ queue, w.key ≤ x.key := by
  obtain ⟨m, hm, heq⟩ := Option.map_eq_some_iff.mp h
  obtain ⟨rfl, rfl⟩ : m = w ∧ queue.erase m = rest := by simpa using heq
  exact ⟨List.argmin_mem hm, rfl, fun x hx => List.le_of_mem_argmin hx hm⟩

theorem mem_of_pop (h : pop queue = some (w, rest)) (hx : x ∈ rest) : x ∈ queue := by
  obtain ⟨-, rfl, -⟩ := pop_eq_some h
  exact List.mem_of_mem_erase hx

theorem mem_rest_of_pop (h : pop queue = some (w, rest)) (hne : w.taskReference ≠ x.taskReference)
    (hx : x ∈ queue) : x ∈ rest := by
  obtain ⟨-, rfl, -⟩ := pop_eq_some h
  exact (List.mem_erase_of_ne fun heq => hne (congrArg PriorityTaskWrapper.taskReference heq.symm)).mpr hx

/-! ### The order of the queue -/

/-- What the first calls of `pop` return. -/
def pops : Nat → List PriorityTaskWrapper → List PriorityTaskWrapper
  | 0, _ => []
  | n + 1, queue =>
    match pop queue with
    | none => []
    | some (w, rest) => w :: pops n rest

/-- The order that the comments state: woken tasks first, then by timestamp and by id. -/
def TaskPriority.statedKey (p : TaskPriority) : Bool ×ₗ Nat ×ₗ Nat :=
  toLex (!p.isWoken, toLex (p.timestamp, p.taskId))

theorem pops_sorted {n : Nat} (h : queue.length ≤ n) :
    (pops n queue).Perm queue ∧ (pops n queue).Pairwise fun a b => a.key ≤ b.key := by
  induction n generalizing queue with
  | zero =>
    obtain rfl := List.length_eq_zero_iff.mp (Nat.le_zero.mp h)
    exact ⟨.nil, .nil⟩
  | succ n ih =>
    rw [pops]
    split
    · next hpop =>
      obtain rfl := List.argmin_eq_none.mp (Option.map_eq_none_iff.mp hpop)
      exact ⟨.nil, .nil⟩
    · next w rest hpop =>
      obtain ⟨hmem, rfl, hleast⟩ := pop_eq_some hpop
      have hlength := List.length_erase_of_mem hmem
      obtain ⟨hperm, hsorted⟩ := ih (show (queue.erase w).length ≤ n by omega)
      refine ⟨(hperm.cons w).trans (List.perm_cons_erase hmem).symm, List.pairwise_cons.mpr ⟨fun x hx => ?_, hsorted⟩⟩
      exact hleast x (List.mem_of_mem_erase (hperm.mem_iff.mp hx))

/-- The order is the stated one as long as the queue does not hold a woken task and another. -/
theorem pops_stated_iff (queue : List PriorityTaskWrapper) :
    ((pops queue.length queue).Perm queue ∧ (pops queue.length queue).Pairwise fun a b =>
        a.taskPriority.statedKey ≤ b.taskPriority.statedKey) ↔
      ∀ a ∈ queue, ∀ b ∈ queue, a.taskPriority.isWoken = b.taskPriority.isWoken := by
  obtain ⟨hperm, hsorted⟩ := pops_sorted (le_refl queue.length)
  rw [and_iff_right hperm]
  simp only [← hperm.mem_iff]
  constructor
  · intro hstated a ha b hb
    have hsame : (pops queue.length queue).Pairwise fun a b => a.taskPriority.isWoken = b.taskPriority.isWoken := by
      refine (hsorted.and hstated).imp fun {a b} h => ?_
      have hkey : a.taskPriority.isWoken ≤ b.taskPriority.isWoken := Prod.Lex.monotone_fst _ _ h.1
      have hstated : (!a.taskPriority.isWoken) ≤ !b.taskPriority.isWoken := Prod.Lex.monotone_fst _ _ h.2
      revert hkey hstated
      cases a.taskPriority.isWoken <;> cases b.taskPriority.isWoken <;> decide
    have : Std.Symm fun a b : PriorityTaskWrapper => a.taskPriority.isWoken = b.taskPriority.isWoken :=
      ⟨fun _ _ => Eq.symm⟩
    refine hsame.forall_of_forall (fun _ _ => ?_) ha hb
    rfl
  · intro hsame
    refine hsorted.imp_of_mem fun {a b} ha hb h => ?_
    rw [PriorityTaskWrapper.key, PriorityTaskWrapper.key, TaskPriority.key, TaskPriority.key, hsame a ha b hb,
      Prod.Lex.toLex_le_toLex] at h
    rw [TaskPriority.statedKey, TaskPriority.statedKey, hsame a ha b hb, Prod.Lex.toLex_le_toLex]
    exact .inr ⟨rfl, (h.resolve_left (lt_irrefl _)).2⟩

/-- A task that is not woken comes first. -/
theorem pops_woken_last :
    pops 2 [⟨⟨true, 0, 1⟩, 1⟩, ⟨⟨false, 5, 2⟩, 2⟩] = [⟨⟨false, 5, 2⟩, 2⟩, ⟨⟨true, 0, 1⟩, 1⟩] ∧
      ¬ (⟨false, 5, 2⟩ : TaskPriority).statedKey ≤ (⟨true, 0, 1⟩ : TaskPriority).statedKey := by
  decide

/-! ### What a step adds -/

theorem grows_takes (h : Takes s s') : s.counter ≤ s'.counter ∧ s.now ≤ s'.now := by
  cases h with
  | elapse => exact ⟨le_rfl, Nat.le_add_right _ _⟩
  | spawn => exact ⟨Nat.le_succ _, le_rfl⟩
  | _ => exact ⟨le_rfl, le_rfl⟩

/-- Only `spawn` adds to the registry. -/
theorem registry_takes {R : TaskId → Prop} (hspawn : s.counter < s'.counter → R s.counter)
    (hreg : ∀ id ∈ s.registry, R id) (h : Takes s s') : ∀ id ∈ s'.registry, R id := by
  cases h with
  | spawn => exact List.forall_mem_cons.mpr ⟨hspawn (Nat.lt_succ_self _), hreg⟩
  | cleanUp | ready => exact fun id hid => hreg id (List.mem_of_mem_filter hid)
  | _ => exact hreg

/-- Only `spawn` and `process_wake_queue` add to the priority queue. -/
theorem queue_takes {Q : PriorityTaskWrapper → Prop}
    (hspawn : s.counter < s'.counter → Q (.new s.counter (.new s.now s.counter)))
    (hdrain : ∀ id ∈ s.registry, Q (.new id ((s.tasks id).markWoken s.now))) (hqueue : ∀ w ∈ s.queue, Q w)
    (h : Takes s s') : ∀ w ∈ s'.queue, Q w := by
  cases h with
  | spawn => exact List.forall_mem_cons.mpr ⟨hspawn (Nat.lt_succ_self _), hqueue⟩
  | @drainOne id _ _ _ hreg => exact List.forall_mem_cons.mpr ⟨hdrain id hreg, hqueue⟩
  | cleanUp _ _ hpop | poll _ _ hpop | skip _ _ hpop => exact fun w hw => hqueue w (mem_of_pop hpop hw)
  | _ => exact hqueue

/-! ### Well-formed executors -/

theorem state_update_self (tasks : TaskId → TaskMetadata) (id : TaskId) (t : TaskMetadata) :
    (Function.update tasks id t id).state = t.state := by
  rw [Function.update_self]

theorem state_update_of_ne {id other : TaskId} (hne : other ≠ id) (tasks : TaskId → TaskMetadata)
    (t : TaskMetadata) : (Function.update tasks id t other).state = (tasks other).state := by
  rw [Function.update_of_ne hne]

/-- The ids in use have been given out, and a task that is polled is running. -/
structure WellFormed (s : Executor) : Prop where
  registered : ∀ id ∈ s.registry, id < s.counter
  queued : ∀ w ∈ s.queue, w.taskReference < s.counter
  polled : ∀ id, s.phase.polled = some id → id < s.counter ∧ (s.tasks id).state = .running

theorem wellFormed_new (timeout : Nat) : WellFormed (.new timeout) :=
  ⟨fun _ hid => absurd hid List.not_mem_nil, fun _ hw => absurd hw List.not_mem_nil, nofun⟩

theorem WellFormed.takes (hs : WellFormed s) (h : Takes s s') : WellFormed s' := by
  have hregistered : ∀ id ∈ s.registry, id < s'.counter := fun id hid =>
    (hs.registered id hid).trans_le (grows_takes h).1
  have hqueued : ∀ w ∈ s.queue, w.taskReference < s'.counter := fun w hw =>
    (hs.queued w hw).trans_le (grows_takes h).1
  refine ⟨registry_takes id hregistered h, queue_takes id hregistered hqueued h, ?_⟩
  cases h with
  | elapse => exact hs.polled
  | spawn =>
    intro id hid
    obtain ⟨hlt, hrun⟩ := hs.polled id hid
    exact ⟨Nat.lt_succ_of_lt hlt, (state_update_of_ne hlt.ne _ _).trans hrun⟩
  | wake => exact hs.polled
  | @handleWake id hid hfree =>
    intro other hother
    have hne : other ≠ id := fun h => hfree (h ▸ hother)
    exact (hs.polled other hother).imp_right (state_update_of_ne hne _ _).trans
  | drainOne hphase =>
    have hnone : s.phase.polled = none := by rw [hphase]; rfl
    exact fun other hother => absurd (hnone.symm.trans hother) nofun
  | drainStale => exact hs.polled
  | poll _ _ hpop =>
    intro id hid
    obtain rfl := Option.some.inj hid
    exact ⟨hs.queued _ (pop_eq_some hpop).1, state_update_self _ _ _⟩
  | _ => exact nofun

theorem Reachable.wellFormed {timeout : Nat} (hs : Reachable timeout s) : WellFormed s := by
  obtain ⟨events, hrun⟩ := hs
  exact Machine.run_keeps (fun hs h => hs.takes (takes_of_step h)) hrun (wellFormed_new timeout)

end Sparreal.Async
