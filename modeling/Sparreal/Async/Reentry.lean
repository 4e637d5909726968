import Sparreal.Lib.Locks
import Sparreal.Async.Registry

/-!
# The locks of the executor

Everything in `os/async` is behind an `IrqSpinlock`: the wakeup queue, the priority queue, the registry, and of each
task the metadata and the future. The operations below take the locks where the source takes them. `TaskRef::poll`
keeps both locks of its task while the future runs, so that a future that calls the executor does so with them held;
such a call may be `tick` again, and the ticks that wait for it are in `below`.

`wake_by_id` keeps the registry locked when it calls `add_task_to_queue`, which locks it again. Besides that, a call
comes to a lock of its own CPU exactly if it needs the metadata of a task that is being polled (`no_reentry_iff`).
-/

namespace Sparreal.Async

open Locks (withLock read write update lock unlock)

inductive ExecutorLock where
  /-- `GLOBAL_WAKEUP_QUEUE`. -/
  | wakeupQueue
  /-- `priority_task_queue`. -/
  | queue
  /-- `active_task_registry`. -/
  | registry
  /-- `TaskRef::metadata`. -/
  | metadata (task : TaskId)
  /-- `TaskRef::future`. -/
  | future (task : TaskId)
  deriving DecidableEq, Repr

/-- The executor in its innermost tick, with the phases of the ticks around it, the innermost first. -/
structure Nesting where
  exec : Executor
  below : List Phase

abbrev Cpu := Locks.Cpu ExecutorLock Nesting

abbrev Op (α : Type) := Locks.Run ExecutorLock Nesting α

/-- `TaskHandle`. A reference is named by the id of its task. -/
structure TaskHandle where
  id : TaskId
  taskRef : Option TaskId
  deriving DecidableEq, Repr

namespace Op

def query {α : Type} (f : Executor → α) : Op α := read fun d => f d.exec

def change (f : Executor → Executor) : Op Unit := write fun d => { d with exec := f d.exec }

/-! ### The rest of the system -/

/-- `PriorityTaskWrapper::new`, which locks the metadata to read the priority. -/
def wrap (id : TaskId) : Op PriorityTaskWrapper :=
  withLock (.metadata id) (query fun s => .new id (s.tasks id))

/-- `queue.push`. -/
def push (w : PriorityTaskWrapper) : Op Unit :=
  withLock .queue (change fun s => { s with queue := w :: s.queue })

def addTaskToQueue (id : TaskId) : Op Unit :=
  withLock .registry do
    if ← query fun s => decide (id ∈ s.registry) then
      let priorityTask ← wrap id
      push priorityTask

/-- `TaskId::new`. -/
def newId : Op TaskId :=
  update fun d => (d.exec.counter, { d with exec := { d.exec with counter := d.exec.counter + 1 } })

def spawn : Op TaskHandle := do
  let id ← newId
  change fun s => s.updateTask id fun _ => .new s.now id
  withLock .registry (change fun s => { s with registry := id :: s.registry })
  addTaskToQueue id
  return ⟨id, some id⟩

/-- `metadata.lock().mark_woken()`. -/
def markWoken (id : TaskId) : Op Unit :=
  withLock (.metadata id) (change fun s => s.updateTask id (.markWoken s.now))

def wakeById (id : TaskId) : Op Bool :=
  withLock .registry do
    if ← query fun s => decide (id ∈ s.registry) then
      markWoken id
      addTaskToQueue id
      return true
    else return false

def enqueueTaskWakeup (id : TaskId) : Op Unit := withLock .wakeupQueue (change (·.enqueueTaskWakeup id))

/-- `TaskHandle::wake`. -/
def handleWake (handle : TaskHandle) : Op Bool :=
  match handle.taskRef with
  | some id => do
    markWoken id
    return true
  | none => return false

def hasPendingTasks : Op Bool := do
  let noWakeup ← withLock .wakeupQueue (query fun s => s.wakeupQueue.isEmpty)
  if !noWakeup then return true
  let noTask ← withLock .queue (query fun s => s.queue.isEmpty)
  if !noTask then return true
  withLock .registry (query fun s => !s.registry.isEmpty)

/-! ### The executor -/

/-- `tick` is called. -/
def beginTick : Op Unit := write fun d => ⟨{ d.exec with phase := .draining }, d.exec.phase :: d.below⟩

/-- `tick` returns. -/
def leaveTick : Op Unit := write fun d => ⟨{ d.exec with phase := d.below.headD .idle }, d.below.tail⟩

/-- A round of the loop of `process_wake_queue`. -/
def drain : Op Unit := do
  let popped ← withLock .wakeupQueue (update fun d =>
    (d.exec.wakeupQueue.head?, { d with exec := { d.exec with wakeupQueue := d.exec.wakeupQueue.tail } }))
  match popped with
  | some id =>
    withLock .registry do
      if ← query fun s => decide (id ∈ s.registry) then
        markWoken id
        let priorityTask ← wrap id
        push priorityTask
  | none => change fun s => { s with phase := .processing 0 }

/-- `process_one_task` returns `true`. -/
def next (processed : Nat) : Op Unit := change fun s => { s with phase := .processing (processed + 1) }

/-- `registry.remove`. -/
def remove (id : TaskId) : Op Unit := withLock .registry (change (·.unregister id))

/-- `TaskRef::poll` up to the call of the future. The locks are held until it returns. -/
def poll (processed : Nat) (id : TaskId) : Op Unit := do
  lock (.metadata id)
  if ← query fun s => decide ((s.tasks id).state = .completed) then
    unlock (.metadata id)
    remove id
    next processed
  else
    change fun s => s.updateTask id (.updateExecution s.now)
    lock (.future id)
    change fun s => { s with phase := .polling processed id, log := .pollBegan id :: s.log }

/-- The block of `process_one_task` that decides whether the task is executed. -/
def shouldExecute (id : TaskId) : Op Bool :=
  withLock (.metadata id) do
    if ← query fun s => decide ((s.tasks id).state = .woken) then return true
    else if ← query fun s => (s.tasks id).isExpired s.now s.timeout then
      change fun s => s.updateTask id (.markWoken s.now)
      return true
    else return false

/-- `queue.pop`. -/
def popQueue (d : Nesting) : Option PriorityTaskWrapper × Nesting :=
  match pop d.exec.queue with
  | none => (none, d)
  | some (w, rest) => (some w, { d with exec := { d.exec with queue := rest } })

/-- `process_one_task` up to the poll, and the way out of the loop of `tick` if there is no task. -/
def processOneTask (processed : Nat) : Op Unit := do
  match ← withLock .queue (update popQueue) with
  | none => leaveTick
  | some priorityTask =>
    -- `task_ref.id()`
    let id ← withLock (.metadata priorityTask.taskReference) (return priorityTask.taskReference)
    if ← withLock (.metadata id) (query fun s => decide ((s.tasks id).state = .completed)) then
      remove id
      next processed
    else if ← shouldExecute id then poll processed id
    else next processed

/-- The guards of `TaskRef::poll` are dropped. -/
def release (id : TaskId) : Op Unit := do
  unlock (.future id)
  unlock (.metadata id)

/-- The rest of `TaskRef::poll` and of `process_one_task` when the future has returned. -/
def pollReturned (processed : Nat) (id : TaskId) : Bool → Op Unit
  | true => do
    change fun s => { s.updateTask id .markCompleted with log := .pollReturned id true :: s.log }
    release id
    remove id
    next processed
  | false => do
    change fun s =>
      { s.updateTask id (fun t => { t with state := .pending }) with log := .pollReturned id false :: s.log }
    release id
    next processed

end Op

/-! ### Calls -/

/-- What the CPU may do next. `tick` is `beginTick`, rounds of `drain`, then of `processOneTask` and `pollReturned`. -/
inductive Call where
  | elapse (milliseconds : Nat)
  | spawn
  | wakeById (task : TaskId)
  | wake (task : TaskId)
  | handleWake (handle : TaskHandle)
  | hasPendingTasks
  | beginTick
  | drain
  | processOneTask
  | pollReturned (ready : Bool)
  | endTick
  deriving DecidableEq, Repr

/-- The operation of a call, if it can be made now. -/
def Nesting.perform (d : Nesting) : Call → Option (Op Unit)
  | .elapse milliseconds => some (Op.change fun s => { s with now := s.now + milliseconds })
  | .spawn => some (do let _ ← Op.spawn; return)
  | .wakeById id => some (do let _ ← Op.wakeById id; return)
  | .wake id => some (Op.enqueueTaskWakeup id)
  | .handleWake handle =>
    if handle.taskRef.all fun id => decide (0 < id ∧ id < d.exec.counter) then
      some (do let _ ← Op.handleWake handle; return)
    else none
  | .hasPendingTasks => some (do let _ ← Op.hasPendingTasks; return)
  | .beginTick => some Op.beginTick
  | .drain => if d.exec.phase = .draining then some Op.drain else none
  | .processOneTask =>
    match d.exec.phase with
    | .processing processed => if processed < maxTasksPerTick then some (Op.processOneTask processed) else none
    | _ => none
  | .pollReturned ready =>
    match d.exec.phase with
    | .polling processed id => some (Op.pollReturned processed id ready)
    | _ => none
  | .endTick =>
    match d.exec.phase with
    | .processing processed => if maxTasksPerTick ≤ processed then some Op.leaveTick else none
    | _ => none

def Cpu.call (s : Cpu) (c : Call) : Option (Except (Locks.Fault ExecutorLock) Unit × Cpu) :=
  (s.data.perform c).map (· s)

def Cpu.step (s : Cpu) (c : Call) : Option Cpu :=
  match s.call c with
  | some (.ok (), s') => some s'
  | _ => none

/-- `with_timeout`, at boot, with no lock held. -/
def Cpu.boot (timeout : Nat) : Cpu := ⟨[], .new timeout, []⟩

/-- The future of the task runs, in one of the ticks. -/
def Nesting.Polled (d : Nesting) (id : TaskId) : Prop :=
  ∃ processed, .polling processed id ∈ d.exec.phase :: d.below

/-- The calls that come to a lock of their own CPU. -/
inductive Hazard (d : Nesting) : Call → Prop
  | wakeById {id : TaskId} : id ∈ d.exec.registry → Hazard d (.wakeById id)
  | handleWake {handle : TaskHandle} {id : TaskId} : handle.taskRef = some id → d.Polled id →
      Hazard d (.handleWake handle)
  | drain {id : TaskId} {rest : List TaskId} : d.exec.phase = .draining → d.exec.wakeupQueue = id :: rest →
      id ∈ d.exec.registry → d.Polled id → Hazard d .drain
  | processOneTask {processed : Nat} {w : PriorityTaskWrapper} {rest : List PriorityTaskWrapper} :
      d.exec.phase = .processing processed → processed < maxTasksPerTick → pop d.exec.queue = some (w, rest) →
      d.Polled w.taskReference → Hazard d .processOneTask

/-! ### One operation -/

/-- The locks a tick holds between two steps. -/
def Phase.locks : Phase → List ExecutorLock
  | .polling _ id => [.future id, .metadata id]
  | _ => []

structure Free (held : List ExecutorLock) : Prop where
  wakeupQueue : .wakeupQueue ∉ held
  queue : .queue ∉ held
  registry : .registry ∉ held

namespace Op

section

variable {α β : Type} {held : List ExecutorLock} {e : Executor} {below : List Phase} {l : ExecutorLock} {id : TaskId}

theorem query_bind (f : Executor → α) (k : α → Op β) :
    (query f >>= k) ⟨held, e, below⟩ = k (f e) ⟨held, e, below⟩ := rfl

theorem change_bind (f : Executor → Executor) (k : Unit → Op β) :
    (change f >>= k) ⟨held, e, below⟩ = k () ⟨held, f e, below⟩ := rfl

theorem newId_bind (k : TaskId → Op β) :
    (newId >>= k) ⟨held, e, below⟩ = k e.counter ⟨held, { e with counter := e.counter + 1 }, below⟩ := rfl

theorem withLock_query (h : l ∉ held) (f : Executor → α) :
    withLock l (query f) ⟨held, e, below⟩ = (.ok (f e), ⟨held, e, below⟩) := Locks.withLock_read h _

theorem withLock_change (h : l ∉ held) (f : Executor → Executor) :
    withLock l (change f) ⟨held, e, below⟩ = (.ok (), ⟨held, f e, below⟩) := Locks.withLock_write h _

theorem push_ok (hqueue : .queue ∉ held) (w : PriorityTaskWrapper) :
    push w ⟨held, e, below⟩ = (.ok (), ⟨held, { e with queue := w :: e.queue }, below⟩) := withLock_change hqueue _

theorem wrap_ok (hmeta : .metadata id ∉ held) :
    wrap id ⟨held, e, below⟩ = (.ok (.new id (e.tasks id)), ⟨held, e, below⟩) := withLock_query hmeta _

theorem markWoken_ok (hmeta : .metadata id ∉ held) :
    markWoken id ⟨held, e, below⟩ = (.ok (), ⟨held, e.handleWake id, below⟩) := withLock_change hmeta _

theorem remove_ok (hreg : .registry ∉ held) (id : TaskId) :
    remove id ⟨held, e, below⟩ = (.ok (), ⟨held, e.unregister id, below⟩) := withLock_change hreg _

section

variable (hfree : Free held)

include hfree

theorem addTaskToQueue_ok (hmeta : .metadata id ∉ held) (hid : id ∈ e.registry) :
    addTaskToQueue id ⟨held, e, below⟩ =
      (.ok (), ⟨held, { e with queue := .new id (e.tasks id) :: e.queue }, below⟩) := by
  refine Locks.withLock_ok hfree.registry ?_
  have hmeta' : .metadata id ∉ ExecutorLock.registry :: held := by simpa using hmeta
  have hqueue' : .queue ∉ ExecutorLock.registry :: held := by simpa using hfree.queue
  rw [query_bind, if_pos (decide_eq_true hid), Exec.bind_apply_ok (wrap_ok hmeta')]
  exact push_ok hqueue' _

theorem spawn_ok (hmeta : .metadata e.counter ∉ held) :
    spawn ⟨held, e, below⟩ = (.ok ⟨e.counter, some e.counter⟩, ⟨held, e.spawn, below⟩) := by
  rw [spawn, newId_bind, change_bind, Exec.bind_apply_ok (withLock_change hfree.registry _),
    Exec.bind_apply_ok (addTaskToQueue_ok hfree hmeta List.mem_cons_self)]
  simp [Executor.spawn, Executor.updateTask]

theorem wakeById_unregistered (hid : id ∉ e.registry) :
    wakeById id ⟨held, e, below⟩ = (.ok false, ⟨held, e, below⟩) := by
  refine Locks.withLock_ok hfree.registry ?_
  rw [query_bind, if_neg (by simpa using hid)]
  rfl

/-- The registry is still locked when `add_task_to_queue` locks it. -/
theorem wakeById_registered (hid : id ∈ e.registry) :
    ∃ l s, wakeById id ⟨held, e, below⟩ = (.error (.reentered l), s) := by
  by_cases hmeta : .metadata id ∈ held
  · refine ⟨.metadata id, ⟨.registry :: held, e, below⟩, Locks.withLock_error hfree.registry ?_⟩
    rw [query_bind, if_pos (decide_eq_true hid), Exec.bind_apply, markWoken,
      Locks.withLock_of_mem (List.mem_cons_of_mem _ hmeta)]
  · refine ⟨.registry, ⟨.registry :: held, e.handleWake id, below⟩, Locks.withLock_error hfree.registry ?_⟩
    have hmeta' : .metadata id ∉ ExecutorLock.registry :: held := by simpa using hmeta
    rw [query_bind, if_pos (decide_eq_true hid), Exec.bind_apply_ok (markWoken_ok hmeta'), Exec.bind_apply,
      addTaskToQueue, Locks.withLock_of_mem List.mem_cons_self]

theorem enqueueTaskWakeup_ok (id : TaskId) :
    enqueueTaskWakeup id ⟨held, e, below⟩ = (.ok (), ⟨held, e.enqueueTaskWakeup id, below⟩) :=
  withLock_change hfree.wakeupQueue _

theorem hasPendingTasks_ok : hasPendingTasks ⟨held, e, below⟩ = (.ok e.hasPendingTasks, ⟨held, e, below⟩) := by
  rw [hasPendingTasks, Exec.bind_apply_ok (withLock_query hfree.wakeupQueue _), Executor.hasPendingTasks]
  cases e.wakeupQueue.isEmpty with
  | false => rfl
  | true =>
    simp only [Bool.not_true, Bool.false_eq_true, ↓reduceIte, Bool.false_or]
    rw [Exec.bind_apply_ok (withLock_query hfree.queue _)]
    cases e.queue.isEmpty with
    | false => rfl
    | true => exact withLock_query hfree.registry _

theorem drain_ok (hmeta : ∀ id rest, e.wakeupQueue = id :: rest → id ∈ e.registry → .metadata id ∉ held) :
    drain ⟨held, e, below⟩ = (.ok (), ⟨held, e.drain, below⟩) := by
  rw [drain, Exec.bind_apply_ok (Locks.withLock_update hfree.wakeupQueue _), Executor.drain]
  cases hqueue : e.wakeupQueue with
  | nil => simp only [List.head?_nil]; rfl
  | cons id rest =>
    refine Locks.withLock_ok hfree.registry ?_
    simp only [List.tail_cons]
    rw [query_bind]
    by_cases hid : id ∈ e.registry
    · have hmeta' : .metadata id ∉ ExecutorLock.registry :: held := by simpa using hmeta id rest hqueue hid
      have hqueue' : .queue ∉ ExecutorLock.registry :: held := by simpa using hfree.queue
      rw [if_pos (decide_eq_true hid), if_pos hid, Exec.bind_apply_ok (markWoken_ok hmeta'),
        Exec.bind_apply_ok (wrap_ok hmeta')]
      exact push_ok hqueue' _
    · rw [if_neg (by simpa using hid), if_neg hid]
      rfl

theorem drain_of_mem {rest : List TaskId} (hqueue : e.wakeupQueue = id :: rest) (hid : id ∈ e.registry)
    (hmeta : .metadata id ∈ held) : ∃ l s, drain ⟨held, e, below⟩ = (.error (.reentered l), s) := by
  refine ⟨.metadata id, ⟨.registry :: held, { e with wakeupQueue := rest }, below⟩, ?_⟩
  rw [drain, Exec.bind_apply_ok (Locks.withLock_update hfree.wakeupQueue _)]
  simp only [hqueue, List.head?_cons, List.tail_cons]
  refine Locks.withLock_error hfree.registry ?_
  rw [query_bind, if_pos (decide_eq_true hid), Exec.bind_apply, markWoken,
    Locks.withLock_of_mem (List.mem_cons_of_mem _ hmeta)]

end

theorem shouldExecute_ok (hmeta : .metadata id ∉ held) :
    shouldExecute id ⟨held, e, below⟩ =
      if (e.tasks id).state = .woken then (.ok true, ⟨held, e, below⟩)
      else if (e.tasks id).isExpired e.now e.timeout then (.ok true, ⟨held, e.handleWake id, below⟩)
      else (.ok false, ⟨held, e, below⟩) := by
  rw [shouldExecute]
  split_ifs with hwoken hexpired
  · exact Locks.withLock_ok hmeta (by rw [query_bind, if_pos (decide_eq_true hwoken)]; rfl)
  · refine Locks.withLock_ok hmeta ?_
    rw [query_bind, if_neg (by simpa using hwoken), query_bind, if_pos hexpired]
    rfl
  · refine Locks.withLock_ok hmeta ?_
    rw [query_bind, if_neg (by simpa using hwoken), query_bind, if_neg hexpired]
    rfl

theorem poll_ok (processed : Nat) (hmeta : .metadata id ∉ held) (hfuture : .future id ∉ held)
    (hstate : (e.tasks id).state ≠ .completed) :
    poll processed id ⟨held, e, below⟩ =
      (.ok (), ⟨.future id :: .metadata id :: held, e.beginPoll processed id, below⟩) := by
  have hfuture' : .future id ∉ ExecutorLock.metadata id :: held := by simpa using hfuture
  rw [poll, Exec.bind_apply_ok (Locks.lock_of_not_mem hmeta), query_bind, if_neg (by simpa using hstate), change_bind,
    Exec.bind_apply_ok (Locks.lock_of_not_mem hfuture')]
  rfl

section

variable {w : PriorityTaskWrapper} {rest : List PriorityTaskWrapper}

theorem processOneTask_none (hfree : Free held) (processed : Nat) (hpop : pop e.queue = none) :
    processOneTask processed ⟨held, e, below⟩ =
      (.ok (), ⟨held, { e with phase := below.headD .idle }, below.tail⟩) := by
  rw [processOneTask, Exec.bind_apply_ok (Locks.withLock_update hfree.queue _)]
  simp only [popQueue, hpop]
  rfl

theorem processOneTask_of_mem (hfree : Free held) (processed : Nat) (hpop : pop e.queue = some (w, rest))
    (hmeta : .metadata w.taskReference ∈ held) :
    ∃ l s, processOneTask processed ⟨held, e, below⟩ = (.error (.reentered l), s) := by
  refine ⟨.metadata w.taskReference, ⟨held, { e with queue := rest }, below⟩, ?_⟩
  rw [processOneTask, Exec.bind_apply_ok (Locks.withLock_update hfree.queue _)]
  simp only [popQueue, hpop]
  rw [Exec.bind_apply, Locks.withLock_of_mem hmeta]

theorem processOneTask_ok (hfree : Free held) (processed : Nat) (hpop : pop e.queue = some (w, rest))
    (hmeta : .metadata w.taskReference ∉ held) (hfuture : .future w.taskReference ∉ held) :
    processOneTask processed ⟨held, e, below⟩ =
      (.ok (), ⟨(e.processOneTask processed).phase.locks ++ held, e.processOneTask processed, below⟩) := by
  rw [processOneTask, Exec.bind_apply_ok (Locks.withLock_update hfree.queue _)]
  simp only [popQueue, hpop, Executor.processOneTask]
  rw [Exec.bind_apply_ok (Locks.withLock_pure hmeta _), Exec.bind_apply_ok (withLock_query hmeta _)]
  by_cases hcompleted : (e.tasks w.taskReference).state = .completed
  · rw [if_pos (decide_eq_true hcompleted), if_pos hcompleted, Exec.bind_apply_ok (remove_ok hfree.registry _)]
    rfl
  · rw [if_neg (by simpa using hcompleted), if_neg hcompleted, Exec.bind_apply, shouldExecute_ok hmeta]
    by_cases hwoken : (e.tasks w.taskReference).state = .woken
    · rw [if_pos hwoken, if_pos hwoken]
      exact poll_ok processed hmeta hfuture hcompleted
    · rw [if_neg hwoken, if_neg hwoken]
      by_cases hexpired : (e.tasks w.taskReference).isExpired e.now e.timeout
      · have hawake : ((e.handleWake w.taskReference).tasks w.taskReference).state ≠ .completed := by
          simp [Executor.handleWake, Executor.updateTask, TaskMetadata.markWoken]
        rw [if_pos hexpired, if_pos hexpired]
        exact poll_ok processed hmeta hfuture hawake
      · rw [if_neg hexpired, if_neg hexpired]
        rfl

end

theorem release_ok :
    release id ⟨.future id :: .metadata id :: held, e, below⟩ = (.ok (), ⟨held, e, below⟩) := by
  rw [release, Exec.bind_apply_ok (Locks.unlock_apply _), List.erase_cons_head, Locks.unlock_apply,
    List.erase_cons_head]

theorem pollReturned_ok (hreg : .registry ∉ held) (processed : Nat) (ready : Bool) :
    pollReturned processed id ready ⟨.future id :: .metadata id :: held, e, below⟩ =
      (.ok (), ⟨held, e.pollReturned processed id ready, below⟩) := by
  cases ready with
  | true =>
    rw [pollReturned, change_bind, Exec.bind_apply_ok release_ok, Exec.bind_apply_ok (remove_ok hreg id)]
    rfl
  | false =>
    rw [pollReturned, change_bind, Exec.bind_apply_ok release_ok]
    rfl

end

end Op

/-! ### What is held -/

variable {id : TaskId}

theorem mem_locks {l : ExecutorLock} {phases : List Phase} : l ∈ phases.flatMap Phase.locks ↔
    ∃ processed id, .polling processed id ∈ phases ∧ (l = .future id ∨ l = .metadata id) := by
  rw [List.mem_flatMap]
  constructor
  · rintro ⟨phase, hphase, hlock⟩
    cases phase with
    | polling processed id => exact ⟨processed, id, hphase, by simpa [Phase.locks] using hlock⟩
    | _ => exact absurd hlock List.not_mem_nil
  · rintro ⟨processed, id, hphase, hlock⟩
    exact ⟨_, hphase, by simpa [Phase.locks] using hlock⟩

theorem free_locks (phases : List Phase) : Free (phases.flatMap Phase.locks) := by
  constructor <;> rw [mem_locks] <;> simp

/-- The ids in the registry and in the queue have been given out. -/
structure Bounded (e : Executor) : Prop where
  registered : ∀ id ∈ e.registry, id < e.counter
  queued : ∀ w ∈ e.queue, w.taskReference < e.counter

theorem Bounded.takes {e e' : Executor} (he : Bounded e) (h : Takes e e') : Bounded e' := by
  have hregistered : ∀ id ∈ e.registry, id < e'.counter := fun id hid =>
    (he.registered id hid).trans_le (grows_takes h).1
  have hqueued : ∀ w ∈ e.queue, w.taskReference < e'.counter := fun w hw =>
    (he.queued w hw).trans_le (grows_takes h).1
  exact ⟨registry_takes id hregistered h, queue_takes id hregistered hqueued h⟩

theorem locks_drain {e : Executor} (hphase : e.phase = .draining) : e.drain.phase.locks = [] := by
  unfold Executor.drain
  split
  · rfl
  · dsimp only
    split_ifs
    · exact congrArg Phase.locks hphase
    · exact congrArg Phase.locks hphase

variable {processed : Nat}

theorem polled_processOneTask {e : Executor} {w : PriorityTaskWrapper} {rest : List PriorityTaskWrapper}
    (hpop : pop e.queue = some (w, rest)) {k : Nat} (h : (e.processOneTask processed).phase = .polling k id) :
    id = w.taskReference := by
  simp only [Executor.processOneTask, hpop] at h
  split_ifs at h
  · exact absurd h Phase.noConfusion
  · exact (Phase.polling.inj h).2.symm
  · exact (Phase.polling.inj h).2.symm

/-- Between two calls the locks of the tasks that are polled are held, and no others. -/
structure HoldsPolled (s : Cpu) : Prop where
  held : s.held = (s.data.exec.phase :: s.data.below).flatMap Phase.locks
  bounded : Bounded s.data.exec
  polled : ∀ id, s.data.Polled id → id < s.data.exec.counter

theorem holdsPolled_boot (timeout : Nat) : HoldsPolled (.boot timeout) := by
  refine ⟨rfl, ⟨fun _ hid => absurd hid List.not_mem_nil, fun _ hw => absurd hw List.not_mem_nil⟩, ?_⟩
  intro id ⟨processed, hmem⟩
  exact absurd (List.mem_singleton.mp hmem) Phase.noConfusion

namespace HoldsPolled

variable {held : List ExecutorLock} {e e' : Executor} {below : List Phase}

variable (hs : HoldsPolled ⟨held, e, below⟩)

include hs

theorem free : Free held := by
  rw [show held = _ from hs.held]
  exact free_locks _

theorem metadata_mem : .metadata id ∈ held ↔ Nesting.Polled ⟨e, below⟩ id := by
  rw [show held = _ from hs.held, mem_locks]
  simp [Nesting.Polled]

theorem future_not_mem (hid : ¬ Nesting.Polled ⟨e, below⟩ id) : .future id ∉ held := by
  rw [show held = _ from hs.held, mem_locks]
  simpa [Nesting.Polled] using hid

theorem same_phase (hphase : e'.phase = e.phase) (hbounded : Bounded e') (hcounter : e.counter ≤ e'.counter) :
    HoldsPolled ⟨held, e', below⟩ := by
  refine ⟨?_, hbounded, fun id hid => ?_⟩
  · rw [hphase]
    exact hs.held
  · obtain ⟨processed, hmem⟩ := hid
    rw [hphase] at hmem
    exact (hs.polled id ⟨processed, hmem⟩).trans_le hcounter

theorem enter (hphase : e.phase.locks = []) (h : Takes e e')
    (hpolled : ∀ k id, e'.phase = .polling k id → id < e.counter) :
    HoldsPolled ⟨e'.phase.locks ++ held, e', below⟩ := by
  refine ⟨?_, hs.bounded.takes h, fun id hid => LT.lt.trans_le ?_ (grows_takes h).1⟩
  · rw [show held = _ from hs.held, List.flatMap_cons, List.flatMap_cons, hphase, List.nil_append]
  · obtain ⟨processed, hmem⟩ := hid
    rcases List.mem_cons.mp hmem with hnow | hbelow
    · exact hpolled processed id hnow.symm
    · exact hs.polled id ⟨processed, List.mem_cons_of_mem _ hbelow⟩

theorem leave (hphase : e.phase.locks = []) :
    HoldsPolled ⟨held, { e with phase := below.headD .idle }, below.tail⟩ := by
  have hheld : held = below.flatMap Phase.locks := by
    rw [show held = _ from hs.held, List.flatMap_cons, hphase, List.nil_append]
  cases below with
  | nil =>
    refine ⟨hheld, ⟨hs.bounded.registered, hs.bounded.queued⟩, fun id ⟨processed, hmem⟩ => ?_⟩
    exact absurd (List.mem_singleton.mp hmem) Phase.noConfusion
  | cons phase below =>
    refine ⟨hheld, ⟨hs.bounded.registered, hs.bounded.queued⟩, fun id ⟨processed, hmem⟩ => ?_⟩
    exact hs.polled id ⟨processed, List.mem_cons_of_mem _ hmem⟩

end HoldsPolled

/-! ### Whole runs -/

def Outcome (s : Cpu) (c : Call) (r : Except (Locks.Fault ExecutorLock) Unit × Cpu) : Prop :=
  (Hazard s.data c ∧ ∃ l, r.1 = .error (.reentered l)) ∨ (¬ Hazard s.data c ∧ r.1 = .ok () ∧ HoldsPolled r.2)

section

variable {s t : Cpu} {c : Call} {op : Op Unit}

theorem outcome_ok (hno : ¬ Hazard s.data c) (hop : op s = (.ok (), t)) (ht : HoldsPolled t) : Outcome s c (op s) := by
  rw [hop]
  exact .inr ⟨hno, rfl, ht⟩

theorem outcome_reentered (hhazard : Hazard s.data c) (hop : ∃ l t, op s = (.error (.reentered l), t)) :
    Outcome s c (op s) := by
  obtain ⟨l, t, hop⟩ := hop
  rw [hop]
  exact .inl ⟨hhazard, l, rfl⟩

variable {α : Type} {x : Op α}

theorem ignore_ok {a : α} (hx : x s = (.ok a, t)) : (x >>= fun _ => pure ()) s = (.ok (), t) :=
  Exec.bind_apply_ok hx

theorem ignore_reentered (hx : ∃ l t, x s = (.error (.reentered l), t)) :
    ∃ l t, (x >>= fun _ => (pure () : Op Unit)) s = (.error (.reentered l), t) := by
  obtain ⟨l, t, hx⟩ := hx
  exact ⟨l, t, by rw [Exec.bind_apply, hx]⟩

end

section

variable {held : List ExecutorLock} {e : Executor} {below : List Phase}

section

variable (hs : HoldsPolled ⟨held, e, below⟩)

include hs

theorem outcome_wakeById (id : TaskId) :
    Outcome ⟨held, e, below⟩ (.wakeById id) ((Op.wakeById id >>= fun _ => pure ()) ⟨held, e, below⟩) := by
  by_cases hid : id ∈ e.registry
  · exact outcome_reentered (.wakeById hid) (ignore_reentered (Op.wakeById_registered hs.free hid))
  · refine outcome_ok (fun h => ?_) (ignore_ok (Op.wakeById_unregistered hs.free hid)) hs
    cases h with
    | wakeById hmem => exact hid hmem

theorem outcome_handleWake (handle : TaskHandle) :
    Outcome ⟨held, e, below⟩ (.handleWake handle) ((Op.handleWake handle >>= fun _ => pure ()) ⟨held, e, below⟩) := by
  unfold Op.handleWake
  split
  · next id href =>
    by_cases hpolled : Nesting.Polled ⟨e, below⟩ id
    · refine outcome_reentered (.handleWake href hpolled) (ignore_reentered ⟨.metadata id, ⟨held, e, below⟩, ?_⟩)
      rw [Exec.bind_apply, Op.markWoken, Locks.withLock_of_mem (hs.metadata_mem.mpr hpolled)]
    · have hmeta : .metadata id ∉ held := fun h => hpolled (hs.metadata_mem.mp h)
      refine outcome_ok (fun h => ?_) (ignore_ok (Exec.bind_apply_ok (Op.markWoken_ok hmeta))) ?_
      · cases h with
        | handleWake href' hmem =>
          obtain rfl := Option.some.inj (href.symm.trans href')
          exact hpolled hmem
      · exact hs.same_phase rfl ⟨hs.bounded.registered, hs.bounded.queued⟩ le_rfl
  · next href =>
    refine outcome_ok (fun h => ?_) (ignore_ok rfl) hs
    cases h with
    | handleWake href' _ => cases href.symm.trans href'

theorem outcome_drain (hphase : e.phase = .draining) :
    Outcome ⟨held, e, below⟩ .drain (Op.drain ⟨held, e, below⟩) := by
  by_cases hhazard : Hazard ⟨e, below⟩ .drain
  · refine outcome_reentered hhazard ?_
    cases hhazard with
    | drain _ hqueue hid hpolled => exact Op.drain_of_mem hs.free hqueue hid (hs.metadata_mem.mpr hpolled)
  · have hok : Op.drain ⟨held, e, below⟩ = _ := Op.drain_ok hs.free fun id rest hqueue hid hmem =>
      hhazard (.drain hphase hqueue hid (hs.metadata_mem.mp hmem))
    refine outcome_ok hhazard hok ?_
    have hlocks := locks_drain hphase
    have henter := hs.enter (congrArg Phase.locks hphase) (takes_drain hphase) fun k id hpolling => by
      rw [hpolling] at hlocks
      cases hlocks
    rwa [hlocks] at henter

theorem outcome_processOneTask (hphase : e.phase = .processing processed) (hlt : processed < maxTasksPerTick) :
    Outcome ⟨held, e, below⟩ .processOneTask (Op.processOneTask processed ⟨held, e, below⟩) := by
  have hlocks : e.phase.locks = [] := congrArg Phase.locks hphase
  cases hpop : pop e.queue with
  | none =>
    refine outcome_ok (fun h => ?_) (Op.processOneTask_none hs.free processed hpop) (hs.leave hlocks)
    cases h with
    | processOneTask _ _ hpop' => cases hpop.symm.trans hpop'
  | some popped =>
    obtain ⟨w, rest⟩ := popped
    by_cases hpolled : Nesting.Polled ⟨e, below⟩ w.taskReference
    · exact outcome_reentered (.processOneTask hphase hlt hpop hpolled)
        (Op.processOneTask_of_mem hs.free processed hpop (hs.metadata_mem.mpr hpolled))
    · have hmeta : .metadata w.taskReference ∉ held := fun h => hpolled (hs.metadata_mem.mp h)
      refine outcome_ok (fun h => ?_)
        (Op.processOneTask_ok hs.free processed hpop hmeta (hs.future_not_mem hpolled)) ?_
      · cases h with
        | processOneTask _ _ hpop' hmem =>
          obtain ⟨rfl, -⟩ := Prod.mk.inj (Option.some.inj (hpop.symm.trans hpop'))
          exact hpolled hmem
      · refine hs.enter hlocks (takes_processOneTask hphase hlt) ?_
        intro k id hpolling
        rw [polled_processOneTask hpop hpolling]
        exact hs.bounded.queued w (pop_eq_some hpop).1

theorem outcome_pollReturned (hphase : e.phase = .polling processed id) (ready : Bool) :
    Outcome ⟨held, e, below⟩ (.pollReturned ready) (Op.pollReturned processed id ready ⟨held, e, below⟩) := by
  have hheld : held = .future id :: .metadata id :: below.flatMap Phase.locks := by
    rw [show held = _ from hs.held, List.flatMap_cons, hphase]
    rfl
  subst hheld
  refine outcome_ok (fun h => by cases h) (Op.pollReturned_ok (free_locks below).registry processed ready) ?_
  have hnext : (e.pollReturned processed id ready).phase = .processing (processed + 1) := by
    cases ready <;> rfl
  have htakes : Takes e (e.pollReturned processed id ready) := by
    cases ready with
    | true => exact .ready hphase
    | false => exact .pending hphase
  refine ⟨?_, hs.bounded.takes htakes, fun other ⟨k, hmem⟩ => LT.lt.trans_le ?_ (grows_takes htakes).1⟩
  · rw [hnext]
    rfl
  · rw [hnext] at hmem
    rcases List.mem_cons.mp hmem with hnow | hbelow
    · cases hnow
    · exact hs.polled other ⟨k, List.mem_cons_of_mem _ hbelow⟩

end

theorem HoldsPolled.call {s : Cpu} {c : Call} {r : Except (Locks.Fault ExecutorLock) Unit × Cpu}
    (hs : HoldsPolled s) (hcall : s.call c = some r) : Outcome s c r := by
  obtain ⟨held, e, below⟩ := s
  obtain ⟨op, hop, rfl⟩ := Option.map_eq_some_iff.mp hcall
  cases c with
  | elapse milliseconds =>
    obtain rfl := Option.some.inj hop
    exact outcome_ok (fun h => by cases h) rfl
      (hs.same_phase rfl ⟨hs.bounded.registered, hs.bounded.queued⟩ le_rfl)
  | spawn =>
    obtain rfl := Option.some.inj hop
    -- the id of the new task is not that of a task that is polled
    have hnew : .metadata e.counter ∉ held := fun h =>
      absurd (hs.polled e.counter (hs.metadata_mem.mp h)) (Nat.lt_irrefl _)
    exact outcome_ok (fun h => by cases h) (ignore_ok (Op.spawn_ok hs.free hnew))
      (hs.same_phase rfl (hs.bounded.takes .spawn) (Nat.le_succ _))
  | wakeById id => exact Option.some.inj hop ▸ outcome_wakeById hs id
  | wake id =>
    obtain rfl := Option.some.inj hop
    exact outcome_ok (fun h => by cases h) (Op.enqueueTaskWakeup_ok hs.free id)
      (hs.same_phase rfl ⟨hs.bounded.registered, hs.bounded.queued⟩ le_rfl)
  | handleWake handle =>
    obtain ⟨-, ⟨⟩⟩ := Option.ite_none_right_eq_some.mp hop
    exact outcome_handleWake hs handle
  | hasPendingTasks =>
    obtain rfl := Option.some.inj hop
    exact outcome_ok (fun h => by cases h) (ignore_ok (Op.hasPendingTasks_ok hs.free)) hs
  | beginTick =>
    obtain rfl := Option.some.inj hop
    refine outcome_ok (fun h => by cases h) rfl ⟨hs.held, ⟨hs.bounded.registered, hs.bounded.queued⟩, ?_⟩
    intro id ⟨processed, hmem⟩
    rcases List.mem_cons.mp hmem with hnow | hbelow
    · cases hnow
    · exact hs.polled id ⟨processed, hbelow⟩
  | drain =>
    obtain ⟨hphase, ⟨⟩⟩ := Option.ite_none_right_eq_some.mp hop
    exact outcome_drain hs hphase
  | processOneTask =>
    simp only [Nesting.perform] at hop
    split at hop
    · next processed hphase =>
      obtain ⟨hlt, ⟨⟩⟩ := Option.ite_none_right_eq_some.mp hop
      exact outcome_processOneTask hs hphase hlt
    · cases hop
  | pollReturned ready =>
    simp only [Nesting.perform] at hop
    split at hop
    · next processed id hphase => exact Option.some.inj hop ▸ outcome_pollReturned hs hphase ready
    · cases hop
  | endTick =>
    simp only [Nesting.perform] at hop
    split at hop
    · next processed hphase =>
      obtain ⟨-, ⟨⟩⟩ := Option.ite_none_right_eq_some.mp hop
      exact outcome_ok (fun h => by cases h) rfl (hs.leave (congrArg Phase.locks hphase))
    · cases hop

theorem HoldsPolled.step {s s' : Cpu} {c : Call} (hs : HoldsPolled s) (h : s.step c = some s') : HoldsPolled s' := by
  simp only [Cpu.step] at h
  split at h
  · next t hcall =>
    obtain rfl := Option.some.inj h
    rcases hs.call hcall with ⟨-, l, herror⟩ | ⟨-, -, ht⟩
    · cases herror
    · exact ht
  · cases h

end

/-- In every state of an executor a call that can be made comes to no lock of its own CPU exactly if it is not one of
the hazards. -/
theorem no_reentry_iff {timeout : Nat} {calls : List Call} {s s' : Cpu} {c : Call}
    {r : Except (Locks.Fault ExecutorLock) Unit} (hrun : Machine.run Cpu.step (.boot timeout) calls = some s)
    (hcall : s.call c = some (r, s')) : (∀ l, r ≠ .error (.reentered l)) ↔ ¬ Hazard s.data c := by
  have hs := Machine.run_keeps (fun hs h => hs.step h) hrun (holdsPolled_boot timeout)
  rcases hs.call hcall with ⟨hhazard, l, hr⟩ | ⟨hno, hr, -⟩
  · exact iff_of_false (fun h => h l hr) (not_not_intro hhazard)
  · exact iff_of_true (fun l hl => by cases hr.symm.trans hl) hno

theorem no_reentry_own_waker : ∃ s r s',
    Machine.run Cpu.step (.boot 1000) [.spawn, .beginTick, .drain, .processOneTask] = some s ∧
      s.held = [.future 1, .metadata 1] ∧ s.call (.wake 1) = some (r, s') ∧ ∀ l, r ≠ .error (.reentered l) := by
  obtain ⟨s, hrun, hheld⟩ : ∃ s, Machine.run Cpu.step (.boot 1000) [.spawn, .beginTick, .drain, .processOneTask] =
      some s ∧ s.held = [.future 1, .metadata 1] := ⟨_, rfl, rfl⟩
  have hcall : s.call (.wake 1) = some (Op.enqueueTaskWakeup 1 s) := rfl
  exact ⟨s, _, _, hrun, hheld, hcall, (no_reentry_iff hrun hcall).mpr fun h => by cases h⟩

/-- `wake_by_id` of any registered task comes to the registry a second time. A future that wakes its own task through
its handle comes to the metadata that its poll holds. -/
theorem wakes_reenter :
    (∃ s s', Machine.run Cpu.step (.boot 1000) [.spawn] = some s ∧
      s.call (.wakeById 1) = some (.error (.reentered .registry), s')) ∧
    ∃ s s', Machine.run Cpu.step (.boot 1000) [.spawn, .beginTick, .drain, .processOneTask] = some s ∧
      s.call (.handleWake ⟨1, some 1⟩) = some (.error (.reentered (.metadata 1)), s') :=
  ⟨⟨_, _, rfl, rfl⟩, _, _, rfl, rfl⟩

end Sparreal.Async
