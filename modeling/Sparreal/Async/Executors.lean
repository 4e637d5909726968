import Sparreal.Async.Executor

/-!
# Several executors

All executors share `GLOBAL_WAKEUP_QUEUE` of `os/async/executor.rs`, while each has a registry and a priority queue of
its own. `process_wake_queue` takes an id out of the wakeup queue before it looks it up in the registry of its own
executor, and drops the id if it is not there. So a wakeup is lost exactly when an executor drains the id of a task
that is registered with another one and is not runnable there already (`wakeup_kept_iff`).

One executor of several takes the steps of `Executor`, with what the executors share as its surroundings (`view`).
-/

namespace Sparreal.Async

structure Own where
  queue : List PriorityTaskWrapper
  registry : List TaskId
  timeout : Nat
  phase : Phase

structure Executors (ι : Type) where
  now : Nat
  wakeupQueue : List TaskId
  tasks : TaskId → TaskMetadata
  counter : TaskId
  log : List Action
  own : ι → Own

namespace Executors

variable {ι : Type}

/-- `with_timeout`, once for each executor. -/
def new (timeouts : ι → Nat) : Executors ι where
  now := 0
  wakeupQueue := []
  tasks := .new 0
  counter := 1
  log := []
  own := fun i => ⟨[], [], timeouts i, .idle⟩

def view (s : Executors ι) (i : ι) : Executor where
  now := s.now
  wakeupQueue := s.wakeupQueue
  queue := (s.own i).queue
  registry := (s.own i).registry
  tasks := s.tasks
  counter := s.counter
  timeout := (s.own i).timeout
  phase := (s.own i).phase
  log := s.log

def put [DecidableEq ι] (s : Executors ι) (i : ι) (x : Executor) : Executors ι where
  now := x.now
  wakeupQueue := x.wakeupQueue
  tasks := x.tasks
  counter := x.counter
  log := x.log
  own := Function.update s.own i ⟨x.queue, x.registry, x.timeout, x.phase⟩

/-- A step of one of the executors: it spawns a task, or takes a step of `tick`. A waker may be invoked at any of
them. The handles of tasks are left to `Executor`. -/
def step [DecidableEq ι] (s : Executors ι) : ι × Event → Option (Executors ι)
  | (_, .handleWake _) => none
  | (i, e) => (Async.step (s.view i) e).map (s.put i)

def Runnable (s : Executors ι) (i : ι) (id : TaskId) : Prop :=
  (s.tasks id).state = .woken ∧ ∃ w ∈ (s.own i).queue, w.taskReference = id

/-- After a step of the executor `i` the pending wakeups of the tasks of the others are still pending, or the tasks
are runnable. -/
def KeepsWakeups (i : ι) (s s' : Executors ι) : Prop :=
  ∀ j id, j ≠ i → id ∈ (s.own j).registry → id ∈ s.wakeupQueue → id ∈ s'.wakeupQueue ∨ s'.Runnable j id

/-- The first wakeup in the queue is for a task of another executor than `i`, which is not runnable there. -/
def ForeignFirst (s : Executors ι) (i : ι) : Prop :=
  ∃ id rest j, s.wakeupQueue = id :: rest ∧ j ≠ i ∧ id ∈ (s.own j).registry ∧ ¬ s.Runnable j id

theorem step_eq_some [DecidableEq ι] {s s' : Executors ι} {i : ι} {e : Event} (h : s.step (i, e) = some s') :
    ∃ x, Async.step (s.view i) e = some x ∧ s' = s.put i x := by
  unfold step at h
  split at h
  · cases h
  · next heq =>
    obtain ⟨rfl, rfl⟩ := Prod.mk.inj heq
    obtain ⟨x, hx, rfl⟩ := Option.map_eq_some_iff.mp h
    exact ⟨x, hx, rfl⟩

/-! ### The registries are apart -/

/-- A waker adds an id that is not there, `process_wake_queue` takes the first; nothing else changes the queue. -/
theorem wakeupQueue_takes {x x' : Executor} (h : Takes x x') :
    x'.wakeupQueue = x.wakeupQueue ∨ (∃ id ∉ x.wakeupQueue, x'.wakeupQueue = x.wakeupQueue ++ [id]) ∨
      ∃ id, x.wakeupQueue = id :: x'.wakeupQueue := by
  cases h with
  | wake id =>
    by_cases hmem : id ∈ x.wakeupQueue
    · exact .inl (if_pos hmem)
    · exact .inr (.inl ⟨id, hmem, if_neg hmem⟩)
  | drainOne _ hcons | drainStale _ hcons => exact .inr (.inr ⟨_, hcons⟩)
  | _ => exact .inl rfl

/-- No task is registered with two executors, and no wakeup is in the queue twice. -/
structure Apart (s : Executors ι) : Prop where
  registered : ∀ i, ∀ id ∈ (s.own i).registry, id < s.counter
  unique : ∀ {i j id}, id ∈ (s.own i).registry → id ∈ (s.own j).registry → i = j
  nodup : s.wakeupQueue.Nodup

theorem apart_new (timeouts : ι → Nat) : (new timeouts).Apart :=
  ⟨fun _ _ hid => absurd hid List.not_mem_nil, fun hid => absurd hid List.not_mem_nil, .nil⟩

section

variable [DecidableEq ι]

variable {s : Executors ι} {i : ι} {x : Executor}

theorem Apart.takes (hs : s.Apart) (h : Takes (s.view i) x) :
    (s.put i x).Apart := by
  have hcounter := (grows_takes h).1
  have hregistry := registry_takes
    (R := fun id => id ∈ (s.own i).registry ∨ id = s.counter ∧ s.counter < x.counter)
    (fun hlt => .inr ⟨rfl, hlt⟩) (fun _ => .inl) h
  -- a task that is registered now was registered with the same executor, or has just been spawned
  have hold : ∀ {j id}, id ∈ ((s.put i x).own j).registry →
      id ∈ (s.own j).registry ∨ j = i ∧ id = s.counter ∧ s.counter < x.counter := by
    intro j id hid
    by_cases hj : j = i
    · subst hj
      simp only [put, Function.update_self] at hid
      exact (hregistry id hid).imp_right fun h => ⟨rfl, h⟩
    · simp only [put, Function.update_of_ne hj] at hid
      exact .inl hid
  refine ⟨fun j id hid => ?_, fun {j k id} hj hk => ?_, ?_⟩
  · rcases hold hid with hid | ⟨-, rfl, hlt⟩
    · exact (hs.registered j id hid).trans_le hcounter
    · exact hlt
  · rcases hold hj with hj | ⟨hi, hnew, -⟩ <;> rcases hold hk with hk | ⟨hi', hnew', -⟩
    · exact hs.unique hj hk
    · exact absurd (hs.registered j id hj) (hnew' ▸ lt_irrefl _)
    · exact absurd (hs.registered k id hk) (hnew ▸ lt_irrefl _)
    · exact hi.trans hi'.symm
  · rcases wakeupQueue_takes h with heq | ⟨id, hid, heq⟩ | ⟨id, heq⟩
    · show x.wakeupQueue.Nodup
      rw [heq]
      exact hs.nodup
    · show x.wakeupQueue.Nodup
      rw [heq]
      refine List.nodup_append.mpr ⟨hs.nodup, List.pairwise_singleton _ _, fun a ha b hb hab => hid ?_⟩
      rw [← List.mem_singleton.mp hb, ← hab]
      exact ha
    · have hnodup : (id :: x.wakeupQueue).Nodup := heq ▸ hs.nodup
      exact (List.nodup_cons.mp hnodup).2

theorem apart_run {timeouts : ι → Nat} {es : List (ι × Event)} (hrun : Machine.run step (new timeouts) es = some s) :
    s.Apart := by
  refine Machine.run_keeps (fun {s e s'} hs h => ?_) hrun (apart_new timeouts)
  obtain ⟨x, hx, rfl⟩ := step_eq_some h
  exact hs.takes (takes_of_step hx)

/-! ### Wakeups -/

theorem wakeupQueue_processOneTask (x : Executor) (processed : Nat) :
    (x.processOneTask processed).wakeupQueue = x.wakeupQueue := by
  unfold Executor.processOneTask
  split
  · rfl
  · dsimp only
    split_ifs <;> rfl

variable {id : TaskId}

/-- Only `process_wake_queue` takes wakeups out of the queue. -/
theorem mem_wakeupQueue_of_step {x' : Executor} {e : Event} (h : Async.step x e = some x') (hne : e ≠ .drain)
    (hid : id ∈ x.wakeupQueue) : id ∈ x'.wakeupQueue := by
  cases e with
  | elapse | spawn => exact Option.some.inj h ▸ hid
  | wake other =>
    obtain rfl := Option.some.inj h
    show id ∈ if other ∈ x.wakeupQueue then x.wakeupQueue else x.wakeupQueue ++ [other]
    split_ifs
    · exact hid
    · exact List.mem_append_left _ hid
  | handleWake | beginTick =>
    obtain ⟨-, ⟨⟩⟩ := Option.ite_none_right_eq_some.mp h
    exact hid
  | drain => exact absurd rfl hne
  | processOneTask =>
    obtain ⟨processed, -, -, rfl⟩ := step_processOneTask h
    rw [wakeupQueue_processOneTask]
    exact hid
  | pollReturned ready =>
    obtain ⟨processed, task, -, rfl⟩ := step_pollReturned h
    cases ready with
    | true => exact hid
    | false => exact hid
  | endTick =>
    obtain ⟨processed, -, -, rfl⟩ := step_endTick h
    exact hid

omit [DecidableEq ι] in
theorem wakeupQueue_drain {rest : List TaskId} (hqueue : s.wakeupQueue = id :: rest) :
    (s.view i).drain.wakeupQueue = rest := by
  have hview : (s.view i).wakeupQueue = id :: rest := hqueue
  simp only [Executor.drain, hview]
  split_ifs <;> rfl

omit [DecidableEq ι] in
theorem drain_foreign {rest : List TaskId} (hqueue : s.wakeupQueue = id :: rest) (hid : id ∉ (s.own i).registry) :
    (s.view i).drain = { s.view i with wakeupQueue := rest } := by
  simp [Executor.drain, view, hqueue, hid]

theorem runnable_put {j : ι} (hne : j ≠ i) (htask : x.tasks id = s.tasks id) :
    (s.put i x).Runnable j id ↔ s.Runnable j id := by
  simp only [Runnable, put, Function.update_of_ne hne, htask]

theorem Apart.drain_iff (hs : s.Apart) :
    KeepsWakeups i s (s.put i (s.view i).drain) ↔ ¬ s.ForeignFirst i := by
  constructor
  · rintro hkeeps ⟨id, rest, j, hqueue, hne, hreg, hrunnable⟩
    have hforeign : id ∉ (s.own i).registry := fun h => hne (hs.unique hreg h)
    have hdrain := drain_foreign hqueue hforeign
    rcases hkeeps j id hne hreg (hqueue ▸ List.mem_cons_self) with hmem | hrun
    · have hnodup := hqueue ▸ hs.nodup
      rw [hdrain] at hmem
      exact (List.nodup_cons.mp hnodup).1 hmem
    · exact hrunnable ((runnable_put hne (by rw [hdrain]; rfl)).mp hrun)
  · intro hfirst j id hne hreg hid
    have hforeign : id ∉ (s.own i).registry := fun h => hne (hs.unique hreg h)
    cases hqueue : s.wakeupQueue with
    | nil => exact absurd (hqueue ▸ hid) List.not_mem_nil
    | cons first rest =>
      rcases List.mem_cons.mp (hqueue ▸ hid) with rfl | hrest
      · have hrunnable : s.Runnable j id := by
          by_contra hnot
          exact hfirst ⟨id, rest, j, hqueue, hne, hreg, hnot⟩
        exact .inr ((runnable_put hne (by rw [drain_foreign hqueue hforeign]; rfl)).mpr hrunnable)
      · refine .inl ?_
        show id ∈ (s.view i).drain.wakeupQueue
        rw [wakeupQueue_drain hqueue]
        exact hrest

/-- In every interleaving a step of an executor keeps the wakeups of the tasks of the others exactly unless it is a
round of `process_wake_queue` that finds the wakeup of such a task, which is not runnable, first in the queue. -/
theorem wakeup_kept_iff {timeouts : ι → Nat} {es : List (ι × Event)} {s s' : Executors ι} {i : ι} {e : Event}
    (hrun : Machine.run step (new timeouts) es = some s) (hstep : s.step (i, e) = some s') :
    KeepsWakeups i s s' ↔ ¬ (e = .drain ∧ s.ForeignFirst i) := by
  have hs := apart_run hrun
  obtain ⟨x, hx, rfl⟩ := step_eq_some hstep
  by_cases hdrain : e = .drain
  · subst hdrain
    obtain ⟨-, ⟨⟩⟩ := Option.ite_none_right_eq_some.mp hx
    rw [hs.drain_iff]
    simp
  · refine iff_of_true (fun j id _ _ hid => .inl ?_) fun h => hdrain h.1
    exact mem_wakeupQueue_of_step hx hdrain hid

/-- Two executors, a task of the second is polled and waits for its wakeup, which the second drains itself. -/
theorem wakeup_kept_second : ∃ s s',
    Machine.run step (new fun _ : Bool => 1000)
        [(true, .spawn), (true, .beginTick), (true, .drain), (true, .processOneTask), (true, .pollReturned false),
          (true, .processOneTask), (false, .wake 1), (true, .beginTick)] = some s ∧
      s.step (true, .drain) = some s' ∧ (s'.tasks 1).state = .woken ∧ KeepsWakeups true s s' := by
  obtain ⟨s, hrun, hregistry, s', hstep, hwoken⟩ : ∃ s, Machine.run step (new fun _ : Bool => 1000)
      [(true, .spawn), (true, .beginTick), (true, .drain), (true, .processOneTask), (true, .pollReturned false),
        (true, .processOneTask), (false, .wake 1), (true, .beginTick)] = some s ∧ (s.own false).registry = [] ∧
      ∃ s', s.step (true, .drain) = some s' ∧ (s'.tasks 1).state = .woken :=
    ⟨_, rfl, by decide +kernel, _, rfl, by decide +kernel⟩
  refine ⟨s, s', hrun, hstep, hwoken, (wakeup_kept_iff hrun hstep).mpr ?_⟩
  rintro ⟨-, id, rest, j, -, hne, hreg, -⟩
  rw [Bool.not_eq_true j |>.mp hne, hregistry] at hreg
  exact absurd hreg List.not_mem_nil

/-- The first of two executors takes the wakeup of a task of the second out of the queue. The task waits, is in no
queue, and no wakeup is left for it. -/
theorem wakeup_stolen : ∃ s s',
    Machine.run step (new fun _ : Bool => 1000)
        [(true, .spawn), (true, .beginTick), (true, .drain), (true, .processOneTask), (true, .pollReturned false),
          (true, .processOneTask), (true, .wake 1), (false, .beginTick)] = some s ∧
      s.wakeupQueue = [1] ∧ (s.own true).registry = [1] ∧ s.step (false, .drain) = some s' ∧
      s'.wakeupQueue = [] ∧ (s'.own true).queue = [] ∧ (s'.tasks 1).state = .pending ∧ ¬ KeepsWakeups false s s' := by
  obtain ⟨s, hrun, hqueue, hregistry, s', hstep, hempty, hidle, hpending⟩ : ∃ s,
      Machine.run step (new fun _ : Bool => 1000)
        [(true, .spawn), (true, .beginTick), (true, .drain), (true, .processOneTask), (true, .pollReturned false),
          (true, .processOneTask), (true, .wake 1), (false, .beginTick)] = some s ∧
      s.wakeupQueue = [1] ∧ (s.own true).registry = [1] ∧ ∃ s', s.step (false, .drain) = some s' ∧
      s'.wakeupQueue = [] ∧ (s'.own true).queue = [] ∧ (s'.tasks 1).state = .pending :=
    ⟨_, rfl, by decide +kernel, by decide +kernel, _, rfl, by decide +kernel, by decide +kernel, by decide +kernel⟩
  refine ⟨s, s', hrun, hqueue, hregistry, hstep, hempty, hidle, hpending, fun hkeeps => ?_⟩
  rcases hkeeps true 1 Bool.noConfusion (hregistry ▸ List.mem_cons_self) (hqueue ▸ List.mem_cons_self) with
    hmem | ⟨hwoken, -⟩
  · exact List.not_mem_nil (hempty ▸ hmem)
  · exact absurd (hpending.symm.trans hwoken) (by decide)

end

end Executors

end Sparreal.Async
