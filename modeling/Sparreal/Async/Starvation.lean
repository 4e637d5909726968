import Sparreal.Async.Completion

/-!
# Tasks that have not run for long

`process_one_task` promotes a task whose last run lies further back than the timeout, but it meets only tasks that
have an entry in the priority queue, and a task that returned `Pending` has none until its waker is called. So a tick
polls an expired task exactly if it finds an entry of the task with fewer than ten entries ahead of it
(`tick_polls_iff`). While a tick goes on, `Due` is kept until the task is polled, and `Late` keeps it from being
polled: entries ahead are popped one by one, and entries of tasks that are spawned meanwhile are never ahead.
-/

namespace Sparreal.Async

/-! ### One tick -/

/-- `process_wake_queue`, with nothing else going on. -/
def Executor.processWakeQueue (s : Executor) : Executor :=
  Executor.drain^[s.wakeupQueue.length + 1] { s with phase := .draining }

/-- A whole tick that begins in `s`, and what the tasks and the rest of the system do from its first poll on. -/
structure Tick (s : Executor) (events : List Event) (t : Executor) : Prop where
  run : Machine.run step s
    (.beginTick :: (List.replicate (s.wakeupQueue.length + 1) .drain ++ events)) = some t
  once : .beginTick ∉ events
  ended : t.phase = .idle

/-- The number of entries ahead of `e`. -/
def ahead (e : PriorityTaskWrapper) (queue : List PriorityTaskWrapper) : Nat :=
  queue.countP fun w => decide (w.key < e.key)

/-- How many of its ten entries the tick has taken from the queue; a tick that is over takes no more. -/
def Phase.popped : Phase → Nat
  | .draining => 0
  | .processing processed => processed
  | .polling processed _ => processed + 1
  | .idle => maxTasksPerTick

/-! ### Entries ahead -/

section Ahead

variable {e w : PriorityTaskWrapper} {queue rest : List PriorityTaskWrapper}

theorem ahead_pop (hpop : pop queue = some (w, rest)) (hlt : w.key < e.key) :
    ahead e rest + 1 = ahead e queue := by
  obtain ⟨hw, rfl, -⟩ := pop_eq_some hpop
  unfold ahead
  rw [(List.perm_cons_erase hw).countP_eq, List.countP_cons_of_pos]
  exact decide_eq_true hlt

theorem ahead_le_pop (hpop : pop queue = some (w, rest)) : ahead e queue ≤ ahead e rest + 1 := by
  obtain ⟨hw, rfl, -⟩ := pop_eq_some hpop
  unfold ahead
  rw [(List.perm_cons_erase hw).countP_eq, List.countP_cons]
  split <;> omega

theorem ahead_eq_zero (hpop : pop queue = some (w, rest)) : ahead w queue = 0 := by
  obtain ⟨-, -, hmin⟩ := pop_eq_some hpop
  apply List.countP_eq_zero.mpr
  intro x hx
  simpa using hmin x hx

theorem ahead_cons (hlt : e.key < w.key) : ahead e (w :: queue) = ahead e queue := by
  apply List.countP_cons_of_neg
  simpa using hlt.le

theorem ahead_le_cons : ahead e queue ≤ ahead e (w :: queue) := by
  unfold ahead
  rw [List.countP_cons]
  omega

end Ahead

/-- The entries of the queue bear the ids of their tasks. -/
structure Named (s : Executor) : Prop extends Stamped s where
  named : ∀ w ∈ s.queue, w.taskPriority.taskId = w.taskReference

variable {s s' : Executor}

theorem Named.takes (hs : Named s) (h : Takes s s') : Named s' :=
  ⟨hs.toStamped.takes h, queue_takes (fun _ => rfl) (fun id _ => hs.ids id) hs.named h⟩

theorem Reachable.named {timeout : Nat} (hs : Reachable timeout s) : Named s := by
  have hstamped := Reachable.stamped (s := .new timeout) ⟨[], rfl⟩
  obtain ⟨events, hrun⟩ := hs
  refine Machine.run_keeps (fun hs h => Named.takes hs (takes_of_step h)) hrun ⟨hstamped, ?_⟩
  exact fun w hw => absurd hw List.not_mem_nil

theorem Named.key_lt (hs : Named s) {e w : PriorityTaskWrapper} {rest : List PriorityTaskWrapper} (he : e ∈ s.queue)
    (hpop : pop s.queue = some (w, rest)) (hne : w.taskReference ≠ e.taskReference) :
    w.key < e.key := by
  obtain ⟨hw, -, hmin⟩ := pop_eq_some hpop
  refine lt_of_le_of_ne (hmin e he) fun heq => hne ?_
  have hids : w.taskPriority.taskId = e.taskPriority.taskId := by
    simp only [PriorityTaskWrapper.key, TaskPriority.key] at heq
    exact (Prod.ext_iff.mp (Prod.ext_iff.mp heq).2).2
  rw [← hs.named w hw, ← hs.named e he, hids]

variable {e : PriorityTaskWrapper}

/-! ### A task the tick comes to -/

/-- The task is not completed and has not run for longer than the timeout. -/
def Starved (s : Executor) (id : TaskId) : Prop :=
  (s.tasks id).state ≠ .completed ∧ (s.tasks id).isExpired s.now s.timeout = true

theorem isExpired_mono {now later timeout : Nat} {t t' : TaskMetadata} (hle : now ≤ later)
    (hrun : t'.lastRunAt = t.lastRunAt) (hcreated : t'.createdAt = t.createdAt)
    (h : t.isExpired now timeout = true) : t'.isExpired later timeout = true := by
  unfold TaskMetadata.isExpired at h ⊢
  rw [hrun, hcreated]
  split at h <;>
  · simp only [decide_eq_true_eq] at h ⊢
    omega

theorem Starved.update {id target : TaskId} (h : Starved s id) {t : TaskMetadata}
    (ht : target = id → t = (s.tasks id).markWoken s.now) (htasks : s'.tasks = Function.update s.tasks target t)
    (hnow : s'.now = s.now) (htimeout : s'.timeout = s.timeout) :
    Starved s' id := by
  obtain ⟨hstate, hexpired⟩ := h
  unfold Starved
  rw [htasks, hnow, htimeout]
  by_cases heq : target = id
  · rw [ht heq, heq, Function.update_self]
    exact ⟨by simp [TaskMetadata.markWoken], isExpired_mono (Nat.le_refl _) rfl rfl hexpired⟩
  · rw [Function.update_of_ne (Ne.symm heq)]
    exact ⟨hstate, hexpired⟩

/-- The tick is going to come to the entry. -/
structure Due (s : Executor) (id : TaskId) (e : PriorityTaskWrapper) : Prop where
  starved : Starved s id
  entry : e ∈ s.queue
  task : e.taskReference = id
  turn : s.phase.popped + ahead e s.queue < maxTasksPerTick
  looping : s.phase ≠ .draining
  waiting : s.phase.polled ≠ some id

variable {id : TaskId}

theorem Due.not_idle (h : Due s id e) : s.phase ≠ .idle := by
  intro hidle
  have hturn := h.turn
  rw [hidle] at hturn
  exact absurd hturn (by simp [Phase.popped])

/-- `process_one_task` pops the entry, and polls the task, or one that is ahead of it. -/
theorem Due.processOneTask (hs : Named s) (h : Due s id e) {processed : Nat}
    (hphase : s.phase = .processing processed) :
    Due (s.processOneTask processed) id e ∨ (s.processOneTask processed).log = .pollBegan id :: s.log := by
  have hturn := h.turn
  rw [hphase] at hturn
  rcases processOneTask_cases s processed with ⟨hnil, -⟩ | ⟨w, rest, hpop, hround⟩
  · exact absurd (hnil ▸ h.entry) List.not_mem_nil
  · by_cases heq : w.taskReference = id
    · rcases hround with ⟨hstate, -⟩ | ⟨-, t, -, hresult⟩ | ⟨-, hexpired, -⟩
      · exact absurd (heq ▸ hstate) h.starved.1
      · right
        rw [hresult, ← heq]
      · rw [heq, h.starved.2] at hexpired
        exact absurd hexpired (by simp)
    · have hahead := ahead_pop hpop (hs.key_lt h.entry hpop (h.task ▸ heq))
      have hentry : e ∈ rest := mem_rest_of_pop hpop (h.task.symm ▸ heq) h.entry
      have hnext : processed + 1 + ahead e rest < maxTasksPerTick := by
        simp only [Phase.popped] at hturn
        omega
      left
      rcases hround with ⟨-, hresult⟩ | ⟨-, t, -, hresult⟩ | ⟨-, -, hresult⟩
      · rw [hresult]
        exact ⟨h.starved, hentry, h.task, hnext, by simp, by simp [Phase.polled]⟩
      · rw [hresult]
        refine ⟨h.starved.update (fun hw => absurd hw heq) rfl rfl rfl, hentry, h.task, hnext, by simp, ?_⟩
        simpa [Phase.polled] using heq
      · rw [hresult]
        exact ⟨h.starved, hentry, h.task, hnext, by simp, by simp [Phase.polled]⟩

theorem Due.step (hs : Named s) (h : Due s id e) {event : Event} (hstep : step s event = some s') :
    Due s' id e ∨ s'.log = .pollBegan id :: s.log := by
  have hold : id < s.counter := h.task ▸ hs.queued e h.entry
  cases event with
  | elapse milliseconds =>
    obtain rfl := Option.some.inj hstep
    have hexpired := isExpired_mono (Nat.le_add_right s.now milliseconds) rfl rfl h.starved.2
    exact .inl { h with starved := ⟨h.starved.1, hexpired⟩ }
  | spawn =>
    obtain rfl := Option.some.inj hstep
    have hahead : ahead e (_ :: s.queue) = ahead e s.queue := ahead_cons (hs.key_lt_spawn h.entry)
    refine .inl ⟨h.starved.update (fun heq => absurd heq hold.ne') rfl rfl rfl, List.mem_cons_of_mem _ h.entry,
      h.task, ?_, h.looping, h.waiting⟩
    exact lt_of_eq_of_lt (congrArg (s.phase.popped + ·) hahead) h.turn
  | wake target =>
    obtain rfl := Option.some.inj hstep
    exact .inl { h with }
  | handleWake target =>
    obtain ⟨-, ⟨⟩⟩ := Option.ite_none_right_eq_some.mp hstep
    exact .inl { h with starved := h.starved.update (fun heq => heq ▸ rfl) rfl rfl rfl }
  | beginTick =>
    obtain ⟨hphase, -⟩ := Option.ite_none_right_eq_some.mp hstep
    exact absurd hphase h.not_idle
  | drain =>
    obtain ⟨hphase, -⟩ := Option.ite_none_right_eq_some.mp hstep
    exact absurd hphase h.looping
  | processOneTask =>
    obtain ⟨processed, hphase, -, rfl⟩ := step_processOneTask hstep
    exact h.processOneTask hs hphase
  | pollReturned ready =>
    obtain ⟨processed, target, hphase, rfl⟩ := step_pollReturned hstep
    have hne : target ≠ id := fun heq => h.waiting (by rw [hphase, heq]; rfl)
    have hturn := h.turn
    rw [hphase] at hturn
    have hlooping : Phase.processing (processed + 1) ≠ .draining := by simp
    have hwaiting : (Phase.processing (processed + 1)).polled ≠ some id := by simp [Phase.polled]
    left
    cases ready with
    | true | false =>
      exact ⟨h.starved.update (fun heq => absurd heq hne) rfl rfl rfl, h.entry, h.task, hturn, hlooping, hwaiting⟩
  | endTick =>
    obtain ⟨processed, hphase, hmax, -⟩ := step_endTick hstep
    have hturn := h.turn
    rw [hphase] at hturn
    simp only [Phase.popped] at hturn
    omega

/-! ### A task the tick does not come to -/

/-- Ten entries are popped before any of the task. -/
structure Late (s : Executor) (id : TaskId) : Prop where
  old : id < s.counter
  turn : ∀ w ∈ s.queue, w.taskReference = id → maxTasksPerTick ≤ s.phase.popped + ahead w s.queue
  looping : s.phase ≠ .draining

theorem Late.not_pollBegan (h : Late s id) (htakes : Takes s s') : s'.log ≠ .pollBegan id :: s.log := by
  intro hlog
  obtain ⟨processed, w, rest, hphase, hlt, hpop, hw⟩ := pop_of_pollBegan htakes hlog
  have hle := h.turn w (pop_eq_some hpop).1 hw
  rw [hphase, ahead_eq_zero hpop] at hle
  simp only [Phase.popped] at hle
  omega

theorem Late.processOneTask (h : Late s id) {processed : Nat} (hphase : s.phase = .processing processed) :
    Late (s.processOneTask processed) id := by
  have hturn := h.turn
  rw [hphase] at hturn
  rcases processOneTask_cases s processed with ⟨hnil, hresult⟩ | ⟨w, rest, hpop, hround⟩
  · rw [hresult]
    exact ⟨h.old, fun x hx => absurd (hnil ▸ hx) List.not_mem_nil, by simp⟩
  · have hlater : ∀ x ∈ rest, x.taskReference = id → maxTasksPerTick ≤ (processed + 1) + ahead x rest := by
      intro x hx hid
      have hle := hturn x (mem_of_pop hpop hx) hid
      have hahead := ahead_le_pop (e := x) hpop
      simp only [Phase.popped] at hle
      omega
    rcases hround with ⟨-, hresult⟩ | ⟨-, t, -, hresult⟩ | ⟨-, -, hresult⟩
    all_goals
      rw [hresult]
      exact ⟨h.old, hlater, by simp⟩

theorem Late.step {event : Event} (hevent : event ≠ .beginTick) (h : Late s id) (hstep : step s event = some s') :
    Late s' id := by
  cases event with
  | elapse milliseconds | wake target => exact Option.some.inj hstep ▸ { h with }
  | spawn =>
    obtain rfl := Option.some.inj hstep
    refine ⟨Nat.lt_succ_of_lt h.old, ?_, h.looping⟩
    intro w hw hid
    rcases List.mem_cons.mp hw with rfl | hw
    · exact absurd hid h.old.ne'
    · exact (h.turn w hw hid).trans (Nat.add_le_add_left ahead_le_cons _)
  | handleWake target =>
    obtain ⟨-, ⟨⟩⟩ := Option.ite_none_right_eq_some.mp hstep
    exact { h with }
  | beginTick => exact absurd rfl hevent
  | drain =>
    obtain ⟨hphase, -⟩ := Option.ite_none_right_eq_some.mp hstep
    exact absurd hphase h.looping
  | processOneTask =>
    obtain ⟨processed, hphase, -, rfl⟩ := step_processOneTask hstep
    exact h.processOneTask hphase
  | pollReturned ready =>
    obtain ⟨processed, target, hphase, rfl⟩ := step_pollReturned hstep
    have hturn := h.turn
    rw [hphase] at hturn
    have hlooping : Phase.processing (processed + 1) ≠ .draining := by simp
    cases ready with
    | true | false => exact ⟨h.old, hturn, hlooping⟩
  | endTick =>
    obtain ⟨-, -, -, rfl⟩ := step_endTick hstep
    exact ⟨h.old, fun _ _ _ => Nat.le_add_right _ _, by simp⟩

/-! ### The wakeup queue -/

theorem drain_cons {target : TaskId} {rest : List TaskId} (hcons : s.wakeupQueue = target :: rest) (id : TaskId) :
    s.drain.phase = s.phase ∧ s.drain.wakeupQueue = rest ∧ s.drain.log = s.log ∧ s.drain.counter = s.counter ∧
      (Starved s id → Starved s.drain id) := by
  unfold Executor.drain
  rw [hcons]
  dsimp only
  split_ifs with hreg
  · exact ⟨rfl, rfl, rfl, rfl, fun h => h.update (fun heq => heq ▸ rfl) rfl rfl rfl⟩
  · exact ⟨rfl, rfl, rfl, rfl, fun h => h⟩

/-- The loop of `process_wake_queue` runs the wakeup queue empty and polls nothing. -/
theorem run_drain (id : TaskId) (n : Nat) (hphase : s.phase = .draining) (hlength : s.wakeupQueue.length = n) :
    Machine.run step s (List.replicate (n + 1) .drain) = some (Executor.drain^[n + 1] s) ∧
      (Executor.drain^[n + 1] s).phase = .processing 0 ∧ (Executor.drain^[n + 1] s).log = s.log ∧
      (Executor.drain^[n + 1] s).counter = s.counter ∧ (Starved s id → Starved (Executor.drain^[n + 1] s) id) := by
  have hdrain : step s .drain = some s.drain := if_pos hphase
  induction n generalizing s with
  | zero =>
    have hresult : s.drain = { s with phase := .processing 0 } := by
      unfold Executor.drain
      rw [List.length_eq_zero_iff.mp hlength]
    have hone : Executor.drain^[0 + 1] s = { s with phase := .processing 0 } := hresult
    refine ⟨Machine.run_cons.mpr ⟨_, hdrain, rfl⟩, ?_⟩
    rw [hone]
    exact ⟨rfl, rfl, rfl, fun h => h⟩
  | succ n ih =>
    obtain ⟨target, rest, hcons⟩ := List.exists_cons_of_length_eq_add_one hlength
    obtain ⟨hphase', hrest, hlog, hcounter, hstarved⟩ := drain_cons hcons id
    have hlength' : s.drain.wakeupQueue.length = n := by
      rw [hcons, List.length_cons] at hlength
      rw [hrest]
      omega
    obtain ⟨hrun, hend, hlog', hcounter', hstarved'⟩ :=
      ih (hphase'.trans hphase) hlength' (if_pos (hphase'.trans hphase))
    rw [Function.iterate_succ_apply]
    exact ⟨Machine.run_cons.mpr ⟨_, hdrain, hrun⟩, hend, hlog'.trans hlog, hcounter'.trans hcounter,
      fun h => hstarved' (hstarved h)⟩

/-- The tick polls a registered task that has not completed and has not run for longer than the timeout exactly if,
once the wakeup queue is drained, fewer than ten entries are ahead of one of its entries in the priority queue. -/
theorem tick_polls_iff {timeout : Nat} {s t : Executor} (hs : Reachable timeout s) (hidle : s.phase = .idle)
    {id : TaskId} (hreg : id ∈ s.registry) (hstate : (s.tasks id).state ≠ .completed)
    (hexpired : (s.tasks id).isExpired s.now s.timeout = true) {events : List Event} (htick : Tick s events t) :
    (∃ new, t.log = new ++ s.log ∧ .pollBegan id ∈ new) ↔
      ∃ e ∈ s.processWakeQueue.queue, e.taskReference = id ∧ ahead e s.processWakeQueue.queue < maxTasksPerTick := by
  have hbegin : step s .beginTick = some { s with phase := .draining } := if_pos hidle
  obtain ⟨hdrained, hphase, hlog, hcounter, hkeep⟩ :=
    run_drain id s.wakeupQueue.length (s := { s with phase := .draining }) rfl rfl
  have hstarved : Starved s.processWakeQueue id := hkeep ⟨hstate, hexpired⟩
  obtain ⟨s', hfirst, hrest⟩ := Machine.run_cons.mp htick.run
  obtain rfl := Option.some.inj (hbegin.symm.trans hfirst)
  obtain ⟨u, hu, hrun⟩ := Machine.run_append.mp hrest
  obtain rfl : s.processWakeQueue = u := Option.some.inj (hdrained.symm.trans hu)
  have hnamed : Named s.processWakeQueue := by
    refine Machine.run_keeps (fun hs h => Named.takes hs (takes_of_step h)) hu ?_
    exact hs.named.takes (takes_of_step hbegin)
  have hlog : s.processWakeQueue.log = s.log := hlog
  have hphase : s.processWakeQueue.phase = .processing 0 := hphase
  rw [← hlog]
  constructor
  · intro hpolled
    by_contra hnone
    have hlate : Late s.processWakeQueue id := by
      refine ⟨(hs.wellFormed.registered id hreg).trans_eq hcounter.symm, ?_, by simp [hphase]⟩
      intro e he htask
      by_contra hahead
      rw [hphase] at hahead
      exact hnone ⟨e, he, htask, by simp only [Phase.popped] at hahead; omega⟩
    refine not_polledSince_of_keeps (P := fun s => Late s id) (Q := (· ≠ .beginTick)) (fun hevent h hstep => ?_) ?_
      hrun hlate hpolled
    · exact ⟨h.step hevent hstep, h.not_pollBegan (takes_of_step hstep)⟩
    · exact fun event hmem heq => htick.once (heq ▸ hmem)
  · rintro ⟨e, he, htask, hahead⟩
    have hdue : Due s.processWakeQueue id e := by
      refine ⟨hstarved, he, htask, ?_, by simp [hphase], by simp [hphase, Phase.polled]⟩
      rw [hphase]
      simpa [Phase.popped] using hahead
    obtain ⟨-, hend | hpolled⟩ := polled_or_keeps (P := fun s => Due s id e)
      (fun hs h => Named.takes hs (takes_of_step h)) (fun hs hdue h => hdue.step hs h) hrun hnamed hdue
    · exact absurd htick.ended hend.not_idle
    · exact hpolled

/-- A task that has been spawned and never run is found by the tick after the timeout. -/
theorem tick_polls_spawned :
    ∃ s t, Machine.run step (.new 1000) [.spawn, .elapse 2000] = some s ∧
      Tick s [.processOneTask, .pollReturned true, .processOneTask] t ∧
      ∃ new, t.log = new ++ s.log ∧ .pollBegan 1 ∈ new := by
  have hrun : ∃ s, Machine.run step (.new 1000) [.spawn, .elapse 2000] = some s ∧ s.phase = .idle ∧
      1 ∈ s.registry ∧ (s.tasks 1).state ≠ .completed ∧ (s.tasks 1).isExpired s.now s.timeout = true ∧
      (∃ t, Tick s [.processOneTask, .pollReturned true, .processOneTask] t) ∧
      ∃ e ∈ s.processWakeQueue.queue, e.taskReference = 1 ∧ ahead e s.processWakeQueue.queue < maxTasksPerTick :=
    ⟨_, rfl, rfl, by decide, by decide, by decide, ⟨_, rfl, by decide, rfl⟩, _, List.mem_singleton_self _, rfl,
      by decide⟩
  obtain ⟨s, hs, hidle, hreg, hstate, hexpired, ⟨t, htick⟩, hentry⟩ := hrun
  exact ⟨s, t, hs, htick, (tick_polls_iff ⟨_, hs⟩ hidle hreg hstate hexpired htick).mpr hentry⟩

/-- A task that returned `Pending` and has not run for two seconds is in neither queue, and the tick does not poll
it. -/
theorem starved_not_polled :
    ∃ s t, Machine.run step (.new 1000) (sleeps ++ [.elapse 2000]) = some s ∧ s.phase = .idle ∧
      s.registry = [1] ∧ (s.tasks 1).state ≠ .completed ∧ (s.tasks 1).isExpired s.now s.timeout = true ∧
      Tick s [.processOneTask] t ∧ t.log = s.log :=
  ⟨_, _, rfl, rfl, rfl, by decide, by decide, ⟨rfl, by decide, rfl⟩, rfl⟩

end Sparreal.Async
