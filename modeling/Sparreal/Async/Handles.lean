import Sparreal.Async.Wakeups

/-!
# Waking a task through its handle

`TaskHandle::wake` marks the task as woken and does nothing else. If the task is in one of the queues, the next
tick that can get through its entries polls it: the entries that were queued later have later timestamps or
greater ids, so the number of entries before that of the task drops with every task processed
(`Waiting.takes`). If it is in neither, nothing has changed for the executor.
-/

namespace Sparreal.Async

def InQueues (s : Executor) (id : TaskId) : Prop := id ∈ s.wakeupQueue ∨ Queued s id

/-- The entries of the queue bear the ids and timestamps of earlier tasks, and the tasks their own ids. -/
structure Stamped (s : Executor) : Prop extends WellFormed s where
  entries : ∀ w ∈ s.queue, w.taskPriority.timestamp ≤ s.now ∧ w.taskPriority.taskId < s.counter
  ids : ∀ id, (s.tasks id).id = id

variable {id : TaskId}

theorem ids_update {tasks : TaskId → TaskMetadata} (h : ∀ id, (tasks id).id = id) {t : TaskMetadata} (ht : t.id = id)
    (other : TaskId) : (Function.update tasks id t other).id = other := by
  by_cases heq : other = id
  · rw [heq, Function.update_self]
    exact ht
  · rw [Function.update_of_ne heq]
    exact h other

variable {s s' t : Executor} {e w : PriorityTaskWrapper} {processed : Nat} {events : List Event}

theorem Stamped.takes (hs : Stamped s) (h : Takes s s') : Stamped s' := by
  have hgrows := grows_takes h
  refine ⟨hs.toWellFormed.takes h, ?_, ?_⟩
  · refine queue_takes (fun hlt => ⟨hgrows.2, hlt⟩) (fun id hid => ⟨hgrows.2, ?_⟩) (fun w hw => ?_) h
    · show (s.tasks id).id < s'.counter
      rw [hs.ids]
      exact (hs.registered id hid).trans_le hgrows.1
    · exact ⟨(hs.entries w hw).1.trans hgrows.2, (hs.entries w hw).2.trans_le hgrows.1⟩
  · cases h with
    | spawn => exact ids_update hs.ids rfl
    | @handleWake id | @drainOne id | @ready _ id | @pending _ id => exact ids_update hs.ids (hs.ids id)
    | @poll _ w _ t _ _ _ _ ht =>
      refine ids_update hs.ids ?_
      rcases ht with rfl | rfl
      · exact hs.ids w.taskReference
      · exact hs.ids w.taskReference
    | _ => exact hs.ids

theorem Reachable.stamped {timeout : Nat} (hs : Reachable timeout s) : Stamped s := by
  obtain ⟨events, hrun⟩ := hs
  refine Machine.run_keeps (fun hs h => Stamped.takes hs (takes_of_step h)) hrun ?_
  exact ⟨wellFormed_new timeout, fun w hw => absurd hw List.not_mem_nil, fun _ => rfl⟩

/-! ### The way of a woken task to its poll -/

/-- The task has been polled since the log was `log`. -/
def PolledSince (log : List Action) (s : Executor) (id : TaskId) : Prop :=
  ∃ new, s.log = new ++ log ∧ .pollBegan id ∈ new

/-- The task is registered, woken and in one of the queues. -/
structure Waiting (s : Executor) (id : TaskId) : Prop where
  registered : id ∈ s.registry
  woken : (s.tasks id).state = .woken
  inQueues : InQueues s id

theorem registered_takes (hs : WellFormed s) (hreg : id ∈ s.registry) (hwoken : (s.tasks id).state = .woken)
    (h : Takes s s') : id ∈ s'.registry := by
  cases h with
  | spawn => exact List.mem_cons_of_mem _ hreg
  | @cleanUp _ w _ _ _ _ hstate =>
    have hne : id ≠ w.taskReference := fun h => absurd ((h ▸ hstate).symm.trans hwoken) nofun
    exact List.mem_filter.mpr ⟨hreg, decide_eq_true hne⟩
  | ready hphase =>
    have hne := hs.ne_polled hwoken (by rw [hphase]; rfl)
    exact List.mem_filter.mpr ⟨hreg, decide_eq_true hne⟩
  | _ => exact hreg

theorem Waiting.takes (hs : WellFormed s) (hw : Waiting s id) (h : Takes s s') :
    Waiting s' id ∨ s'.log = .pollBegan id :: s.log := by
  obtain ⟨hreg, hwoken, hin⟩ := hw
  rcases woken_takes hs (hs.registered id hreg) hwoken h with hwoken' | hpoll
  · have hreg' := registered_takes hs hreg hwoken h
    rcases hin with hmem | hqueued
    · exact .inl ⟨hreg', hwoken', (wakeup_takes hreg hmem h).imp_right And.left⟩
    · exact (queued_takes hwoken hqueued h).imp_left fun hqueued' => ⟨hreg', hwoken', .inr hqueued'⟩
  · exact .inr hpoll

/-! ### Its place in the queue -/

/-- The number of entries that are popped no later than `e`, itself included. -/
def rank (e : PriorityTaskWrapper) (queue : List PriorityTaskWrapper) : Nat :=
  queue.countP fun w => decide (w.key ≤ e.key)

theorem rank_pos {queue : List PriorityTaskWrapper} (he : e ∈ queue) :
    0 < rank e queue :=
  List.countP_pos_iff.mpr ⟨e, he, decide_eq_true (le_refl _)⟩

/-- Whatever is popped before `e` was counted. -/
theorem rank_pop {queue rest : List PriorityTaskWrapper} (he : e ∈ queue) (hpop : pop queue = some (w, rest)) :
    rank e rest + 1 = rank e queue := by
  obtain ⟨hw, rfl, hmin⟩ := pop_eq_some hpop
  rw [rank, rank, (List.perm_cons_erase hw).countP_eq, List.countP_cons_of_pos]
  exact decide_eq_true (hmin e he)

/-- What is popped after `e` is not counted. -/
theorem rank_cons (hlt : e.key < w.key) (queue : List PriorityTaskWrapper) :
    rank e (w :: queue) = rank e queue :=
  List.countP_cons_of_neg fun hle => absurd hlt (of_decide_eq_true hle : w.key ≤ e.key).not_gt

/-- A woken task with a later timestamp, or with the same and a greater id, is popped later. -/
theorem key_lt (hwoken : w.taskPriority.isWoken = true)
    (hlater : e.taskPriority.timestamp < w.taskPriority.timestamp ∨
      e.taskPriority.timestamp = w.taskPriority.timestamp ∧ e.taskPriority.taskId < w.taskPriority.taskId) :
    e.key < w.key := by
  rw [PriorityTaskWrapper.key, PriorityTaskWrapper.key, TaskPriority.key, TaskPriority.key,
    Prod.Lex.toLex_lt_toLex, Prod.Lex.toLex_lt_toLex, hwoken]
  cases e.taskPriority.isWoken with
  | false => exact .inl Bool.false_lt_true
  | true => exact .inr ⟨rfl, hlater⟩

theorem Stamped.key_lt_spawn (hs : Stamped s) (he : e ∈ s.queue) :
    e.key < (PriorityTaskWrapper.new s.counter (.new s.now s.counter)).key := by
  obtain ⟨htime, hid⟩ := hs.entries e he
  exact key_lt rfl (htime.lt_or_eq.imp_right fun heq => ⟨heq, hid⟩)

/-- The entry of a task that is processed in this tick. -/
structure InTurn (s : Executor) (id : TaskId) (e : PriorityTaskWrapper) : Prop where
  entry : e ∈ s.queue
  task : e.taskReference = id
  turn : ∃ processed, (s.phase = .processing processed ∧ rank e s.queue + processed ≤ maxTasksPerTick) ∨
    ∃ other, s.phase = .polling processed other ∧ rank e s.queue + processed < maxTasksPerTick

theorem InTurn.processing (h : InTurn s id e) (hphase : s.phase = .processing processed) :
    rank e s.queue + processed ≤ maxTasksPerTick := by
  obtain ⟨n, ⟨hn, hle⟩ | ⟨other, hn, -⟩⟩ := h.turn
  · obtain rfl : n = processed := by simpa [hphase] using hn.symm
    exact hle
  · exact absurd (hphase.symm.trans hn) nofun

theorem InTurn.polling (h : InTurn s id e) {other : TaskId} (hphase : s.phase = .polling processed other) :
    rank e s.queue + processed < maxTasksPerTick := by
  obtain ⟨n, ⟨hn, -⟩ | ⟨other', hn, hlt⟩⟩ := h.turn
  · exact absurd (hphase.symm.trans hn) nofun
  · obtain ⟨rfl, -⟩ : n = processed ∧ other' = other := by simpa [hphase, eq_comm] using hn
    exact hlt

theorem InTurn.phase_ne (h : InTurn s id e) : s.phase ≠ .idle ∧ s.phase ≠ .draining := by
  obtain ⟨n, ⟨hn, -⟩ | ⟨other, hn, -⟩⟩ := h.turn <;> rw [hn] <;> exact ⟨nofun, nofun⟩

theorem InTurn.takes (hs : Stamped s) (hwoken : (s.tasks id).state = .woken) (h : InTurn s id e)
    (htakes : Takes s s') : InTurn s' id e ∨ s'.log = .pollBegan id :: s.log := by
  -- An entry of another task that is popped makes room for the next one.
  have hpopped {w : PriorityTaskWrapper} {rest : List PriorityTaskWrapper}
      (hpop : pop s.queue = some (w, rest)) (hne : w.taskReference ≠ id) :
      e ∈ rest ∧ rank e rest + 1 = rank e s.queue := by
    exact ⟨mem_rest_of_pop hpop (h.task.symm ▸ hne) h.entry, rank_pop h.entry hpop⟩
  cases htakes with
  | elapse | wake | handleWake => exact .inl ⟨h.entry, h.task, h.turn⟩
  | spawn =>
    have hrank := rank_cons (hs.key_lt_spawn h.entry) s.queue
    refine .inl ⟨List.mem_cons_of_mem _ h.entry, h.task, ?_⟩
    show ∃ n, (s.phase = _ ∧ rank e (_ :: s.queue) + n ≤ _) ∨ ∃ o, s.phase = _ ∧ rank e (_ :: s.queue) + n < _
    rw [hrank]
    exact h.turn
  | beginTick hphase => exact absurd hphase h.phase_ne.1
  | drained hphase | drainOne hphase | drainStale hphase => exact absurd hphase h.phase_ne.2
  | noTask _ _ hnil => exact absurd (hnil ▸ h.entry) List.not_mem_nil
  | @cleanUp n w rest hphase _ hpop hstate =>
    have hne : w.taskReference ≠ id := fun heq => absurd ((heq ▸ hstate).symm.trans hwoken) nofun
    obtain ⟨hentry, hrank⟩ := hpopped hpop hne
    have hle := h.processing hphase
    exact .inl ⟨hentry, h.task, n + 1, .inl ⟨rfl, by show rank e rest + (n + 1) ≤ _; omega⟩⟩
  | @poll n w rest _ hphase _ hpop =>
    by_cases heq : w.taskReference = id
    · right
      rw [← heq]
    · obtain ⟨hentry, hrank⟩ := hpopped hpop heq
      have hle := h.processing hphase
      exact .inl ⟨hentry, h.task, n, .inr ⟨_, rfl, by show rank e rest + n < _; omega⟩⟩
  | @skip n w rest hphase _ hpop hstate =>
    obtain ⟨hentry, hrank⟩ := hpopped hpop fun heq => hstate (heq ▸ hwoken)
    have hle := h.processing hphase
    exact .inl ⟨hentry, h.task, n + 1, .inl ⟨rfl, by show rank e rest + (n + 1) ≤ _; omega⟩⟩
  | @ready n _ hphase | @pending n _ hphase => exact .inl ⟨h.entry, h.task, n + 1, .inl ⟨rfl, h.polling hphase⟩⟩
  | @endTick n hphase hmax =>
    have hle := h.processing hphase
    have hpos := rank_pos h.entry
    omega

/-! ### The next tick -/

theorem PolledSince.takes {log : List Action} (h : PolledSince log s id) (htakes : Takes s s') :
    PolledSince log s' id := by
  obtain ⟨new, hnew, hpoll⟩ := h
  obtain ⟨a, hlog⟩ := log_takes htakes
  exact ⟨a.toList ++ new, by rw [hlog, hnew, List.append_assoc], List.mem_append_right _ hpoll⟩

theorem polledSince_of_log {new : List Action} (hnew : s.log = new ++ t.log)
    (hlog : s'.log = .pollBegan id :: s.log) : PolledSince t.log s' id :=
  ⟨.pollBegan id :: new, by rw [hlog, hnew, List.cons_append], List.mem_cons_self⟩

theorem polled_or_keeps {I P : Executor → Prop} (hinv : ∀ {s e s'}, I s → step s e = some s' → I s')
    (hstep : ∀ {s e s'}, I s → P s → step s e = some s' → P s' ∨ s'.log = .pollBegan id :: s.log)
    (hrun : Machine.run step s events = some t) (hs : I s) (hP : P s) : I t ∧ (P t ∨ PolledSince s.log t id) := by
  have hkeeps := Machine.run_keeps
    (I := fun t => I t ∧ (∃ new, t.log = new ++ s.log) ∧ (P t ∨ PolledSince s.log t id)) ?_ hrun
    ⟨hs, ⟨[], rfl⟩, .inl hP⟩
  · exact ⟨hkeeps.1, hkeeps.2.2⟩
  · rintro u e u' ⟨hu, ⟨new, hnew⟩, hor⟩ hone
    have htakes := takes_of_step hone
    obtain ⟨a, hlog⟩ := log_takes htakes
    refine ⟨hinv hu hone, ⟨a.toList ++ new, by rw [hlog, hnew, List.append_assoc]⟩, ?_⟩
    rcases hor with hP | hpolled
    · exact (hstep hu hP hone).imp_right (polledSince_of_log hnew)
    · exact .inr (hpolled.takes htakes)

theorem not_polledSince_of_keeps {P : Executor → Prop} {Q : Event → Prop}
    (hstep : ∀ {s e s'}, Q e → P s → step s e = some s' → P s' ∧ s'.log ≠ .pollBegan id :: s.log)
    (hevents : ∀ e ∈ events, Q e) (hrun : Machine.run step s events = some t) (hP : P s) :
    ¬ PolledSince s.log t id := by
  have hkeeps := Machine.run_keeps_of
    (I := fun t => P t ∧ ∃ new, t.log = new ++ s.log ∧ .pollBegan id ∉ new) ?_ hevents hrun
    ⟨hP, [], rfl, List.not_mem_nil⟩
  · obtain ⟨-, new, hnew, hnot⟩ := hkeeps
    rintro ⟨new', hnew', hpoll⟩
    rw [List.append_cancel_right (hnew'.symm.trans hnew)] at hpoll
    exact hnot hpoll
  · rintro u e u' he ⟨hu, new, hnew, hnot⟩ hone
    obtain ⟨hu', hlog'⟩ := hstep he hu hone
    obtain ⟨a, hlog⟩ := log_takes (takes_of_step hone)
    refine ⟨hu', a.toList ++ new, by rw [hlog, hnew, List.append_assoc], fun hmem => ?_⟩
    rcases List.mem_append.mp hmem with hmem | hmem
    · obtain rfl := Option.mem_toList.mp hmem
      exact hlog' hlog
    · exact hnot hmem

theorem wakeupQueue_of_drain (hstep : step s .drain = some s') (hphase : s'.phase = .processing processed) :
    s'.wakeupQueue = [] := by
  obtain ⟨hdraining, ⟨⟩⟩ := Option.ite_none_right_eq_some.mp hstep
  unfold Executor.drain at hphase ⊢
  split at hphase
  · next hnil => exact hnil
  · dsimp only at hphase
    split_ifs at hphase
    · exact absurd (hdraining.symm.trans hphase) nofun
    · exact absurd (hdraining.symm.trans hphase) nofun

theorem Waiting.polled {c : Executor} (hs : Stamped s) (hw : Waiting s id) {rest : List Event}
    (hdrain : Machine.run step s (events ++ [.drain]) = some c) (hphase : c.phase = .processing processed)
    (hlength : c.queue.length + processed ≤ maxTasksPerTick) (hrun : Machine.run step c rest = some t)
    (hidle : t.phase = .idle) : PolledSince s.log t id := by
  have hinv {s s' : Executor} {e : Event} (hs : Stamped s) (h : step s e = some s') : Stamped s' :=
    hs.takes (takes_of_step h)
  obtain ⟨hc, hor⟩ := polled_or_keeps (P := fun s => Waiting s id) hinv
    (fun hs hw h => hw.takes hs.toWellFormed (takes_of_step h)) hdrain hs hw
  obtain ⟨before, hbefore⟩ := log_run hdrain
  obtain ⟨after, hafter⟩ := log_run hrun
  rcases hor with hwait | ⟨new, hnew, hpoll⟩
  · obtain ⟨b, -, hlast⟩ := Machine.run_append.mp hdrain
    obtain ⟨c', hstep, hend⟩ := Machine.run_cons.mp hlast
    obtain rfl : c' = c := Option.some.inj hend
    have hempty := wakeupQueue_of_drain hstep hphase
    obtain ⟨e, he, htask⟩ : Queued c' id :=
      hwait.inQueues.resolve_left fun h => List.not_mem_nil (hempty ▸ h)
    have hrank : rank e c'.queue ≤ c'.queue.length := List.countP_le_length
    have hturn : InTurn c' id e := ⟨he, htask, processed, .inl ⟨hphase, by omega⟩⟩
    have hkeep {s s' : Executor} {event : Event} (hs : Stamped s) (hw : Waiting s id ∧ InTurn s id e)
        (h : step s event = some s') : (Waiting s' id ∧ InTurn s' id e) ∨ s'.log = .pollBegan id :: s.log := by
      have htakes := takes_of_step h
      rcases hw.1.takes hs.toWellFormed htakes with hwait | hpoll
      · exact (hw.2.takes hs hw.1.woken htakes).imp_left fun hturn => ⟨hwait, hturn⟩
      · exact .inr hpoll
    obtain ⟨-, ⟨-, hlate⟩ | ⟨new, hnew, hpoll⟩⟩ := polled_or_keeps hinv hkeep hrun hc ⟨hwait, hturn⟩
    · exact absurd hidle hlate.phase_ne.1
    · exact ⟨new ++ before, by rw [hnew, hbefore, List.append_assoc], List.mem_append_left _ hpoll⟩
  · exact ⟨after ++ new, by rw [hafter, hnew, List.append_assoc], List.mem_append_right _ hpoll⟩

/-- `TaskHandle::wake` makes a registered task runnable, so that it is in one of the queues and polled by the
next tick that finds at most ten entries in the priority queue, exactly if the task was in one of the queues
already. -/
theorem handleWake_runnable_iff {timeout : Nat} {s s' : Executor} (hs : Reachable timeout s) {id : TaskId}
    (hreg : id ∈ s.registry) (hwake : step s (.handleWake id) = some s') :
    (InQueues s' id ∧
      ∀ {events rest : List Event} {c t : Executor}, Machine.run step s' (events ++ [.drain]) = some c →
        c.phase = .processing 0 → c.queue.length ≤ maxTasksPerTick → Machine.run step c rest = some t →
        t.phase = .idle → PolledSince s'.log t id) ↔
      InQueues s id := by
  have htakes := takes_of_step hwake
  obtain ⟨-, ⟨⟩⟩ := Option.ite_none_right_eq_some.mp hwake
  refine ⟨fun h => h.1, fun hin => ⟨hin, fun hdrain hphase hlength hrun hidle => ?_⟩⟩
  have hwaiting : Waiting (s.handleWake id) id := ⟨hreg, state_update_self _ _ _, hin⟩
  exact hwaiting.polled (hs.stamped.takes htakes) hdrain hphase hlength hrun hidle

/-- A task that has just been spawned is queued, and the tick after the wakeup polls it. -/
theorem handleWake_runnable_spawned :
    ∃ s s', Machine.run step (.new 1000) [.spawn] = some s ∧ step s (.handleWake 1) = some s' ∧
      ∀ {c t : Executor}, Machine.run step s' ([.beginTick] ++ [.drain]) = some c →
        c.phase = .processing 0 → c.queue.length ≤ maxTasksPerTick →
        Machine.run step c [.processOneTask, .pollReturned true, .processOneTask] = some t →
        t.phase = .idle → PolledSince s'.log t 1 := by
  have hin : InQueues (Executor.new 1000).spawn 1 := .inr ⟨_, List.mem_singleton_self _, rfl⟩
  have hwake : step (Executor.new 1000).spawn (.handleWake 1) =
      some ((Executor.new 1000).spawn.handleWake 1) := rfl
  exact ⟨_, _, rfl, hwake,
    ((handleWake_runnable_iff ⟨[.spawn], rfl⟩ (List.mem_singleton_self 1) hwake).mpr hin).2⟩

/-- A task that is spawned, polled once and waits for its waker. -/
def sleeps : List Event :=
  [.spawn, .beginTick, .drain, .processOneTask, .pollReturned false, .processOneTask]

/-- Waking it through its handle returns `true`, and the next tick finds nothing to do. -/
theorem handleWake_sleeps_on :
    ∃ s s' t, Machine.run step (.new 1000) sleeps = some s ∧ 1 ∈ s.registry ∧
      step s (.handleWake 1) = some s' ∧ s'.wakeupQueue = [] ∧ s'.queue = [] ∧
      Machine.run step s' [.beginTick, .drain, .processOneTask] = some t ∧ t.phase = .idle ∧
      t.log = s'.log ∧ (t.tasks 1).state = .woken :=
  ⟨_, _, _, rfl, by decide, rfl, rfl, rfl, rfl, rfl, rfl, rfl⟩

end Sparreal.Async
