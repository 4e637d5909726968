import Sparreal.Async.Handles

/-!
# Polling after completion

A task that returned `Ready` is taken out of the registry, so no waker brings it back into a queue. The entries
it has in the priority queue stay, though, since every round of `process_wake_queue` may have added one, and
what protects it from being polled through one of them is its state `Completed`, which its handle overwrites.
-/

namespace Sparreal.Async

/-- The future of the task has returned `Poll::Ready`. -/
def Finished (s : Executor) (id : TaskId) : Prop := .pollReturned id true ∈ s.log

/-- Finished tasks are not registered, and ids begin with one. -/
structure Retired (s : Executor) : Prop extends Stamped s where
  finished : ∀ id, Finished s id → id ∉ s.registry ∧ id < s.counter
  counter_pos : 0 < s.counter
  positive : ∀ w ∈ s.queue, 0 < w.taskReference
  registered_pos : ∀ id ∈ s.registry, 0 < id

variable {s s' : Executor} {e : PriorityTaskWrapper}

theorem Retired.takes (hs : Retired s) (h : Takes s s') : Retired s' := by
  refine ⟨hs.toStamped.takes h, ?_, hs.counter_pos.trans_le (grows_takes h).1,
    queue_takes (fun _ => hs.counter_pos) hs.registered_pos hs.positive h,
    registry_takes (fun _ => hs.counter_pos) hs.registered_pos h⟩
  cases h with
  | spawn =>
    intro id hid
    obtain ⟨hreg, hlt⟩ := hs.finished id hid
    refine ⟨fun hmem => ?_, Nat.lt_succ_of_lt hlt⟩
    exact (List.mem_cons.mp hmem).elim hlt.ne hreg
  | wake woken | poll => exact fun id hid => hs.finished id ((List.mem_cons.mp hid).resolve_left nofun)
  | cleanUp =>
    exact fun id hid => (hs.finished id hid).imp_left fun hreg hmem => hreg (List.mem_of_mem_filter hmem)
  | @ready _ target hphase =>
    intro id hid
    rcases List.mem_cons.mp hid with heq | hid
    · obtain ⟨rfl, -⟩ : id = target ∧ true = true := by simpa using heq
      refine ⟨fun hmem => ?_, (hs.polled id (by rw [hphase]; rfl)).1⟩
      exact absurd (List.mem_filter.mp hmem).2 (by simp)
    · exact (hs.finished id hid).imp_left fun hreg hmem => hreg (List.mem_of_mem_filter hmem)
  | pending => exact fun id hid => hs.finished id ((List.mem_cons.mp hid).resolve_left (by simp))
  | _ => exact hs.finished

theorem Reachable.retired {timeout : Nat} (hs : Reachable timeout s) : Retired s := by
  have hstamped := Reachable.stamped (s := .new timeout) ⟨[], rfl⟩
  obtain ⟨events, hrun⟩ := hs
  refine Machine.run_keeps (fun hs h => Retired.takes hs (takes_of_step h)) hrun ?_
  exact ⟨hstamped, fun id hid => absurd hid List.not_mem_nil, Nat.one_pos,
    fun w hw => absurd hw List.not_mem_nil, fun id hid => absurd hid List.not_mem_nil⟩

/-! ### Without an entry -/

/-- A task that is neither registered nor queued. -/
structure Gone (s : Executor) (id : TaskId) : Prop where
  unregistered : id ∉ s.registry
  unqueued : ¬ Queued s id
  old : id < s.counter

variable {id : TaskId}

theorem not_queued_of_pop {w : PriorityTaskWrapper} (hpop : pop s.queue = some (w, s'.queue)) (h : ¬ Queued s id) :
    ¬ Queued s' id :=
  fun ⟨x, hx, hid⟩ => h ⟨x, mem_of_pop hpop hx, hid⟩

theorem Gone.takes (hs : Gone s id) (h : Takes s s') : Gone s' id := by
  obtain ⟨hreg, hqueue, hold⟩ := hs
  have hnew {target : TaskId} {t : TaskMetadata} (hne : id ≠ target)
      (hmem : ∃ w ∈ PriorityTaskWrapper.new target t :: s.queue, w.taskReference = id) : False := by
    obtain ⟨w, hw, hid⟩ := hmem
    rcases List.mem_cons.mp hw with rfl | hw
    · exact hne hid.symm
    · exact hqueue ⟨w, hw, hid⟩
  cases h with
  | spawn =>
    refine ⟨fun hmem => ?_, hnew hold.ne, Nat.lt_succ_of_lt hold⟩
    exact (List.mem_cons.mp hmem).elim hold.ne hreg
  | @drainOne target _ _ _ htarget => exact ⟨hreg, hnew fun heq => hreg (heq ▸ htarget), hold⟩
  | cleanUp _ _ hpop =>
    exact ⟨fun hmem => hreg (List.mem_of_mem_filter hmem), not_queued_of_pop hpop hqueue, hold⟩
  | poll _ _ hpop | skip _ _ hpop => exact ⟨hreg, not_queued_of_pop hpop hqueue, hold⟩
  | ready => exact ⟨fun hmem => hreg (List.mem_of_mem_filter hmem), hqueue, hold⟩
  | _ => exact ⟨hreg, hqueue, hold⟩

theorem pop_of_pollBegan (h : Takes s s') (hlog : s'.log = .pollBegan id :: s.log) :
    ∃ processed w rest, s.phase = .processing processed ∧ processed < maxTasksPerTick ∧
      pop s.queue = some (w, rest) ∧ w.taskReference = id := by
  cases h with
  | @poll processed w rest _ hphase hlt hpop => exact ⟨processed, w, rest, hphase, hlt, hpop, by simpa using hlog⟩
  | wake woken => exact absurd hlog (by simp [Executor.enqueueTaskWakeup])
  | ready | pending =>
    exact absurd hlog (by simp [Executor.pollReturned, Executor.updateTask, Executor.unregister])
  | _ => exact absurd hlog (List.cons_ne_self _ _).symm

theorem Gone.not_polledSince {t : Executor} (hs : Gone s id) {events : List Event}
    (hrun : Machine.run step s events = some t) : ¬ PolledSince s.log t id := by
  refine not_polledSince_of_keeps (P := fun s => Gone s id) (Q := fun _ => True) ?_ (fun _ _ => trivial) hrun hs
  intro u e u' _ hu hone
  have htakes := takes_of_step hone
  refine ⟨hu.takes htakes, fun hlog => ?_⟩
  obtain ⟨-, w, rest, -, -, hpop, hw⟩ := pop_of_pollBegan htakes hlog
  exact hu.unqueued ⟨w, (pop_eq_some hpop).1, hw⟩

/-! ### With an entry -/

def CanPoll (s : Executor) (id : TaskId) : Prop :=
  ∃ events t, Machine.run step s events = some t ∧ PolledSince s.log t id

theorem CanPoll.of_step {e : Event} (hstep : step s e = some s') (h : CanPoll s' id) : CanPoll s id := by
  obtain ⟨events, t, hrun, new, hnew, hpoll⟩ := h
  refine ⟨e :: events, t, Machine.run_cons.mpr ⟨s', hstep, hrun⟩, ?_⟩
  obtain ⟨a, hlog⟩ := log_takes (takes_of_step hstep)
  exact ⟨new ++ a.toList, by rw [hnew, hlog, List.append_assoc], List.mem_append_left _ hpoll⟩

/-- An unregistered task that has been woken, with an entry from before. -/
structure Poised (s : Executor) (id : TaskId) (e : PriorityTaskWrapper) : Prop where
  entry : e ∈ s.queue
  task : e.taskReference = id
  woken : (s.tasks id).state = .woken
  unregistered : id ∉ s.registry
  early : e.taskPriority.timestamp < s.now

theorem canPoll_of_draining {k : Nat}
    (hnext : ∀ s, Poised s id e → s.phase = .processing 0 → rank e s.queue = k → CanPoll s id)
    (wakeups : List TaskId) :
    ∀ s, Poised s id e → s.phase = .draining → s.wakeupQueue = wakeups → rank e s.queue = k →
      CanPoll s id := by
  induction wakeups with
  | nil =>
    intro s hs hphase hempty hrank
    have hdrain : step s .drain = some { s with phase := .processing 0 } := by
      simp [step, hphase, Executor.drain, hempty]
    exact .of_step hdrain (hnext _ { hs with } rfl hrank)
  | cons target rest ih =>
    intro s hs hphase hcons hrank
    by_cases hreg : target ∈ s.registry
    · have hdrain : step s .drain = some { s with
          wakeupQueue := rest
          tasks := Function.update s.tasks target ((s.tasks target).markWoken s.now)
          queue := .new target ((s.tasks target).markWoken s.now) :: s.queue } := by
        simp [step, hphase, Executor.drain, hcons, hreg, Executor.updateTask]
      have hne : id ≠ target := fun h => hs.unregistered (h ▸ hreg)
      refine .of_step hdrain (ih _ ?_ hphase rfl ((rank_cons (key_lt rfl (.inl hs.early)) _).trans hrank))
      exact { hs with
        entry := List.mem_cons_of_mem _ hs.entry, woken := (state_update_of_ne hne _ _).trans hs.woken }
    · have hdrain : step s .drain = some { s with wakeupQueue := rest } := by
        simp [step, hphase, Executor.drain, hcons, hreg]
      exact .of_step hdrain (ih _ { hs with } hphase rfl hrank)

theorem canPoll_of_idle {k : Nat}
    (hnext : ∀ s, Poised s id e → s.phase = .processing 0 → rank e s.queue = k → CanPoll s id) (hs : Poised s id e)
    (hphase : s.phase = .idle) (hrank : rank e s.queue = k) : CanPoll s id := by
  have hbegin : step s .beginTick = some { s with phase := .draining } := if_pos hphase
  exact .of_step hbegin (canPoll_of_draining hnext _ _ { hs with } rfl rfl hrank)

/-- A round of `process_one_task` polls the task, or some continuation of it leaves the task one place further
in the queue. -/
theorem canPoll_of_round (hs : Poised s id e) {processed : Nat} (hphase : s.phase = .processing processed)
    (hlt : processed < maxTasksPerTick)
    (hnext : ∀ s', Poised s' id e → s'.phase = .processing (processed + 1) →
      rank e s'.queue + 1 = rank e s.queue → CanPoll s' id) :
    CanPoll s id := by
  have hround : step s .processOneTask = some (s.processOneTask processed) := by
    simp [step, hphase, hlt]
  rcases processOneTask_cases s processed with ⟨hnil, -⟩ | ⟨w, rest, hpop, hcases⟩
  · exact absurd (hnil ▸ hs.entry) List.not_mem_nil
  have hrank := rank_pop hs.entry hpop
  by_cases heq : w.taskReference = id
  · -- Its own entry, and the state says `Woken`.
    have hpoll : s.processOneTask processed = { s with queue := rest }.beginPoll processed id := by
      simp [Executor.processOneTask, hpop, heq, hs.woken]
    rw [hpoll] at hround
    exact ⟨[.processOneTask], _, Machine.run_cons.mpr ⟨_, hround, rfl⟩, [.pollBegan id], rfl,
      List.mem_singleton_self _⟩
  · have hentry : e ∈ rest := mem_rest_of_pop hpop (hs.task.symm ▸ heq) hs.entry
    rcases hcases with ⟨-, hresult⟩ | ⟨-, t, -, hresult⟩ | ⟨-, -, hresult⟩
    · rw [hresult] at hround
      refine .of_step hround (hnext _ { hs with entry := hentry, unregistered := fun hmem => ?_ } rfl hrank)
      exact hs.unregistered (List.mem_of_mem_filter hmem)
    · -- A poll of another task may return `Pending`.
      rw [hresult] at hround
      refine .of_step hround (.of_step (e := .pollReturned false) rfl
        (hnext _ { hs with entry := hentry, woken := ?_ } rfl hrank))
      exact (state_update_of_ne (Ne.symm heq) _ _).trans
        ((state_update_of_ne (Ne.symm heq) s.tasks _).trans hs.woken)
    · rw [hresult] at hround
      exact .of_step hround (hnext _ { hs with entry := hentry } rfl hrank)

theorem canPoll_of_processing (k : Nat) :
    ∀ s processed, Poised s id e → s.phase = .processing processed → rank e s.queue = k →
      CanPoll s id := by
  induction k with
  | zero =>
    intro s processed hs hphase hrank
    exact absurd hrank (rank_pos hs.entry).ne'
  | succ k ih =>
    -- With room in this tick the entry of another task is popped, or its own.
    have hroom : ∀ s processed, Poised s id e → s.phase = .processing processed →
        processed < maxTasksPerTick → rank e s.queue = k + 1 → CanPoll s id := by
      intro s processed hs hphase hlt hrank
      refine canPoll_of_round hs hphase hlt fun s' hs' hphase' hrank' => ih s' _ hs' hphase' ?_
      omega
    intro s processed hs hphase hrank
    rcases Nat.lt_or_ge processed maxTasksPerTick with hlt | hge
    · exact hroom s processed hs hphase hlt hrank
    · have hend : step s .endTick = some { s with phase := .idle } := by simp [step, hphase, hge]
      refine .of_step hend (canPoll_of_idle (fun s' hs' hphase' => ?_) { hs with } rfl hrank)
      exact hroom s' 0 hs' hphase' (by decide)

theorem Poised.canPoll (hs : Poised s id e) (hphase : s.phase.polled = none) : CanPoll s id := by
  have hnext (s' : Executor) (hs' : Poised s' id e) (hphase' : s'.phase = .processing 0)
      (hrank : rank e s'.queue = rank e s.queue) : CanPoll s' id :=
    canPoll_of_processing _ s' 0 hs' hphase' hrank
  cases hcase : s.phase with
  | idle => exact canPoll_of_idle hnext hs hcase rfl
  | draining => exact canPoll_of_draining hnext _ s hs hcase rfl rfl
  | processing processed => exact canPoll_of_processing _ s processed hs hcase rfl
  | polling processed other =>
    rw [hcase] at hphase
    exact absurd hphase nofun

theorem canPoll_of_handleWake (hs : Retired s) (hfin : Finished s id) (hqueued : Queued s id)
    (hphase : s.phase.polled = none) : CanPoll s id := by
  obtain ⟨hreg, hold⟩ := hs.finished id hfin
  obtain ⟨e, he, htask⟩ := hqueued
  have hpos : 0 < id := htask ▸ hs.positive e he
  let s₁ : Executor := { s with now := s.now + 1 }
  have helapse : step s (.elapse 1) = some s₁ := rfl
  have hwake : step s₁ (.handleWake id) = some (s₁.handleWake id) :=
    if_pos ⟨hpos, hold, fun h => absurd (hphase.symm.trans h) nofun⟩
  refine .of_step helapse (.of_step hwake (Poised.canPoll (e := e) ⟨he, htask, ?_, hreg, ?_⟩ hphase))
  · exact state_update_self _ _ _
  · exact Nat.lt_succ_of_le (hs.entries e he).1

theorem canPoll_of_queued (hs : Retired s) (hfin : Finished s id) (hqueued : Queued s id) : CanPoll s id := by
  cases hphase : s.phase with
  | polling processed other =>
    have hreturn : step s (.pollReturned false) = some (s.pollReturned processed other false) := by
      simp [step, hphase]
    exact .of_step hreturn (canPoll_of_handleWake (hs.takes (takes_of_step hreturn))
      (List.mem_cons_of_mem _ hfin) hqueued rfl)
  | _ => exact canPoll_of_handleWake hs hfin hqueued (by rw [hphase]; rfl)

/-- Once the future of a task has returned `Ready`, the task is never polled again whatever follows, exactly if
it has no entry left in the priority queue. -/
theorem never_polled_again_iff {timeout : Nat} {s : Executor} (hs : Reachable timeout s) {id : TaskId}
    (hfin : .pollReturned id true ∈ s.log) :
    (∀ {events : List Event} {t : Executor}, Machine.run step s events = some t →
      ¬ ∃ new, t.log = new ++ s.log ∧ .pollBegan id ∈ new) ↔
      ∀ w ∈ s.queue, w.taskReference ≠ id := by
  obtain ⟨hreg, hold⟩ := hs.retired.finished id hfin
  constructor
  · intro hnever w hw hid
    obtain ⟨events, t, hrun, hpolled⟩ := canPoll_of_queued hs.retired hfin ⟨w, hw, hid⟩
    exact hnever hrun hpolled
  · intro hnone events t hrun
    exact Gone.not_polledSince ⟨hreg, fun ⟨w, hw, hid⟩ => hnone w hw hid, hold⟩ hrun

/-- A task with one entry that finishes in its first poll. -/
theorem never_polled_again_finishes :
    ∃ s, Machine.run step (.new 1000)
        [.spawn, .beginTick, .drain, .processOneTask, .wake 1, .pollReturned true] = some s ∧
      ∀ {events : List Event} {t : Executor}, Machine.run step s events = some t →
        ¬ ∃ new, t.log = new ++ s.log ∧ .pollBegan 1 ∈ new := by
  have hrun : ∃ s, Machine.run step (.new 1000)
      [.spawn, .beginTick, .drain, .processOneTask, .wake 1, .pollReturned true] = some s ∧
      .pollReturned 1 true ∈ s.log ∧ s.queue = [] := ⟨_, rfl, by decide, by decide⟩
  obtain ⟨s, hrun, hfin, hqueue⟩ := hrun
  refine ⟨s, hrun, (never_polled_again_iff ⟨_, hrun⟩ hfin).mpr fun w hw => ?_⟩
  exact absurd (hqueue ▸ hw) List.not_mem_nil

/-- A task that sleeps is woken through its waker, and once more while the wakeup queue is drained, so it has
two entries; the poll for the first returns `Ready`, its handle wakes it, and the second has it polled
again. -/
theorem polled_after_ready :
    ∃ s t, Machine.run step (.new 1000) (sleeps ++
        [.wake 1, .beginTick, .drain, .wake 1, .drain, .drain, .processOneTask, .pollReturned true]) =
        some s ∧
      .pollReturned 1 true ∈ s.log ∧
      Machine.run step s [.handleWake 1, .processOneTask] = some t ∧
      t.log = .pollBegan 1 :: s.log :=
  ⟨_, _, rfl, by decide, rfl, rfl⟩

end Sparreal.Async
