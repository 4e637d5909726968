import Sparreal.Async.Completion

/-!
# The registry of active tasks

Tasks enter the registry when they are spawned and leave it when their future has returned `Ready`: at once, or when
an entry of a completed task comes up. `Accounted` says that nothing else takes a task out, so the registry is the
set of the tasks whose futures are still to return `Ready`. As long as tasks are woken through their wakers only, a
completed task stays completed, and every entry of the priority queue belongs to a task that is registered or
completed. `run_until_completion` goes on until both queues and the registry are empty.
-/

namespace Sparreal.Async

/-- The ids that `spawn` has given out. -/
def Spawned (s : Executor) (id : TaskId) : Prop := 0 < id ∧ id < s.counter

/-- Tasks are spawned, polled and woken through their wakers, not through their handles. -/
def WakersOnly (events : List Event) : Prop := ∀ e ∈ events, ∀ id, e ≠ .handleWake id

def Executor.hasPendingTasks (s : Executor) : Bool :=
  !s.wakeupQueue.isEmpty || !s.queue.isEmpty || !s.registry.isEmpty

/-- A call of `run_until_completion`, and the state it returns in. During a tick and until the next look at the
queues, tasks are spawned and woken as before. -/
inductive RunUntilCompletion : Executor → Executor → Prop
  | finished {s : Executor} : s.phase = .idle → s.hasPendingTasks = false → RunUntilCompletion s s
  | tick {s s' t : Executor} {events : List Event} : s.phase = .idle → s.hasPendingTasks = true →
      Machine.run step s (.beginTick :: events) = some s' → .beginTick ∉ events → WakersOnly events →
      s'.phase = .idle → RunUntilCompletion s' t → RunUntilCompletion s t

/-! ### What leaves the registry -/

/-- A task that is not registered has finished, and so has one that is marked as completed. -/
structure Accounted (s : Executor) : Prop extends Retired s where
  missing : ∀ id, Spawned s id → id ∉ s.registry → Finished s id
  marked : ∀ id, Spawned s id → (s.tasks id).state = .completed → Finished s id

variable {s s' : Executor}

theorem Finished.takes {id : TaskId} (hfin : Finished s id) (h : Takes s s') : Finished s' id := by
  unfold Finished at hfin ⊢
  obtain ⟨a, hlog⟩ := log_takes h
  rw [hlog]
  exact List.mem_append_right _ hfin

/-- A task is registered until its future returns `Ready`. -/
theorem Accounted.missing_takes (hs : Accounted s) (h : Takes s s') {id : TaskId} (hid : Spawned s' id)
    (hreg : id ∉ s'.registry) : Finished s' id := by
  have hkeep (hold : Spawned s id) (hnot : id ∉ s.registry) : Finished s' id := (hs.missing id hold hnot).takes h
  cases h with
  | spawn =>
    obtain ⟨hne, hnot⟩ := not_or.mp (fun hmem => hreg (List.mem_cons.mpr hmem))
    exact hkeep ⟨hid.1, Nat.lt_of_le_of_ne (Nat.le_of_lt_succ hid.2) hne⟩ hnot
  | @cleanUp _ w _ _ _ _ hstate =>
    by_cases heq : id = w.taskReference
    · exact hs.marked id hid (heq ▸ hstate)
    · exact hkeep hid fun hmem => hreg (List.mem_filter.mpr ⟨hmem, decide_eq_true heq⟩)
  | @ready _ target =>
    by_cases heq : id = target
    · rw [heq]
      exact List.mem_cons_self
    · exact hkeep hid fun hmem => hreg (List.mem_filter.mpr ⟨hmem, decide_eq_true heq⟩)
  | _ => exact hkeep hid hreg

/-- Only a poll that returns `Ready` marks a task as completed. -/
theorem Accounted.marked_takes (hs : Accounted s) (h : Takes s s') {id : TaskId} (hid : Spawned s' id)
    (hstate : (s'.tasks id).state = .completed) : Finished s' id := by
  have hkeep (hold : Spawned s id) (hstate : (s.tasks id).state = .completed) : Finished s' id :=
    (hs.marked id hold hstate).takes h
  have hother {target : TaskId} {t : TaskMetadata} (ht : t.state ≠ .completed)
      (hstate : (Function.update s.tasks target t id).state = .completed) :
      id ≠ target ∧ (s.tasks id).state = .completed := by
    by_cases heq : id = target
    · rw [heq, Function.update_self] at hstate
      exact absurd hstate ht
    · rw [Function.update_of_ne heq] at hstate
      exact ⟨heq, hstate⟩
  cases h with
  | spawn =>
    obtain ⟨hne, hold⟩ := hother (by simp [TaskMetadata.new]) hstate
    exact hkeep ⟨hid.1, Nat.lt_of_le_of_ne (Nat.le_of_lt_succ hid.2) hne⟩ hold
  | handleWake | drainOne => exact hkeep hid (hother (by simp [TaskMetadata.markWoken]) hstate).2
  | poll => exact hkeep hid (hother (by simp [TaskMetadata.updateExecution]) hstate).2
  | @ready _ target =>
    by_cases heq : id = target
    · rw [heq]
      exact List.mem_cons_self
    · exact hkeep hid ((congrArg TaskMetadata.state (Function.update_of_ne heq _ _)).symm.trans hstate)
  | pending => exact hkeep hid (hother (by simp) hstate).2
  | _ => exact hkeep hid hstate

theorem Accounted.takes (hs : Accounted s) (h : Takes s s') : Accounted s' :=
  ⟨hs.toRetired.takes h, fun _ => hs.missing_takes h, fun _ => hs.marked_takes h⟩

theorem Reachable.accounted {timeout : Nat} (hs : Reachable timeout s) : Accounted s := by
  have hretired := Reachable.retired (s := .new timeout) ⟨[], rfl⟩
  obtain ⟨events, hrun⟩ := hs
  refine Machine.run_keeps (fun hs h => Accounted.takes hs (takes_of_step h)) hrun ⟨hretired, ?_, ?_⟩
  · intro id hid
    exact absurd hid.2 (Nat.not_lt.mpr hid.1)
  · intro id hid
    exact absurd hid.2 (Nat.not_lt.mpr hid.1)

/-! ### Completed tasks stay completed -/

def Settled (s : Executor) : Prop := ∀ id, Finished s id → (s.tasks id).state = .completed

/-- A round of `process_wake_queue` marks registered tasks only. -/
theorem Settled.drain (hs : Accounted s) (h : Settled s) : Settled s.drain := by
  unfold Executor.drain
  split
  · exact h
  · next target rest hcons =>
    dsimp only
    split_ifs with hreg
    · intro id hid
      have hne : id ≠ target := fun heq => (hs.finished id hid).1 (heq ▸ hreg)
      exact (state_update_of_ne hne _ _).trans (h id hid)
    · exact h

theorem Settled.processOneTask (h : Settled s) (processed : Nat) :
    Settled (s.processOneTask processed) := by
  rcases processOneTask_cases s processed with
    ⟨-, hresult⟩ | ⟨w, rest, -, ⟨-, hresult⟩ | ⟨hstate, t, -, hresult⟩ | ⟨-, -, hresult⟩⟩
  · exact hresult ▸ h
  · exact hresult ▸ h
  · rw [hresult]
    intro id hid
    have hfin : Finished s id := (List.mem_cons.mp hid).resolve_left (by simp)
    have hne : id ≠ w.taskReference := fun heq => hstate (heq ▸ h id hfin)
    exact (state_update_of_ne hne _ _).trans (h id hfin)
  · exact hresult ▸ h

theorem Settled.pollReturned (hs : Accounted s) (h : Settled s) {processed : Nat} {target : TaskId}
    (hphase : s.phase = .polling processed target) (ready : Bool) :
    Settled (s.pollReturned processed target ready) := by
  have hrunning : (s.tasks target).state = .running := (hs.polled target (by rw [hphase]; rfl)).2
  have hother {id : TaskId} (hfin : Finished s id) : id ≠ target := by
    intro heq
    have hcompleted := h id hfin
    rw [heq, hrunning] at hcompleted
    exact absurd hcompleted (by simp)
  unfold Executor.pollReturned
  dsimp only
  split_ifs with hready
  · intro id hid
    rcases List.mem_cons.mp hid with heq | hfin
    · obtain ⟨rfl, -⟩ : id = target ∧ true = ready := by simpa using heq
      exact state_update_self _ _ _
    · exact (state_update_of_ne (hother hfin) _ _).trans (h id hfin)
  · intro id hid
    rcases List.mem_cons.mp hid with heq | hfin
    · exact absurd (by simpa using heq : id = target ∧ true = ready).2.symm hready
    · exact (state_update_of_ne (hother hfin) _ _).trans (h id hfin)

theorem Settled.step {e : Event} (hs : Accounted s) (h : Settled s) (hwaker : ∀ id, e ≠ .handleWake id)
    (hstep : step s e = some s') : Settled s' := by
  cases e with
  | elapse milliseconds => exact Option.some.inj hstep ▸ h
  | spawn =>
    obtain rfl := Option.some.inj hstep
    intro id hid
    exact (state_update_of_ne (hs.finished id hid).2.ne _ _).trans (h id hid)
  | wake target =>
    obtain rfl := Option.some.inj hstep
    exact fun id hid => h id ((List.mem_cons.mp hid).resolve_left (by simp))
  | handleWake target => exact absurd rfl (hwaker target)
  | beginTick =>
    obtain ⟨-, ⟨⟩⟩ := Option.ite_none_right_eq_some.mp hstep
    exact h
  | drain =>
    obtain ⟨-, ⟨⟩⟩ := Option.ite_none_right_eq_some.mp hstep
    exact h.drain hs
  | processOneTask =>
    obtain ⟨processed, -, -, rfl⟩ := step_processOneTask hstep
    exact h.processOneTask processed
  | pollReturned ready =>
    obtain ⟨processed, target, hphase, rfl⟩ := step_pollReturned hstep
    exact h.pollReturned hs hphase ready
  | endTick =>
    obtain ⟨-, -, -, rfl⟩ := step_endTick hstep
    exact h

theorem settled_run {timeout : Nat} {events : List Event} (hrun : Machine.run step (.new timeout) events = some s)
    (hwakers : WakersOnly events) : Settled s := by
  have haccounted := Reachable.accounted (s := .new timeout) ⟨[], rfl⟩
  refine (Machine.run_keeps_of (I := fun s => Accounted s ∧ Settled s)
    (P := fun e : Event => ∀ id, e ≠ .handleWake id) ?_ hwakers hrun ⟨haccounted, ?_⟩).2
  · rintro u e u' hwaker ⟨hu, hsettled⟩ hone
    exact ⟨hu.takes (takes_of_step hone), hsettled.step hu hwaker hone⟩
  · exact fun id hid => absurd hid List.not_mem_nil

/-! ### Exactness -/

/-- A call of `run_until_completion` is a run, and it returns when nothing is pending. -/
theorem RunUntilCompletion.run {t : Executor} (h : RunUntilCompletion s t) :
    (∃ events, Machine.run step s events = some t) ∧ t.hasPendingTasks = false := by
  induction h with
  | finished _ hnone => exact ⟨⟨[], rfl⟩, hnone⟩
  | tick _ _ hrun _ _ _ _ ih =>
    obtain ⟨⟨rest, hrest⟩, hnone⟩ := ih
    exact ⟨⟨_, Machine.run_append.mpr ⟨_, hrun, hrest⟩⟩, hnone⟩

theorem hasPendingTasks_eq_false (h : s.hasPendingTasks = false) :
    s.wakeupQueue = [] ∧ s.queue = [] ∧ s.registry = [] := by
  simpa [Executor.hasPendingTasks, and_assoc] using h

/-- Whatever is spawned, ticked and woken through wakers, the registry is the set of the spawned tasks whose future
has not returned `Ready`, the entries of the priority queue are of registered or completed tasks, and
`run_until_completion` returns only when all futures have returned `Ready` and both queues are empty. -/
theorem registry_exact {timeout : Nat} {events : List Event} {s : Executor}
    (hrun : Machine.run step (.new timeout) events = some s) (hwakers : WakersOnly events) :
    (∀ id, id ∈ s.registry ↔ Spawned s id ∧ ¬ Finished s id) ∧
      (∀ w ∈ s.queue, w.taskReference ∈ s.registry ∨ (s.tasks w.taskReference).state = .completed) ∧
      ∀ t, RunUntilCompletion s t →
        (∀ id, Spawned t id → Finished t id) ∧ t.queue = [] ∧ t.wakeupQueue = [] := by
  have hs : Accounted s := Reachable.accounted ⟨events, hrun⟩
  have hsettled := settled_run hrun hwakers
  refine ⟨?_, ?_, ?_⟩
  · intro id
    constructor
    · intro hreg
      exact ⟨⟨hs.registered_pos id hreg, hs.registered id hreg⟩, fun hfin => (hs.finished id hfin).1 hreg⟩
    · rintro ⟨hid, hnot⟩
      by_contra hreg
      exact hnot (hs.missing id hid hreg)
  · intro w hw
    by_cases hreg : w.taskReference ∈ s.registry
    · exact .inl hreg
    · exact .inr (hsettled _ (hs.missing _ ⟨hs.positive w hw, hs.queued w hw⟩ hreg))
  · intro t hcall
    obtain ⟨⟨rest, hrest⟩, hnone⟩ := hcall.run
    obtain ⟨hwakeups, hqueue, hregistry⟩ := hasPendingTasks_eq_false hnone
    have ht : Accounted t := Reachable.accounted ⟨events ++ rest, Machine.run_append.mpr ⟨s, hrun, hrest⟩⟩
    refine ⟨?_, hqueue, hwakeups⟩
    intro id hid
    exact ht.missing id hid (by simp [hregistry])

/-- The rest of a tick in which one task is polled and returns `Ready`. -/
def finishes : List Event := [.drain, .processOneTask, .pollReturned true, .processOneTask]

/-- A task that is spawned and returns `Ready` when it is polled. -/
theorem registry_exact_finishes :
    ∃ s t, Machine.run step (.new 1000) [.spawn] = some s ∧ RunUntilCompletion s t ∧ 1 ∈ s.registry ∧
      Finished t 1 := by
  have hrun : Machine.run step (.new 1000) [.spawn] = some (Executor.new 1000).spawn := rfl
  have htick : ∃ t, Machine.run step (Executor.new 1000).spawn (.beginTick :: finishes) = some t ∧
      t.phase = .idle ∧ t.hasPendingTasks = false ∧ t.counter = 2 := ⟨_, rfl, rfl, rfl, rfl⟩
  obtain ⟨t, htick, hidle, hnone, hcounter⟩ := htick
  have hwakers : WakersOnly finishes := by simp [WakersOnly, finishes]
  have hcall : RunUntilCompletion (Executor.new 1000).spawn t :=
    .tick rfl rfl htick (by decide) hwakers hidle (.finished hidle hnone)
  have hexact := registry_exact hrun (by simp [WakersOnly])
  have hspawned : Spawned t 1 := ⟨Nat.one_pos, by rw [hcounter]; decide⟩
  refine ⟨_, t, hrun, hcall, ?_, (hexact.2.2 t hcall).1 1 hspawned⟩
  exact (hexact.1 1).2 ⟨by unfold Spawned; decide, by unfold Finished; decide⟩

end Sparreal.Async
