import Sparreal.Async.Executor

/-!
# Wakeups are not lost

A waker may be invoked at any time, in particular while its own task is polled and before the state of the
task is overwritten with `Pending`. It puts the task into the wakeup queue, and from there the task moves on
to the priority queue and to the state `Woken` in one step. Only a poll takes it out of that state, and a poll
answers the wakeup.
-/

namespace Sparreal.Async

def wokenSincePoll : List Action → TaskId → Bool
  | [], _ => false
  | .wake woken :: log, id => decide (woken = id) || wokenSincePoll log id
  | .pollBegan polled :: log, id => !decide (polled = id) && wokenSincePoll log id
  | .pollReturned _ _ :: log, id => wokenSincePoll log id

def Queued (s : Executor) (id : TaskId) : Prop := ∃ w ∈ s.queue, w.taskReference = id

/-- The executor will come to the task: it is in the wakeup queue, or in the priority queue and woken. -/
def Present (s : Executor) (id : TaskId) : Prop :=
  id ∈ s.wakeupQueue ∨ Queued s id ∧ (s.tasks id).state = .woken

/-- Every registered task with an unanswered wakeup is present. -/
structure Attentive (s : Executor) : Prop extends WellFormed s where
  woken : ∀ id ∈ s.registry, wokenSincePoll s.log id = true → Present s id

variable {s s' : Executor} {id : TaskId}

theorem Queued.mono (hsub : ∀ w ∈ s.queue, w ∈ s'.queue) (h : Queued s id) : Queued s' id := by
  obtain ⟨w, hw, hid⟩ := h
  exact ⟨w, hsub w hw, hid⟩

theorem queued_of_pop {w : PriorityTaskWrapper} (hpop : pop s.queue = some (w, s'.queue)) (hne : w.taskReference ≠ id)
    (h : Queued s id) : Queued s' id := by
  obtain ⟨x, hx, rfl⟩ := h
  exact ⟨x, mem_rest_of_pop hpop hne hx, rfl⟩

theorem mem_enqueueTaskWakeup {id other : TaskId} :
    other ∈ (s.enqueueTaskWakeup id).wakeupQueue ↔ other ∈ s.wakeupQueue ∨ other = id := by
  show other ∈ (if id ∈ s.wakeupQueue then s.wakeupQueue else s.wakeupQueue ++ [id]) ↔ _
  split_ifs with hmem
  · refine ⟨.inl, ?_⟩
    rintro (hother | rfl)
    · exact hother
    · exact hmem
  · rw [List.mem_append, List.mem_singleton]

theorem wokenSincePoll_wake {log : List Action} {woken id : TaskId}
    (h : wokenSincePoll (.wake woken :: log) id = true) : woken = id ∨ wokenSincePoll log id = true := by
  simpa [wokenSincePoll] using h

theorem wokenSincePoll_pollBegan {log : List Action} {polled id : TaskId}
    (h : wokenSincePoll (.pollBegan polled :: log) id = true) :
    polled ≠ id ∧ wokenSincePoll log id = true := by
  simpa [wokenSincePoll] using h

/-! ### What a step leaves of a wakeup -/

theorem woken_markWoken (hwoken : (s.tasks id).state = .woken) (target : TaskId) :
    (Function.update s.tasks target ((s.tasks target).markWoken s.now) id).state = .woken := by
  by_cases heq : id = target
  · rw [heq]
    exact state_update_self _ _ _
  · exact (state_update_of_ne heq _ _).trans hwoken

theorem WellFormed.ne_polled (hs : WellFormed s) {id target : TaskId} (hwoken : (s.tasks id).state = .woken)
    (hpolled : s.phase.polled = some target) : id ≠ target := by
  intro h
  have hrun := (hs.polled target hpolled).2
  rw [← h] at hrun
  exact absurd (hrun.symm.trans hwoken) nofun

theorem woken_takes (hs : WellFormed s) (hlt : id < s.counter) (hwoken : (s.tasks id).state = .woken)
    (h : Takes s s') : (s'.tasks id).state = .woken ∨ s'.log = .pollBegan id :: s.log := by
  cases h with
  | spawn => exact .inl ((state_update_of_ne hlt.ne _ _).trans hwoken)
  | @handleWake target | @drainOne target => exact .inl (woken_markWoken hwoken target)
  | @poll _ w =>
    by_cases heq : w.taskReference = id
    · right
      rw [← heq]
    · exact .inl ((state_update_of_ne (Ne.symm heq) _ _).trans hwoken)
  | ready hphase | pending hphase =>
    have hne := hs.ne_polled hwoken (by rw [hphase]; rfl)
    exact .inl ((state_update_of_ne hne _ _).trans hwoken)
  | _ => exact .inl hwoken

theorem queued_takes (hwoken : (s.tasks id).state = .woken) (hqueued : Queued s id) (h : Takes s s') :
    Queued s' id ∨ s'.log = .pollBegan id :: s.log := by
  cases h with
  | spawn | drainOne => exact .inl (hqueued.mono fun w hw => List.mem_cons_of_mem _ hw)
  | cleanUp _ _ hpop hstate =>
    exact .inl (queued_of_pop hpop (fun h => absurd ((h ▸ hstate).symm.trans hwoken) nofun) hqueued)
  | @poll _ w _ _ _ _ hpop =>
    by_cases heq : w.taskReference = id
    · right
      rw [← heq]
    · exact .inl (queued_of_pop hpop heq hqueued)
  | skip _ _ hpop hstate => exact .inl (queued_of_pop hpop (fun h => hstate (h ▸ hwoken)) hqueued)
  | _ => exact .inl hqueued

theorem wakeup_takes (hreg : id ∈ s.registry) (hmem : id ∈ s.wakeupQueue) (h : Takes s s') : Present s' id := by
  cases h with
  | wake woken => exact .inl (mem_enqueueTaskWakeup.mpr (.inl hmem))
  | @drainOne target rest _ hcons =>
    rw [hcons] at hmem
    rcases List.mem_cons.mp hmem with rfl | hmem
    · exact .inr ⟨⟨_, List.mem_cons_self, rfl⟩, state_update_self _ _ _⟩
    · exact .inl hmem
  | drainStale _ hcons hstale =>
    rw [hcons] at hmem
    exact .inl ((List.mem_cons.mp hmem).resolve_left fun h => hstale (h ▸ hreg))
  | _ => exact .inl hmem

theorem Present.takes (hs : WellFormed s) (hreg : id ∈ s.registry) (hpresent : Present s id) (h : Takes s s') :
    Present s' id ∨ s'.log = .pollBegan id :: s.log := by
  rcases hpresent with hmem | ⟨hqueued, hwoken⟩
  · exact .inl (wakeup_takes hreg hmem h)
  · rcases woken_takes hs (hs.registered id hreg) hwoken h with hwoken' | hpoll
    · exact (queued_takes hwoken hqueued h).imp_left fun hqueued' => .inr ⟨hqueued', hwoken'⟩
    · exact .inr hpoll

theorem wokenSincePoll_takes (h : Takes s s') (hreg : id ∈ s'.registry) (hwoken : wokenSincePoll s'.log id = true) :
    (id ∈ s.registry ∧ wokenSincePoll s.log id = true) ∨ Present s' id := by
  cases h with
  | spawn =>
    rcases List.mem_cons.mp hreg with rfl | hreg
    · exact .inr (.inr ⟨⟨_, List.mem_cons_self, rfl⟩, state_update_self _ _ _⟩)
    · exact .inl ⟨hreg, hwoken⟩
  | wake woken =>
    rcases wokenSincePoll_wake hwoken with rfl | hwoken
    · exact .inr (.inl (mem_enqueueTaskWakeup.mpr (.inr rfl)))
    · exact .inl ⟨hreg, hwoken⟩
  | cleanUp | ready => exact .inl ⟨List.mem_of_mem_filter hreg, hwoken⟩
  | poll => exact .inl ⟨hreg, (wokenSincePoll_pollBegan hwoken).2⟩
  | _ => exact .inl ⟨hreg, hwoken⟩

theorem Attentive.takes (hs : Attentive s) (h : Takes s s') : Attentive s' := by
  refine ⟨hs.toWellFormed.takes h, fun id hreg' hwoken' => ?_⟩
  rcases wokenSincePoll_takes h hreg' hwoken' with ⟨hreg, hwoken⟩ | hpresent
  · refine ((hs.woken id hreg hwoken).takes hs.toWellFormed hreg h).resolve_right fun hpoll => ?_
    -- The poll answers the wakeup of its own task.
    rw [hpoll] at hwoken'
    exact (wokenSincePoll_pollBegan hwoken').1 rfl
  · exact hpresent

theorem Reachable.attentive {timeout : Nat} (hs : Reachable timeout s) : Attentive s := by
  obtain ⟨events, hrun⟩ := hs
  refine Machine.run_keeps (fun hs h => Attentive.takes hs (takes_of_step h)) hrun ?_
  exact ⟨wellFormed_new timeout, fun id hid => absurd hid List.not_mem_nil⟩

/-! ### Until the queues are empty -/

theorem log_takes (h : Takes s s') : ∃ a : Option Action, s'.log = a.toList ++ s.log := by
  cases h with
  | wake | poll | ready | pending => exact ⟨some _, rfl⟩
  | _ => exact ⟨none, rfl⟩

theorem log_run {t : Executor} {events : List Event} (hrun : Machine.run step s events = some t) :
    ∃ new, t.log = new ++ s.log := by
  refine Machine.run_keeps (I := fun t => ∃ new, t.log = new ++ s.log) ?_ hrun ⟨[], rfl⟩
  rintro t e t' ⟨new, hnew⟩ hstep
  obtain ⟨a, hlog⟩ := log_takes (takes_of_step hstep)
  exact ⟨a.toList ++ new, by rw [hlog, hnew, List.append_assoc]⟩

theorem wokenSincePoll_append {new log : List Action} (hpoll : .pollBegan id ∉ new)
    (hwoken : wokenSincePoll log id = true) : wokenSincePoll (new ++ log) id = true := by
  induction new with
  | nil => exact hwoken
  | cons a new ih =>
    obtain ⟨ha, hnew⟩ := not_or.mp fun h => hpoll (List.mem_cons.mpr h)
    have hrest := ih hnew
    cases a with
    | wake woken => simp [wokenSincePoll, hrest]
    | pollBegan polled =>
      have hne : polled ≠ id := fun h => ha (h ▸ rfl)
      simp [wokenSincePoll, hne, hrest]
    | pollReturned polled ready => exact hrest

/-- No wakeup delivered through a waker is lost: a registered task whose waker was invoked after its last poll
began is in the wakeup queue, or in the priority queue and woken; and when both queues are empty later on, it
has been polled again or has finished. -/
theorem wakeup_present {timeout : Nat} {s : Executor} (hs : Reachable timeout s) {id : TaskId}
    (hreg : id ∈ s.registry) (hwoken : wokenSincePoll s.log id = true) :
    (id ∈ s.wakeupQueue ∨ (∃ w ∈ s.queue, w.taskReference = id) ∧ (s.tasks id).state = .woken) ∧
      ∀ {events : List Event} {t : Executor}, Machine.run step s events = some t →
        t.wakeupQueue = [] → t.queue = [] →
        id ∉ t.registry ∨ ∃ new, t.log = new ++ s.log ∧ .pollBegan id ∈ new := by
  refine ⟨hs.attentive.woken id hreg hwoken, fun {events t} hrun hwakeups hqueue => ?_⟩
  by_contra hnot
  obtain ⟨htreg, hpoll⟩ := not_or.mp hnot
  obtain ⟨new, hnew⟩ := log_run hrun
  have hlate : wokenSincePoll t.log id = true := by
    rw [hnew]
    exact wokenSincePoll_append (fun h => hpoll ⟨new, hnew, h⟩) hwoken
  have ht : Reachable timeout t := by
    obtain ⟨before, hbefore⟩ := hs
    exact ⟨before ++ events, Machine.run_append.mpr ⟨s, hbefore, hrun⟩⟩
  rcases ht.attentive.woken id (not_not.mp htreg) hlate with hmem | ⟨⟨w, hw, -⟩, -⟩
  · exact List.not_mem_nil (hwakeups ▸ hmem)
  · exact List.not_mem_nil (hqueue ▸ hw)

def wakesItself : List Event := [.spawn, .beginTick, .drain, .processOneTask, .wake 1, .pollReturned false]

theorem wakeup_present_wakesItself :
    ∃ s, Machine.run step (.new 1000) wakesItself = some s ∧ (s.tasks 1).state = .pending ∧
      (1 ∈ s.wakeupQueue ∨ (∃ w ∈ s.queue, w.taskReference = 1) ∧ (s.tasks 1).state = .woken) := by
  have hrun : ∃ s, Machine.run step (.new 1000) wakesItself = some s ∧ (s.tasks 1).state = .pending ∧
      1 ∈ s.registry ∧ wokenSincePoll s.log 1 = true := ⟨_, rfl, by decide, by decide, by decide⟩
  obtain ⟨s, hrun, hstate, hreg, hwoken⟩ := hrun
  exact ⟨s, hrun, hstate, (wakeup_present ⟨wakesItself, hrun⟩ hreg hwoken).1⟩

end Sparreal.Async
