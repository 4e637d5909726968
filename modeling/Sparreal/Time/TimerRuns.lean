import Sparreal.Lib.Machine
import Sparreal.Time.Timer
import Mathlib.Data.List.Count

/-!
# Runs of the timers

The static `TIMER_MANAGER`, the hardware timer and the interrupt handler of `os/time/timer.rs` as a machine.
Each use of the manager under its lock is a step; `run_callbacks` runs without the lock, so each call of a
callback is a step of its own and anything may happen between two of them.

The manager does not look into the callbacks. The closure of a schedule call is named by the number of the
call, and the log says what became of it: it was `Scheduled`, `handle_irq` returned it, it ran, its timer was
cancelled. `Tracked` says that the maps of the manager are the log's pending timers.
-/

namespace Sparreal.Time

/-- The number of a schedule call, in place of the closure it passes. -/
abbrev Serial := Nat

/-- What a run is judged by. -/
inductive Action where
  | scheduled (serial : Serial) (handle : TimerHandle) (deadline : Nat)
  | cancelled (handle : TimerHandle) (answer : Bool)
  | returned (serial : Serial)
  | ran (serial : Serial) (tick : Nat)
  deriving DecidableEq, Repr

/-- The callback ran, at some tick. -/
def Action.isRun (n : Serial) : Action → Bool
  | .ran m _ => m = n
  | _ => false

/-- A cancel was refused or a callback ran: which timers are pending stays. -/
def Action.Passing : Action → Prop
  | .cancelled _ false => True
  | .ran _ _ => True
  | _ => False

/-- What happens, with the values read from the tick counter. `create` and `publish` are the two halves of
`init`. A `call` is the next round of `run_callbacks` in one of the handlers. -/
inductive Event where
  | create
  | publish
  | scheduleAfter (now now' delay : Nat)
  | scheduleAt (now deadline : Nat)
  | cancel (now : Nat) (handle : TimerHandle)
  | irq (now now' : Nat)
  | call (now handler : Nat)
  deriving DecidableEq, Repr

/-- The values read from the tick counter, in the order of the reads. -/
def Event.readings : Event → List Nat
  | .create => []
  | .publish => []
  | .scheduleAfter now now' _ => [now, now']
  | .scheduleAt now _ => [now]
  | .cancel now _ => [now]
  | .irq now now' => [now, now']
  | .call now _ => [now]

structure Timers where
  /-- `TIMER_MANAGER`. -/
  manager : Option (TimerManager Serial)
  /-- `TIMER_READY`. -/
  ready : Bool
  /-- What the hardware timer was programmed to last. -/
  programmed : Option Programming
  /-- The tick counter when it was read last. -/
  tick : Nat
  /-- The callbacks each `run_callbacks` has not called yet. -/
  handlers : List (List (TimerCallback Serial))
  serial : Serial
  /-- What has happened, the first action first. -/
  log : List Action

namespace Timers

def boot : Timers := ⟨none, false, none, 0, [], 0, []⟩

def current (s : Timers) : TimerManager Serial := s.manager.getD .new

/-- A manager function has returned. -/
def leave {R : Type} (s : Timers) (tick : Nat) (out : Outcome Serial R) : Timers :=
  { s with manager := some out.manager, programmed := out.programmed <|> s.programmed, tick := tick }

def schedule (s : Timers) (tick deadline : Nat) (out : Outcome Serial TimerHandle) : Timers :=
  { s.leave tick out with
    serial := s.serial + 1, log := s.log ++ [.scheduled s.serial out.result deadline] }

/-- The manager, as `one_shot_after` and `one_shot_at` get at it. -/
def readyManager (s : Timers) : Option (TimerManager Serial) := if s.ready then s.manager else none

def step (freq : Nat) (s : Timers) : Event → Option Timers
  | .create => some { s with manager := some s.current }
  | .publish => if s.manager.isSome then some { s with ready := true } else none
  | .scheduleAfter now now' delay =>
    match s.readyManager with
    | none => some { s with tick := now' }
    | some m =>
      (m.scheduleAfter freq now now' delay s.serial).map fun out =>
        match out.result with
        | .ok handle => s.schedule now' (now + delay) ⟨handle, out.manager, out.programmed⟩
        | .error _ => s.leave now' out
  | .scheduleAt now deadline =>
    match s.readyManager with
    | none => some { s with tick := now }
    | some m => (m.scheduleAt freq now deadline s.serial).map (s.schedule now deadline)
  | .cancel now handle =>
    match s.manager with
    | none => some { s with tick := now, log := s.log ++ [.cancelled handle false] }
    | some m =>
      let out := m.cancel freq now handle
      some { s.leave now out with log := s.log ++ [.cancelled handle out.result] }
  | .irq now now' =>
    match s.manager with
    | none => some { s with tick := now', handlers := s.handlers ++ [[]] }
    | some m =>
      let out := m.handleIrq freq now now'
      some { s.leave now' out with
        handlers := s.handlers ++ [out.result]
        log := s.log ++ (out.result.filterMap TimerCallback.opt).map .returned }
  | .call now i =>
    match s.handlers[i]? with
    | some (cb :: rest) =>
      some { s with
        tick := now
        handlers := s.handlers.set i rest
        log := s.log ++ (cb.call.1.toList.map fun n => .ran n now) }
    | _ => none

/-- A step with a tick counter that does not go back. -/
def forwardStep (freq : Nat) (s : Timers) (e : Event) : Option Timers :=
  if (s.tick :: e.readings).Pairwise (· ≤ ·) then s.step freq e else none

variable {freq : Nat} {s s' : Timers} {e : Event}

theorem step_of_forwardStep (h : s.forwardStep freq e = some s') :
    (s.tick :: e.readings).Pairwise (· ≤ ·) ∧ s.step freq e = some s' := by
  rw [forwardStep] at h
  split_ifs at h with hle
  exact ⟨hle, h⟩

/-! ### What the log says -/

def Scheduled (s : Timers) (n : Serial) (h : TimerHandle) (d : Nat) : Prop := .scheduled n h d ∈ s.log

/-- The timer has been scheduled, `handle_irq` has not returned its callback, no `cancel` has returned true
for it. -/
def Pending (s : Timers) (n : Serial) (h : TimerHandle) (d : Nat) : Prop :=
  s.Scheduled n h d ∧ .returned n ∉ s.log ∧ .cancelled h true ∉ s.log

def runs (s : Timers) (n : Serial) : Nat := s.log.countP (Action.isRun n)

def uncalled (s : Timers) (n : Serial) : Nat := s.handlers.flatten.count (intoCallback n)

/-! ### One step -/

/-- What one step can do. -/
inductive Takes (freq : Nat) (s : Timers) : Event → Timers → Prop where
  | idle {e : Event} {s' : Timers} (refused : List TimerHandle) (hcurrent : s'.current = s.current)
      (hprogrammed : s'.programmed = s.programmed) (hhandlers : s'.handlers.flatten = s.handlers.flatten)
      (hserial : s'.serial = s.serial) (hlog : s'.log = s.log ++ refused.map fun h => .cancelled h false)
      (htick : s'.tick = e.readings.getLastD s.tick) : Takes freq s e s'
  | scheduled {e : Event} {now deadline : Nat} {out : Outcome Serial TimerHandle}
      (hout : s.current.scheduleAtInternal freq now deadline s.serial = some out)
      (hnow : e.readings.getLastD s.tick = now) : Takes freq s e (s.schedule now deadline out)
  | cancelled {now d : Nat} {h : TimerHandle} (hsome : s.current.index.get h.id = some d) :
      Takes freq s (.cancel now h)
        { s.leave now (s.current.cancel freq now h) with log := s.log ++ [.cancelled h true] }
  | irq {now now' : Nat} : Takes freq s (.irq now now')
      { s.leave now' (s.current.handleIrq freq now now') with
        handlers := s.handlers ++ [(s.current.handleIrq freq now now').result]
        log := s.log ++ ((s.current.handleIrq freq now now').result.filterMap TimerCallback.opt).map .returned }
  | call {now i : Nat} {cb : TimerCallback Serial} {rest : List (TimerCallback Serial)}
      (hnext : s.handlers[i]? = some (cb :: rest)) : Takes freq s (.call now i)
      { s with
        tick := now
        handlers := s.handlers.set i rest
        log := s.log ++ (cb.opt.toList.map fun n => .ran n now) }

theorem current_of_some {m : TimerManager Serial} (h : s.manager = some m) : s.current = m := by
  rw [current, h, Option.getD_some]

theorem manager_of_ready {m : TimerManager Serial} (h : s.readyManager = some m) : s.manager = some m := by
  rw [readyManager] at h
  split_ifs at h
  exact h

theorem takes_of_step (h : s.step freq e = some s') : Takes freq s e s' := by
  cases e with
  | create =>
    obtain rfl := Option.some.inj h
    exact .idle [] rfl rfl rfl rfl (List.append_nil _).symm rfl
  | publish =>
    simp only [step] at h
    split_ifs at h
    obtain rfl := Option.some.inj h
    exact .idle [] rfl rfl rfl rfl (List.append_nil _).symm rfl
  | scheduleAfter now now' delay =>
    simp only [step] at h
    split at h
    · obtain rfl := Option.some.inj h
      exact .idle [] rfl rfl rfl rfl (List.append_nil _).symm rfl
    · next m hm =>
      have hmanager := manager_of_ready hm
      obtain ⟨out, hout, rfl⟩ := Option.map_eq_some_iff.mp h
      rcases TimerManager.scheduleAfter_cases hout with ⟨-, rfl⟩ | ⟨-, o, ho, rfl⟩
      · exact .idle [] (current_of_some hmanager).symm rfl rfl rfl (List.append_nil _).symm rfl
      · exact .scheduled (current_of_some hmanager ▸ ho) rfl
  | scheduleAt now deadline =>
    simp only [step] at h
    split at h
    · obtain rfl := Option.some.inj h
      exact .idle [] rfl rfl rfl rfl (List.append_nil _).symm rfl
    · next m hm =>
      obtain ⟨out, hout, rfl⟩ := Option.map_eq_some_iff.mp h
      exact .scheduled (current_of_some (manager_of_ready hm) ▸ hout) rfl
  | cancel now handle =>
    simp only [step] at h
    split at h
    · obtain rfl := Option.some.inj h
      exact .idle [handle] rfl rfl rfl rfl rfl rfl
    · next m hm =>
      obtain rfl := current_of_some hm
      obtain rfl := Option.some.inj h
      cases hget : s.current.index.get handle.id with
      | none =>
        obtain ⟨hresult, hprogrammed, hleft⟩ := TimerManager.cancel_of_none freq now hget
        refine .idle [handle] ?_ ?_ rfl rfl ?_ rfl
        · show (s.current.cancel freq now handle).manager = s.current
          rw [hleft, SortedMap.remove_of_none hget]
        · show ((s.current.cancel freq now handle).programmed <|> s.programmed) = s.programmed
          rw [hprogrammed]
          rfl
        · show s.log ++ [.cancelled handle (s.current.cancel freq now handle).result] = _
          rw [hresult]
          rfl
      | some d =>
        rw [(TimerManager.cancel_of_some freq now hget).1]
        exact .cancelled hget
  | irq now now' =>
    simp only [step] at h
    split at h
    · obtain rfl := Option.some.inj h
      exact .idle [] rfl rfl (by simp) rfl (List.append_nil _).symm rfl
    · next m hm =>
      obtain rfl := current_of_some hm
      obtain rfl := Option.some.inj h
      exact .irq
  | call now i =>
    simp only [step] at h
    split at h
    · next cb rest hnext =>
      obtain rfl := Option.some.inj h
      exact .call hnext
    · cases h

theorem consistent_takes (h : Takes freq s e s') (hs : s.current.Consistent) : s'.current.Consistent := by
  cases h with
  | idle _ hcurrent => exact hcurrent ▸ hs
  | scheduled hout =>
    obtain ⟨hfree, htimers, hindex, -⟩ := TimerManager.scheduleAtInternal_some hout
    exact hs.insert hfree htimers hindex
  | @cancelled now d h hsome =>
    have hleft := (TimerManager.cancel_of_some freq now hsome).2.1
    exact hs.remove hsome (congrArg TimerManager.timers hleft) (congrArg TimerManager.index hleft)
  | irq => exact (TimerManager.handleIrq_spec _ _ _ hs).2.2.2
  | call => exact hs

/-! ### The deadlines in the maps -/

/-- The deadlines in the maps are those in the log, whatever ids have come round again. -/
structure Dated (s : Timers) : Prop where
  consistent : s.current.Consistent
  dated : ∀ {key cb}, s.current.timers.get key = some cb →
    ∃ n h, cb = intoCallback n ∧ s.Scheduled n h key.deadline
  numbered : ∀ {n h d}, s.Scheduled n h d → n < s.serial
  deadline : ∀ {n h h' d d'}, s.Scheduled n h d → s.Scheduled n h' d' → d = d'

theorem dated_boot : boot.Dated := ⟨TimerManager.consistent_new, nofun, nofun, nofun⟩

theorem Dated.fewer (hs : s.Dated) (hcons : s'.current.Consistent)
    (htimers : ∀ {key cb}, s'.current.timers.get key = some cb → s.current.timers.get key = some cb)
    (hserial : s'.serial = s.serial) (hlog : ∀ {n h d}, s'.Scheduled n h d ↔ s.Scheduled n h d) : s'.Dated := by
  refine ⟨hcons, fun hget => ?_, fun hn => ?_, fun hn hn' => ?_⟩
  · simpa only [hlog] using hs.dated (htimers hget)
  · exact hserial ▸ hs.numbered (hlog.mp hn)
  · exact hs.deadline (hlog.mp hn) (hlog.mp hn')

theorem Dated.scheduled {now deadline : Nat} {out : Outcome Serial TimerHandle} (hs : s.Dated)
    (hout : s.current.scheduleAtInternal freq now deadline s.serial = some out) :
    (s.schedule now deadline out).Dated := by
  obtain ⟨hfree, htimers, hindex, -⟩ := TimerManager.scheduleAtInternal_some hout
  have hlog : ∀ {n h d}, (s.schedule now deadline out).Scheduled n h d ↔
      s.Scheduled n h d ∨ n = s.serial ∧ h = out.result ∧ d = deadline := by
    simp [Scheduled, schedule]
  refine ⟨hs.consistent.insert hfree htimers hindex, fun {key cb} hget => ?_, fun hn => ?_, fun hn hn' => ?_⟩
  · have hget' : (s.current.timers.insert ⟨deadline, out.result.id⟩ (intoCallback s.serial)).get key = some cb :=
      htimers ▸ hget
    rw [SortedMap.get_insert] at hget'
    split_ifs at hget' with hkey
    · exact ⟨s.serial, out.result, (Option.some.inj hget').symm, hlog.mpr (.inr ⟨rfl, rfl, by rw [hkey]⟩)⟩
    · obtain ⟨n, h, rfl, hn⟩ := hs.dated hget'
      exact ⟨n, h, rfl, hlog.mpr (.inl hn)⟩
  · show _ < s.serial + 1
    rcases hlog.mp hn with hn | ⟨rfl, -, -⟩
    · exact Nat.lt_succ_of_lt (hs.numbered hn)
    · exact Nat.lt_succ_self _
  · rcases hlog.mp hn with hn | ⟨rfl, -, rfl⟩ <;> rcases hlog.mp hn' with hn' | ⟨hser, -, hd⟩
    · exact hs.deadline hn hn'
    · exact absurd (hs.numbered hn) (hser ▸ lt_irrefl _)
    · exact absurd (hs.numbered hn') (lt_irrefl _)
    · exact hd.symm

theorem Dated.takes (hs : s.Dated) (h : Takes freq s e s') : s'.Dated := by
  have hcons := consistent_takes h hs.consistent
  cases h with
  | idle _ hcurrent _ _ hserial hlog =>
    exact hs.fewer hcons (fun hget => hcurrent ▸ hget) hserial (by simp [Scheduled, hlog])
  | scheduled hout => exact hs.scheduled hout
  | @cancelled now d h hsome =>
    refine hs.fewer hcons (fun {key cb} hget => ?_) rfl (by simp [Scheduled])
    have hleft : (s.current.cancel freq now h).manager.timers = (s.current.timers.remove ⟨d, h.id⟩).2 :=
      congrArg TimerManager.timers (TimerManager.cancel_of_some freq now hsome).2.1
    have hget' : (s.current.cancel freq now h).manager.timers.get key = some cb := hget
    rw [hleft, SortedMap.get_remove] at hget'
    split_ifs at hget'
    exact hget'
  | @irq now now' =>
    refine hs.fewer hcons (fun hget => ?_) rfl (by simp [Scheduled])
    obtain ⟨-, hleft, -, -⟩ := TimerManager.handleIrq_spec freq now now' hs.consistent
    have hmem := SortedMap.get_eq_some_iff.mp hget
    exact SortedMap.get_eq_some_iff.mpr (List.mem_filter.mp (hleft ▸ hmem)).1
  | call => exact hs.fewer hcons (fun hget => hget) rfl (by simp [Scheduled])

theorem scheduled_takes {n : Serial} {h : TimerHandle} {d : Nat} (hn : s.Scheduled n h d) (ht : Takes freq s e s') :
    s'.Scheduled n h d := by
  cases ht with
  | idle _ _ _ _ _ hlog =>
    show _ ∈ s'.log
    rw [hlog]
    exact List.mem_append_left _ hn
  | scheduled | cancelled | irq | call => exact List.mem_append_left _ hn

/-! ### The log and the maps -/

/-- The maps of the manager and the log tell the same story, as long as no id has come round again. -/
structure Tracked (s : Timers) : Prop where
  consistent : s.current.Consistent
  nextId : s.current.nextId = (s.serial + 1) % u64Range
  numbered : ∀ {n h d}, s.Scheduled n h d → n < s.serial ∧ h = ⟨n + 1⟩
  deadline : ∀ {n h h' d d'}, s.Scheduled n h d → s.Scheduled n h' d' → d = d'
  cancelled : ∀ {h}, .cancelled h true ∈ s.log → ∃ n d, s.Scheduled n h d
  returned : ∀ {n}, .returned n ∈ s.log → ∃ h d, s.Scheduled n h d ∧ .cancelled h true ∉ s.log
  timers : ∀ {key cb}, s.current.timers.get key = some cb ↔
    ∃ n, cb = intoCallback n ∧ s.Pending n ⟨key.id⟩ key.deadline
  calls : ∀ n, s.runs n + s.uncalled n = s.log.count (.returned n)
  once : ∀ n, s.log.count (.returned n) ≤ 1

theorem tracked_boot : boot.Tracked where
  consistent := TimerManager.consistent_new
  nextId := rfl
  numbered := nofun
  deadline := nofun
  cancelled := nofun
  returned := nofun
  timers := ⟨nofun, fun ⟨_, _, h, _⟩ => nomatch h⟩
  calls := fun _ => rfl
  once := fun _ => Nat.zero_le _

/-- The pending timers whose deadline has come, with their deadlines, in the order of the map. -/
def due (s : Timers) (now : Nat) : List (Serial × Nat) :=
  (s.current.timers.entries.filter (·.1.deadline ≤ now)).map fun e => (e.1.id - 1, e.1.deadline)

/-- Taking the first element of one of the lists takes it out of them all. -/
theorem perm_flatten_set {α : Type} {l : List (List α)} {i : Nat} {x : α} {xs : List α}
    (h : l[i]? = some (x :: xs)) : l.flatten.Perm (x :: (l.set i xs).flatten) := by
  induction l generalizing i with
  | nil => cases h
  | cons y l ih =>
    cases i with
    | zero =>
      obtain rfl := Option.some.inj h
      exact List.Perm.refl _
    | succ i =>
      have hperm := (ih h).append_left y
      exact hperm.trans List.perm_middle

namespace Tracked

variable (hs : s.Tracked)

include hs

theorem dated : s.Dated := by
  refine ⟨hs.consistent, fun hget => ?_, fun hn => (hs.numbered hn).1, hs.deadline⟩
  obtain ⟨n, hcb, hn⟩ := hs.timers.mp hget
  exact ⟨n, _, hcb, hn.1⟩

theorem passing {l : List Action} (hcurrent : s'.current = s.current) (hserial : s'.serial = s.serial)
    (hlog : s'.log = s.log ++ l) (hl : ∀ a ∈ l, a.Passing)
    (hcalls : ∀ n, s'.runs n + s'.uncalled n = s.runs n + s.uncalled n) : s'.Tracked := by
  have hmem : ∀ a : Action, ¬ a.Passing → (a ∈ s'.log ↔ a ∈ s.log) := by
    intro a ha
    rw [hlog, List.mem_append]
    exact or_iff_left fun h => ha (hl a h)
  have hscheduled : ∀ {n h d}, s'.Scheduled n h d ↔ s.Scheduled n h d := hmem _ not_false
  have hreturned : ∀ {n}, .returned n ∈ s'.log ↔ .returned n ∈ s.log := hmem _ not_false
  have hcancelled : ∀ {h}, .cancelled h true ∈ s'.log ↔ .cancelled h true ∈ s.log := hmem _ not_false
  have hcount : ∀ n, s'.log.count (.returned n) = s.log.count (.returned n) := by
    intro n
    have hzero : l.count (.returned n) = 0 := List.count_eq_zero.mpr fun h => hl _ h
    rw [hlog, List.count_append, hzero, Nat.add_zero]
  refine ⟨hcurrent ▸ hs.consistent, by rw [hcurrent, hserial, hs.nextId], ?_, ?_, ?_, ?_, ?_, ?_, ?_⟩
  · intro n h d hn
    exact hserial ▸ hs.numbered (hscheduled.mp hn)
  · intro n h h' d d' hn hn'
    exact hs.deadline (hscheduled.mp hn) (hscheduled.mp hn')
  · intro h hcan
    simpa only [hscheduled] using hs.cancelled (hcancelled.mp hcan)
  · intro n hret
    simpa only [hscheduled, hcancelled] using hs.returned (hreturned.mp hret)
  · intro key cb
    simpa only [Pending, hscheduled, hreturned, hcancelled, hcurrent] using hs.timers
  · intro n
    rw [hcount, hcalls, hs.calls]
  · intro n
    exact hcount n ▸ hs.once n

theorem idle {refused : List TimerHandle} (hcurrent : s'.current = s.current)
    (hhandlers : s'.handlers.flatten = s.handlers.flatten) (hserial : s'.serial = s.serial)
    (hlog : s'.log = s.log ++ refused.map fun h => .cancelled h false) : s'.Tracked := by
  refine hs.passing hcurrent hserial hlog ?_ fun n => ?_
  · intro a ha
    obtain ⟨h, -, rfl⟩ := List.mem_map.mp ha
    trivial
  · rw [runs, uncalled, hhandlers, hlog, List.countP_append]
    simp [runs, uncalled, List.countP_eq_zero, Action.isRun]

/-! The id of a new timer is its number. -/

theorem nextId_eq (hlt : s.serial + 1 < u64Range) : s.current.nextId = s.serial + 1 := by
  rw [hs.nextId, Nat.mod_eq_of_lt hlt]

variable {d : Nat} {h : TimerHandle}

theorem pending_of_index {id : Nat} (h : s.current.index.get id = some d) : ∃ n, s.Pending n ⟨id⟩ d := by
  obtain ⟨cb, hcb⟩ := SortedMap.contains_iff.mp ((hs.consistent d id).mpr h)
  obtain ⟨n, -, hn⟩ := hs.timers.mp hcb
  exact ⟨n, hn⟩

variable {n : Serial}

theorem index_of_pending (hn : s.Pending n h d) : s.current.index.get h.id = some d :=
  (hs.consistent d h.id).mp (SortedMap.contains_iff.mpr ⟨_, hs.timers.mpr ⟨n, rfl, hn⟩⟩)

/-! The number and the id of the next timer are new. -/

theorem not_scheduled : ¬ s.Scheduled n ⟨s.serial + 1⟩ d := by
  intro hn
  obtain ⟨hlt, heq⟩ := hs.numbered hn
  exact hlt.ne' (Nat.succ.inj (TimerHandle.mk.inj heq))

theorem index_free : s.current.index.get (s.serial + 1) = none := by
  by_contra hne
  obtain ⟨d, hd⟩ := Option.ne_none_iff_exists'.mp hne
  obtain ⟨n, hn⟩ := hs.pending_of_index hd
  exact hs.not_scheduled hn.1

theorem not_returned : .returned s.serial ∉ s.log := by
  intro hret
  obtain ⟨h, d, hn, -⟩ := hs.returned hret
  exact lt_irrefl _ (hs.numbered hn).1

theorem not_cancelled : .cancelled ⟨s.serial + 1⟩ true ∉ s.log := by
  intro hcan
  obtain ⟨n, d, hn⟩ := hs.cancelled hcan
  exact hs.not_scheduled hn

/-- A new timer is added to the log and to the maps. -/
theorem scheduled {now deadline : Nat} {out : Outcome Serial TimerHandle} (hlt : s.serial + 1 < u64Range)
    (hout : s.current.scheduleAtInternal freq now deadline s.serial = some out) :
    (s.schedule now deadline out).Tracked := by
  obtain ⟨-, htimers, -, -⟩ := TimerManager.scheduleAtInternal_some hout
  have hdated := hs.dated.scheduled hout
  have hnext := hs.nextId_eq hlt
  obtain ⟨out', hout', hid, hnext'⟩ :=
    TimerManager.scheduleAtInternal_of_free freq now deadline s.serial (hnext ▸ hs.index_free)
  obtain rfl := Option.some.inj (hout'.symm.trans hout)
  rw [hnext] at hid hnext'
  rw [hid] at htimers
  have hscheduled : ∀ {n h d}, (s.schedule now deadline out').Scheduled n h d ↔
      s.Scheduled n h d ∨ n = s.serial ∧ h = ⟨s.serial + 1⟩ ∧ d = deadline := by
    intro n h d
    simp [Scheduled, schedule, hid]
  have hreturned : ∀ {n}, .returned n ∈ (s.schedule now deadline out').log ↔ .returned n ∈ s.log := by
    simp [schedule]
  have hcancelled : ∀ {h},
      .cancelled h true ∈ (s.schedule now deadline out').log ↔ .cancelled h true ∈ s.log := by
    simp [schedule]
  have hpending : ∀ {n h d}, (s.schedule now deadline out').Pending n h d ↔
      s.Pending n h d ∨ n = s.serial ∧ h = ⟨s.serial + 1⟩ ∧ d = deadline := by
    intro n h d
    rw [Pending, hscheduled, hreturned, hcancelled]
    refine ⟨fun ⟨hn, hrest⟩ => hn.imp_left fun hn => ⟨hn, hrest⟩, ?_⟩
    rintro (⟨hn, hrest⟩ | ⟨rfl, rfl, rfl⟩)
    · exact ⟨.inl hn, hrest⟩
    · exact ⟨.inr ⟨rfl, rfl, rfl⟩, hs.not_returned, hs.not_cancelled⟩
  refine ⟨hdated.consistent, hnext', ?_, hdated.deadline, ?_, ?_, ?_, ?_, ?_⟩
  · intro n h d hn
    refine ⟨hdated.numbered hn, ?_⟩
    rcases hscheduled.mp hn with hn | ⟨rfl, rfl, rfl⟩
    · exact (hs.numbered hn).2
    · rfl
  · intro h hcan
    obtain ⟨n, d, hn⟩ := hs.cancelled (hcancelled.mp hcan)
    exact ⟨n, d, hscheduled.mpr (.inl hn)⟩
  · intro n hret
    obtain ⟨h, d, hn, hcan⟩ := hs.returned (hreturned.mp hret)
    exact ⟨h, d, hscheduled.mpr (.inl hn), fun hh => hcan (hcancelled.mp hh)⟩
  · intro key cb
    show out'.manager.timers.get key = some cb ↔ _
    simp only [hpending, htimers, SortedMap.get_insert]
    split_ifs with hkey
    · subst hkey
      constructor
      · intro hcb
        exact ⟨s.serial, (Option.some.inj hcb).symm, .inr ⟨rfl, rfl, rfl⟩⟩
      · rintro ⟨n, rfl, hn | ⟨rfl, -, -⟩⟩
        · exact absurd (hs.index_of_pending hn) (by rw [hs.index_free]; nofun)
        · rfl
    · rw [hs.timers]
      refine exists_congr fun n => and_congr_right fun _ => ⟨.inl, fun h => h.resolve_right ?_⟩
      rintro ⟨-, hh, hd⟩
      obtain ⟨kd, ki⟩ := key
      exact hkey (by rw [TimerKey.mk.injEq]; exact ⟨hd, TimerHandle.mk.inj hh⟩)
  · intro n
    have hcalls := hs.calls n
    simpa [runs, uncalled, schedule, leave, List.count_append, List.countP_append, Action.isRun] using hcalls
  · intro n
    simpa [schedule, List.count_append] using hs.once n

theorem handle_inj {n n' : Serial} {d' : Nat} (hn : s.Scheduled n h d) (hn' : s.Scheduled n' h d') : n = n' :=
  Nat.succ.inj (TimerHandle.mk.inj ((hs.numbered hn).2.symm.trans (hs.numbered hn').2))

theorem cancel {now : Nat} (hsome : s.current.index.get h.id = some d) :
    Tracked { s.leave now (s.current.cancel freq now h) with log := s.log ++ [.cancelled h true] } := by
  obtain ⟨-, hleft, -⟩ := TimerManager.cancel_of_some freq now hsome
  obtain ⟨n₀, hn₀⟩ := hs.pending_of_index hsome
  set s' : Timers := { s.leave now (s.current.cancel freq now h) with log := s.log ++ [.cancelled h true] }
    with hs'
  have hscheduled : ∀ {n h' d'}, s'.Scheduled n h' d' ↔ s.Scheduled n h' d' := by
    simp [Scheduled, hs']
  have hreturned : ∀ {n}, .returned n ∈ s'.log ↔ .returned n ∈ s.log := by
    simp [hs']
  have hcancelled : ∀ {h'}, .cancelled h' true ∈ s'.log ↔ .cancelled h' true ∈ s.log ∨ h' = h := by
    simp [hs']
  have hpending : ∀ {n h' d'}, s'.Pending n h' d' ↔ s.Pending n h' d' ∧ h' ≠ h := by
    intro n h' d'
    rw [Pending, Pending, hscheduled, hreturned, hcancelled, not_or, and_assoc, and_assoc]
  refine ⟨?_, ?_, ?_, ?_, ?_, ?_, ?_, ?_, ?_⟩
  · exact hs.consistent.remove hsome (congrArg TimerManager.timers hleft) (congrArg TimerManager.index hleft)
  · exact (congrArg TimerManager.nextId hleft).trans hs.nextId
  · intro n h' d' hn
    exact hs.numbered (hscheduled.mp hn)
  · intro n h₁ h₂ d₁ d₂ hn hn'
    exact hs.deadline (hscheduled.mp hn) (hscheduled.mp hn')
  · intro h' hcan
    simp only [hscheduled]
    rcases hcancelled.mp hcan with hcan | rfl
    · exact hs.cancelled hcan
    · exact ⟨n₀, d, hn₀.1⟩
  · intro n hret
    obtain ⟨h', d', hn, hcan⟩ := hs.returned (hreturned.mp hret)
    refine ⟨h', d', hscheduled.mpr hn, fun hcan' => (hcancelled.mp hcan').elim hcan ?_⟩
    rintro rfl
    exact hn₀.2.1 (hs.handle_inj hn hn₀.1 ▸ hreturned.mp hret)
  · intro key cb
    show (s.current.cancel freq now h).manager.timers.get key = some cb ↔ _
    rw [hleft]
    simp only [hpending, SortedMap.get_remove]
    split_ifs with hkey
    · refine ⟨nofun, ?_⟩
      rintro ⟨n, -, -, hne⟩
      exact absurd (by rw [hkey]) hne
    · rw [hs.timers]
      refine exists_congr fun n => and_congr_right fun _ => (and_iff_left_of_imp fun hn heq => hkey ?_).symm
      have hindex := hs.index_of_pending hn
      rw [heq, hsome] at hindex
      obtain ⟨kd, ki⟩ := key
      rw [TimerKey.mk.injEq]
      exact ⟨(Option.some.inj hindex).symm, congrArg TimerHandle.id heq⟩
  · intro n
    have hcalls := hs.calls n
    simpa [runs, uncalled, hs', leave, List.count_append, List.countP_append, Action.isRun] using hcalls
  · intro n
    simpa [hs', List.count_append] using hs.once n

theorem entry {e : TimerKey × TimerCallback Serial} (he : e ∈ s.current.timers.entries) :
    e.2 = intoCallback (e.1.id - 1) ∧ s.Pending (e.1.id - 1) ⟨e.1.id⟩ e.1.deadline := by
  obtain ⟨n, hcb, hn⟩ := hs.timers.mp (SortedMap.get_eq_some_iff.mpr he)
  have hid : e.1.id = n + 1 := TimerHandle.mk.inj (hs.numbered hn.1).2
  rw [hid, Nat.add_sub_cancel]
  exact ⟨hcb, hid ▸ hn⟩

theorem handleIrq_result (freq now now' : Nat) :
    (s.current.handleIrq freq now now').result = (s.due now).map fun p => intoCallback p.1 := by
  rw [(TimerManager.handleIrq_spec freq now now' hs.consistent).1, due, List.map_map]
  refine List.map_congr_left fun e he => ?_
  exact (hs.entry (List.mem_filter.mp he).1).1

theorem mem_due {now : Nat} : (n, d) ∈ s.due now ↔ (∃ h, s.Pending n h d) ∧ d ≤ now := by
  simp only [due, List.mem_map, List.mem_filter, decide_eq_true_eq, Prod.mk.injEq]
  constructor
  · rintro ⟨e, ⟨he, hle⟩, rfl, rfl⟩
    exact ⟨⟨_, (hs.entry he).2⟩, hle⟩
  · rintro ⟨⟨h, hn⟩, hle⟩
    have hid : h.id = n + 1 := congrArg TimerHandle.id (hs.numbered hn.1).2
    have hget : s.current.timers.get ⟨d, h.id⟩ = some (intoCallback n) := hs.timers.mpr ⟨n, rfl, hn⟩
    exact ⟨_, ⟨SortedMap.get_eq_some_iff.mp hget, hle⟩, by simp [hid], rfl⟩

/-- They are in the order of their deadlines, and of their schedule calls where the deadlines are equal. -/
theorem due_sorted (now : Nat) : (s.due now).Pairwise fun a b => a.2 < b.2 ∨ a.2 = b.2 ∧ a.1 < b.1 := by
  refine List.pairwise_map.mpr (List.Pairwise.imp_of_mem ?_ (s.current.timers.sorted.filter _))
  intro e e' he _ hlt
  have hid : e.1.id = e.1.id - 1 + 1 :=
    TimerHandle.mk.inj (hs.numbered (hs.entry (List.mem_filter.mp he).1).2.1).2
  exact (TimerKey.lt_iff.mp hlt).imp_right fun h => ⟨h.1, Nat.sub_lt_sub_right (hid ▸ Nat.succ_pos _) h.2⟩

theorem due_nodup (now : Nat) : ((s.due now).map Prod.fst).Nodup := by
  refine List.pairwise_map.mpr (List.Pairwise.imp_of_mem ?_ (hs.due_sorted now))
  rintro ⟨n, d⟩ ⟨n', d'⟩ hn hn' hlt (rfl : n = n')
  obtain ⟨⟨h, hp⟩, -⟩ := hs.mem_due.mp hn
  obtain ⟨⟨h', hp'⟩, -⟩ := hs.mem_due.mp hn'
  rcases hlt with hlt | ⟨-, hlt⟩
  · exact hlt.ne (hs.deadline hp.1 hp'.1)
  · exact lt_irrefl _ hlt

theorem count_result (freq now now' : Nat) (n : Serial) :
    (s.current.handleIrq freq now now').result.count (intoCallback n) =
      ((s.due now).map Prod.fst).count n := by
  have hresult : (s.current.handleIrq freq now now').result = ((s.due now).map Prod.fst).map intoCallback := by
    rw [hs.handleIrq_result, List.map_map]
    rfl
  rw [hresult, List.count_map_of_injective _ _ intoCallback_injective]

theorem due_once (now : Nat) (n : Serial) : s.log.count (.returned n) + ((s.due now).map Prod.fst).count n ≤ 1 := by
  have honce := hs.once n
  have hnodup := List.nodup_iff_count_le_one.mp (hs.due_nodup now) n
  by_cases hmem : n ∈ (s.due now).map Prod.fst
  · obtain ⟨⟨_, d⟩, hd, rfl⟩ := List.mem_map.mp hmem
    obtain ⟨⟨h, hp⟩, -⟩ := hs.mem_due.mp hd
    rw [List.count_eq_zero.mpr hp.2.1]
    omega
  · rw [List.count_eq_zero.mpr hmem]
    exact honce

theorem pending_returned {now : Nat}
    (hlog : s'.log = s.log ++ ((s.due now).map Prod.fst).map .returned) :
    s'.Pending n h d ↔ s.Pending n h d ∧ now < d := by
  have hreturned : .returned n ∈ s'.log ↔ .returned n ∈ s.log ∨ ∃ d, (n, d) ∈ s.due now := by
    simp [hlog]
  have hpending : s'.Pending n h d ↔ s.Scheduled n h d ∧ .returned n ∉ s'.log ∧ .cancelled h true ∉ s.log := by
    simp [Pending, Scheduled, hlog]
  rw [hpending, hreturned]
  constructor
  · rintro ⟨hn, hret, hcan⟩
    have hp : s.Pending n h d := ⟨hn, fun hr => hret (.inl hr), hcan⟩
    exact ⟨hp, Nat.lt_of_not_le fun hle => hret (.inr ⟨d, hs.mem_due.mpr ⟨⟨h, hp⟩, hle⟩⟩)⟩
  · rintro ⟨hp, hlt⟩
    refine ⟨hp.1, fun hret => ?_, hp.2.2⟩
    rcases hret with hret | ⟨d', hd'⟩
    · exact hp.2.1 hret
    · obtain ⟨⟨h', hp'⟩, hle⟩ := hs.mem_due.mp hd'
      rw [hs.deadline hp'.1 hp.1] at hle
      omega

/-- The callbacks `handle_irq` returns leave the maps for a handler. -/
theorem irq {now now' : Nat} :
    Tracked { s.leave now' (s.current.handleIrq freq now now') with
      handlers := s.handlers ++ [(s.current.handleIrq freq now now').result]
      log := s.log ++
        ((s.current.handleIrq freq now now').result.filterMap TimerCallback.opt).map .returned } := by
  obtain ⟨-, hleft, hnext, hcons⟩ := TimerManager.handleIrq_spec freq now now' hs.consistent
  have hopt : (s.current.handleIrq freq now now').result.filterMap TimerCallback.opt =
      (s.due now).map Prod.fst := by
    rw [hs.handleIrq_result, List.filterMap_map]
    exact congrFun List.filterMap_eq_map (s.due now)
  rw [hopt]
  set s' : Timers := { s.leave now' (s.current.handleIrq freq now now') with
    handlers := s.handlers ++ [(s.current.handleIrq freq now now').result]
    log := s.log ++ ((s.due now).map Prod.fst).map .returned } with hs'
  have hscheduled : ∀ {n h d}, s'.Scheduled n h d ↔ s.Scheduled n h d := by
    simp [Scheduled, hs']
  have hcancelled : ∀ {h}, .cancelled h true ∈ s'.log ↔ .cancelled h true ∈ s.log := by
    simp [hs']
  have hreturned : ∀ {n}, .returned n ∈ s'.log ↔ .returned n ∈ s.log ∨ ∃ d, (n, d) ∈ s.due now := by
    simp [hs']
  have hpending : ∀ {n h d}, s'.Pending n h d ↔ s.Pending n h d ∧ now < d := hs.pending_returned rfl
  have hcount : ∀ n, s'.log.count (.returned n) =
      s.log.count (.returned n) + ((s.due now).map Prod.fst).count n := by
    intro n
    rw [show s'.log = _ from rfl, List.count_append,
      List.count_map_of_injective _ _ fun _ _ h => Action.returned.inj h]
  refine ⟨hcons, hnext.trans hs.nextId, ?_, ?_, ?_, ?_, ?_, ?_, ?_⟩
  · intro n h d hn
    exact hs.numbered (hscheduled.mp hn)
  · intro n h h' d d' hn hn'
    exact hs.deadline (hscheduled.mp hn) (hscheduled.mp hn')
  · intro h hcan
    simpa only [hscheduled] using hs.cancelled (hcancelled.mp hcan)
  · intro n hret
    simp only [hscheduled, hcancelled]
    rcases hreturned.mp hret with hret | ⟨d, hd⟩
    · exact hs.returned hret
    · obtain ⟨⟨h, hp⟩, -⟩ := hs.mem_due.mp hd
      exact ⟨h, d, hp.1, hp.2.2⟩
  · intro key cb
    have hget : s'.current.timers.get key = some cb ↔
        s.current.timers.get key = some cb ∧ now < key.deadline := by
      rw [SortedMap.get_eq_some_iff, SortedMap.get_eq_some_iff]
      show (key, cb) ∈ (s.current.handleIrq freq now now').manager.timers.entries ↔ _
      rw [hleft, List.mem_filter, decide_eq_true_eq]
    rw [hget, hs.timers]
    simp only [hpending]
    constructor
    · rintro ⟨⟨n, hcb, hn⟩, hlt⟩
      exact ⟨n, hcb, hn, hlt⟩
    · rintro ⟨n, hcb, hn, hlt⟩
      exact ⟨⟨n, hcb, hn⟩, hlt⟩
  · intro n
    have hcalls := hs.calls n
    have huncalled : s'.uncalled n = s.uncalled n + ((s.due now).map Prod.fst).count n := by
      rw [uncalled, show s'.handlers = _ from rfl, List.flatten_append, List.flatten_singleton,
        List.count_append, hs.count_result]
      rfl
    have hruns : s'.runs n = s.runs n := by
      rw [runs, show s'.log = _ from rfl, List.countP_append]
      simp [runs, List.countP_eq_zero, Action.isRun]
    rw [hcount, hruns, huncalled]
    omega
  · intro n
    exact hcount n ▸ hs.due_once now n

theorem call {now i : Nat} {cb : TimerCallback Serial} {rest : List (TimerCallback Serial)}
    (hnext : s.handlers[i]? = some (cb :: rest)) :
    Tracked { s with
      tick := now
      handlers := s.handlers.set i rest
      log := s.log ++ (cb.opt.toList.map fun n => .ran n now) } := by
  refine hs.passing rfl rfl rfl ?_ fun n => ?_
  · intro a ha
    obtain ⟨n, -, rfl⟩ := List.mem_map.mp ha
    trivial
  · have huncalled : s.uncalled n =
        (s.handlers.set i rest).flatten.count (intoCallback n) + if cb = intoCallback n then 1 else 0 := by
      rw [uncalled, (perm_flatten_set hnext).count_eq (intoCallback n), List.count_cons]
      simp only [beq_iff_eq]
    have hruns : (cb.opt.toList.map fun n => Action.ran n now).countP (Action.isRun n) =
        if cb = intoCallback n then 1 else 0 := by
      obtain ⟨_ | m⟩ := cb
      · simp [intoCallback]
      · simp [intoCallback, Action.isRun, List.countP_cons]
    show (s.log ++ _).countP _ + (s.handlers.set i rest).flatten.count _ = s.log.countP _ + s.uncalled n
    rw [List.countP_append, hruns, huncalled]
    omega

end Tracked

/-! ### Runs -/

theorem serial_le (h : Takes freq s e s') : s.serial ≤ s'.serial := by
  cases h with
  | idle _ _ _ _ hserial => exact hserial.ge
  | scheduled => exact Nat.le_succ _
  | cancelled | irq | call => exact le_rfl

theorem Tracked.takes (hs : s.Tracked) (h : Takes freq s e s') (hlt : s'.serial < u64Range) : s'.Tracked := by
  cases h with
  | idle _ hcurrent _ hhandlers hserial hlog => exact hs.idle hcurrent hhandlers hserial hlog
  | scheduled hout => exact hs.scheduled hlt hout
  | cancelled hsome => exact hs.cancel hsome
  | irq => exact hs.irq
  | call hnext => exact hs.call hnext

/-- The maps and the log agree after every run with fewer schedule calls than ids. -/
theorem tracked_run {es : List Event} (hrun : Machine.run (step freq) boot es = some s)
    (hlt : s.serial < u64Range) : s.Tracked := by
  refine Machine.run_keeps (I := fun s => s.serial < u64Range → s.Tracked) ?_ hrun (fun _ => tracked_boot) hlt
  intro s e s' hs hstep hlt'
  have htakes := takes_of_step hstep
  exact (hs ((serial_le htakes).trans_lt hlt')).takes htakes hlt'

end Timers

end Sparreal.Time
