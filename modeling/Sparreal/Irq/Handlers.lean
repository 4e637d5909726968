import Sparreal.Lib.Locks
import Sparreal.Time.Clock

/-!
# Interrupt handlers

`handle_irq` of `os/irq/mod.rs` looks a handler up in `IRQ_VEC` and runs it with the lock of `IRQ_VEC` held. The
handler of the timer interrupt (`systimer_irq_handler` of `os/time/timer.rs`) takes the expired callbacks out under
the lock of `TIMER_MANAGER` and runs them when it has released that lock.

The code of handlers and callbacks is a tree of the calls it makes (`Code`). What such code does from inside of
`handle_irq` is compared with what it does when no lock is held: it is the same up to the first call of
`register_handler`, which comes to the lock of `IRQ_VEC` again (`handler_may_use_api_iff`).
-/

namespace Sparreal.Irq

open Locks (withLock read write update)
open Time (Duration TimerError TimerHandle TimerManager TimerCallback Outcome Programming TimeListEntry)

abbrev IrqId := Nat

/-- The code of a handler or of a callback, as far as it calls the interrupt and the timer API. -/
inductive Code where
  | done
  | registerHandler (irq : IrqId) (handler : Code) (next : Code)
  | oneShotAfter (delay : Duration) (callback : Code) (next : Except TimerError TimerHandle → Code)
  | oneShotAt (deadline : Duration) (callback : Code) (next : Except TimerError TimerHandle → Code)
  | cancel (handle : TimerHandle) (next : Bool → Code)
  | timeList (next : List TimeListEntry → Code)

/-- What can be registered. -/
inductive Handler where
  /-- `systimer_irq_handler`. -/
  | systimer
  | code (c : Code)

inductive IrqLock where
  | irqVec
  | timerManager
  deriving DecidableEq, Repr

/-- The handlers, the timers and the hardware. -/
structure Irqs where
  /-- `IRQ_VEC`. -/
  handlers : IrqId → Option Handler
  /-- `TIMER_MANAGER`. -/
  manager : Option (TimerManager Code)
  /-- `TIMER_READY`. -/
  ready : Bool
  /-- `systick_frequency`. -/
  freq : Nat
  /-- What the reads of the tick counter will return. -/
  clock : Nat → Nat
  /-- What the hardware timer was programmed to last. -/
  programmed : Option Programming
  /-- The calls of `irq_set_enabled`, the last first. -/
  enabled : List (IrqId × Bool)

abbrev Cpu := Locks.Cpu IrqLock Irqs

/-- A function of the interrupt or the timer API. -/
abbrev Api (α : Type) := Locks.Run IrqLock Irqs α

namespace Api

def registerHandler (irq : IrqId) (handler : Handler) : Api Unit := do
  withLock .irqVec (write fun d => { d with handlers := Function.update d.handlers irq (some handler) })
  write fun d => { d with enabled := (irq, true) :: d.enabled }

def ticks : Api Nat := update fun d => (d.clock 0, { d with clock := fun n => d.clock (n + 1) })

/-- `guard.as_ref().map(f)` and `guard.as_mut().map(f)`. -/
def mapManager {R : Type} (f : TimerManager Code → Api R) : Api (Option R) := do
  match ← read Irqs.manager with
  | none => return none
  | some m =>
    let result ← f m
    return some result

def withManager {R : Type} (f : TimerManager Code → Api R) : Api (Option R) :=
  withLock .timerManager (mapManager f)

/-- A function of the manager, with the frequency and two reads of the tick counter. One that does not return is
stuck. -/
def useManager {R : Type} (f : Nat → Nat → Nat → TimerManager Code → Option (Outcome Code R))
    (m : TimerManager Code) : Api R := do
  let now ← ticks
  let now' ← ticks
  match f (← read Irqs.freq) now now' m with
  | none => Exec.throw .stuck
  | some out =>
    write fun d => { d with manager := some out.manager, programmed := out.programmed <|> d.programmed }
    return out.result

def withManagerMut {R : Type} (f : Nat → Nat → Nat → TimerManager Code → Option (Outcome Code R)) : Api (Option R) :=
  withLock .timerManager (mapManager (useManager f))

def oneShotAfter (delay : Duration) (callback : Code) : Api (Except TimerError TimerHandle) := do
  let ready ← read Irqs.ready
  if ready then
    let ticks ← read fun d => Time.durationToTicks d.freq delay
    let result ← withManagerMut fun freq now now' m => m.scheduleAfter freq now now' ticks callback
    return result.getD (.error .notReady)
  else return .error .notReady

def oneShotAt (deadline : Duration) (callback : Code) : Api (Except TimerError TimerHandle) := do
  let ready ← read Irqs.ready
  if ready then
    let ticks ← read fun d => Time.durationToTicks d.freq deadline
    let result ← withManagerMut fun freq now _ m => m.scheduleAt freq now ticks callback
    return result.elim (.error .notReady) .ok
  else return .error .notReady

def cancel (handle : TimerHandle) : Api Bool := do
  let result ← withManagerMut fun freq now _ m => some (m.cancel freq now handle)
  return result.getD false

/-- `TimerManager::snapshot`, with its read of the tick counter. -/
def snapshot (m : TimerManager Code) : Api (List TimeListEntry) := do
  let now ← ticks
  return m.snapshot now

def timeList : Api (List TimeListEntry) := do
  let list ← withManager snapshot
  return list.getD []

end Api

def Code.run : Code → Api Unit
  | .done => pure ()
  | .registerHandler irq handler next => do
    Api.registerHandler irq (.code handler)
    next.run
  | .oneShotAfter delay callback next => do
    let result ← Api.oneShotAfter delay callback
    (next result).run
  | .oneShotAt deadline callback next => do
    let result ← Api.oneShotAt deadline callback
    (next result).run
  | .cancel handle next => do
    let result ← Api.cancel handle
    (next result).run
  | .timeList next => do
    let list ← Api.timeList
    (next list).run

namespace Api

/-- A call of a callback in `run_callbacks`. -/
def runCallback (cb : TimerCallback Code) : Api Unit :=
  match cb.call.1 with
  | some code => code.run
  | none => pure ()

def runCallbacks (callbacks : List (TimerCallback Code)) : Api Unit := callbacks.forM runCallback

def systimerIrqHandler : Api Unit := do
  let callbacks ← withManagerMut fun freq now now' m => some (m.handleIrq freq now now')
  runCallbacks (callbacks.getD [])

end Api

def Handler.run : Handler → Api Unit
  | .systimer => Api.systimerIrqHandler
  | .code c => c.run

/-- What `handle_irq` does with the lock of `IRQ_VEC`. -/
def Api.dispatch (irq : IrqId) : Api Unit := do
  match ← read fun d => d.handlers irq with
  | some handler => handler.run
  | none => pure ()

def Api.handleIrq (irq : IrqId) : Api Unit := withLock .irqVec (Api.dispatch irq)

/-- How often `irq_set_enabled` has been called. -/
def Irqs.count (d : Irqs) : Nat := d.enabled.length

/-- The handler of the interrupt, or a callback that it runs, calls `register_handler` if no lock keeps it from doing
so. That is the only function that calls `irq_set_enabled`. -/
def Irqs.Registers (d : Irqs) (irq : IrqId) : Prop := d.count < (Api.dispatch irq ⟨[], d⟩).2.data.count

/-! ### The calls of `irq_set_enabled` -/

section

variable {α β : Type} {x : Api α} {f : α → Api β}

/-- How a function may go on, whichever of the two locks are held around it: it returns or is stuck, in any case
without a registration, or it comes to a registration. -/
inductive Way (x : Api α) (d : Irqs) : Prop
  | returns (a : α) (d' : Irqs) : d'.count = d.count →
      (∀ held, .timerManager ∉ held → x ⟨held, d⟩ = (.ok a, ⟨held, d'⟩)) → Way x d
  | stuck : (∀ held, .timerManager ∉ held → ∃ s, x ⟨held, d⟩ = (.error .stuck, s) ∧ s.data.count = d.count) →
      Way x d
  | registers : (∀ held, .timerManager ∉ held → .irqVec ∈ held →
        ∃ s, x ⟨held, d⟩ = (.error (.reentered .irqVec), s)) →
      (∀ held, .timerManager ∉ held → .irqVec ∉ held →
        d.count < (x ⟨held, d⟩).2.data.count) → Way x d

theorem Way.bind {d : Irqs} (hx : Way x d) (hf : ∀ a d', Way (f a) d')
    (hrises : ∀ a, Locks.Rises Irqs.count (f a)) : Way (x >>= f) d := by
  cases hx with
  | returns a d' hsame hrun =>
    have hbind (held : List IrqLock) (hheld : .timerManager ∉ held) : (x >>= f) ⟨held, d⟩ = f a ⟨held, d'⟩ :=
      Exec.bind_apply_ok (hrun held hheld)
    cases hf a d' with
    | returns b d'' hsame' hrun' =>
      exact .returns b d'' (hsame'.trans hsame) fun held hheld => (hbind held hheld).trans (hrun' held hheld)
    | stuck hstuck =>
      refine .stuck fun held hheld => ?_
      obtain ⟨s, hs, hsame'⟩ := hstuck held hheld
      exact ⟨s, (hbind held hheld).trans hs, hsame'.trans hsame⟩
    | registers hreenters hlonger =>
      refine .registers (fun held hheld hirq => ?_) fun held hheld hirq => ?_
      · rw [hbind held hheld]
        exact hreenters held hheld hirq
      · rw [hbind held hheld, ← hsame]
        exact hlonger held hheld hirq
  | stuck hstuck =>
    refine .stuck fun held hheld => ?_
    obtain ⟨s, hs, hsame⟩ := hstuck held hheld
    exact ⟨s, by rw [Exec.bind_apply, hs], hsame⟩
  | registers hreenters hlonger =>
    refine .registers (fun held hheld hirq => ?_) fun held hheld hirq => ?_
    · obtain ⟨s, hs⟩ := hreenters held hheld hirq
      exact ⟨s, by rw [Exec.bind_apply, hs]⟩
    · -- what comes after the registration takes nothing back
      have hlt := hlonger held hheld hirq
      rw [Exec.bind_apply]
      rcases hx : x ⟨held, d⟩ with ⟨e | a, s⟩
      · rwa [hx] at hlt
      · rw [hx] at hlt
        exact hlt.trans_le (hrises a s)

/-- A function that never takes a call of `irq_set_enabled` back and goes one of the three ways. -/
structure Tame (x : Api α) : Prop where
  rises : Locks.Rises Irqs.count x
  way : ∀ d, Way x d

theorem Tame.bind (hx : Tame x) (hf : ∀ a, Tame (f a)) : Tame (x >>= f) :=
  ⟨hx.rises.bind fun a => (hf a).rises, fun d => (hx.way d).bind (fun a => (hf a).way) fun a => (hf a).rises⟩

/-! ### The timer API -/

/-- A function that takes no locks and registers nothing. -/
def Plain (x : Api α) : Prop :=
  ∀ d, ∃ r d', d'.count = d.count ∧ (∀ l, r ≠ .error (.reentered l)) ∧ ∀ held, x ⟨held, d⟩ = (r, ⟨held, d'⟩)

theorem Plain.bind (hx : Plain x) (hf : ∀ a, Plain (f a)) : Plain (x >>= f) := by
  intro d
  obtain ⟨r, d', hcount, hr, hrun⟩ := hx d
  cases r with
  | error e =>
    refine ⟨.error e, d', hcount, fun l h => hr l ?_, fun held => by rw [Exec.bind_apply, hrun]⟩
    rw [Except.error.inj h]
  | ok a =>
    obtain ⟨r', d'', hcount', hr', hrun'⟩ := hf a d'
    exact ⟨r', d'', hcount'.trans hcount, hr', fun held => (Exec.bind_apply_ok (hrun held)).trans (hrun' held)⟩

theorem Plain.rises (hx : Plain x) : Locks.Rises Irqs.count x := by
  intro s
  obtain ⟨r, d', hcount, -, hrun⟩ := hx s.data
  rw [show x s = _ from hrun s.held]
  exact hcount.ge

end

end Sparreal.Irq
