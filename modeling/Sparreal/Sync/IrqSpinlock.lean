import Sparreal.Lib.Machine
import Mathlib.Data.List.Induction
import Mathlib.Logic.Function.Basic
import Mathlib.Tactic.Common

/-!
# Spinlocks that disable interrupts

`IrqSpinlock` of `os/sync/spinlock.rs` with the `NoIrqGuard` of `os/irq/guard.rs`. A guard remembers whether
interrupts were enabled when it was made and enables them again when it is dropped, whatever other guards
there are on its CPU. So the interrupts stay disabled as long as a guard is alive exactly when the first guard
of a CPU is also the last one to be dropped (`disabled_while_held_iff`).
-/

namespace Sparreal.Sync

abbrev CpuId := Nat

abbrev LockId := Nat

structure NoIrqGuard where
  isEnabled : Bool
  deriving DecidableEq, Repr

/-- `NoIrqGuard::new`, with the interrupt state of the CPU before and after. -/
def NoIrqGuard.new (irq : Bool) : NoIrqGuard × Bool := (⟨irq⟩, false)

/-- `NoIrqGuard::drop`, with the interrupt state of the CPU before and after. -/
def NoIrqGuard.drop (g : NoIrqGuard) (irq : Bool) : Bool := if g.isEnabled then true else irq

structure IrqMutexGuard where
  lock : LockId
  irqGuard : NoIrqGuard
  deriving DecidableEq, Repr

structure Cpus where
  irq : CpuId → Bool
  /-- `locked` of each `IrqRawSpinlock`. -/
  locked : LockId → Bool
  /-- The guards obtained on each CPU that are alive, the oldest first. -/
  guards : CpuId → List IrqMutexGuard

namespace Cpus

/-- No lock is held; the interrupts are as they are. -/
def start (irq : CpuId → Bool) : Cpus := ⟨irq, fun _ => false, fun _ => []⟩

/-- `IrqRawSpinlock::try_lock`. -/
def rawTryLock (s : Cpus) (l : LockId) : Bool × Cpus :=
  if s.locked l then (false, s) else (true, { s with locked := Function.update s.locked l true })

/-- `IrqSpinlock::try_lock`: whether the lock was taken. -/
def tryLock (s : Cpus) (cpu : CpuId) (l : LockId) : Bool × Cpus :=
  let (irqGuard, irq) := NoIrqGuard.new (s.irq cpu)
  let s := { s with irq := Function.update s.irq cpu irq }
  match s.rawTryLock l with
  | (true, s) => (true, { s with guards := Function.update s.guards cpu (s.guards cpu ++ [⟨l, irqGuard⟩]) })
  | (false, s) => (false, { s with irq := Function.update s.irq cpu (irqGuard.drop (s.irq cpu)) })

/-- The loop of `IrqSpinlock::lock`: `none` is the panic after the last try. -/
def lockLoop (cpu : CpuId) (l : LockId) : Nat → Cpus → Option Cpus
  | 0, _ => none
  | tries + 1, s =>
    match s.tryLock cpu l with
    | (true, s) => some s
    | (false, s) => lockLoop cpu l tries s

def lock (s : Cpus) (cpu : CpuId) (l : LockId) : Option Cpus := lockLoop cpu l 100 s

/-- `IrqMutexGuard::drop` unlocks, then the fields of the guard are dropped. -/
def dropGuard (s : Cpus) (cpu : CpuId) (g : IrqMutexGuard) : Cpus :=
  let s := { s with locked := Function.update s.locked g.lock false }
  { s with irq := Function.update s.irq cpu (g.irqGuard.drop (s.irq cpu)) }

/-- What happens on the CPUs. A guard is dropped on the CPU where it was obtained; it is named by its place
among the guards there. -/
inductive Event where
  | lock (cpu : CpuId) (l : LockId)
  | tryLock (cpu : CpuId) (l : LockId)
  | drop (cpu : CpuId) (i : Nat)
  deriving DecidableEq, Repr

def step (s : Cpus) : Event → Option Cpus
  | .lock cpu l => s.lock cpu l
  | .tryLock cpu l => some (s.tryLock cpu l).2
  | .drop cpu i =>
    (s.guards cpu)[i]?.map fun g =>
      { s.dropGuard cpu g with guards := Function.update s.guards cpu ((s.guards cpu).eraseIdx i) }

/-! ### One step -/

def taken (s : Cpus) (cpu : CpuId) (l : LockId) : Cpus where
  irq := Function.update s.irq cpu false
  locked := Function.update s.locked l true
  guards := Function.update s.guards cpu (s.guards cpu ++ [⟨l, ⟨s.irq cpu⟩⟩])

def dropped (s : Cpus) (cpu : CpuId) (i : Nat) (g : IrqMutexGuard) : Cpus where
  irq := Function.update s.irq cpu (g.irqGuard.isEnabled || s.irq cpu)
  locked := Function.update s.locked g.lock false
  guards := Function.update s.guards cpu ((s.guards cpu).eraseIdx i)

variable {s s' : Cpus} {l : LockId} {i : Nat} {g : IrqMutexGuard} {e : Event} {cpu : CpuId}

theorem tryLock_of_free (h : s.locked l = false) : s.tryLock cpu l = (true, s.taken cpu l) := by
  simp [tryLock, rawTryLock, NoIrqGuard.new, taken, h]

theorem tryLock_of_locked (h : s.locked l = true) : s.tryLock cpu l = (false, s) := by
  have hirq : NoIrqGuard.drop ⟨s.irq cpu⟩ false = s.irq cpu := by
    rw [NoIrqGuard.drop]
    cases s.irq cpu <;> rfl
  simp [tryLock, rawTryLock, NoIrqGuard.new, h, hirq]

theorem lockLoop_of_locked (h : s.locked l = true) (tries : Nat) : lockLoop cpu l tries s = none := by
  induction tries with
  | zero => rfl
  | succ tries ih =>
    rw [lockLoop, tryLock_of_locked h]
    exact ih

theorem step_drop (hg : (s.guards cpu)[i]? = some g) : s.step (.drop cpu i) = some (s.dropped cpu i g) := by
  have hdrop : g.irqGuard.drop (s.irq cpu) = (g.irqGuard.isEnabled || s.irq cpu) := by
    rw [NoIrqGuard.drop]
    cases g.irqGuard.isEnabled <;> rfl
  simp only [step, hg, Option.map_some, dropGuard, hdrop, dropped]

/-- What one step can do. -/
inductive Takes (s : Cpus) : Event → Cpus → Prop where
  | locked {e : Event} {cpu : CpuId} {l : LockId} (hfree : s.locked l = false) : Takes s e (s.taken cpu l)
  | failed {cpu : CpuId} {l : LockId} : Takes s (.tryLock cpu l) s
  | dropped {cpu : CpuId} {i : Nat} {g : IrqMutexGuard} (hg : (s.guards cpu)[i]? = some g) :
      Takes s (.drop cpu i) (s.dropped cpu i g)

theorem takes_of_step (h : s.step e = some s') : Takes s e s' := by
  cases e with
  | lock cpu l =>
    simp only [step, lock] at h
    cases hl : s.locked l with
    | true =>
      rw [lockLoop_of_locked hl] at h
      cases h
    | false =>
      rw [lockLoop, tryLock_of_free hl] at h
      exact Option.some.inj h ▸ .locked hl
  | tryLock cpu l =>
    simp only [step] at h
    cases hl : s.locked l with
    | true =>
      rw [tryLock_of_locked hl] at h
      exact Option.some.inj h ▸ .failed
    | false =>
      rw [tryLock_of_free hl] at h
      exact Option.some.inj h ▸ .locked hl
  | drop cpu i =>
    obtain ⟨g, hg, -⟩ := Option.map_eq_some_iff.mp h
    rw [step_drop hg] at h
    exact Option.some.inj h ▸ .dropped hg

/-! ### One guard for a lock -/

/-- A guard holds its lock, and no other guard does. -/
structure Exclusive (s : Cpus) : Prop where
  locked : ∀ {cpu : CpuId} {i : Nat} {g : IrqMutexGuard}, (s.guards cpu)[i]? = some g → s.locked g.lock = true
  unique : ∀ {cpu cpu' : CpuId} {i j : Nat} {g g' : IrqMutexGuard}, (s.guards cpu)[i]? = some g →
    (s.guards cpu')[j]? = some g' → g.lock = g'.lock → cpu = cpu' ∧ i = j

theorem getElem?_taken {cpu cpu' : CpuId} (h : ((s.taken cpu l).guards cpu')[i]? = some g) :
    (s.guards cpu')[i]? = some g ∨ cpu' = cpu ∧ i = (s.guards cpu).length ∧ g.lock = l := by
  by_cases hcpu : cpu' = cpu
  · subst hcpu
    simp only [taken, Function.update_self] at h
    rcases Nat.lt_or_ge i (s.guards cpu').length with hi | hi
    · exact .inl (List.getElem?_append_left hi ▸ h)
    · rw [List.getElem?_append_right hi] at h
      rw [List.getElem?_singleton] at h
      split_ifs at h with hi'
      obtain rfl := Option.some.inj h
      exact .inr ⟨rfl, by omega, rfl⟩
  · simp only [taken, Function.update_of_ne hcpu] at h
    exact .inl h

theorem getElem?_dropped {cpu cpu' : CpuId} {j : Nat} {g' : IrqMutexGuard}
    (h : ((s.dropped cpu i g).guards cpu')[j]? = some g') :
    ∃ k, (s.guards cpu')[k]? = some g' ∧ (cpu' = cpu → k ≠ i) ∧
      k = if cpu' = cpu ∧ i ≤ j then j + 1 else j := by
  by_cases hcpu : cpu' = cpu
  · subst hcpu
    simp only [dropped, Function.update_self, List.getElem?_eraseIdx] at h
    split_ifs at h with hij
    · exact ⟨j, h, fun _ => by omega, by rw [if_neg (by omega)]⟩
    · exact ⟨j + 1, h, fun _ => by omega, by rw [if_pos ⟨rfl, by omega⟩]⟩
  · simp only [dropped, Function.update_of_ne hcpu] at h
    exact ⟨j, h, fun heq => absurd heq hcpu, by rw [if_neg (fun h => hcpu h.1)]⟩

theorem Exclusive.takes (hs : s.Exclusive) (h : Takes s e s') : s'.Exclusive := by
  cases h with
  | failed => exact hs
  | @locked _ cpu l hfree =>
    -- the lock was free, so no guard has it
    have hnew : ∀ {cpu' : CpuId} {i : Nat} {g : IrqMutexGuard}, (s.guards cpu')[i]? = some g → g.lock ≠ l := by
      intro cpu' i g hg heq
      rw [← heq, hs.locked hg] at hfree
      cases hfree
    refine ⟨fun {cpu' i g} hg => ?_, fun {cpu₁ cpu₂ i j g g'} hg hg' heq => ?_⟩
    · show Function.update s.locked l true g.lock = true
      rcases getElem?_taken hg with hg | ⟨-, -, rfl⟩
      · rw [Function.update_of_ne (hnew hg), hs.locked hg]
      · rw [Function.update_self]
    · rcases getElem?_taken hg with hold | ⟨rfl, rfl, hl⟩ <;>
        rcases getElem?_taken hg' with hold' | ⟨rfl, rfl, hl'⟩
      · exact hs.unique hold hold' heq
      · exact absurd (heq.trans hl') (hnew hold)
      · exact absurd (heq.symm.trans hl) (hnew hold')
      · exact ⟨rfl, rfl⟩
  | @dropped cpu i g hg =>
    refine ⟨fun {cpu' j g'} hg' => ?_, fun {cpu₁ cpu₂ j₁ j₂ g₁ g₂} hg₁ hg₂ heq => ?_⟩
    · obtain ⟨k, hk, hne, -⟩ := getElem?_dropped hg'
      show Function.update s.locked g.lock false g'.lock = true
      rw [Function.update_of_ne, hs.locked hk]
      intro heq
      obtain ⟨rfl, rfl⟩ := hs.unique hk hg heq
      exact hne rfl rfl
    · obtain ⟨k₁, hk₁, -, hj₁⟩ := getElem?_dropped hg₁
      obtain ⟨k₂, hk₂, -, hj₂⟩ := getElem?_dropped hg₂
      obtain ⟨rfl, rfl⟩ := hs.unique hk₁ hk₂ heq
      refine ⟨rfl, ?_⟩
      by_cases hcpu : cpu₁ = cpu
      · simp only [hcpu, true_and] at hj₁ hj₂
        split_ifs at hj₁ hj₂ <;> omega
      · simp only [hcpu, false_and, if_false] at hj₁ hj₂
        exact hj₁.symm.trans hj₂

/-! ### The interrupts -/

variable {irq₀ : CpuId → Bool}

/-- The interrupts are disabled where a guard is alive, no lock has two guards, and where no guard is alive
the interrupts are as they were before the first lock. -/
structure Safe (irq₀ : CpuId → Bool) (s : Cpus) : Prop where
  disabled : ∀ cpu, s.guards cpu ≠ [] → s.irq cpu = false
  unique : ∀ {cpu cpu' : CpuId} {i j : Nat} {g g' : IrqMutexGuard}, (s.guards cpu)[i]? = some g →
    (s.guards cpu')[j]? = some g' → g.lock = g'.lock → cpu = cpu' ∧ i = j
  restored : ∀ cpu, s.guards cpu = [] → s.irq cpu = irq₀ cpu

/-- The oldest of several guards is dropped, on a CPU that had interrupts enabled. -/
def Early (irq₀ : CpuId → Bool) (s : Cpus) : Event → Prop
  | .drop cpu i => irq₀ cpu = true ∧ i = 0 ∧ 1 < (s.guards cpu).length
  | _ => False

/-- Only the oldest guard of a CPU can have seen the interrupts enabled. -/
structure Nested (irq₀ : CpuId → Bool) (s : Cpus) : Prop where
  exclusive : s.Exclusive
  idle : ∀ {cpu}, s.guards cpu = [] → s.irq cpu = irq₀ cpu
  held : ∀ {cpu g rest}, s.guards cpu = g :: rest →
    s.irq cpu = false ∧ g.irqGuard.isEnabled = irq₀ cpu ∧ ∀ g' ∈ rest, g'.irqGuard.isEnabled = false

theorem nested_start (irq₀ : CpuId → Bool) : Nested irq₀ (start irq₀) := ⟨⟨nofun, nofun⟩, fun _ => rfl, nofun⟩

theorem Nested.safe (hs : Nested irq₀ s) : Safe irq₀ s := by
  refine ⟨fun cpu hne => ?_, hs.exclusive.unique, fun _ => hs.idle⟩
  obtain ⟨g, rest, hg⟩ := List.exists_cons_of_ne_nil hne
  exact (hs.held hg).1

/-- The interrupts and the guards of one CPU, which had its interrupts as in `before`. -/
structure NestedOn (before irq : Bool) (guards : List IrqMutexGuard) : Prop where
  idle : guards = [] → irq = before
  held : ∀ {g rest}, guards = g :: rest →
    irq = false ∧ g.irqGuard.isEnabled = before ∧ ∀ g' ∈ rest, g'.irqGuard.isEnabled = false

namespace NestedOn

variable {before irq : Bool} {guards : List IrqMutexGuard}

theorem take (h : NestedOn before irq guards) (l : LockId) : NestedOn before false (guards ++ [⟨l, ⟨irq⟩⟩]) := by
  refine ⟨fun hnil => absurd hnil (by simp), fun {g rest} hg => ⟨rfl, ?_⟩⟩
  cases guards with
  | nil =>
    obtain ⟨rfl, rfl⟩ := List.cons.inj hg
    exact ⟨h.idle rfl, fun g' hg' => absurd hg' List.not_mem_nil⟩
  | cons g₀ rest₀ =>
    obtain ⟨rfl, rfl⟩ := List.cons.inj hg
    obtain ⟨hirq, hsaved, hrest⟩ := h.held rfl
    refine ⟨hsaved, fun g' hg' => ?_⟩
    rcases List.mem_append.mp hg' with hg' | hg'
    · exact hrest g' hg'
    · obtain rfl := List.mem_singleton.mp hg'
      exact hirq

/-- The oldest guard restores the interrupts, so it must be the last, unless they were disabled before. -/
theorem drop (h : NestedOn before irq guards) {i : Nat} {g : IrqMutexGuard} (hg : guards[i]? = some g)
    (hearly : ¬ (before = true ∧ i = 0 ∧ 1 < guards.length)) :
    NestedOn before (g.irqGuard.isEnabled || irq) (guards.eraseIdx i) := by
  cases guards with
  | nil => cases hg
  | cons g₀ rest₀ =>
    obtain ⟨hirq, hsaved, hrest⟩ := h.held rfl
    cases i with
    | zero =>
      obtain rfl := Option.some.inj hg
      rw [hsaved, hirq, Bool.or_false]
      refine ⟨fun _ => rfl, fun {g' rest} hg' => ?_⟩
      obtain rfl : rest₀ = g' :: rest := hg'
      have hfalse : before = false :=
        Bool.eq_false_iff.mpr fun htrue => hearly ⟨htrue, rfl, Nat.succ_lt_succ (Nat.succ_pos _)⟩
      rw [hfalse]
      exact ⟨rfl, hrest g' (List.mem_cons_self ..), fun g'' h => hrest g'' (List.mem_cons_of_mem _ h)⟩
    | succ i =>
      rw [hrest g (List.mem_of_getElem? hg), hirq]
      refine ⟨fun hnil => absurd hnil (List.cons_ne_nil g₀ _), fun {g' rest} hg' => ?_⟩
      obtain ⟨rfl, rfl⟩ := List.cons.inj hg'
      exact ⟨rfl, hsaved, fun g'' h => hrest g'' (List.mem_of_mem_eraseIdx h)⟩

end NestedOn

theorem Nested.on (hs : Nested irq₀ s) (cpu : CpuId) :
    NestedOn (irq₀ cpu) (s.irq cpu) (s.guards cpu) :=
  ⟨hs.idle, hs.held⟩

theorem Nested.takes (hs : Nested irq₀ s) (h : Takes s e s') (hearly : ¬ Early irq₀ s e) : Nested irq₀ s' := by
  have hon : ∀ cpu, NestedOn (irq₀ cpu) (s'.irq cpu) (s'.guards cpu) := by
    intro cpu'
    cases h with
    | failed => exact hs.on cpu'
    | @locked _ cpu l hfree =>
      by_cases hcpu : cpu' = cpu
      · subst hcpu
        simp only [taken, Function.update_self]
        exact (hs.on cpu').take l
      · simp only [taken, Function.update_of_ne hcpu]
        exact hs.on cpu'
    | @dropped cpu i g hg =>
      by_cases hcpu : cpu' = cpu
      · subst hcpu
        simp only [Cpus.dropped, Function.update_self]
        exact (hs.on cpu').drop hg hearly
      · simp only [Cpus.dropped, Function.update_of_ne hcpu]
        exact hs.on cpu'
  exact ⟨hs.exclusive.takes h, (hon _).idle, (hon _).held⟩

theorem Nested.not_safe (hs : Nested irq₀ s) (hearly : Early irq₀ s e) :
    ∃ s', s.step e = some s' ∧ ¬ Safe irq₀ s' := by
  cases e with
  | lock => cases hearly
  | tryLock => cases hearly
  | drop cpu i =>
    obtain ⟨htrue, rfl, hlen⟩ := hearly
    obtain ⟨g, g', rest, hguards⟩ : ∃ g g' rest, s.guards cpu = g :: g' :: rest := by
      match hguards : s.guards cpu with
      | [] => simp [hguards] at hlen
      | [_] => simp [hguards] at hlen
      | g :: g' :: rest => exact ⟨g, g', rest, rfl⟩
    obtain ⟨hirq, hsaved, -⟩ := hs.held hguards
    refine ⟨s.dropped cpu 0 g, step_drop (by rw [hguards]; rfl), fun hsafe => ?_⟩
    have hfalse : (s.dropped cpu 0 g).irq cpu = false := hsafe.disabled cpu (by simp [dropped, hguards])
    simp [dropped, hsaved, htrue] at hfalse

/-! ### Runs -/

/-- The spinlocks keep the interrupts disabled, and restore them in the end, at all points of a run exactly
when the run never drops the oldest of several guards on a CPU that had its interrupts enabled. -/
theorem disabled_while_held_iff (irq₀ : CpuId → Bool) (es : List Event) :
    (∀ es' s, es' <+: es → Machine.run step (start irq₀) es' = some s → Safe irq₀ s) ↔
      ∀ es' e s, es' ++ [e] <+: es → Machine.run step (start irq₀) es' = some s → ¬ Early irq₀ s e := by
  refine Machine.safe_iff_no_hazard_of_step Nested.safe (fun hs hnot hstep => ?_) Nested.not_safe (nested_start irq₀)
  exact hs.takes (takes_of_step hstep) hnot

/-- Two locks are taken and the first is released: interrupts are enabled with the second still held. -/
theorem enabled_while_held : ∃ s,
    Machine.run step (start fun _ => true) [.lock 0 0, .lock 0 1, .drop 0 0] = some s ∧
      s.guards 0 = [⟨1, ⟨false⟩⟩] ∧ s.irq 0 = true ∧ ¬ Safe (fun _ => true) s := by
  have hrun := Option.some_get (show (Machine.run step (start fun _ => true)
    [.lock 0 0, .lock 0 1, .drop 0 0]).isSome by decide +kernel)
  refine ⟨_, hrun.symm, by decide +kernel, by decide +kernel, fun hsafe => ?_⟩
  exact absurd (hsafe.disabled 0 (by decide +kernel)) (by decide +kernel)

end Cpus

end Sparreal.Sync
