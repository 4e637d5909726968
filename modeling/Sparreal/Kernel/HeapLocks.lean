import Sparreal.Lib.Machine
import Sparreal.Kernel.Allocator
import Sparreal.Sync.IrqSpinlock

/-!
# The locks of the heap and interrupts

The heaps of `os/mem/allocator.rs` are behind `spin::Mutex`, which leaves the interrupts alone. `GlobalAlloc` and
`alloc_with_mask` disable them with a `NoIrqGuard` around the lock; `alloc_frame` and `dealloc_frame` of
`KernelAllocator` and `add_memory_region` do not.

A path through the heap is the list of its steps (`HeapCall.steps`), so that an interrupt can come between any two of
them. Its handler finds a heap locked by the code it has interrupted exactly if one of the paths without a guard is
taken with the interrupts enabled (`interrupt_safe_iff`).
-/

namespace Sparreal.Kernel

open Ranges (Range)
open Sync (NoIrqGuard)

/-- A step of kernel code, as far as the heap locks and the interrupts go. -/
inductive HeapStep where
  /-- `NoIrqGuard::new`. -/
  | guardNew
  /-- `drop(guard)`. -/
  | guardDrop
  | lock (heap : HeapId)
  /-- `Heap::alloc` or `Heap::dealloc`. -/
  | use (heap : HeapId)
  /-- `MutexGuard::drop`. -/
  | unlock (heap : HeapId)
  /-- Interrupts are enabled or disabled outside of the heap. -/
  | setIrq (enabled : Bool)
  deriving DecidableEq, Repr

/-- The CPU: its interrupts, the guards of the running code, the last first, and the heaps it has locked. -/
structure HeapCpu where
  irq : Bool
  guards : List NoIrqGuard
  held : List HeapId
  deriving DecidableEq, Repr

namespace HeapCpu

def start (irq : Bool) : HeapCpu := ⟨irq, [], []⟩

/-- One step. `lock` never returns if the heap is locked by the code itself. -/
def step (s : HeapCpu) : HeapStep → Option HeapCpu
  | .guardNew =>
    let (guard, irq) := NoIrqGuard.new s.irq
    some { s with irq := irq, guards := guard :: s.guards }
  | .guardDrop =>
    match s.guards with
    | guard :: rest => some { s with irq := guard.drop s.irq, guards := rest }
    | [] => none
  | .lock heap => if heap ∈ s.held then none else some { s with held := heap :: s.held }
  | .use heap => if heap ∈ s.held then some s else none
  | .unlock heap => some { s with held := s.held.erase heap }
  | .setIrq enabled => some { s with irq := enabled }

end HeapCpu

/-- The paths through the heap, with what decides which heaps they ask. -/
inductive HeapCall where
  | alloc (answer : Answer)
  | allocWithMask (dmaMask : Nat) (answer : Answer)
  | dealloc (ptr : Nat)
  | deallocRaw (ptr : Nat)
  | allocFrame
  | deallocFrame
  | addMemoryRegion (memory : Range Nat)

def lockedUse (heap : HeapId) : List HeapStep := [.lock heap, .use heap, .unlock heap]

/-- `try_alloc` of the high heap, or else of the low heap. -/
def tryHighLow (answer : Answer) : List HeapStep :=
  lockedUse .high ++ if (answer .high).isSome then [] else lockedUse .low

/-- `NoIrqGuard::new()` to `drop(guard)`. -/
def guarded (body : List HeapStep) : List HeapStep := .guardNew :: (body ++ [.guardDrop])

namespace HeapCall

def steps (phys : Nat → Nat) : HeapCall → List HeapStep
  | .alloc answer => guarded (tryHighLow answer)
  | .allocWithMask dmaMask answer =>
    guarded (if dmaMask ≤ u32Max then lockedUse .low else tryHighLow answer)
  | .dealloc ptr => guarded (lockedUse (Kernel.dealloc phys ptr))
  | .deallocRaw ptr => guarded (lockedUse (Kernel.deallocRaw phys ptr))
  | .allocFrame => lockedUse .low
  | .deallocFrame => lockedUse Kernel.deallocFrame
  | .addMemoryRegion memory => lockedUse (heapOfRegion phys memory)

/-- The path takes no `NoIrqGuard`. -/
def Unguarded : HeapCall → Prop
  | .allocFrame => True
  | .deallocFrame => True
  | .addMemoryRegion _ => True
  | _ => False

end HeapCall

/-- Kernel code: paths through the heap, and changes of the interrupts outside of it. -/
inductive Item where
  | call (c : HeapCall)
  | setIrq (enabled : Bool)

def Item.steps (phys : Nat → Nat) : Item → List HeapStep
  | .call c => c.steps phys
  | .setIrq enabled => [.setIrq enabled]

/-- The interrupts after some code. -/
def irqAfter (irq : Bool) : List Item → Bool
  | [] => irq
  | .call _ :: items => irqAfter irq items
  | .setIrq enabled :: items => irqAfter enabled items

/-- An interrupt handler that makes these calls comes to a lock that the interrupted code holds. -/
def Finds (phys : Nat → Nat) (held : List HeapId) (handler : List HeapCall) : Prop :=
  ∃ heap ∈ held, .lock heap ∈ handler.flatMap (HeapCall.steps phys)

/-- Wherever the interrupts are enabled, no handler finds a heap locked. -/
def InterruptSafe (phys : Nat → Nat) (irq : Bool) (items : List Item) : Prop :=
  ∀ done s handler, done <+: items.flatMap (Item.steps phys) →
    Machine.run HeapCpu.step (.start irq) done = some s → s.irq = true → ¬ Finds phys s.held handler

/-! ### One path -/

/-- No heap is locked while the interrupts are enabled. -/
def Shielded (s : HeapCpu) : Prop := s.irq = true → s.held = []

instance (s : HeapCpu) : Decidable (Shielded s) := inferInstanceAs (Decidable (_ → _))

variable {phys : Nat → Nat} {irq : Bool}

theorem HeapCall.steps_cases (phys : Nat → Nat) (c : HeapCall) :
    (c.Unguarded ∧ ∃ heap, c.steps phys = lockedUse heap) ∨
      (¬ c.Unguarded ∧ ((∃ heap, c.steps phys = guarded (lockedUse heap)) ∨
        ∃ answer, c.steps phys = guarded (tryHighLow answer))) := by
  cases c with
  | alloc answer => exact .inr ⟨id, .inr ⟨answer, rfl⟩⟩
  | allocWithMask dmaMask answer =>
    refine .inr ⟨id, ?_⟩
    by_cases hmask : dmaMask ≤ u32Max
    · exact .inl ⟨.low, by rw [steps, if_pos hmask]⟩
    · exact .inr ⟨answer, by rw [steps, if_neg hmask]⟩
  | dealloc ptr | deallocRaw ptr => exact .inr ⟨id, .inl ⟨_, rfl⟩⟩
  | allocFrame | deallocFrame | addMemoryRegion memory => exact .inl ⟨trivial, _, rfl⟩

section Bodies

variable {s : HeapCpu} (hfree : s.held = [])
include hfree

theorem run_lockedUse (heap : HeapId) : Machine.run HeapCpu.step s (lockedUse heap) = some s := by
  obtain ⟨irq, guards, held⟩ := s
  obtain rfl : held = [] := hfree
  simp [lockedUse, Machine.run, HeapCpu.step]

theorem run_tryHighLow (answer : Answer) : Machine.run HeapCpu.step s (tryHighLow answer) = some s := by
  refine Machine.run_append.mpr ⟨s, run_lockedUse hfree .high, ?_⟩
  split
  · rfl
  · exact run_lockedUse hfree .low

theorem always_lockedUse (heap : HeapId) :
    Machine.Always HeapCpu.step Shielded s (lockedUse heap) ↔ s.irq = false := by
  obtain ⟨irq, guards, held⟩ := s
  obtain rfl : held = [] := hfree
  simp [lockedUse, Machine.Always, HeapCpu.step, Shielded]

theorem always_tryHighLow (hirq : s.irq = false) (answer : Answer) :
    Machine.Always HeapCpu.step Shielded s (tryHighLow answer) := by
  refine Machine.always_append.mpr ⟨(always_lockedUse hfree .high).mpr hirq, fun u hu => ?_⟩
  obtain rfl : s = u := Option.some.inj ((run_lockedUse hfree .high).symm.trans hu)
  split
  · exact fun _ => hfree
  · exact (always_lockedUse hfree .low).mpr hirq

end Bodies

def insideGuard (irq : Bool) : HeapCpu := ⟨false, [⟨irq⟩], []⟩

theorem guardDrop_insideGuard (irq : Bool) :
    HeapCpu.step (insideGuard irq) .guardDrop = some (.start irq) := by
  cases irq <;> rfl

theorem run_guarded {body : List HeapStep}
    (hbody : Machine.run HeapCpu.step (insideGuard irq) body = some (insideGuard irq)) :
    Machine.run HeapCpu.step (.start irq) (guarded body) = some (.start irq) := by
  refine Machine.run_cons.mpr ⟨insideGuard irq, rfl, Machine.run_append.mpr ⟨_, hbody, ?_⟩⟩
  exact Machine.run_cons.mpr ⟨_, guardDrop_insideGuard irq, rfl⟩

theorem always_guarded {body : List HeapStep}
    (hbody : Machine.run HeapCpu.step (insideGuard irq) body = some (insideGuard irq))
    (halways : Machine.Always HeapCpu.step Shielded (insideGuard irq) body) :
    Machine.Always HeapCpu.step Shielded (.start irq) (guarded body) := by
  refine ⟨fun _ => rfl, fun u hu => ?_⟩
  obtain rfl : insideGuard irq = u := Option.some.inj hu
  refine Machine.always_append.mpr ⟨halways, fun v hv => ?_⟩
  obtain rfl : insideGuard irq = v := Option.some.inj (hbody.symm.trans hv)
  refine ⟨fun _ => rfl, fun w hw => ?_⟩
  obtain rfl : HeapCpu.start irq = w := Option.some.inj ((guardDrop_insideGuard irq).symm.trans hw)
  exact fun _ => rfl

theorem run_steps (c : HeapCall) :
    Machine.run HeapCpu.step (.start irq) (c.steps phys) = some (.start irq) := by
  obtain ⟨-, heap, hsteps⟩ | ⟨-, ⟨heap, hsteps⟩ | ⟨answer, hsteps⟩⟩ := c.steps_cases phys
  · rw [hsteps]
    exact run_lockedUse rfl heap
  · rw [hsteps]
    exact run_guarded (run_lockedUse rfl heap)
  · rw [hsteps]
    exact run_guarded (run_tryHighLow rfl answer)

theorem always_steps_iff (c : HeapCall) :
    Machine.Always HeapCpu.step Shielded (.start irq) (c.steps phys) ↔ (c.Unguarded → irq = false) := by
  obtain ⟨hc, heap, hsteps⟩ | ⟨hc, ⟨heap, hsteps⟩ | ⟨answer, hsteps⟩⟩ := c.steps_cases phys
  · rw [hsteps, always_lockedUse rfl heap]
    exact ⟨fun h _ => h, fun h => h hc⟩
  · rw [hsteps]
    refine iff_of_true (always_guarded (run_lockedUse rfl heap) ?_) (absurd · hc)
    exact (always_lockedUse rfl heap).mpr rfl
  · rw [hsteps]
    exact iff_of_true (always_guarded (run_tryHighLow rfl answer) (always_tryHighLow rfl rfl answer)) (absurd · hc)

/-! ### Whole programs -/

theorem exists_lock (phys : Nat → Nat) (heap : HeapId) : ∃ c : HeapCall, .lock heap ∈ c.steps phys := by
  cases heap with
  | low => exact ⟨.allocFrame, List.mem_cons_self⟩
  | high => exact ⟨.alloc fun _ => none, List.mem_cons_of_mem _ List.mem_cons_self⟩

theorem shielded_iff {s : HeapCpu} :
    Shielded s ↔ ∀ handler, s.irq = true → ¬ Finds phys s.held handler := by
  constructor
  · intro h handler hirq ⟨heap, hheld, _⟩
    rw [h hirq] at hheld
    exact List.not_mem_nil hheld
  · intro h hirq
    refine List.eq_nil_iff_forall_not_mem.mpr fun heap hheld => ?_
    obtain ⟨c, hc⟩ := exists_lock phys heap
    exact h [c] hirq ⟨heap, hheld, List.mem_flatMap.mpr ⟨c, List.mem_singleton_self c, hc⟩⟩

variable {items : List Item}

theorem interruptSafe_iff_always :
    InterruptSafe phys irq items ↔
      Machine.Always HeapCpu.step Shielded (.start irq) (items.flatMap (Item.steps phys)) := by
  rw [Machine.always_iff]
  constructor
  · intro h done s hdone hrun
    exact shielded_iff.mpr fun handler => h done s handler hdone hrun
  · intro h done s handler hdone hrun
    exact shielded_iff.mp (h done s hdone hrun) handler

theorem forall_call_cons {P : List Item → HeapCall → Prop} {i : Item} :
    (∀ before c after, i :: items = before ++ .call c :: after → P before c) ↔
      (∀ c, i = .call c → P [] c) ∧
        ∀ before c after, items = before ++ .call c :: after → P (i :: before) c := by
  constructor
  · intro h
    exact ⟨fun c hc => h [] c items (by rw [hc]; rfl), fun before c after hitems => h _ c after (by rw [hitems]; rfl)⟩
  · intro ⟨hfirst, hrest⟩ before c after hitems
    obtain ⟨rfl, hcons⟩ | ⟨before', rfl, hitems'⟩ := List.cons_eq_append_iff.mp hitems
    · exact hfirst c (List.cons.inj hcons).1.symm
    · exact hrest before' c after hitems'

theorem always_items_iff :
    Machine.Always HeapCpu.step Shielded (.start irq) (items.flatMap (Item.steps phys)) ↔
      ∀ before c after, items = before ++ .call c :: after → c.Unguarded → irqAfter irq before = false := by
  induction items generalizing irq with
  | nil =>
    refine iff_of_true (fun _ => rfl) fun before c after hitems => ?_
    exact absurd (congrArg List.length hitems) (by simp)
  | cons i items ih =>
    rw [List.flatMap_cons, Machine.always_append, forall_call_cons]
    cases i with
    | call c =>
      -- the path is back where it began, so the rest starts with the same interrupts
      have hrest : ∀ u, Machine.run HeapCpu.step (.start irq) (c.steps phys) = some u → HeapCpu.start irq = u :=
        fun u hu => Option.some.inj ((run_steps c).symm.trans hu)
      refine and_congr ?_ ?_
      · refine (always_steps_iff c).trans ⟨fun h c' hc' => ?_, fun h => h c rfl⟩
        obtain rfl := Item.call.inj hc'
        exact h
      · exact ⟨fun h => ih.mp (h _ (run_steps c)), fun h u hu => hrest u hu ▸ ih.mpr h⟩
    | setIrq enabled =>
      refine and_congr (iff_of_true ⟨fun _ => rfl, fun u hu => ?_⟩ fun c hc => ?_) ?_
      · obtain rfl : HeapCpu.start enabled = u := Option.some.inj hu
        exact fun _ => rfl
      · exact Item.noConfusion hc
      · refine ⟨fun h => ih.mp (h (.start enabled) rfl), fun h u hu => ?_⟩
        obtain rfl : HeapCpu.start enabled = u := Option.some.inj hu
        exact ih.mpr h

/-- **The heap locks are safe from interrupts exactly as long as no path without a guard is taken with the interrupts
enabled.** -/
theorem interrupt_safe_iff (phys : Nat → Nat) (irq : Bool) (items : List Item) :
    InterruptSafe phys irq items ↔
      ∀ before c after, items = before ++ .call c :: after → c.Unguarded → irqAfter irq before = false :=
  interruptSafe_iff_always.trans always_items_iff

/-- `alloc_frame` with the interrupts enabled: once it has locked the low heap, the `alloc_with_mask` of a handler
finds it locked. -/
theorem frame_interrupted :
    ¬ InterruptSafe id true [.call .allocFrame] ∧
      Machine.run HeapCpu.step (.start true) [.lock .low] = some ⟨true, [], [.low]⟩ ∧
      Finds id [.low] [.allocWithMask 0 fun _ => none] := by
  have hfinds : Finds id [.low] [.allocWithMask 0 fun _ => none] :=
    ⟨.low, List.mem_cons_self, List.mem_cons_of_mem _ List.mem_cons_self⟩
  refine ⟨fun h => ?_, rfl, hfinds⟩
  exact h [.lock .low] ⟨true, [], [.low]⟩ _ ⟨[.use .low, .unlock .low], rfl⟩ rfl rfl hfinds

end Sparreal.Kernel
