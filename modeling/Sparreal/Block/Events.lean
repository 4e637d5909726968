import Sparreal.Block.RamDisk
import Sparreal.Lib.Machine
import Mathlib.Data.BitVec

/-!
# Completion events of the RAM disk

`IdList` of `rdif-block/src/lib.rs`, `RamDisk::handle_irq` of `ramdisk/src/lib.rs` and `IrqHandler::handle` of
`rd-block/src/lib.rs`. An accepted request puts the id of its queue in the list `irq_rx`; `handle_irq` swaps the list
for an empty one, and rd-block wakes the queues it finds in it.

The list is one `u64`. `1 << id` with an id of 64 or more panics where overflow is checked, and takes the id modulo 64
where it is not; `create_queue` hands out ids without a limit. `irqEvents_exact_iff` says which runs that spoils.
-/

namespace Sparreal.Ram

open Sparreal.Block

/-! ### `IdList` -/

/-- `IdList::contains`, as `iter` calls it, with an id below 64. -/
def containsId (list : BitVec 64) (id : Nat) : Bool := (list &&& 1#64 <<< id) != 0

/-- `IdList::iter`. -/
def iterIds (list : BitVec 64) : List Nat := (List.range 64).filter (containsId list)

theorem containsId_eq (list : BitVec 64) {id : Nat} (h : id < 64) : containsId list id = list.getLsbD id := by
  have hbit : BitVec.twoPow 64 id ≠ 0#64 := by
    intro hzero
    have := congrArg (BitVec.getLsbD · id) hzero
    simp [h] at this
  unfold containsId
  rw [← BitVec.twoPow_eq, BitVec.and_twoPow]
  cases hid : list.getLsbD id
  · rfl
  · simpa using hbit

theorem mem_iterIds {list : BitVec 64} {id : Nat} : id ∈ iterIds list ↔ id < 64 ∧ list.getLsbD id = true := by
  unfold iterIds
  rw [List.mem_filter, List.mem_range]
  refine and_congr_right fun h => ?_
  rw [containsId_eq list h]

theorem mem_iterIds_insertId {list : BitVec 64} {id id' : Nat} (h : id < 64) :
    id' ∈ iterIds (insertId list id) ↔ id' = id ∨ id' ∈ iterIds list := by
  unfold insertId
  rw [mem_iterIds, mem_iterIds, Nat.mod_eq_of_lt h, ← BitVec.twoPow_eq, BitVec.getLsbD_or, BitVec.getLsbD_twoPow]
  simp only [h, decide_true, Bool.true_and, Bool.or_eq_true, decide_eq_true_eq]
  constructor
  · rintro ⟨hlt, hold | hnew⟩
    · exact Or.inr ⟨hlt, hold⟩
    · exact Or.inl hnew.symm
  · rintro (rfl | ⟨hlt, hold⟩)
    · exact ⟨h, Or.inr rfl⟩
    · exact ⟨hlt, Or.inl hold⟩

theorem iterIds_zero : iterIds 0 = [] := by decide

/-! ### Interrupts -/

/-- `RamDisk::handle_irq`: the list of the event, and the state it leaves. -/
def handleIrq (inner : RamInner) : BitVec 64 × RamInner :=
  if inner.irqEnabled then (inner.irqRx, { inner with irqRx := 0 }) else (0, inner)

/-- `QueueWakerMap::wake`: the wakers it calls, of those registered under the ids given. -/
def wake (wakers : List Nat) (id : Nat) : List Nat := if id ∈ wakers then [id] else []

/-- `IrqHandler::handle` of rd-block: the queues it wakes. -/
def handle (wakers : List Nat) (inner : RamInner) : List Nat × RamInner :=
  let (event, inner) := handleIrq inner
  ((iterIds event).flatMap (wake wakers), inner)

/-- A call on a queue, or an interrupt. -/
inductive IrqCall
  | submit (queue : RamQueue) (request : Request) (memory : Memory)
  | poll (queue : RamQueue) (request : RequestId)
  | handleIrq

def IrqCall.queue : IrqCall → Option RamQueue
  | .submit queue _ _ => some queue
  | .poll queue _ => some queue
  | .handleIrq => none

/-- The shared state, and the queues that accepted a request since the previous `handle_irq`. -/
structure IrqSystem where
  inner : RamInner
  since : List Nat

/-- One call; `none` is the panic of a checked shift. -/
def irqStep (overflowChecks : Bool) (s : IrqSystem) : IrqCall → Option IrqSystem
  | .submit queue request memory =>
    match queue.submitRequest request (s.inner, memory) with
    | (.ok _, (inner, _)) =>
      if overflowChecks && 64 ≤ queue.id then none else some ⟨inner, queue.id :: s.since⟩
    | (.error _, (inner, _)) => some { s with inner }
  | .poll queue request => some { s with inner := (queue.pollRequest request s.inner).2 }
  | .handleIrq => some ⟨(handleIrq s.inner).2, []⟩

def irqRun (overflowChecks : Bool) (disk : RamDisk) (calls : List IrqCall) : Option IrqSystem :=
  Machine.run (irqStep overflowChecks) ⟨disk.inner, []⟩ calls

/-- A `handle_irq` now would report, and rd-block would wake, exactly the queues that accepted a request since the
previous one. -/
def Exact (wakers : List Nat) (s : IrqSystem) : Prop :=
  ∀ id, (id ∈ iterIds (handleIrq s.inner).1 ↔ id ∈ s.since) ∧ (id ∈ (handle wakers s.inner).1 ↔ id ∈ s.since)

/-! ### What a call does to the list -/

theorem submitRequest_accept {queue : RamQueue} {request : Request} (inner : RamInner) (memory : Memory)
    (h : Fits queue.blockSize queue.numBlocks request) :
    ∃ id inner' memory', queue.submitRequest request (inner, memory) = (.ok id, (inner', memory')) ∧
      inner'.irqRx = insertId inner.irqRx queue.id ∧ inner'.irqEnabled = inner.irqEnabled := by
  obtain ⟨b, buff | slice⟩ := request
  · exact ⟨_, _, _, submitRequest_read h, rfl, rfl⟩
  · exact ⟨_, _, _, submitRequest_write h, rfl, rfl⟩

theorem pollRequest_irq (queue : RamQueue) (request : RequestId) (inner : RamInner) :
    (queue.pollRequest request inner).2.irqRx = inner.irqRx ∧
      (queue.pollRequest request inner).2.irqEnabled = inner.irqEnabled := by
  unfold RamQueue.pollRequest
  split
  · exact ⟨rfl, rfl⟩
  · split <;> exact ⟨rfl, rfl⟩

/-- The list holds the queues of the history, and each of them has a waker. -/
structure Tracks (wakers : List Nat) (s : IrqSystem) : Prop where
  enabled : s.inner.irqEnabled = true
  ids : ∀ id, id ∈ iterIds s.inner.irqRx ↔ id ∈ s.since
  known : ∀ id ∈ s.since, id ∈ wakers

variable {inner : RamInner}

theorem mem_handle {wakers : List Nat} {id : Nat} :
    id ∈ (handle wakers inner).1 ↔ id ∈ iterIds (handleIrq inner).1 ∧ id ∈ wakers := by
  simp only [handle, List.mem_flatMap, wake]
  constructor
  · rintro ⟨id', hid', hwoken⟩
    split at hwoken
    · obtain rfl := List.mem_singleton.mp hwoken
      exact ⟨hid', ‹_›⟩
    · exact absurd hwoken List.not_mem_nil
  · rintro ⟨hevent, hknown⟩
    exact ⟨id, hevent, by rw [if_pos hknown]; exact List.mem_singleton_self id⟩

namespace Tracks

variable {wakers : List Nat} {s : IrqSystem}

variable (h : Tracks wakers s)

include h

theorem exact : Exact wakers s := by
  intro id
  have hevent : id ∈ iterIds (handleIrq s.inner).1 ↔ id ∈ s.since := by
    unfold handleIrq
    rw [if_pos h.enabled]
    exact h.ids id
  refine ⟨hevent, ?_⟩
  rw [mem_handle, hevent]
  exact ⟨And.left, fun hid => ⟨hid, h.known id hid⟩⟩

theorem frame (hrx : inner.irqRx = s.inner.irqRx) (henabled : inner.irqEnabled = s.inner.irqEnabled) :
    Tracks wakers { s with inner } := by
  refine ⟨henabled.trans h.enabled, ?_, h.known⟩
  intro id
  simp only [hrx]
  exact h.ids id

theorem accept {id : Nat} (hid : id < 64) (hknown : id ∈ wakers) (hrx : inner.irqRx = insertId s.inner.irqRx id)
    (henabled : inner.irqEnabled = s.inner.irqEnabled) : Tracks wakers ⟨inner, id :: s.since⟩ := by
  refine ⟨henabled.trans h.enabled, ?_, ?_⟩
  · intro id'
    simp only [hrx, List.mem_cons]
    rw [mem_iterIds_insertId hid, h.ids id']
  · exact List.forall_mem_cons.mpr ⟨hknown, h.known⟩

theorem irq : Tracks wakers ⟨(handleIrq s.inner).2, []⟩ := by
  unfold handleIrq
  rw [if_pos h.enabled]
  refine ⟨h.enabled, ?_, ?_⟩
  · intro id
    simp only [iterIds_zero]
  · intro id hid
    exact absurd hid List.not_mem_nil

end Tracks

/-- The call does not accept a request on a queue without a bit in the list. -/
def IrqCall.Small : IrqCall → Prop
  | .submit queue request _ => Fits queue.blockSize queue.numBlocks request → queue.id < 64
  | _ => True

theorem irqStep_tracks (overflowChecks : Bool) {wakers : List Nat} {s : IrqSystem} {call : IrqCall}
    (hknown : ∀ queue ∈ call.queue, queue.id ∈ wakers) (hsmall : call.Small) (hs : Tracks wakers s) :
    ∃ t, irqStep overflowChecks s call = some t ∧ Tracks wakers t := by
  cases call with
  | submit queue request memory =>
    by_cases hfits : Fits queue.blockSize queue.numBlocks request
    · obtain ⟨id, inner, memory', heq, hrx, henabled⟩ := submitRequest_accept s.inner memory hfits
      have hid : queue.id < 64 := hsmall hfits
      refine ⟨⟨inner, queue.id :: s.since⟩, ?_, hs.accept hid (hknown queue rfl) hrx henabled⟩
      simp only [irqStep, heq]
      rw [if_neg (by simp [hid])]
    · obtain ⟨e, n, heq⟩ := submitRequest_reject s.inner memory hfits
      refine ⟨{ s with inner := { s.inner with nextReqId := n } }, ?_, hs.frame rfl rfl⟩
      simp only [irqStep, heq]
  | poll queue request =>
    obtain ⟨hrx, henabled⟩ := pollRequest_irq queue request s.inner
    exact ⟨_, rfl, hs.frame hrx henabled⟩
  | handleIrq => exact ⟨_, rfl, hs.irq⟩

theorem irqStep_since {overflowChecks : Bool} {s t : IrqSystem} {queue : RamQueue} {request : Request}
    {memory : Memory} (hfits : Fits queue.blockSize queue.numBlocks request)
    (hstep : irqStep overflowChecks s (.submit queue request memory) = some t) : queue.id ∈ t.since := by
  obtain ⟨id, inner, memory', heq, -, -⟩ := submitRequest_accept s.inner memory hfits
  simp only [irqStep, heq] at hstep
  split at hstep
  · exact absurd hstep (by simp)
  · obtain rfl := Option.some.inj hstep
    exact List.mem_cons_self

/-! ### Runs of a disk -/

section Disk

variable {blockSize numBlocks count : Nat} {disk : RamDisk} {calls : List IrqCall}

/-- The ids of the queues created, under each of which rd-block registers a waker. -/
def wakers (disk : RamDisk) (count : Nat) : List Nat := (createQueues disk count).1.map (·.id)

theorem tracks_start (hdisk : RamDisk.withName blockSize numBlocks = some disk) (count : Nat) :
    Tracks (wakers disk count) ⟨(createQueues disk count).2.inner, []⟩ := by
  unfold RamDisk.withName at hdisk
  split at hdisk
  · obtain rfl := Option.some.inj hdisk
    rw [createQueues_disk]
    refine ⟨rfl, ?_, ?_⟩
    · intro id
      simp only [iterIds_zero]
    · intro id hid
      exact absurd hid List.not_mem_nil
  · exact absurd hdisk (by simp)

theorem irqRun_tracks (overflowChecks : Bool) (hdisk : RamDisk.withName blockSize numBlocks = some disk)
    (hcalls : ∀ call ∈ calls, ∀ queue ∈ call.queue, queue ∈ (createQueues disk count).1)
    (hsmall : ∀ call ∈ calls, call.Small) :
    ∃ s, irqRun overflowChecks (createQueues disk count).2 calls = some s ∧ Tracks (wakers disk count) s := by
  unfold irqRun
  refine Machine.run_returns
    (P := fun call => (∀ queue ∈ call.queue, queue ∈ (createQueues disk count).1) ∧ call.Small)
    ?_ (fun call hcall => ⟨hcalls call hcall, hsmall call hcall⟩) (tracks_start hdisk count)
  rintro s call ⟨hqueue, hcall⟩ hs
  refine irqStep_tracks overflowChecks (fun queue h => ?_) hcall hs
  exact List.mem_map_of_mem (hqueue queue h)

/-- Whatever the number of queues: on the way through the calls no shift panics and each `handle_irq` reports and wakes
the queues that accepted a request since the previous one, exactly if every queue that accepts a request has an id
below 64. -/
theorem irqEvents_exact_iff (overflowChecks : Bool) (hdisk : RamDisk.withName blockSize numBlocks = some disk)
    (hcalls : ∀ call ∈ calls, ∀ queue ∈ call.queue, queue ∈ (createQueues disk count).1) :
    (∀ calls', calls' <+: calls →
      ∃ s, irqRun overflowChecks (createQueues disk count).2 calls' = some s ∧ Exact (wakers disk count) s) ↔
    ∀ queue request memory, .submit queue request memory ∈ calls →
      Fits queue.blockSize queue.numBlocks request → queue.id < 64 := by
  constructor
  · intro hexact queue request memory hmem hfits
    obtain ⟨before, after, rfl⟩ := List.append_of_mem hmem
    obtain ⟨t, hrun, ht⟩ := hexact (before ++ [.submit queue request memory]) ⟨after, by simp⟩
    obtain ⟨s, -, hlast⟩ := Machine.run_append.mp hrun
    obtain ⟨t', hstep, hend⟩ := Machine.run_cons.mp hlast
    obtain rfl := Option.some.inj hend
    -- the request is in the history, so the event has to name its queue
    have hevent := ((ht queue.id).1).mpr (irqStep_since hfits hstep)
    exact (mem_iterIds.mp hevent).1
  · intro hids calls' hpre
    have hsmall : ∀ call ∈ calls', call.Small := by
      intro call hcall
      cases call with
      | submit queue request memory => exact hids queue request memory (hpre.subset hcall)
      | poll queue request => trivial
      | handleIrq => trivial
    obtain ⟨s, hrun, hs⟩ :=
      irqRun_tracks overflowChecks hdisk (fun call hcall => hcalls call (hpre.subset hcall)) hsmall
    exact ⟨s, hrun, hs.exact⟩

/-- Both queues of a disk with two accept a request. -/
theorem irqEvents_exact_iff_two :
    RamDisk.withName 2 2 = some smallDisk ∧
      ∃ s, irqRun true (createQueues smallDisk 2).2
          [.submit ⟨1, 2, 2⟩ ⟨0, .write [7, 8]⟩ fun _ => 0, .submit ⟨0, 2, 2⟩ ⟨1, .write [7, 8]⟩ fun _ => 0] = some s ∧
        Exact (wakers smallDisk 2) s := by
  have hdisk : RamDisk.withName 2 2 = some smallDisk := rfl
  refine ⟨hdisk, (irqEvents_exact_iff true hdisk ?_).mpr ?_ _ List.prefix_rfl⟩
  · simp only [List.forall_mem_cons, IrqCall.queue, Option.mem_def, Option.some.injEq, forall_eq']
    exact ⟨by decide, by decide, fun _ h => absurd h List.not_mem_nil⟩
  · intro queue request memory hmem hfits
    simp only [List.mem_cons, IrqCall.submit.injEq, List.not_mem_nil, or_false] at hmem
    obtain ⟨rfl, -⟩ | ⟨rfl, -⟩ := hmem
    · decide
    · decide

/-- The 65th queue accepts a request: a checked shift panics, and without checks the first queue is woken in its
place. -/
theorem irqEvents_not_exact :
    RamDisk.withName 2 2 = some smallDisk ∧ (⟨64, 2, 2⟩ : RamQueue) ∈ (createQueues smallDisk 65).1 ∧
      Fits 2 2 ⟨1, .write [7, 8]⟩ ∧
      (irqRun true (createQueues smallDisk 65).2 [.submit ⟨64, 2, 2⟩ ⟨1, .write [7, 8]⟩ fun _ => 0]).isNone ∧
      (irqRun false (createQueues smallDisk 65).2 [.submit ⟨64, 2, 2⟩ ⟨1, .write [7, 8]⟩ fun _ => 0]).map
          (fun s => (s.since, iterIds (handleIrq s.inner).1, (handle (wakers smallDisk 65) s.inner).1)) =
        some ([64], [0], [0]) := by
  refine ⟨rfl, by decide +kernel, ⟨by decide, rfl⟩, by decide +kernel, by decide +kernel⟩

end Disk

end Sparreal.Ram
