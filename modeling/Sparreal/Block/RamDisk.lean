import Sparreal.Block.Future
import Sparreal.Lib.Blocks

/-!
# The RAM disk

`RamDisk` and `RamQueue` of `ramdisk/src/lib.rs`. All queues of a disk share one `RamInner` behind a mutex, so calls
run one after the other. A request is carried out when it is submitted; what is left for `poll_request` is one
completion for each accepted request. `Faithful` ties the shared state to the history of calls: block by block the
storage is what was written last, and the completions still to be collected are the accepted requests less those
collected. It is kept by every call (`faithful_step`), so it holds after every run.

A request number is a `usize` that is counted up for every request in range, rejected ones included, and wraps.
-/

namespace Sparreal.Ram

open Sparreal.Block Blocks

abbrev Memory : Type := Nat → UInt8

structure RamInner where
  storage : List UInt8
  completedReads : List RequestId
  completedWrites : List RequestId
  irqRx : BitVec 64
  irqEnabled : Bool
  nextReqId : Nat
  nextQueueId : Nat

/-- `RamDisk`, with the shared state it points to. -/
structure RamDisk where
  blockSize : Nat
  numBlocks : Nat
  inner : RamInner

structure RamQueue where
  id : Nat
  blockSize : Nat
  numBlocks : Nat
  deriving DecidableEq, Repr

/-- What `with_name` fills the block with. -/
def initialBlock (blockSize i : Nat) : List UInt8 := List.replicate blockSize (UInt8.ofNat i)

/-- `RamDisk::with_name`; `none` is the failed assertion. -/
def RamDisk.withName (blockSize numBlocks : Nat) : Option RamDisk :=
  if blockSize > 0 then
    some
      { blockSize := blockSize
        numBlocks := numBlocks
        inner :=
          { storage := (List.range numBlocks).flatMap (initialBlock blockSize)
            completedReads := []
            completedWrites := []
            irqRx := 0
            irqEnabled := true
            nextReqId := 1
            nextQueueId := 0 } }
  else none

def RamDisk.createQueue (disk : RamDisk) : RamQueue × RamDisk :=
  (⟨disk.inner.nextQueueId, disk.blockSize, disk.numBlocks⟩,
    { disk with inner := { disk.inner with nextQueueId := disk.inner.nextQueueId + 1 } })

/-- `IdList::insert`, as it is compiled without overflow checks: the shift takes the id modulo 64. -/
def insertId (list : BitVec 64) (id : Nat) : BitVec 64 := list ||| 1#64 <<< (id % 64)

/-- `copy_nonoverlapping` into memory. -/
def copyTo (bytes : List UInt8) (virt : Nat) (memory : Memory) : Memory := fun a =>
  if virt ≤ a ∧ a < virt + bytes.length then bytes.getD (a - virt) 0 else memory a

namespace RamQueue

def submitRequest (queue : RamQueue) (request : Request) (state : RamInner × Memory) :
    Except BlkError RequestId × (RamInner × Memory) :=
  let (inner, memory) := state
  let blockId := request.blockId
  if blockId ≥ queue.numBlocks then (.error (.invalidBlockIndex blockId), state)
  else
    let reqId : RequestId := ⟨inner.nextReqId⟩
    let inner := { inner with nextReqId := (inner.nextReqId + 1) % 2 ^ 64 }
    let offset := blockId * queue.blockSize
    match request.kind with
    | .read buff =>
      if buff.size < queue.blockSize then (.error .notSupported, (inner, memory))
      else
        let memory := copyTo ((inner.storage.drop offset).take queue.blockSize) buff.virt memory
        let inner := { inner with completedReads := inner.completedReads ++ [reqId] }
        (.ok reqId, ({ inner with irqRx := insertId inner.irqRx queue.id }, memory))
    | .write slice =>
      if slice.length ≠ queue.blockSize then (.error .notSupported, (inner, memory))
      else
        let inner := { inner with storage := splice inner.storage offset slice }
        let inner := { inner with completedWrites := inner.completedWrites ++ [reqId] }
        (.ok reqId, ({ inner with irqRx := insertId inner.irqRx queue.id }, memory))

def pollRequest (_queue : RamQueue) (request : RequestId) (inner : RamInner) : Except BlkError Unit × RamInner :=
  if request ∈ inner.completedReads then
    (.ok (), { inner with completedReads := inner.completedReads.erase request })
  else if request ∈ inner.completedWrites then
    (.ok (), { inner with completedWrites := inner.completedWrites.erase request })
  else (.error .retry, inner)

end RamQueue

/-! ### Runs -/

/-- A call on one of the queues. A caller may do anything to its memory between calls, so a submission brings
the memory it meets. -/
inductive Call
  | submit (queue : RamQueue) (request : Request) (memory : Memory)
  | poll (queue : RamQueue) (request : RequestId)

def Call.queue : Call → RamQueue
  | .submit queue _ _ => queue
  | .poll queue _ => queue

inductive Entry
  | submitted (request : Request) (answer : Except BlkError RequestId)
  | polled (request : RequestId) (answer : Except BlkError Unit)

/-- The shared state and the history of calls, newest first. -/
structure System where
  inner : RamInner
  log : List Entry

def step (s : System) : Call → System
  | .submit queue request memory =>
    let (answer, (inner, _)) := queue.submitRequest request (s.inner, memory)
    ⟨inner, .submitted request answer :: s.log⟩
  | .poll queue request =>
    let (answer, inner) := queue.pollRequest request s.inner
    ⟨inner, .polled request answer :: s.log⟩

def run (disk : RamDisk) (calls : List Call) : System := calls.foldl step ⟨disk.inner, []⟩

/-- The queues of a disk, after `count` calls of `create_queue`. -/
def createQueues (disk : RamDisk) : Nat → List RamQueue × RamDisk
  | 0 => ([], disk)
  | count + 1 =>
    let (queues, disk) := createQueues disk count
    let (queue, disk) := disk.createQueue
    (queues ++ [queue], disk)

/-! ### What the history says -/

def lastWrite (blockSize : Nat) : List Entry → Nat → List UInt8
  | [], b => initialBlock blockSize b
  | .submitted ⟨b', .write data⟩ (.ok _) :: log, b => if b' = b then data else lastWrite blockSize log b
  | _ :: log, b => lastWrite blockSize log b

def accepted (log : List Entry) (id : RequestId) : Nat :=
  log.countP fun
    | .submitted _ (.ok id') => id' == id
    | _ => false

/-- How often `poll_request` answered `Ok` for the number. -/
def collected (log : List Entry) (id : RequestId) : Nat :=
  log.countP fun
    | .polled id' (.ok _) => id' == id
    | _ => false

def Fits (blockSize numBlocks : Nat) (request : Request) : Prop :=
  request.blockId < numBlocks ∧
    match request.kind with
    | .read buff => blockSize ≤ buff.size
    | .write slice => slice.length = blockSize

def bytesAt (memory : Memory) (virt count : Nat) : List UInt8 := (List.range count).map fun i => memory (virt + i)

/-- What an answered submission must have done. An accepted read has brought the data of the last accepted write
and changed no block; an accepted write has changed its own block; a rejected request has changed neither a block
nor a completion nor memory. -/
def Outcome (blockSize numBlocks : Nat) (s : System) (request : Request) (memory : Memory) :
    Except BlkError RequestId × (RamInner × Memory) → Prop
  | (.ok _, (inner, memory')) =>
    Fits blockSize numBlocks request ∧
      (∀ b, b ≠ request.blockId → block blockSize inner.storage b = block blockSize s.inner.storage b) ∧
      match request.kind with
      | .read buff =>
        bytesAt memory' buff.virt blockSize = lastWrite blockSize s.log request.blockId ∧
          inner.storage = s.inner.storage
      | .write data => block blockSize inner.storage request.blockId = data
  | (.error _, (inner, memory')) =>
    ¬ Fits blockSize numBlocks request ∧ inner.storage = s.inner.storage ∧
      inner.completedReads = s.inner.completedReads ∧ inner.completedWrites = s.inner.completedWrites ∧
      memory' = memory

/-! ### What a submission does -/

section Submit

variable {queue : RamQueue} {request : Request} {inner : RamInner} {memory : Memory}

theorem submitRequest_reject (inner : RamInner) (memory : Memory)
    (h : ¬ Fits queue.blockSize queue.numBlocks request) :
    ∃ e n, queue.submitRequest request (inner, memory) = (.error e, ({ inner with nextReqId := n }, memory)) := by
  by_cases hrange : request.blockId < queue.numBlocks
  · obtain ⟨blockId, buff | slice⟩ := request
    · have hsize : buff.size < queue.blockSize := by
        by_contra hsize
        exact h ⟨hrange, Nat.le_of_not_lt hsize⟩
      refine ⟨.notSupported, (inner.nextReqId + 1) % 2 ^ 64, ?_⟩
      simp only [RamQueue.submitRequest]
      rw [if_neg (by simpa using hrange), if_pos hsize]
    · have hsize : slice.length ≠ queue.blockSize := fun hsize => h ⟨hrange, hsize⟩
      refine ⟨.notSupported, (inner.nextReqId + 1) % 2 ^ 64, ?_⟩
      simp only [RamQueue.submitRequest]
      rw [if_neg (by simpa using hrange), if_pos hsize]
  · refine ⟨.invalidBlockIndex request.blockId, inner.nextReqId, ?_⟩
    simp only [RamQueue.submitRequest]
    rw [if_pos (by omega)]

/-- The shared state after an accepted request. -/
def taken (queue : RamQueue) (inner : RamInner) : RamInner :=
  { inner with
    nextReqId := (inner.nextReqId + 1) % 2 ^ 64
    irqRx := insertId inner.irqRx queue.id }

theorem submitRequest_read {b : Nat} {buff : Buffer} (h : Fits queue.blockSize queue.numBlocks ⟨b, .read buff⟩) :
    queue.submitRequest ⟨b, .read buff⟩ (inner, memory) =
      (.ok ⟨inner.nextReqId⟩,
        ({ taken queue inner with completedReads := inner.completedReads ++ [⟨inner.nextReqId⟩] },
          copyTo (block queue.blockSize inner.storage b) buff.virt memory)) := by
  obtain ⟨hrange, hsize⟩ := h
  have hnot : ¬ buff.size < queue.blockSize := Nat.not_lt.mpr hsize
  simp only [RamQueue.submitRequest]
  rw [if_neg (by simpa using hrange), if_neg hnot]
  rfl

theorem submitRequest_write {b : Nat} {slice : List UInt8}
    (h : Fits queue.blockSize queue.numBlocks ⟨b, .write slice⟩) :
    queue.submitRequest ⟨b, .write slice⟩ (inner, memory) =
      (.ok ⟨inner.nextReqId⟩,
        ({ taken queue inner with
            storage := splice inner.storage (b * queue.blockSize) slice
            completedWrites := inner.completedWrites ++ [⟨inner.nextReqId⟩] },
          memory)) := by
  obtain ⟨hrange, hsize⟩ := h
  have hnot : ¬ slice.length ≠ queue.blockSize := not_not.mpr hsize
  simp only [RamQueue.submitRequest]
  rw [if_neg (by simpa using hrange), if_neg hnot]
  rfl

end Submit

theorem bytesAt_copyTo (bytes : List UInt8) (virt : Nat) (memory : Memory) :
    bytesAt (copyTo bytes virt memory) virt bytes.length = bytes := by
  apply List.ext_getElem
  · simp [bytesAt]
  · intro i hi hlt
    simp [bytesAt, copyTo, hlt]

/-! ### The history and the state -/

/-- The state is what the history says. -/
structure Faithful (blockSize numBlocks : Nat) (s : System) : Prop where
  length : s.inner.storage.length = numBlocks * blockSize
  data : ∀ b, b < numBlocks → block blockSize s.inner.storage b = lastWrite blockSize s.log b
  count : ∀ id, accepted s.log id =
    collected s.log id + (s.inner.completedReads.count id + s.inner.completedWrites.count id)

section Accounts

variable {log : List Entry} {id id' : RequestId} {request : Request}

@[simp] theorem accepted_ok :
    accepted (.submitted request (.ok id') :: log) id = accepted log id + if id' = id then 1 else 0 := by
  simp [accepted, List.countP_cons]

@[simp] theorem accepted_error {e : BlkError} : accepted (.submitted request (.error e) :: log) id = accepted log id := by
  simp [accepted]

@[simp] theorem accepted_polled {answer : Except BlkError Unit} :
    accepted (.polled id' answer :: log) id = accepted log id := by
  simp [accepted]

@[simp] theorem collected_submitted {answer : Except BlkError RequestId} :
    collected (.submitted request answer :: log) id = collected log id := by
  simp [collected]

@[simp] theorem collected_ok :
    collected (.polled id' (.ok ()) :: log) id = collected log id + if id' = id then 1 else 0 := by
  simp [collected, List.countP_cons]

@[simp] theorem collected_error {e : BlkError} : collected (.polled id' (.error e) :: log) id = collected log id := by
  simp [collected]

@[simp] theorem lastWrite_error {blockSize b : Nat} {e : BlkError} :
    lastWrite blockSize (.submitted request (.error e) :: log) b = lastWrite blockSize log b := by
  obtain ⟨blockId, buff | slice⟩ := request <;> rfl

theorem count_erase_add {l : List RequestId} (h : id' ∈ l) (id : RequestId) :
    l.count id = (l.erase id').count id + if id' = id then 1 else 0 := by
  have hpos := List.count_pos_iff.mpr h
  rw [List.count_erase]
  by_cases heq : id' = id
  · subst heq
    simp only [beq_self_eq_true, if_true]
    omega
  · simp [heq]

end Accounts

variable {queue : RamQueue}

section Step

variable {blockSize numBlocks : Nat} {s : System}

theorem faithful_submit (hs : Faithful queue.blockSize queue.numBlocks s) (request : Request) (memory : Memory) :
    Faithful queue.blockSize queue.numBlocks (step s (.submit queue request memory)) := by
  by_cases hfits : Fits queue.blockSize queue.numBlocks request
  · obtain ⟨b, buff | slice⟩ := request
    · simp only [step, submitRequest_read hfits]
      refine ⟨hs.length, hs.data, ?_⟩
      intro id
      have hcount := hs.count id
      simp only [accepted_ok, collected_submitted, taken, List.count_append, List.count_singleton, beq_iff_eq]
      omega
    · simp only [step, submitRequest_write hfits]
      obtain ⟨(hb : b < queue.numBlocks), hslice⟩ := hfits
      have hend := end_le queue.blockSize hb
      have hlength := hs.length
      refine ⟨?_, ?_, ?_⟩
      · simp only
        rw [length_splice (by omega), hlength]
      · intro b' hb'
        simp only [lastWrite]
        by_cases hsame : b = b'
        · subst hsame
          rw [if_pos rfl, block_splice_self hlength hb hslice]
        · rw [if_neg hsame, block_splice_of_ne hlength hb hslice (Ne.symm hsame), hs.data b' hb']
      · intro id
        have hcount := hs.count id
        simp only [accepted_ok, collected_submitted, taken, List.count_append, List.count_singleton, beq_iff_eq]
        omega
  · obtain ⟨e, n, heq⟩ := submitRequest_reject s.inner memory hfits
    simp only [step, heq]
    exact ⟨hs.length, fun b hb => by simpa using hs.data b hb, fun id => by simpa using hs.count id⟩

theorem faithful_poll (hs : Faithful blockSize numBlocks s) (queue : RamQueue) (request : RequestId) :
    Faithful blockSize numBlocks (step s (.poll queue request)) := by
  by_cases hread : request ∈ s.inner.completedReads
  · simp only [step, RamQueue.pollRequest, if_pos hread]
    refine ⟨hs.length, hs.data, ?_⟩
    intro id
    have hcount := hs.count id
    have herase := count_erase_add hread id
    simp only [accepted_polled, collected_ok]
    omega
  · by_cases hwrite : request ∈ s.inner.completedWrites
    · simp only [step, RamQueue.pollRequest, if_neg hread, if_pos hwrite]
      refine ⟨hs.length, hs.data, ?_⟩
      intro id
      have hcount := hs.count id
      have herase := count_erase_add hwrite id
      simp only [accepted_polled, collected_ok]
      omega
    · simp only [step, RamQueue.pollRequest, if_neg hread, if_neg hwrite]
      exact ⟨hs.length, hs.data, fun id => by simpa using hs.count id⟩

theorem outcome_submit (hs : Faithful queue.blockSize queue.numBlocks s) (request : Request) (memory : Memory) :
    Outcome queue.blockSize queue.numBlocks s request memory (queue.submitRequest request (s.inner, memory)) := by
  by_cases hfits : Fits queue.blockSize queue.numBlocks request
  · obtain ⟨b, buff | slice⟩ := request
    · rw [submitRequest_read hfits]
      refine ⟨hfits, fun _ _ => rfl, ?_, rfl⟩
      have hlength := length_block hs.length hfits.1
      have hcopied := bytesAt_copyTo (block queue.blockSize s.inner.storage b) buff.virt memory
      rw [hlength] at hcopied
      rw [hcopied]
      exact hs.data b hfits.1
    · rw [submitRequest_write hfits]
      refine ⟨hfits, ?_, block_splice_self hs.length hfits.1 hfits.2⟩
      intro b' hne
      exact block_splice_of_ne hs.length hfits.1 hfits.2 hne
  · obtain ⟨e, n, heq⟩ := submitRequest_reject s.inner memory hfits
    rw [heq]
    exact ⟨hfits, rfl, rfl, rfl, rfl⟩

theorem pollRequest_answer (hs : Faithful blockSize numBlocks s) (queue : RamQueue) (id : RequestId) :
    (queue.pollRequest id s.inner).1 =
      if collected s.log id < accepted s.log id then .ok () else .error .retry := by
  have hcount := hs.count id
  unfold RamQueue.pollRequest
  by_cases hread : id ∈ s.inner.completedReads
  · have := List.count_pos_iff.mpr hread
    rw [if_pos hread, if_pos (by omega)]
  · have hnoRead := List.count_eq_zero.mpr hread
    by_cases hwrite : id ∈ s.inner.completedWrites
    · have := List.count_pos_iff.mpr hwrite
      rw [if_neg hread, if_pos hwrite, if_pos (by omega)]
    · have hnoWrite := List.count_eq_zero.mpr hwrite
      rw [if_neg hread, if_neg hwrite, if_neg (by omega)]

theorem faithful_step (hs : Faithful blockSize numBlocks s) {call : Call}
    (hcall : call.queue.blockSize = blockSize ∧ call.queue.numBlocks = numBlocks) :
    Faithful blockSize numBlocks (step s call) := by
  obtain ⟨rfl, rfl⟩ := hcall
  cases call with
  | submit queue request memory => exact faithful_submit hs request memory
  | poll queue request => exact faithful_poll hs queue request

theorem faithful_foldl {calls : List Call}
    (hcalls : ∀ call ∈ calls, call.queue.blockSize = blockSize ∧ call.queue.numBlocks = numBlocks)
    (hs : Faithful blockSize numBlocks s) : Faithful blockSize numBlocks (calls.foldl step s) := by
  induction calls generalizing s with
  | nil => exact hs
  | cons call calls ih =>
    obtain ⟨hcall, hcalls⟩ := List.forall_mem_cons.mp hcalls
    exact ih hcalls (faithful_step hs hcall)

end Step

/-! ### Request numbers -/

/-- No number has been given out twice, and the next one is above all of them. -/
structure Numbered (s : System) : Prop where
  next : s.inner.nextReqId ≤ s.log.length + 1
  below : ∀ id, 0 < accepted s.log id → id.id < s.inner.nextReqId
  once : ∀ id, accepted s.log id ≤ 1

theorem submitRequest_number (queue : RamQueue) (request : Request) (inner : RamInner) (memory : Memory) :
    ((queue.submitRequest request (inner, memory)).2.1.nextReqId = inner.nextReqId ∧
        ∃ e, (queue.submitRequest request (inner, memory)).1 = .error e) ∨
      ((queue.submitRequest request (inner, memory)).2.1.nextReqId = (inner.nextReqId + 1) % 2 ^ 64 ∧
        ((∃ e, (queue.submitRequest request (inner, memory)).1 = .error e) ∨
          (queue.submitRequest request (inner, memory)).1 = .ok ⟨inner.nextReqId⟩)) := by
  obtain ⟨b, buff | slice⟩ := request <;>
  · simp only [RamQueue.submitRequest]
    split
    · exact .inl ⟨rfl, _, rfl⟩
    · split
      · exact .inr ⟨rfl, .inl ⟨_, rfl⟩⟩
      · exact .inr ⟨rfl, .inr rfl⟩

theorem pollRequest_number (queue : RamQueue) (request : RequestId) (inner : RamInner) :
    (queue.pollRequest request inner).2.nextReqId = inner.nextReqId := by
  unfold RamQueue.pollRequest
  split
  · rfl
  · split <;> rfl

theorem numbered_step {s : System} (hs : Numbered s) (hroom : s.log.length + 2 < 2 ^ 64) (call : Call) :
    Numbered (step s call) := by
  obtain ⟨hnext, hbelow, honce⟩ := hs
  cases call with
  | poll queue request =>
    have hnumber := pollRequest_number queue request s.inner
    refine ⟨?_, fun id => ?_, fun id => ?_⟩
    · simp only [step, List.length_cons]
      omega
    · simp only [step, accepted_polled, hnumber]
      exact hbelow id
    · simp only [step, accepted_polled]
      exact honce id
  | submit queue request memory =>
    have hwrap : (s.inner.nextReqId + 1) % 2 ^ 64 = s.inner.nextReqId + 1 := Nat.mod_eq_of_lt (by omega)
    rcases submitRequest_number queue request s.inner memory with
      ⟨hnumber, e, hanswer⟩ | ⟨hnumber, ⟨e, hanswer⟩ | hanswer⟩
    · refine ⟨?_, fun id => ?_, fun id => ?_⟩ <;> simp only [step, List.length_cons, hanswer, hnumber, accepted_error]
      · omega
      · exact hbelow id
      · exact honce id
    · refine ⟨?_, fun id => ?_, fun id => ?_⟩ <;>
        simp only [step, List.length_cons, hanswer, hnumber, hwrap, accepted_error]
      · omega
      · exact fun h => Nat.lt_succ_of_lt (hbelow id h)
      · exact honce id
    · -- the number that is given out was not given out before: it is not below itself
      have hnew : accepted s.log ⟨s.inner.nextReqId⟩ = 0 := by
        by_contra hpos
        exact Nat.lt_irrefl _ (hbelow _ (Nat.pos_of_ne_zero hpos))
      refine ⟨?_, fun id => ?_, fun id => ?_⟩ <;>
        simp only [step, List.length_cons, hanswer, hnumber, hwrap, accepted_ok]
      · omega
      · intro h
        by_cases hid : (⟨s.inner.nextReqId⟩ : RequestId) = id
        · rw [← hid]
          exact Nat.lt_succ_self _
        · rw [if_neg hid] at h
          exact Nat.lt_succ_of_lt (hbelow id h)
      · by_cases hid : (⟨s.inner.nextReqId⟩ : RequestId) = id
        · rw [if_pos hid, ← hid, hnew]
        · rw [if_neg hid]
          exact honce id

theorem length_step (s : System) (call : Call) : (step s call).log.length = s.log.length + 1 := by
  cases call <;> rfl

theorem numbered_foldl {calls : List Call} {s : System} (hs : Numbered s)
    (hroom : s.log.length + calls.length + 1 < 2 ^ 64) : Numbered (calls.foldl step s) := by
  induction calls generalizing s with
  | nil => exact hs
  | cons call calls ih =>
    rw [List.length_cons] at hroom
    refine ih (numbered_step hs (by omega) call) ?_
    rw [length_step]
    omega

/-! ### Runs of a disk -/

section Disk

variable {blockSize numBlocks : Nat} {disk : RamDisk}

theorem createQueues_disk (disk : RamDisk) (count : Nat) :
    (createQueues disk count).2 =
      { disk with inner := { disk.inner with nextQueueId := disk.inner.nextQueueId + count } } := by
  induction count with
  | zero => rfl
  | succ count ih => simp [createQueues, RamDisk.createQueue, ih, Nat.add_assoc]

theorem mem_createQueues {count : Nat} (h : queue ∈ (createQueues disk count).1) :
    queue.blockSize = disk.blockSize ∧ queue.numBlocks = disk.numBlocks ∧
      queue.id < disk.inner.nextQueueId + count := by
  induction count with
  | zero => simp [createQueues] at h
  | succ count ih =>
    simp only [createQueues, RamDisk.createQueue, List.mem_append, List.mem_singleton] at h
    rcases h with h | rfl
    · obtain ⟨hsize, hblocks, hid⟩ := ih h
      exact ⟨hsize, hblocks, by omega⟩
    · rw [createQueues_disk]
      exact ⟨rfl, rfl, by simp⟩

theorem withName_eq (hdisk : RamDisk.withName blockSize numBlocks = some disk) :
    disk.blockSize = blockSize ∧ disk.numBlocks = numBlocks ∧
      disk.inner.storage = (List.range numBlocks).flatMap (initialBlock blockSize) ∧
      disk.inner.completedReads = [] ∧ disk.inner.completedWrites = [] ∧
      disk.inner.nextReqId = 1 ∧ disk.inner.nextQueueId = 0 := by
  unfold RamDisk.withName at hdisk
  split at hdisk
  · obtain rfl := Option.some.inj hdisk
    exact ⟨rfl, rfl, rfl, rfl, rfl, rfl, rfl⟩
  · exact absurd hdisk (by simp)

theorem faithful_start (hdisk : RamDisk.withName blockSize numBlocks = some disk) (n : Nat) :
    Faithful blockSize numBlocks ⟨{ disk.inner with nextQueueId := n }, []⟩ := by
  obtain ⟨-, -, hstorage, hreads, hwrites, -, -⟩ := withName_eq hdisk
  have hfill : ∀ i, (initialBlock blockSize i).length = blockSize := fun i => List.length_replicate
  refine ⟨?_, ?_, ?_⟩
  · simp only [hstorage, length_flatMap hfill]
  · intro b hb
    simp only [hstorage, lastWrite]
    exact block_flatMap hfill hb
  · intro id
    simp [hreads, hwrites, accepted, collected]

/-- The disk behaves as a block store that takes one call at a time, whatever the calls and whatever queue each
is made on. -/
theorem linearizable {count : Nat} (hdisk : RamDisk.withName blockSize numBlocks = some disk) (hcount : count ≤ 64)
    {calls : List Call} (hcalls : ∀ call ∈ calls, call.queue ∈ (createQueues disk count).1) {s : System}
    (hrun : run (createQueues disk count).2 calls = s) :
    (∀ queue ∈ (createQueues disk count).1, queue.id < 64 ∧
      (∀ request memory,
        Outcome blockSize numBlocks s request memory (queue.submitRequest request (s.inner, memory))) ∧
      ∀ id, (queue.pollRequest id s.inner).1 =
        if collected s.log id < accepted s.log id then .ok () else .error .retry) ∧
    (∀ id, collected s.log id ≤ accepted s.log id) ∧
    (calls.length + 1 < 2 ^ 64 → ∀ id, accepted s.log id ≤ 1) := by
  obtain ⟨rfl, rfl, -, -, -, hfirst, hqueues⟩ := withName_eq hdisk
  have hgeometry : ∀ call ∈ calls, call.queue.blockSize = disk.blockSize ∧ call.queue.numBlocks = disk.numBlocks := by
    intro call hcall
    obtain ⟨hsize, hblocks, -⟩ := mem_createQueues (hcalls call hcall)
    exact ⟨hsize, hblocks⟩
  unfold run at hrun
  rw [createQueues_disk] at hrun
  have hfaithful : Faithful disk.blockSize disk.numBlocks s := hrun ▸ faithful_foldl hgeometry (faithful_start hdisk _)
  refine ⟨?_, ?_, ?_⟩
  · intro queue hqueue
    obtain ⟨hsize, hblocks, hid⟩ := mem_createQueues hqueue
    refine ⟨by omega, ?_, pollRequest_answer hfaithful queue⟩
    rw [← hsize, ← hblocks] at hfaithful ⊢
    exact outcome_submit hfaithful
  · intro id
    have := hfaithful.count id
    omega
  · intro hroom
    rw [← hrun]
    refine (numbered_foldl ⟨Nat.le_of_eq hfirst, ?_, ?_⟩ ?_).once
    · simp [accepted]
    · simp [accepted]
    · simpa using hroom

/-- The shared state of a disk of two blocks of two bytes. -/
def smallInner : RamInner := ⟨[0, 0, 1, 1], [], [], 0, true, 1, 0⟩

def smallDisk : RamDisk := ⟨2, 2, smallInner⟩

def smallQueue : RamQueue := ⟨0, 2, 2⟩

/-- After `[7, 8]` is written to block 1 it is read there, and the write is collected once. -/
theorem linearizable_small :
    RamDisk.withName 2 2 = some smallDisk ∧ smallQueue ∈ (createQueues smallDisk 1).1 ∧
      Outcome 2 2 (run (createQueues smallDisk 1).2 [.submit smallQueue ⟨1, .write [7, 8]⟩ fun _ => 0])
        ⟨1, .read ⟨100, 100, 2⟩⟩ (fun _ => 0)
        (smallQueue.submitRequest ⟨1, .read ⟨100, 100, 2⟩⟩
          ((run (createQueues smallDisk 1).2 [.submit smallQueue ⟨1, .write [7, 8]⟩ fun _ => 0]).inner, fun _ => 0)) ∧
      accepted (run (createQueues smallDisk 1).2 [.submit smallQueue ⟨1, .write [7, 8]⟩ fun _ => 0]).log ⟨1⟩ ≤ 1 := by
  have hdisk : RamDisk.withName 2 2 = some smallDisk := rfl
  have hqueue : smallQueue ∈ (createQueues smallDisk 1).1 := by decide
  have hcalls : ∀ call ∈ [Call.submit smallQueue ⟨1, .write [7, 8]⟩ fun _ => 0],
      call.queue ∈ (createQueues smallDisk 1).1 := by
    intro call hcall
    rw [List.mem_singleton.mp hcall]
    exact hqueue
  obtain ⟨hqueues, -, honce⟩ := linearizable hdisk (by decide) hcalls rfl
  exact ⟨hdisk, hqueue, (hqueues smallQueue hqueue).2.1 _ _, honce (by decide) ⟨1⟩⟩

end Disk

end Sparreal.Ram
