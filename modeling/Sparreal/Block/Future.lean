import Mathlib.Logic.Relation
import Sparreal.Lib.Exec
import Sparreal.Lib.SortedMap
import Sparreal.Dma.Buffers

/-!
# Futures over a block queue

`ReadFuture` and `WriteFuture` of `rd-block/src/lib.rs`, over any `IQueue`. A poll goes over the blocks and submits
those that have neither a request nor a result, then over the requests that have no result, and at last takes the
results out in the order of the blocks; `Retry` ends it at any point of the first two loops. The two futures differ
in where the data of a block is (`Transfer`). The calls of the queue are recorded beside the fields of the source.
-/

namespace Sparreal.Block

open Dma (DeviceDma DmaOp World DCommon Pool DmaError Fault)

/-! ### The queue -/

/-- `BlkError`. What `Other` holds is a text or an error of a DMA allocation. -/
inductive BlkError where
  | notSupported
  | retry
  | noMemory
  | invalidBlockIndex (index : Nat)
  | other (message : String)
  | otherDma (e : DmaError)
  deriving DecidableEq, Repr

/-- `From<DmaError> for BlkError`. -/
def BlkError.ofDmaError : DmaError → BlkError
  | .noMemory => .noMemory
  | e => .otherDma e

structure RequestId where
  id : Nat
  deriving DecidableEq, Repr

structure Buffer where
  virt : Nat
  bus : Nat
  size : Nat
  deriving DecidableEq, Repr

inductive RequestKind where
  | read (buffer : Buffer)
  | write (data : List UInt8)
  deriving DecidableEq, Repr

structure Request where
  blockId : Nat
  kind : RequestKind
  deriving DecidableEq, Repr

structure BuffConfig where
  dmaMask : Nat
  align : Nat
  size : Nat
  deriving DecidableEq, Repr

/-- `IQueue`, over the state `ι` of what is behind it. -/
structure IQueue (ι : Type) where
  blockSize : ι → Nat
  buffConfig : ι → BuffConfig
  submitRequest : ι → Request → Except BlkError RequestId × ι
  pollRequest : ι → RequestId → Except BlkError Unit × ι

structure CmdQueue (ι σ : Type) where
  interface : ι
  pool : Pool σ

variable {ι σ ω β γ ρ : Type}

/-- `Block::create_queue_with_capacity`, for a queue of the interface. -/
def createQueueWithCapacity (os : DmaOp σ) (hw : IQueue ι) (interface : ι) (capacity : Nat) (w : World σ) :
    Option (CmdQueue ι σ) :=
  let config := hw.buffConfig interface
  (Dma.Layout.fromSizeAlign config.size config.align).map fun layout =>
    ⟨interface, Dma.newPool ⟨os, config.dmaMask⟩ layout .fromDevice capacity w⟩

/-! ### Polling -/

/-- Why a poll returns no output: it returns `Pending`, or it panics. -/
inductive Halt where
  | pending
  | panic
  deriving DecidableEq, Repr

/-- A call of the queue, with its answer. A request is known by its block. -/
inductive Call where
  | submit (request : Request) (answer : Except BlkError RequestId)
  | poll (blkId : Nat) (request : RequestId) (answer : Except BlkError Unit)

/-- What reading and writing differ in: `ω` is what is asked for of a block, `β` the buffer of a new request, `γ` what
is kept of it while the device has it, and `ρ` what is returned for a block. -/
structure Transfer (σ ω β γ ρ : Type) where
  blkId : ω → Nat
  alloc : Exec Fault (Pool σ) β
  kind : ω → β → RequestKind
  release : β → Pool σ → Pool σ
  keep : β → γ
  /-- Take the buffer out, if it is there. -/
  take : Nat → γ → Option (ρ × γ)

/-- `ReadFuture` and `WriteFuture`. -/
structure Future (ι σ ω γ ρ : Type) where
  queue : CmdQueue ι σ
  blkLs : List ω
  requested : SortedMap Nat γ := .empty
  map : SortedMap Nat RequestId := .empty
  results : SortedMap Nat (Except BlkError ρ) := .empty
  /-- The calls of the queue, the latest first. -/
  calls : List Call := []

namespace Future

/-- `pool.alloc`. -/
def alloc (T : Transfer σ ω β γ ρ) : Exec Halt (Future ι σ ω γ ρ) (Except BlkError β) := fun f =>
  match T.alloc f.queue.pool with
  | (.ok buff, pool) => (.ok (.ok buff), { f with queue := { f.queue with pool := pool } })
  | (.error (.err e), pool) => (.ok (.error (.ofDmaError e)), { f with queue := { f.queue with pool := pool } })
  | (.error .panic, pool) => (.error .panic, { f with queue := { f.queue with pool := pool } })

def release (T : Transfer σ ω β γ ρ) (buff : β) (f : Future ι σ ω γ ρ) : Future ι σ ω γ ρ :=
  { f with queue := { f.queue with pool := T.release buff f.queue.pool } }

/-- `interface.submit_request`. -/
def submitRequest (hw : IQueue ι) (request : Request) :
    Exec Halt (Future ι σ ω γ ρ) (Except BlkError RequestId) := fun f =>
  let (answer, interface) := hw.submitRequest f.queue.interface request
  (.ok answer, { f with queue := { f.queue with interface := interface }, calls := .submit request answer :: f.calls })

/-- `interface.poll_request`. -/
def pollRequest (hw : IQueue ι) (blkId : Nat) (request : RequestId) :
    Exec Halt (Future ι σ ω γ ρ) (Except BlkError Unit) := fun f =>
  let (answer, interface) := hw.pollRequest f.queue.interface request
  (.ok answer,
    { f with queue := { f.queue with interface := interface }, calls := .poll blkId request answer :: f.calls })

/-- `results.insert`. -/
def record (blkId : Nat) (result : Except BlkError ρ) (f : Future ι σ ω γ ρ) : Future ι σ ω γ ρ :=
  { f with results := f.results.insert blkId result }

/-- A turn of the first loop. -/
def submitBlock (hw : IQueue ι) (T : Transfer σ ω β γ ρ) (blk : ω) : Exec Halt (Future ι σ ω γ ρ) Unit := do
  if ← Exec.gets fun f => f.results.contains (T.blkId blk) then return
  else if ← Exec.gets fun f => f.requested.contains (T.blkId blk) then return
  else
    match ← alloc T with
    | .ok buff =>
      match ← submitRequest hw ⟨T.blkId blk, T.kind blk buff⟩ with
      | .ok reqId =>
        Exec.modify fun f => { f with
          map := f.map.insert (T.blkId blk) reqId
          requested := f.requested.insert (T.blkId blk) (T.keep buff) }
      | .error .retry =>
        Exec.modify (release T buff)
        Exec.throw .pending
      | .error e =>
        Exec.modify (record (T.blkId blk) (.error e))
        Exec.modify (release T buff)
    | .error e => Exec.modify (record (T.blkId blk) (.error e))

/-- A turn of the second loop. -/
def pollBlock (hw : IQueue ι) (T : Transfer σ ω β γ ρ) (blkId : Nat) : Exec Halt (Future ι σ ω γ ρ) Unit := do
  if ← Exec.gets fun f => f.results.contains blkId then return
  else
    match ← Exec.gets fun f => f.map.get blkId with
    | none => Exec.throw .panic
    | some reqId =>
      match ← pollRequest hw blkId reqId with
      | .ok _ =>
        match ← Exec.gets fun f => (f.requested.get blkId).bind (T.take blkId) with
        | none => Exec.throw .panic
        | some (data, left) =>
          Exec.modify fun f => { f with requested := f.requested.insert blkId left }
          Exec.modify (record blkId (.ok data))
      | .error .retry => Exec.throw .pending
      | .error e => Exec.modify (record blkId (.error e))

/-- The last loop. -/
def takeResults (T : Transfer σ ω β γ ρ) : List ω → Exec Halt (Future ι σ ω γ ρ) (List (Except BlkError ρ))
  | [] => pure []
  | blk :: blks => do
    match ← Exec.gets fun f => f.results.get (T.blkId blk) with
    | none => Exec.throw .panic
    | some result =>
      Exec.modify fun f => { f with results := (f.results.remove (T.blkId blk)).2 }
      let out ← takeResults T blks
      return result :: out

def poll (hw : IQueue ι) (T : Transfer σ ω β γ ρ) : Exec Halt (Future ι σ ω γ ρ) (List (Except BlkError ρ)) := do
  (← Exec.gets fun f => f.blkLs).forM (submitBlock hw T)
  (← Exec.gets fun f => f.requested.keys).forM (pollBlock hw T)
  takeResults T (← Exec.gets fun f => f.blkLs)

/-- Polls that return `Pending`, one after the other. -/
def Waits (hw : IQueue ι) (T : Transfer σ ω β γ ρ) : Future ι σ ω γ ρ → Future ι σ ω γ ρ → Prop :=
  Relation.ReflTransGen fun f f' => poll hw T f = (.error .pending, f')

/-! ### What a turn does -/

section Turns

variable {hw : IQueue ι} {T : Transfer σ ω β γ ρ} {f : Future ι σ ω γ ρ}

def New (f : Future ι σ ω γ ρ) (blkId : Nat) : Prop := f.results.get blkId = none ∧ f.requested.get blkId = none

def withPool (f : Future ι σ ω γ ρ) (pool : Pool σ) : Future ι σ ω γ ρ :=
  { f with queue := { f.queue with pool := pool } }

def called (f : Future ι σ ω γ ρ) (interface : ι) (call : Call) : Future ι σ ω γ ρ :=
  { f with queue := { f.queue with interface := interface }, calls := call :: f.calls }

/-- What a turn of the first loop can come to. -/
inductive SubmitTurn (hw : IQueue ι) (T : Transfer σ ω β γ ρ) (blk : ω) (f : Future ι σ ω γ ρ) :
    Except Halt Unit → Future ι σ ω γ ρ → Prop where
  | skip (hold : ¬ f.New (T.blkId blk)) : SubmitTurn hw T blk f (.ok ()) f
  | panic {pool} (hnew : f.New (T.blkId blk)) (halloc : T.alloc f.queue.pool = (.error .panic, pool)) :
    SubmitTurn hw T blk f (.error .panic) (f.withPool pool)
  | noBuffer {e pool} (hnew : f.New (T.blkId blk)) (halloc : T.alloc f.queue.pool = (.error (.err e), pool)) :
    SubmitTurn hw T blk f (.ok ()) (record (T.blkId blk) (.error (.ofDmaError e)) (f.withPool pool))
  | accepted {buff pool reqId i} (hnew : f.New (T.blkId blk)) (halloc : T.alloc f.queue.pool = (.ok buff, pool))
    (hsubmit : hw.submitRequest f.queue.interface ⟨T.blkId blk, T.kind blk buff⟩ = (.ok reqId, i)) :
    SubmitTurn hw T blk f (.ok ()) { (f.withPool pool).called i (.submit ⟨T.blkId blk, T.kind blk buff⟩ (.ok reqId)) with
      map := f.map.insert (T.blkId blk) reqId
      requested := f.requested.insert (T.blkId blk) (T.keep buff) }
  | retry {buff pool i} (hnew : f.New (T.blkId blk)) (halloc : T.alloc f.queue.pool = (.ok buff, pool))
    (hsubmit : hw.submitRequest f.queue.interface ⟨T.blkId blk, T.kind blk buff⟩ = (.error .retry, i)) :
    SubmitTurn hw T blk f (.error .pending)
      ((f.withPool (T.release buff pool)).called i (.submit ⟨T.blkId blk, T.kind blk buff⟩ (.error .retry)))
  | refused {buff pool e i} (hnew : f.New (T.blkId blk)) (halloc : T.alloc f.queue.pool = (.ok buff, pool))
    (hsubmit : hw.submitRequest f.queue.interface ⟨T.blkId blk, T.kind blk buff⟩ = (.error e, i)) (he : e ≠ .retry) :
    SubmitTurn hw T blk f (.ok ()) (record (T.blkId blk) (.error e)
      ((f.withPool (T.release buff pool)).called i (.submit ⟨T.blkId blk, T.kind blk buff⟩ (.error e))))

theorem submitBlock_turn {blk : ω} {r : Except Halt Unit} {f' : Future ι σ ω γ ρ}
    (hrun : submitBlock hw T blk f = (r, f')) : SubmitTurn hw T blk f r f' := by
  simp only [submitBlock, Exec.bind_apply, Exec.gets_apply, SortedMap.contains] at hrun
  cases hresult : f.results.get (T.blkId blk) with
  | some result =>
    simp only [hresult, Option.isSome_some, if_true, Exec.pure_apply] at hrun
    obtain ⟨rfl, rfl⟩ := Prod.mk.inj hrun
    exact .skip fun hnew => by cases hnew.1.symm.trans hresult
  | none =>
    cases hrequest : f.requested.get (T.blkId blk) with
    | some buff =>
      simp only [hresult, hrequest, Option.isSome_some, Option.isSome_none, Bool.false_eq_true, if_true, if_false,
        Exec.bind_apply, Exec.gets_apply, Exec.pure_apply] at hrun
      obtain ⟨rfl, rfl⟩ := Prod.mk.inj hrun
      exact .skip fun hnew => by cases hnew.2.symm.trans hrequest
    | none =>
      have hnew : f.New (T.blkId blk) := ⟨hresult, hrequest⟩
      simp only [hresult, hrequest, Option.isSome_none, Bool.false_eq_true, if_false, Exec.bind_apply,
        Exec.gets_apply, alloc] at hrun
      rcases halloc : T.alloc f.queue.pool with ⟨(e | _) | buff, pool⟩
      · simp only [halloc, Exec.modify_apply] at hrun
        obtain ⟨rfl, rfl⟩ := Prod.mk.inj hrun
        exact .noBuffer hnew halloc
      · simp only [halloc] at hrun
        obtain ⟨rfl, rfl⟩ := Prod.mk.inj hrun
        exact .panic hnew halloc
      · simp only [halloc, Exec.bind_apply, submitRequest] at hrun
        rcases hsubmit : hw.submitRequest f.queue.interface ⟨T.blkId blk, T.kind blk buff⟩ with ⟨e | reqId, i⟩
        · simp only [hsubmit] at hrun
          cases e
          case retry =>
            obtain ⟨rfl, rfl⟩ := Prod.mk.inj hrun
            exact .retry hnew halloc hsubmit
          all_goals
            obtain ⟨rfl, rfl⟩ := Prod.mk.inj hrun
            exact .refused hnew halloc hsubmit (by simp)
        · simp only [hsubmit, Exec.modify_apply] at hrun
          obtain ⟨rfl, rfl⟩ := Prod.mk.inj hrun
          exact .accepted hnew halloc hsubmit

/-- What a turn of the second loop can come to, for a block with a request. -/
inductive PollTurn (hw : IQueue ι) (T : Transfer σ ω β γ ρ) (blkId : Nat) (f : Future ι σ ω γ ρ) :
    Except Halt Unit → Future ι σ ω γ ρ → Prop where
  | skip {result} (hresult : f.results.get blkId = some result) : PollTurn hw T blkId f (.ok ()) f
  | noRequest (hnone : f.results.get blkId = none) (hmap : f.map.get blkId = none) :
    PollTurn hw T blkId f (.error .panic) f
  | noBuffer {reqId i} (hnone : f.results.get blkId = none) (hmap : f.map.get blkId = some reqId)
    (hpoll : hw.pollRequest f.queue.interface reqId = (.ok (), i))
    (htake : (f.requested.get blkId).bind (T.take blkId) = none) :
    PollTurn hw T blkId f (.error .panic) (f.called i (.poll blkId reqId (.ok ())))
  | completed {reqId i data left} (hnone : f.results.get blkId = none) (hmap : f.map.get blkId = some reqId)
    (hpoll : hw.pollRequest f.queue.interface reqId = (.ok (), i))
    (htake : (f.requested.get blkId).bind (T.take blkId) = some (data, left)) :
    PollTurn hw T blkId f (.ok ()) { f.called i (.poll blkId reqId (.ok ())) with
      requested := f.requested.insert blkId left
      results := f.results.insert blkId (.ok data) }
  | retry {reqId i} (hnone : f.results.get blkId = none) (hmap : f.map.get blkId = some reqId)
    (hpoll : hw.pollRequest f.queue.interface reqId = (.error .retry, i)) :
    PollTurn hw T blkId f (.error .pending) (f.called i (.poll blkId reqId (.error .retry)))
  | failed {reqId i e} (hnone : f.results.get blkId = none) (hmap : f.map.get blkId = some reqId)
    (hpoll : hw.pollRequest f.queue.interface reqId = (.error e, i)) (he : e ≠ .retry) :
    PollTurn hw T blkId f (.ok ()) (record blkId (.error e) (f.called i (.poll blkId reqId (.error e))))

theorem pollBlock_turn {blkId : Nat} {r : Except Halt Unit} {f' : Future ι σ ω γ ρ}
    (hrun : pollBlock hw T blkId f = (r, f')) : PollTurn hw T blkId f r f' := by
  simp only [pollBlock, Exec.bind_apply, Exec.gets_apply, SortedMap.contains] at hrun
  cases hresult : f.results.get blkId with
  | some result =>
    simp only [hresult, Option.isSome_some, if_true, Exec.pure_apply] at hrun
    obtain ⟨rfl, rfl⟩ := Prod.mk.inj hrun
    exact .skip hresult
  | none =>
    simp only [hresult, Option.isSome_none, Bool.false_eq_true, if_false, Exec.bind_apply, Exec.gets_apply] at hrun
    cases hmap : f.map.get blkId with
    | none =>
      simp only [hmap, Exec.throw_apply] at hrun
      obtain ⟨rfl, rfl⟩ := Prod.mk.inj hrun
      exact .noRequest hresult hmap
    | some reqId =>
      simp only [hmap, Exec.bind_apply, pollRequest] at hrun
      rcases hpoll : hw.pollRequest f.queue.interface reqId with ⟨e | _, i⟩
      · simp only [hpoll] at hrun
        cases e
        case retry =>
          obtain ⟨rfl, rfl⟩ := Prod.mk.inj hrun
          exact .retry hresult hmap hpoll
        all_goals
          obtain ⟨rfl, rfl⟩ := Prod.mk.inj hrun
          exact .failed hresult hmap hpoll (by simp)
      · simp only [hpoll, Exec.bind_apply, Exec.gets_apply] at hrun
        rcases htake : (f.requested.get blkId).bind (T.take blkId) with _ | ⟨data, left⟩
        · simp only [htake, Exec.throw_apply] at hrun
          obtain ⟨rfl, rfl⟩ := Prod.mk.inj hrun
          exact .noBuffer hresult hmap hpoll htake
        · simp only [htake, Exec.bind_apply, Exec.modify_apply] at hrun
          obtain ⟨rfl, rfl⟩ := Prod.mk.inj hrun
          exact .completed hresult hmap hpoll htake

/-- The last loop returns the results in the order of the blocks, if there is one for each. -/
theorem takeResults_eq {blks : List ω} (hdistinct : (blks.map T.blkId).Nodup)
    (hresults : ∀ blk ∈ blks, ∃ result, f.results.get (T.blkId blk) = some result) :
    ∃ out results, takeResults T blks f = (.ok out, { f with results := results }) ∧
      List.Forall₂ (fun blk result => f.results.get (T.blkId blk) = some result) blks out := by
  induction blks generalizing f with
  | nil => exact ⟨[], f.results, rfl, .nil⟩
  | cons blk blks ih =>
    obtain ⟨hblk, hdistinct⟩ := List.nodup_cons.mp hdistinct
    obtain ⟨result, hresult⟩ := hresults blk List.mem_cons_self
    have hother : ∀ blk' ∈ blks, (f.results.remove (T.blkId blk)).2.get (T.blkId blk') = f.results.get (T.blkId blk') :=
      fun blk' hmem => by
        rw [SortedMap.get_remove, if_neg]
        exact fun he => hblk (he ▸ List.mem_map_of_mem hmem)
    obtain ⟨out, results, hrun, hout⟩ := ih (f := { f with results := (f.results.remove (T.blkId blk)).2 }) hdistinct
      fun blk' hmem => by
        rw [hother blk' hmem]
        exact hresults blk' (List.mem_cons_of_mem _ hmem)
    refine ⟨result :: out, results, ?_, .cons hresult ?_⟩
    · simp only [takeResults, Exec.bind_apply, Exec.gets_apply, hresult, Exec.modify_apply, hrun, Exec.pure_apply]
    · refine hout.imp fun blk' result' hget => ?_
      rw [SortedMap.get_remove] at hget
      split_ifs at hget
      exact hget

end Turns

end Future

/-! ### Reading -/

structure BlockData where
  blockId : Nat
  data : DCommon
  deriving DecidableEq

/-- `ReadFuture`. What is kept of a buffer is `None` once it was taken. -/
abbrev ReadFuture (ι σ : Type) := Future ι σ Nat (Option DCommon) BlockData

namespace ReadFuture

def transfer (d : DeviceDma σ) : Transfer σ Nat DCommon (Option DCommon) BlockData where
  blkId blkId := blkId
  alloc := Dma.DArrayPool.alloc d
  kind _ buff := .read ⟨buff.handle.cpuAddr, buff.handle.dmaAddr, buff.handle.size⟩
  release := Dma.DBuff.drop d
  keep := some
  take blkId buff := buff.map fun data => (⟨blkId, data⟩, none)

def poll (hw : IQueue ι) (d : DeviceDma σ) : Exec Halt (ReadFuture ι σ) (List (Except BlkError BlockData)) :=
  Future.poll hw (transfer d)

def buffers (f : ReadFuture ι σ) : List DCommon :=
  f.requested.values.filterMap id ++ f.results.values.filterMap fun result => result.toOption.map BlockData.data

def drop (d : DeviceDma σ) (f : ReadFuture ι σ) : ReadFuture ι σ :=
  { f with
    queue := { f.queue with pool := f.buffers.foldl (fun pool buff => Dma.DBuff.drop d buff pool) f.queue.pool }
    requested := .empty, map := .empty, results := .empty }

end ReadFuture

def CmdQueue.readBlocks (q : CmdQueue ι σ) (blkId blkCount : Nat) : ReadFuture ι σ :=
  { queue := q, blkLs := List.range' blkId ((blkId + blkCount) % 2 ^ 64 - blkId) }

/-! ### Writing -/

abbrev WriteFuture (ι σ : Type) := Future ι σ (Nat × List UInt8) Unit Unit

namespace WriteFuture

/-- A block is written from where its data is. -/
def transfer : Transfer σ (Nat × List UInt8) Unit Unit Unit where
  blkId := Prod.fst
  alloc := pure ()
  kind blk _ := .write blk.2
  release _ pool := pool
  keep _ := ()
  take _ _ := some ((), ())

def poll (hw : IQueue ι) : Exec Halt (WriteFuture ι σ) (List (Except BlkError Unit)) := Future.poll hw transfer

end WriteFuture

/-- `CmdQueue::write_blocks`, up to the future it awaits; it panics unless the data is a number of blocks. -/
def CmdQueue.writeBlocks (hw : IQueue ι) (q : CmdQueue ι σ) (startBlkId : Nat) (data : List UInt8) :
    Option (WriteFuture ι σ) :=
  let blockSize := hw.blockSize q.interface
  if blockSize ≠ 0 ∧ data.length % blockSize = 0 then
    some { queue := q, blkLs := (List.range (data.length / blockSize)).map fun i =>
      ((startBlkId + i) % 2 ^ 64, (data.drop (i * blockSize)).take blockSize) }
  else none

end Sparreal.Block
