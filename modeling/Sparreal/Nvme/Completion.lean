import Sparreal.Nvme.Queue
import Sparreal.Nvme.Transfer

/-!
# NVMe completions

`NvmeQueue::command_sync` of `nvme/src/queue.rs` with what it returns, the two transfers of `nvme/src/nvme.rs`
that call it, and the completion queue on its own.

`spin_for_complete` knows a new entry by its phase bit alone. Against a controller that fills the queue in order
and leaves what was not taken alone, it returns the entries in the order they were posted
(`spinForComplete_in_order`), as long as the length of the queue survives the cast to `u32`. Whether a command
has succeeded is read off the lowest bit of its status code, which half of the failures have clear
(`faithful_iff`).
-/

namespace Sparreal.Nvme

open PhaseRing
open Dma (DeviceDma World DCommon Memory Fault)

/-! ### A command and what it returns -/

/-- `NvmeQueue`, with what it has written to its doorbells. -/
structure NvmeQueue where
  sq : SubmitQueue
  cq : CompleteQueue
  sqTailDoorbell : Nat := 0
  cqHeadDoorbell : Nat := 0

/-- `Error`, as far as commands and transfers return it. -/
inductive Error where
  | noMemory
  | layout
  | dma (e : Dma.DmaError)
  | unknown (message : String)
  deriving DecidableEq, Repr

/-- `From<DmaError> for Error`. -/
def Error.ofDmaError : Dma.DmaError → Error
  | .noMemory => .noMemory
  | .layoutError => .layout
  | e => .dma e

namespace NvmeQueue

def submitAdminData (q : NvmeQueue) (data : Submission) : NvmeQueue :=
  let sq := q.sq.submit data
  { q with sq := sq, sqTailDoorbell := sq.tail }

/-- `command_sync`, against a controller that posts `e` to the slot the driver looks at; `none` if that entry does
not end the loop. -/
def commandSync (q : NvmeQueue) (data : Submission) (e : NvmeCompletion) : Option (Except Error Unit × NvmeQueue) :=
  let q := q.submitAdminData data
  (q.cq.post q.cq.head e).spinForComplete.map fun r =>
    (if r.1.isSuccess then .ok () else .error (.unknown "send command failed"),
      { q with cq := r.2, cqHeadDoorbell := r.2.head })

end NvmeQueue

inductive Stop where
  | err (e : Error)
  | panic
  deriving DecidableEq, Repr

/-- What `?` makes of a DMA fault. -/
def Stop.ofFault : Fault → Stop
  | .err e => .err (.ofDmaError e)
  | .panic => .panic

namespace Transfer

variable {σ : Type}

/-- What follows the command: a read copies the buffer out. -/
def finish (t : Transfer) (dmaBuff : DCommon) (w : World σ) : List UInt8 × World σ :=
  match t with
  | .read _ =>
    let r := Dma.toVec dmaBuff.handle 1 dmaBuff.direction w.memory
    (r.1, { w with memory := r.2 })
  | .write _ => ([], w)

/-- `block_read_sync` and `block_write_sync`, against a controller that does `device` to the memory and posts `e`. A
read returns what it leaves in its buffer. -/
def blockSync (d : DeviceDma σ) (ns : Namespace) (id : UInt32) (blockStart : UInt64) (device : Memory → Memory)
    (e : NvmeCompletion) (serial : Nat) (t : Transfer) (w : World σ) (q : NvmeQueue) :
    Option (Except Stop (List UInt8) × World σ × NvmeQueue) :=
  match t.issue d ns id blockStart w with
  | (.error fault, w) => some (.error (.ofFault fault), w, q)
  | (.ok (dmaBuff, cmd), w) =>
    (q.commandSync ⟨serial, cmd⟩ e).map fun r =>
      let w := { w with memory := device w.memory }
      match r.1 with
      | .error err => (.error (.err err), dmaBuff.drop d w, r.2)
      | .ok () =>
        let out := t.finish dmaBuff w
        (.ok out.1, dmaBuff.drop d out.2, r.2)

end Transfer

def NvmeCompletion.code (e : NvmeCompletion) : Nat := e.status / 2 % 2 ^ 11

section Success

variable {q : NvmeQueue} {e : NvmeCompletion}

theorem isSuccess_iff : e.isSuccess = true ↔ e.code % 2 = 0 := by
  rw [NvmeCompletion.isSuccess, NvmeCompletion.code, decide_eq_true_iff]
  omega

theorem spin_post {cq : CompleteQueue} (hhead : cq.head < cq.len) (hphase : e.phase ≠ cq.phase) :
    ∃ cq', (cq.post cq.head e).spinForComplete = some (e, cq') := by
  have hslot : (cq.post cq.head e).queue cq.head = e := Function.update_self ..
  have hcomplete : (cq.post cq.head e).complete = some e := by
    show (if cq.head < cq.len then
      if ((cq.post cq.head e).queue cq.head).phase ≠ cq.phase then some ((cq.post cq.head e).queue cq.head)
      else none else none) = some e
    rw [if_pos hhead, hslot, if_pos hphase]
  rw [CompleteQueue.spinForComplete, hcomplete]
  exact ⟨_, rfl⟩

theorem commandSync_eq (hhead : q.cq.head < q.cq.len) (hphase : e.phase ≠ q.cq.phase) (data : Submission) :
    ∃ q', q.commandSync data e =
      some (if e.isSuccess then .ok () else .error (.unknown "send command failed"), q') := by
  obtain ⟨cq', hspin⟩ := spin_post hhead hphase
  have hspin' : ((q.submitAdminData data).cq.post (q.submitAdminData data).cq.head e).spinForComplete =
      some (e, cq') := hspin
  simp only [NvmeQueue.commandSync, hspin', Option.map_some]
  exact ⟨_, rfl⟩

/-- A command returns `Ok` when the lowest bit of its status code is clear. -/
theorem commandSync_ok_iff (hhead : q.cq.head < q.cq.len) (hphase : e.phase ≠ q.cq.phase) (data : Submission) :
    (q.commandSync data e).map Prod.fst = some (.ok ()) ↔ e.code % 2 = 0 := by
  obtain ⟨q', hq⟩ := commandSync_eq hhead hphase data
  rw [hq, ← isSuccess_iff]
  cases e.isSuccess <;> simp

theorem commandSync_ok_of_blockSync {σ : Type} {d : DeviceDma σ} {ns : Namespace} {id : UInt32}
    {blockStart : UInt64} {device : Memory → Memory} {serial : Nat} {t : Transfer} {w w' : World σ}
    {q' : NvmeQueue} {bytes : List UInt8}
    (h : t.blockSync d ns id blockStart device e serial w q = some (.ok bytes, w', q')) :
    ∃ data, (q.commandSync data e).map Prod.fst = some (.ok ()) := by
  rw [Transfer.blockSync] at h
  rcases hissue : t.issue d ns id blockStart w with ⟨fault | ⟨dmaBuff, cmd⟩, w₁⟩
  · rw [hissue] at h
    cases h
  · rw [hissue] at h
    obtain ⟨⟨r, q''⟩, hsync, hr⟩ := Option.map_eq_some_iff.mp h
    refine ⟨⟨serial, cmd⟩, ?_⟩
    rw [hsync]
    cases r with
    | error err => cases hr
    | ok u => rfl

/-- A command returns `Ok` just when its status code is zero, and a transfer only then. -/
structure Faithful (q : NvmeQueue) (e : NvmeCompletion) : Prop where
  command : ∀ data, (q.commandSync data e).map Prod.fst = some (.ok ()) ↔ e.code = 0
  transfer : ∀ {σ : Type} (d : DeviceDma σ) (ns : Namespace) (id : UInt32) (blockStart : UInt64)
    (device : Memory → Memory) (serial : Nat) (t : Transfer) (w w' : World σ) (q' : NvmeQueue) (bytes : List UInt8),
    t.blockSync d ns id blockStart device e serial w q = some (.ok bytes, w', q') → e.code = 0

/-- Success is told from failure if the lowest bit of the status code does so. -/
theorem faithful_iff (q : NvmeQueue) (e : NvmeCompletion) (hhead : q.cq.head < q.cq.len)
    (hphase : e.phase ≠ q.cq.phase) : Faithful q e ↔ e.code = 0 ∨ e.code % 2 = 1 := by
  constructor
  · intro h
    have hcommand := (commandSync_ok_iff hhead hphase ⟨0, .nvmCmdRead 0 0 0 0 0⟩).symm.trans (h.command _)
    omega
  · intro hcode
    have hsame : e.code % 2 = 0 ↔ e.code = 0 := by omega
    refine ⟨fun data => (commandSync_ok_iff hhead hphase data).trans hsame, ?_⟩
    intro σ d ns id blockStart device serial t w w' q' bytes h
    obtain ⟨data, hok⟩ := commandSync_ok_of_blockSync h
    exact hsame.mp ((commandSync_ok_iff hhead hphase data).mp hok)

/-- A queue pair before its first command. -/
def freshQueue : NvmeQueue where
  sq := .new 64 0
  cq := .new 64 4096

def failedWith (code : Nat) : NvmeCompletion := { status := 2 * code + 1 }

theorem faithful_invalid_opcode : Faithful freshQueue (failedWith 1) ∧ (failedWith 1).code = 1 :=
  ⟨(faithful_iff freshQueue (failedWith 1) (by decide) (by decide)).mpr (.inr rfl), rfl⟩

/-- `Invalid Field in Command` is status code 2: the command and a read of a block by it return `Ok`. -/
theorem invalid_field_succeeds : (failedWith 2).code = 2 ∧ (failedWith 2).phase ≠ freshQueue.cq.phase ∧
    (freshQueue.commandSync ⟨0, .nvmCmdRead 0 1 4096 8 1⟩ (failedWith 2)).map Prod.fst = some (.ok ()) ∧
    ∃ bytes w' q', (Transfer.read 512).blockSync ⟨Dma.pageBackend, 2 ^ 32 - 1⟩ ⟨1, 512⟩ 0 8 (fun m => m)
      (failedWith 2) 0 emptyWorld freshQueue = some (.ok bytes, w', q') :=
  ⟨rfl, by decide, rfl, _, _, _, rfl⟩

end Success

/-! ### The completion queue -/

/-- The completion queue of the driver, the controller that fills it, and what has passed through it. -/
structure Completions where
  cq : CompleteQueue
  /-- Where the controller posts next, and with which phase. -/
  tail : Cursor
  posted : List NvmeCompletion
  taken : List NvmeCompletion

namespace Completions

/-- A queue of zeros, and a controller whose first phase is 1. -/
def start (n busAddr : Nat) : Completions := ⟨.new n busAddr, ⟨0, true⟩, [], []⟩

inductive Event where
  /-- The controller posts an entry, whatever it says apart from the phase. -/
  | post (e : NvmeCompletion)
  /-- One turn of the loop of `spin_for_complete`. -/
  | spin
  deriving DecidableEq, Repr

/-- The entry with the phase of the controller. -/
def tagged (phase : Bool) (e : NvmeCompletion) : NvmeCompletion :=
  { e with status := e.status / 2 * 2 + phase.toNat }

/-- One step of either side. The controller leaves alone what was not taken. -/
def step (s : Completions) : Event → Option Completions
  | .post e =>
    if s.posted.length < s.taken.length + s.cq.len then
      some { s with
        cq := s.cq.post s.tail.index (tagged s.tail.phase e)
        tail := s.tail.next s.cq.len
        posted := s.posted ++ [tagged s.tail.phase e] }
    else none
  | .spin =>
    match s.cq.spinForComplete with
    | none => some s
    | some (e, cq) => some { s with cq := cq, taken := s.taken ++ [e] }

variable {s s' : Completions} {n : Nat} {ev : Event}

theorem phase_tagged (phase : Bool) (e : NvmeCompletion) : (tagged phase e).phase = phase := by
  show decide (0 < (e.status / 2 * 2 + phase.toNat) % 2) = phase
  cases phase <;> simp [Nat.add_mod]

/-- Both sides are where the number of entries they have seen puts them, and the last round of what was posted is
in the queue. -/
structure Level (n : Nat) (s : Completions) : Prop where
  len : s.cq.len = n
  le : s.taken.length ≤ s.posted.length
  round : s.posted.length ≤ s.taken.length + n
  cursor : s.cq.cursor = .after n s.taken.length
  tail : s.tail = (Cursor.after n s.posted.length).across
  passed : Passed n s.cq.marks (.after n s.posted.length)
  slot : ∀ k e, s.posted[k]? = some e → s.posted.length ≤ k + n → s.cq.queue (k % n) = e
  taken : s.taken <+: s.posted

theorem level_start (n busAddr : Nat) : (start n busAddr).Level n where
  len := rfl
  le := Nat.le_refl 0
  round := Nat.zero_le _
  cursor := by simp [start, CompleteQueue.new, CompleteQueue.cursor, Cursor.after]
  tail := by simp [start, Cursor.after, Cursor.across]
  passed i _ := by
    show false = _
    simp [start, Cursor.after]
  slot k e he := by cases he
  taken := List.nil_prefix

theorem Level.post (h : s.Level n) (hn : 0 < n) (e : NvmeCompletion)
    (hroom : s.posted.length < s.taken.length + n) :
    Level n { s with
      cq := s.cq.post s.tail.index (tagged s.tail.phase e)
      tail := s.tail.next s.cq.len
      posted := s.posted ++ [tagged s.tail.phase e] } := by
  have hindex : s.tail.index = s.posted.length % n := congrArg Cursor.index h.tail
  have hphase : s.tail.phase = !(Cursor.after n s.posted.length).phase := congrArg Cursor.phase h.tail
  have hlength : (s.posted ++ [tagged s.tail.phase e]).length = s.posted.length + 1 := List.length_append
  refine ⟨h.len, ?_, ?_, h.cursor, ?_, ?_, ?_, h.taken.trans (List.prefix_append ..)⟩
  · exact hlength ▸ Nat.le_succ_of_le h.le
  · exact hlength ▸ hroom
  · show s.tail.next s.cq.len = _
    rw [hlength, ← Cursor.next_after hn, Cursor.across_next, h.len, h.tail]
  · have hpassed := h.passed.next (Nat.mod_lt _ hn)
    rw [Cursor.next_after hn] at hpassed
    show Passed n (s.cq.post s.tail.index (tagged s.tail.phase e)).marks _
    rw [hlength, marks_post, phase_tagged, hphase, hindex]
    exact hpassed
  · intro k e' he' hround
    rw [hlength] at hround
    show Function.update s.cq.queue s.tail.index (tagged s.tail.phase e) (k % n) = e'
    rcases Nat.lt_or_ge k s.posted.length with hlt | hge
    · rw [hindex, Function.update_of_ne (mod_ne_mod hlt hround)]
      rw [List.getElem?_append_left hlt] at he'
      exact h.slot k e' he' (Nat.le_of_succ_le hround)
    · obtain rfl : k = s.posted.length := by
        have hk : k < (s.posted ++ [tagged s.tail.phase e]).length := (List.getElem?_eq_some_iff.mp he').1
        omega
      rw [List.getElem?_concat_length] at he'
      rw [hindex, Function.update_self]
      exact Option.some.inj he'

theorem Level.complete (h : s.Level n) (hn : 0 < n) : s.cq.complete = s.posted[s.taken.length]? := by
  have hhead : s.cq.head = s.taken.length % n := congrArg Cursor.index h.cursor
  have hphase : s.cq.phase = (Cursor.after n s.taken.length).phase := congrArg Cursor.phase h.cursor
  have hfilled : (s.cq.queue s.cq.head).phase ≠ s.cq.phase ↔ s.taken.length < s.posted.length := by
    rw [hhead, hphase]
    exact h.passed.filled_iff hn h.le h.round
  rw [CompleteQueue.complete, if_pos (show s.cq.head < s.cq.len by rw [h.len, hhead]; exact Nat.mod_lt _ hn)]
  rcases hnext : s.posted[s.taken.length]? with _ | e
  · exact if_neg fun hmark => Nat.not_lt.mpr (List.getElem?_eq_none_iff.mp hnext) (hfilled.mp hmark)
  · rw [if_pos (hfilled.mpr (List.getElem?_eq_some_iff.mp hnext).1), hhead, h.slot _ e hnext h.round]

theorem Level.spin (h : s.Level n) (hn : 0 < n) (hlt : n < 2 ^ 32) :
    s.cq.spinForComplete = s.posted[s.taken.length]?.map fun e =>
      (e, { s.cq with head := (Cursor.after n (s.taken.length + 1)).index
                      phase := (Cursor.after n (s.taken.length + 1)).phase }) := by
  rw [CompleteQueue.spinForComplete, h.complete hn, ← Cursor.next_after hn, ← h.cursor, Cursor.next,
    show s.cq.len % 2 ^ 32 = n by rw [h.len, Nat.mod_eq_of_lt hlt]]
  split_ifs with hlast hlast' hlast'
  · rfl
  · exact absurd hlast hlast'
  · exact absurd hlast' hlast
  · rfl

theorem Level.step (h : s.Level n) (hn : 0 < n) (hlt : n < 2 ^ 32) (hstep : s.step ev = some s') :
    s'.Level n := by
  cases ev with
  | post e =>
    simp only [Completions.step, h.len] at hstep
    split_ifs at hstep with hroom
    obtain rfl := Option.some.inj hstep
    exact h.len ▸ h.post hn e hroom
  | spin =>
    simp only [Completions.step, h.spin hn hlt] at hstep
    rcases hnext : s.posted[s.taken.length]? with _ | e
    · rw [hnext] at hstep
      exact Option.some.inj hstep ▸ h
    · rw [hnext] at hstep
      obtain rfl := Option.some.inj hstep
      have hposted := (List.getElem?_eq_some_iff.mp hnext).1
      have hlength : (s.taken ++ [e]).length = s.taken.length + 1 := List.length_append
      refine ⟨h.len, ?_, ?_, ?_, h.tail, h.passed, h.slot, ?_⟩
      · show (s.taken ++ [e]).length ≤ s.posted.length
        exact hlength ▸ hposted
      · show s.posted.length ≤ (s.taken ++ [e]).length + n
        have hround := h.round
        omega
      · show _ = Cursor.after n (s.taken ++ [e]).length
        rw [hlength]
        rfl
      · rw [List.prefix_iff_eq_take, hlength, List.take_add_one, hnext, ← List.prefix_iff_eq_take.mp h.taken]
        rfl

/-- What the driver has taken is what was posted, in order, and the next entry is taken once it is posted. -/
structure InOrder (n : Nat) (s : Completions) : Prop where
  taken : s.taken <+: s.posted
  next : s.cq.spinForComplete.map Prod.fst = s.posted[s.taken.length]?
  head : s.cq.head = s.taken.length % n

/-- Every call of `spin_for_complete` returns the next entry that was posted, however often the queue wraps. -/
theorem spinForComplete_in_order (n busAddr : Nat) (hn : 2 ≤ n) (hlt : n < 2 ^ 32) (evs : List Event)
    (s : Completions) (hrun : Machine.run Completions.step (start n busAddr) evs = some s) : s.InOrder n := by
  have hpos : 0 < n := Nat.lt_of_lt_of_le Nat.two_pos hn
  have h : s.Level n := Machine.run_keeps (fun h hstep => h.step hpos hlt hstep) hrun (level_start n busAddr)
  refine ⟨h.taken, ?_, congrArg Cursor.index h.cursor⟩
  rw [h.spin hpos hlt, Option.map_map]
  exact congrFun Option.map_id _

theorem spinForComplete_in_order_twice_round : ∃ s,
    Machine.run Completions.step (start 2 0) [.post {}, .spin, .post {}, .post {}, .spin, .spin] = some s ∧
      s.taken.length = 3 ∧ s.InOrder 2 := by
  have hrun := Option.some_get (show (Machine.run Completions.step (start 2 0)
    [.post {}, .spin, .post {}, .post {}, .spin, .spin]).isSome by decide +kernel)
  exact ⟨_, hrun.symm, by decide +kernel,
    spinForComplete_in_order 2 0 (Nat.le_refl 2) (by decide) _ _ hrun.symm⟩

/-- A length of `2 ^ 32` is cast to zero: the head stays where it is. -/
theorem head_stays_at_zero : ∃ s,
    Machine.run Completions.step (start (2 ^ 32) 0) [.post {}, .spin] = some s ∧
      s.taken.length = 1 ∧ s.cq.head = 0 ∧ ¬ s.InOrder (2 ^ 32) := by
  have hrun := Option.some_get (show (Machine.run Completions.step (start (2 ^ 32) 0)
    [.post {}, .spin]).isSome by decide +kernel)
  exact ⟨_, hrun.symm, by decide +kernel, by decide +kernel, fun h => absurd h.head (by decide +kernel)⟩

end Completions

end Sparreal.Nvme
