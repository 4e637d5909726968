import Mathlib.Data.List.Nodup
import Mathlib.Data.List.Range
import Sparreal.Eth.RxRing
import Sparreal.Eth.RxQueue

/-!
# Receiving over the e1000

The `RxQueue` of `rd-net/src/lib.rs` over `E1000RxQueue`, with a device that fills posted descriptors in order. After
`prefill` has posted one buffer less than the ring has slots, every packet that is received is the oldest that was
filled in, its buffer is posted again when it is consumed or dropped, and the same buffers are posted from then on
(`receive_conserves`).
-/

namespace Sparreal.Eth.E1000

open Queue
open Dma (DeviceDma DmaOp World DCommon Pool)
open Dma.Pool (bumpBackend freshWorld)

variable {σ : Type}

/-- `E1000RxQueue` as an `IRxQueue`. -/
def rxQueue : IRxQueue Ring := ⟨rxSubmit, rxReclaim⟩

/-- The queue over the ring, and how far the device has come. -/
structure Receiver (σ : Type) where
  rx : RxQueue.State Ring σ
  /-- How often the head was moved on. -/
  advanced : Nat := 0
  /-- The lengths of the packets that were filled in. -/
  lengths : List Nat := []

namespace Receiver

inductive Event where
  /-- A turn of the loop of `prefill`, or a call. -/
  | call (e : RxQueue.Event)
  /-- The device moves its head on. -/
  | advance
  /-- The device fills in the next packet; its head has passed the descriptor. -/
  | fill (length : Nat)
  deriving DecidableEq, Repr

def ring (s : Receiver σ) : Ring := s.rx.queue.interface

def withRing (s : Receiver σ) (ring : Ring) : RxQueue.State Ring σ :=
  { s.rx with queue := { s.rx.queue with interface := ring } }

def step (os : DmaOp σ) (s : Receiver σ) : Event → Option (Receiver σ)
  | .call e => (RxQueue.step os rxQueue s.rx e).map fun rx => { s with rx := rx }
  | .advance => s.ring.advance.map fun ring => { s with rx := s.withRing ring, advanced := s.advanced + 1 }
  | .fill length =>
    if s.lengths.length < s.advanced then
      some { s with
        rx := s.withRing (s.ring.finish (s.lengths.length % queueSize) length)
        lengths := s.lengths ++ [length] }
    else none

def posted (s : Receiver σ) : List Nat := s.rx.queue.device

def received (s : Receiver σ) : Nat := s.rx.queue.submitted - s.posted.length

def oldest (s : Receiver σ) : Option RxPacket :=
  s.posted.head?.bind fun busAddr =>
    (s.rx.queue.inflight.get busAddr).bind fun buff =>
      s.lengths[s.received]?.map fun length => ⟨min (min length s.rx.queue.config.bufSize) buff.handle.size, buff⟩

/-- What holds after every step: nothing has failed, `try_receive` returns the oldest packet, posting its buffer again
succeeds, and without a packet in hand one buffer less than the ring has slots is posted, each of them once and in
the map. -/
structure Conserved (os : DmaOp σ) (s : Receiver σ) : Prop where
  running : s.rx.life = .running
  inOrder : s.rx.packet = none → (RxQueue.tryReceive rxQueue s.rx.queue).1 = s.oldest
  resubmits : ∀ p, s.rx.packet = some p →
    (RxQueue.submitBuffer (s.rx.dma os) rxQueue p.buff s.rx.queue).1 = .ok ()
  full : s.rx.packet = none → s.posted.length = queueSize - 1
  slots : ∀ k a, s.posted[k]? = some a → (s.ring.desc ((s.received + k) % queueSize)).addr = a
  distinct : s.posted.Nodup
  recorded : ∀ a, a ∈ s.posted ↔ ∃ c, s.rx.queue.inflight.get a = some c ∧ c.handle.dmaAddr = a

/-! ### With a full ring -/

variable {os : DmaOp σ} {s s' : Receiver σ} {e : Event}

/-- The ring is full but for one slot, or two while there is a packet in hand. -/
structure Inv (s : Receiver σ) : Prop where
  running : s.rx.life = .running
  bufSize : s.rx.queue.config.bufSize = maxPacket
  recorded : s.rx.queue.Recorded
  count : s.rx.queue.submitted = s.received + s.posted.length
  level : RxRing.Level s.ring s.posted s.received s.advanced s.lengths
  full : s.posted.length + s.rx.packet.toList.length = queueSize - 1
  packet : ∀ {p}, s.rx.packet = some p →
    p.len ≤ p.buff.handle.size ∧ s.rx.queue.inflight.get p.buff.handle.dmaAddr = none

section

variable (h : s.Inv)

include h

theorem Inv.tryReceive (hnone : s.rx.packet = none) :
    (s.lengths[s.received]? = none ∧ s.oldest = none ∧
        RxQueue.tryReceive rxQueue s.rx.queue = (none, s.rx.queue)) ∨
      ∃ busAddr rest p ring', s.posted = busAddr :: rest ∧ s.oldest = some p ∧
        s.rx.queue.inflight.get busAddr = some p.buff ∧ p.len ≤ p.buff.handle.size ∧
        RxQueue.tryReceive rxQueue s.rx.queue = (some p, { s.rx.queue with
          interface := ring', device := s.rx.queue.device.erase busAddr
          inflight := (s.rx.queue.inflight.remove busAddr).2 }) ∧
        RxRing.Level ring' rest (s.received + 1) s.advanced s.lengths := by
  have hfull := h.full
  rw [hnone, Option.toList_none, List.length_nil, Nat.add_zero] at hfull
  obtain ⟨busAddr, rest, hposted⟩ := List.exists_cons_of_length_pos (show 0 < s.posted.length by rw [hfull]; decide)
  obtain ⟨c, hget⟩ := (h.recorded.device busAddr).mp (show busAddr ∈ s.posted by rw [hposted]; exact List.mem_cons_self)
  have hlevel := h.level
  rw [hposted] at hlevel
  have holdest : s.oldest = s.lengths[s.received]?.map fun length =>
      ⟨min (min length s.rx.queue.config.bufSize) c.handle.size, c⟩ := by
    simp only [oldest, hposted, List.head?_cons, Option.bind_some, hget]
  rcases hlevel.reclaim with ⟨hempty, hreclaim⟩ | ⟨l, ring', hl, hreclaim, hlevel'⟩
  · refine .inl ⟨hempty, by rw [holdest, hempty]; rfl, ?_⟩
    have hhw : rxQueue.reclaim s.rx.queue.interface = (none, s.rx.queue.interface) := hreclaim
    simp only [RxQueue.tryReceive, RxQueue.reclaimPacket, Exec.bind_apply, reclaimBuffer, reclaim, hhw,
      Exec.pure_apply]
  · have hhw : rxQueue.reclaim s.rx.queue.interface = (some (busAddr, l), ring') := hreclaim
    have hremove : (s.rx.queue.inflight.remove busAddr).1 = some c := hget
    refine .inr ⟨busAddr, rest, _, ring', hposted, by rw [holdest, hl]; rfl, hget, min_le_right _ _, ?_, hlevel'⟩
    simp only [RxQueue.tryReceive, RxQueue.reclaimPacket, Exec.bind_apply, reclaimBuffer, reclaim, hhw, remove,
      hremove, Exec.pure_apply, Exec.gets_apply]

theorem Inv.submitBuffer {p : RxPacket} (hp : s.rx.packet = some p) (d : DeviceDma σ) :
    ∃ ring', RxQueue.submitBuffer d rxQueue p.buff s.rx.queue = (.ok (), { s.rx.queue with
        interface := ring', device := s.rx.queue.device ++ [p.buff.handle.dmaAddr]
        submitted := s.rx.queue.submitted + 1
        inflight := s.rx.queue.inflight.insert p.buff.handle.dmaAddr p.buff }) ∧
      RxRing.Level ring' (s.posted ++ [p.buff.handle.dmaAddr]) s.received s.advanced s.lengths := by
  have hfull := h.full
  rw [hp] at hfull
  have hlen : min s.rx.queue.config.bufSize p.buff.handle.size ≤ maxPacket := h.bufSize ▸ min_le_left _ _
  have hroom : s.posted.length + 1 < queueSize := by
    rw [show s.posted.length + 1 = queueSize - 1 from hfull]
    decide
  obtain ⟨ring', hsubmit, hlevel⟩ := h.level.submit _ hlen hroom
  refine ⟨ring', ?_, hlevel⟩
  have hhw : rxQueue.submit s.rx.queue.interface p.buff.handle.dmaAddr
      (min s.rx.queue.config.bufSize p.buff.handle.size) = (.ok (), ring') := hsubmit
  simp only [RxQueue.submitBuffer, Queue.submit, hhw, Queue.insert, (h.packet hp).2]

theorem Inv.conserved : s.Conserved os where
  running := h.running
  inOrder hnone := by
    rcases h.tryReceive hnone with ⟨-, hempty, hrun⟩ | ⟨busAddr, rest, p, ring', -, holdest, -, -, hrun, -⟩
    · rw [hrun, hempty]
    · rw [hrun, holdest]
  resubmits p hp := by
    obtain ⟨ring', hrun, -⟩ := h.submitBuffer hp (s.rx.dma os)
    rw [hrun]
  full hnone := by
    have hfull := h.full
    rwa [hnone] at hfull
  slots k a hk := (h.level.slot k a hk).2
  distinct := h.recorded.nodup
  recorded a := by
    refine (h.recorded.device a).trans (exists_congr fun c => ?_)
    exact ⟨fun hget => ⟨hget, h.recorded.key hget⟩, And.left⟩

theorem Inv.received_packet (hnone : s.rx.packet = none) :
    Inv { s with
      rx := ⟨(RxQueue.tryReceive rxQueue s.rx.queue).2, (RxQueue.tryReceive rxQueue s.rx.queue).1, .running⟩ } := by
  rcases h.tryReceive hnone with ⟨-, -, hrun⟩ | ⟨busAddr, rest, p, ring', hposted, -, hget, hfits, hrun, hlevel⟩
  · rw [hrun, ← hnone]
    exact { h with running := rfl }
  · have hfull := h.full
    have hcount := h.count
    rw [hnone, hposted] at hfull
    rw [hposted, List.length_cons] at hcount
    have herase : s.rx.queue.device.erase busAddr = rest := by
      rw [show s.rx.queue.device = busAddr :: rest from hposted, List.erase_cons_head]
    have hrecorded := h.recorded.remove busAddr ring'
    rw [hrun]
    rw [herase] at hrecorded ⊢
    have hreceived : s.rx.queue.submitted - rest.length = s.received + 1 := by omega
    refine ⟨rfl, h.bufSize, hrecorded, ?_, ?_, hfull, fun hp => ?_⟩
    · show s.rx.queue.submitted = s.rx.queue.submitted - rest.length + rest.length
      omega
    · show RxRing.Level ring' rest (s.rx.queue.submitted - rest.length) s.advanced s.lengths
      rwa [hreceived]
    · obtain rfl := Option.some.inj hp
      refine ⟨hfits, ?_⟩
      rw [h.recorded.key hget, SortedMap.get_remove, if_pos rfl]

theorem Inv.posted_again {p : RxPacket} (hp : s.rx.packet = some p) {d : DeviceDma σ} :
    Inv { s with rx := ⟨RxQueue.dropPacket d rxQueue p s.rx.queue, none, .running⟩ } := by
  obtain ⟨ring', hrun, hlevel⟩ := h.submitBuffer hp d
  have hlength : (s.posted ++ [p.buff.handle.dmaAddr]).length = s.posted.length + 1 := List.length_append
  have hfull := h.full
  have hcount := h.count
  rw [hp] at hfull
  have hreceived : s.rx.queue.submitted + 1 - (s.posted ++ [p.buff.handle.dmaAddr]).length = s.received := by
    rw [hlength]
    omega
  rw [RxQueue.dropPacket, hrun]
  refine ⟨rfl, h.bufSize, h.recorded.insert (h.packet hp).2 ring' _, ?_, ?_, hlength.trans hfull,
    fun hp => by cases hp⟩
  · show s.rx.queue.submitted + 1 = s.rx.queue.submitted + 1 - (s.posted ++ [p.buff.handle.dmaAddr]).length +
      (s.posted ++ [p.buff.handle.dmaAddr]).length
    omega
  · show RxRing.Level ring' (s.posted ++ [p.buff.handle.dmaAddr])
      (s.rx.queue.submitted + 1 - (s.posted ++ [p.buff.handle.dmaAddr]).length) s.advanced s.lengths
    rwa [hreceived]

theorem Inv.withMemory (f : Dma.Memory → Dma.Memory) :
    Inv { s with rx := { s.rx with queue := s.rx.queue.access f } } :=
  { h with recorded := { h.recorded with } }

theorem Inv.step (hstep : s.step os e = some s') (hkept : e ≠ .call .dropQueue) : s'.Inv := by
  cases e with
  | call e =>
    obtain ⟨rx, hrx, rfl⟩ := Option.map_eq_some_iff.mp hstep
    simp only [RxQueue.step, h.running] at hrx
    cases e with
    | fill => cases hrx
    | dropQueue => exact absurd rfl hkept
    | tryReceive =>
      rcases hpacket : s.rx.packet with _ | p
      · simp only [hpacket] at hrx
        exact Option.some.inj hrx ▸ h.received_packet hpacket
      · simp only [hpacket] at hrx
        cases hrx
    | consume =>
      rcases hpacket : s.rx.packet with _ | p
      · simp only [hpacket] at hrx
        cases hrx
      · simp only [hpacket, RxQueue.consume, Exec.bind_apply, RxQueue.readWith, if_pos (h.packet hpacket).1,
          Exec.modify_apply, Exec.pure_apply] at hrx
        exact Option.some.inj hrx ▸ (h.withMemory _).posted_again hpacket
    | dropPacket =>
      rcases hpacket : s.rx.packet with _ | p
      · simp only [hpacket] at hrx
        cases hrx
      · simp only [hpacket] at hrx
        exact Option.some.inj hrx ▸ h.posted_again hpacket
  | advance =>
    obtain ⟨ring', hring, rfl⟩ := Option.map_eq_some_iff.mp hstep
    exact { h with recorded := { h.recorded with }, level := h.level.advance hring }
  | fill length =>
    simp only [Receiver.step] at hstep
    split_ifs at hstep with hbehind
    obtain rfl := Option.some.inj hstep
    exact { h with recorded := { h.recorded with }, level := h.level.finish hbehind length }

end

/-! ### Filling the ring -/

/-- What happens before the queue is returned to its owner. -/
def Event.Prefills : Event → Prop
  | .call e => e = .fill
  | _ => True

/-- The ring is being filled. -/
structure Filling (s : Receiver σ) : Prop where
  packet : s.rx.packet = none
  bufSize : s.rx.queue.config.bufSize = maxPacket
  count : s.rx.queue.submitted = s.posted.length
  level : RxRing.Level s.ring s.posted 0 s.advanced s.lengths
  key : ∀ {a c}, s.rx.queue.inflight.get a = some c → c.handle.dmaAddr = a
  device : ∀ a, a ∈ s.posted ↔ ∃ c, s.rx.queue.inflight.get a = some c

/-- Neither dropped nor panicked. -/
def Alive (s : Receiver σ) : Prop := s.rx.life = .filling ∨ s.rx.life = .running

theorem filling_start {config : QueueConfig} {w : World σ} {q : Queue Ring σ} (hsize : config.bufSize = maxPacket)
    (hcreate : Queue.create os config .fromDevice {} w = .ok q) : Filling { rx := { queue := q } } := by
  obtain ⟨layout, -, rfl⟩ := create_eq_ok hcreate
  exact ⟨rfl, hsize, rfl, RxRing.level_start, recorded_create.key, recorded_create.device⟩

theorem Filling.post (h : s.Filling) {c : DCommon} {ring' : Ring} {pool : Pool σ} {life : Life}
    (hsubmit : rxSubmit s.ring c.handle.dmaAddr (min s.rx.queue.config.bufSize c.handle.size) = (.ok (), ring'))
    (hle : s.rx.queue.submitted + 1 ≤ queueSize - 1) :
    Filling { s with rx := ⟨{ s.rx.queue with
      interface := ring', pool := pool, device := s.rx.queue.device ++ [c.handle.dmaAddr]
      submitted := s.rx.queue.submitted + 1
      inflight := s.rx.queue.inflight.insert c.handle.dmaAddr c }, none, life⟩ } := by
  have hlen : min s.rx.queue.config.bufSize c.handle.size ≤ maxPacket := h.bufSize ▸ min_le_left _ _
  have hroom : s.posted.length + 1 < queueSize := h.count ▸ Nat.lt_of_le_of_lt hle (by decide)
  obtain ⟨ring'', hsubmit', hlevel⟩ := h.level.submit c.handle.dmaAddr hlen hroom
  obtain rfl : ring'' = ring' := (Prod.mk.inj (hsubmit'.symm.trans hsubmit)).2
  refine ⟨rfl, h.bufSize, ?_, hlevel, key_insert h.key, device_insert h.device _⟩
  show s.rx.queue.submitted + 1 = (s.posted ++ [c.handle.dmaAddr]).length
  rw [h.count, List.length_append]
  rfl

theorem Filling.fill (hs : s.Alive → s.rx.queue.submitted ≤ queueSize - 1 → s.Filling)
    {rx : RxQueue.State Ring σ} (hstep : RxQueue.step os rxQueue s.rx .fill = some rx)
    (halive : rx.life = .filling ∨ rx.life = .running) (hle : rx.queue.submitted ≤ queueSize - 1) :
    Filling { s with rx := rx } := by
  obtain ⟨hlife, r, q, hrun, hrx⟩ := RxQueue.step_fill hstep halive
  rw [hrx] at hle ⊢
  rcases RxQueue.prefillStep_cases hrun with ⟨-, rfl⟩ | ⟨c, i, answer, pool, hsubmit, ⟨rfl, rfl⟩ | ⟨rfl, rfl⟩⟩
  · exact { hs (.inl hlife) hle with packet := rfl }
  · exact (hs (.inl hlife) (Nat.le_of_succ_le hle)).post hsubmit hle
  · obtain rfl : i = s.ring := Ring.submit_eq_error hsubmit
    exact { hs (.inl hlife) hle with packet := rfl }

theorem Filling.step (he : e.Prefills) (hs : s.Alive → s.rx.queue.submitted ≤ queueSize - 1 → s.Filling)
    (hstep : s.step os e = some s') (halive : s'.Alive) (hle : s'.rx.queue.submitted ≤ queueSize - 1) :
    s'.Filling := by
  cases e with
  | call e =>
    obtain rfl : e = .fill := he
    obtain ⟨rx, hrx, rfl⟩ := Option.map_eq_some_iff.mp hstep
    exact Filling.fill hs hrx halive hle
  | advance =>
    obtain ⟨ring', hring, rfl⟩ := Option.map_eq_some_iff.mp hstep
    have h := hs halive hle
    exact { h with level := h.level.advance hring }
  | fill length =>
    simp only [Receiver.step] at hstep
    split_ifs at hstep with hbehind
    obtain rfl := Option.some.inj hstep
    have h := hs halive hle
    exact { h with level := h.level.finish hbehind length }

/-- The ring after a `prefill` that has not posted more than it has room for. -/
theorem Filling.run {es : List Event} (h : s.Filling) (hrun : Machine.run (Receiver.step os) s es = some s')
    (hes : ∀ e ∈ es, e.Prefills) (halive : s'.Alive) (hle : s'.rx.queue.submitted ≤ queueSize - 1) : s'.Filling :=
  Machine.run_keeps_of (I := fun s => s.Alive → s.rx.queue.submitted ≤ queueSize - 1 → s.Filling) Filling.step hes hrun
    (fun _ _ => h) halive hle

theorem Filling.inv (h : s.Filling) (hrunning : s.rx.life = .running) (hposted : s.posted.length = queueSize - 1)
    (hsize : s.rx.queue.inflight.size = queueSize - 1) : s.Inv := by
  have hnodup : s.posted.Nodup := by
    have hkeys := s.rx.queue.inflight.nodup_keys
    have hsub : s.rx.queue.inflight.keys.Subperm s.posted :=
      List.subperm_of_subset hkeys fun a ha => (h.device a).mpr (SortedMap.mem_keys.mp ha)
    have hperm := hsub.perm_of_length_le (by rw [SortedMap.length_keys, hposted, hsize])
    exact hperm.nodup_iff.mp hkeys
  have hreceived : s.received = 0 := Nat.sub_eq_zero_of_le h.count.le
  refine ⟨hrunning, h.bufSize, ⟨h.key, h.device, hnodup⟩, ?_, hreceived ▸ h.level, ?_, fun hp => ?_⟩
  · rw [hreceived, Nat.zero_add]
    exact h.count
  · rw [h.packet]
    exact hposted
  · cases h.packet.symm.trans hp

/-! ### A pool that fills the ring -/

/-- The ring is being filled from a pool whose buffers have addresses of their own. -/
structure Supplied (s : Receiver σ) (cs : List DCommon) : Prop extends s.Filling where
  filling : s.rx.life = .filling
  ringSize : s.rx.queue.config.ringSize = queueSize
  pool : s.rx.queue.pool.pool = cs
  size : s.rx.queue.inflight.size = s.posted.length
  idle : s.advanced = 0 ∧ s.lengths = []
  distinct : (s.posted ++ cs.map fun c => c.handle.dmaAddr).Nodup

/-- A turn of `prefill` posts the next buffer of the pool. -/
theorem Supplied.fill (os : DmaOp σ) {c : DCommon} {cs : List DCommon} (h : s.Supplied (c :: cs))
    (hroom : s.posted.length < queueSize - 1) :
    ∃ s', s.step os (.call .fill) = some s' ∧ s'.Supplied cs ∧ s'.posted.length = s.posted.length + 1 := by
  have hout : c.handle.dmaAddr ∉ s.posted := fun hmem =>
    (List.nodup_append.mp h.distinct).2.2 _ hmem _ List.mem_cons_self rfl
  have hget : s.rx.queue.inflight.get c.handle.dmaAddr = none := by
    refine Option.eq_none_iff_forall_ne_some.mpr fun c' hget => hout ((h.device _).mpr ⟨c', hget⟩)
  have hlen : min s.rx.queue.config.bufSize c.handle.size ≤ maxPacket := h.bufSize ▸ min_le_left _ _
  obtain ⟨ring', hsubmit, -⟩ :=
    h.level.submit c.handle.dmaAddr hlen (Nat.lt_sub_iff_add_lt.mp hroom)
  have hhw : rxQueue.submit s.rx.queue.interface c.handle.dmaAddr (min s.rx.queue.config.bufSize c.handle.size) =
    (.ok (), ring') := hsubmit
  have hturn : s.rx.queue.inflight.size < s.rx.queue.capacity := by
    rw [capacity, h.ringSize, h.size]
    exact hroom
  have hstep : RxQueue.step os rxQueue s.rx .fill = some ⟨{ s.rx.queue with
      interface := ring', device := s.rx.queue.device ++ [c.handle.dmaAddr], submitted := s.rx.queue.submitted + 1
      pool := { s.rx.queue.pool with pool := cs, buffs := s.rx.queue.pool.buffs ++ [c] }
      inflight := s.rx.queue.inflight.insert c.handle.dmaAddr c }, none, .filling⟩ := by
    simp only [RxQueue.step, h.filling, h.packet, RxQueue.prefillStep, Exec.bind_apply, Exec.gets_apply, hturn, if_true,
      Queue.alloc, Dma.DArrayPool.alloc, h.pool, RxQueue.prefillBuffer, RxQueue.submitBuffer, Queue.submit, hhw,
      Queue.insert, hget]
  have hcount : s.rx.queue.submitted + 1 ≤ queueSize - 1 := h.count ▸ hroom
  refine ⟨_, congrArg (Option.map _) hstep, ?_, List.length_append⟩
  refine ⟨h.toFilling.post hsubmit hcount, rfl, h.ringSize, rfl, ?_, h.idle, ?_⟩
  · rw [posted, List.length_append]
    exact (SortedMap.size_insert hget).trans (congrArg (· + 1) h.size)
  · have hdistinct := h.distinct
    rwa [List.map_cons, List.append_cons] at hdistinct

theorem Supplied.run {n : Nat} {cs : List DCommon} (h : s.Supplied cs) (hn : n ≤ cs.length)
    (hroom : s.posted.length + n ≤ queueSize - 1) :
    ∃ t, Machine.run (Receiver.step os) s (List.replicate n (.call .fill)) = some t ∧ t.Supplied (cs.drop n) ∧
      t.posted.length = s.posted.length + n := by
  induction n generalizing s cs with
  | zero => exact ⟨s, rfl, h, rfl⟩
  | succ n ih =>
    rcases cs with _ | ⟨c, cs⟩
    · exact absurd hn (Nat.not_succ_le_zero n)
    · obtain ⟨s', hstep, hs', hlength⟩ := h.fill os (by omega)
      obtain ⟨t, hrun, ht, hlength'⟩ := ih hs' (Nat.le_of_succ_le_succ hn) (by omega)
      exact ⟨t, Machine.run_cons.mpr ⟨s', hstep, hrun⟩, ht, by omega⟩

theorem prefill_fills {dmaMask : Nat} {w : World σ} {q : Queue Ring σ}
    (hcreate : Queue.create os (config dmaMask) .fromDevice {} w = .ok q) (henough : queueSize - 1 ≤ q.pool.pool.length)
    (hdistinct : (q.pool.pool.map fun c => c.handle.dmaAddr).Nodup) :
    ∃ t, Machine.run (step os) { rx := { queue := q } } (List.replicate (queueSize - 1) (.call .fill) ++ [.call .fill]) =
        some t ∧
      t.rx.life = .running ∧ t.rx.packet = none ∧ t.rx.queue.submitted = queueSize - 1 ∧
      t.rx.queue.inflight.size = queueSize - 1 ∧ t.advanced = 0 ∧ t.lengths = [] := by
  have hfilling := filling_start rfl hcreate
  obtain ⟨layout, -, rfl⟩ := create_eq_ok hcreate
  have hstart : Supplied { rx := { queue := _ } } _ := ⟨hfilling, rfl, rfl, rfl, rfl, ⟨rfl, rfl⟩, hdistinct⟩
  obtain ⟨t, hrun, ht, hlength⟩ := hstart.run henough (Nat.zero_add _).le
  replace hlength : t.posted.length = queueSize - 1 := hlength.trans (Nat.zero_add _)
  have hfull : ¬ t.rx.queue.inflight.size < t.rx.queue.capacity := by
    rw [capacity, ht.ringSize, ht.size, hlength]
    exact Nat.lt_irrefl _
  have hlast : RxQueue.step os rxQueue t.rx .fill = some { t.rx with life := .running } := by
    simp only [RxQueue.step, ht.filling, ht.packet, RxQueue.prefillStep, Exec.bind_apply, Exec.gets_apply, hfull,
      if_false, Exec.pure_apply]
  refine ⟨_, Machine.run_append.mpr ⟨t, hrun, Machine.run_cons.mpr ⟨_, congrArg (Option.map _) hlast, rfl⟩⟩, rfl,
    ht.packet, ht.count.trans hlength, ht.size.trans hlength, ht.idle⟩

theorem bump_addrs : ((Dma.newPool ⟨bumpBackend, 2 ^ 32 - 1⟩ ⟨maxPacket, 16, by decide⟩ .fromDevice queueSize
    freshWorld).pool.map fun c => c.handle.dmaAddr) = (List.range queueSize).map (4096 + maxPacket * ·) := by
  decide +kernel

/-! ### Receiving -/

/-- Once the ring is full, every packet is received in order and its buffer posted again: the same number of buffers
is posted from then on. -/
theorem receive_conserves (os : DmaOp σ) (dmaMask : Nat) (w : World σ) (q : Queue Ring σ) (es es' : List Event)
    (t s : Receiver σ) (hcreate : Queue.create os (config dmaMask) .fromDevice {} w = .ok q)
    (hprefill : ∀ e ∈ es, e.Prefills) (hfilling : Machine.run (step os) { rx := { queue := q } } es = some t)
    (hrunning : t.rx.life = .running) (hposted : t.rx.queue.submitted = queueSize - 1)
    (hinflight : t.rx.queue.inflight.size = queueSize - 1)
    (hcalls : ∀ e ∈ es', e ≠ .call .dropQueue) (hrun : Machine.run (step os) t es' = some s) : s.Conserved os := by
  have hfull := (filling_start rfl hcreate).run hfilling hprefill (.inr hrunning) hposted.le
  have hinv := hfull.inv hrunning (hfull.count.symm.trans hposted) hinflight
  exact (Machine.run_keeps_of (fun he hs hstep => hs.step hstep he) hcalls hrun hinv).conserved

/-- A packet that comes when none is waiting is received, and its buffer posted again. -/
theorem Inv.receives (h : s.Inv) (hnone : s.rx.packet = none) (hadvanced : s.advanced = s.received)
    (hlengths : s.lengths.length = s.received) (length : Nat) :
    ∃ s', Machine.run (Receiver.step os) s [.advance, .fill length, .call .tryReceive, .call .dropPacket] = some s' := by
  have hfull := h.full
  rw [hnone, Option.toList_none, List.length_nil, Nat.add_zero] at hfull
  have hring : s.ring.advance = some { s.ring with head := (s.ring.head + 1) % queueSize } := by
    refine if_neg ?_
    rw [h.level.head, h.level.tail, hadvanced, hfull]
    simp only [queueSize]
    omega
  obtain ⟨s₁, hadvance, hnone₁, hadvanced₁, hlengths₁, hreceived₁⟩ : ∃ s₁, s.step os .advance = some s₁ ∧
      s₁.rx.packet = none ∧ s₁.advanced = s.advanced + 1 ∧ s₁.lengths = s.lengths ∧ s₁.received = s.received :=
    ⟨_, congrArg (Option.map _) hring, hnone, rfl, rfl, rfl⟩
  obtain ⟨s₂, hfill, hnone₂, hlengths₂, hreceived₂⟩ : ∃ s₂, s₁.step os (.fill length) = some s₂ ∧
      s₂.rx.packet = none ∧ s₂.lengths = s₁.lengths ++ [length] ∧ s₂.received = s₁.received :=
    ⟨_, if_pos (by rw [hlengths₁]; omega), hnone₁, rfl, rfl⟩
  have h₂ : s₂.Inv := (h.step hadvance (by simp)).step hfill (by simp)
  rcases h₂.tryReceive hnone₂ with ⟨hempty, -⟩ | ⟨_, _, p, _, -, -, -, -, hrun, -⟩
  · rw [hlengths₂, hreceived₂, hreceived₁, hlengths₁, ← hlengths, List.getElem?_concat_length] at hempty
    cases hempty
  · have hreceive : s₂.step os (.call .tryReceive) = some { s₂ with
        rx := ⟨(RxQueue.tryReceive rxQueue s₂.rx.queue).2, some p, .running⟩ } := by
      simp only [Receiver.step, RxQueue.step, h₂.running, hnone₂, hrun, Option.map_some]
    exact ⟨_, Machine.run_cons.mpr ⟨s₁, hadvance, Machine.run_cons.mpr ⟨s₂, hfill, Machine.run_cons.mpr
      ⟨_, hreceive, rfl⟩⟩⟩⟩

/-- A ring that was filled from a new pool, a packet, and its buffer posted again. -/
theorem receive_conserves_bump : ∃ q t s,
    Queue.create bumpBackend (config (2 ^ 32 - 1)) .fromDevice ({} : Ring) freshWorld = .ok q ∧
      Machine.run (step bumpBackend) { rx := { queue := q } }
        (List.replicate (queueSize - 1) (.call .fill) ++ [.call .fill]) = some t ∧
      Machine.run (step bumpBackend) t [.advance, .fill 60, .call .tryReceive, .call .dropPacket] = some s ∧
      s.Conserved bumpBackend := by
  obtain ⟨q, hcreate⟩ : ∃ q, Queue.create bumpBackend (config (2 ^ 32 - 1)) .fromDevice ({} : Ring) freshWorld = .ok q :=
    ⟨_, rfl⟩
  have haddrs : (q.pool.pool.map fun c => c.handle.dmaAddr) = (List.range queueSize).map (4096 + maxPacket * ·) := by
    obtain ⟨layout, hlayout, rfl⟩ := create_eq_ok hcreate
    obtain rfl := Option.some.inj hlayout
    exact bump_addrs
  have hlength : q.pool.pool.length = queueSize := by
    simpa using congrArg List.length haddrs
  have hdistinct : (q.pool.pool.map fun c => c.handle.dmaAddr).Nodup := by
    refine haddrs ▸ List.nodup_range.map fun a b hab => ?_
    exact Nat.eq_of_mul_eq_mul_left (by decide : 0 < maxPacket) (Nat.add_left_cancel hab)
  obtain ⟨t, hfill, hrunning, hnone, hposted, hinflight, hadvanced, hlengths⟩ :=
    prefill_fills hcreate (hlength ▸ Nat.sub_le queueSize 1) hdistinct
  have hprefill : ∀ e ∈ List.replicate (queueSize - 1) (.call .fill) ++ [.call .fill], Event.Prefills e := by
    intro e he
    rcases List.mem_append.mp he with he | he
    · exact (List.eq_of_mem_replicate he).symm ▸ rfl
    · exact (List.mem_singleton.mp he).symm ▸ rfl
  have hfull := (filling_start rfl hcreate).run hfill hprefill (.inr hrunning) hposted.le
  have hreceived : t.received = 0 := Nat.sub_eq_zero_of_le hfull.count.le
  obtain ⟨s, hreceive⟩ := (hfull.inv hrunning (hfull.count.symm.trans hposted) hinflight).receives hnone
    (hadvanced.trans hreceived.symm) (by rw [hlengths, hreceived]; rfl) 60
  refine ⟨q, t, s, hcreate, hfill, hreceive, receive_conserves bumpBackend (2 ^ 32 - 1) freshWorld q _ _ t _ hcreate
    hprefill hfill hrunning hposted hinflight ?_ hreceive⟩
  decide

end Receiver

end Sparreal.Eth.E1000
