import Sparreal.Eth.TxQueue

/-!
# Receiving packets

A `RxQueue` of `rd-net/src/lib.rs` in use: it is filled with buffers when it is created, packets are received and
consumed or dropped, and at some point the queue is dropped, as it is when filling it fails. A packet refers to its
queue, so there is one at a time.

A buffer leaves the map only with the packet that came in it, and goes back to the device or to the pool. So nothing
the device has is given away while the queue is there; dropping it gives everything back that the device still has
(`buffers_outlive_iff`, for both kinds of queue).
-/

namespace Sparreal.Eth.RxQueue

open Queue
open Dma (DeviceDma DmaOp World DCommon Pool Fresh)

variable {ι σ : Type}

/-! ### The queue in use -/

structure State (ι σ : Type) where
  queue : Queue ι σ
  packet : Option RxPacket := none
  life : Life := .filling

inductive Event where
  /-- One turn of the loop of `prefill`. -/
  | fill
  | tryReceive
  | consume
  | dropPacket
  | dropQueue
  deriving DecidableEq, Repr

def State.dma (os : DmaOp σ) (s : State ι σ) : DeviceDma σ := ⟨os, s.queue.config.dmaMask⟩

/-- One turn of the loop, or one call. A queue that cannot be filled is dropped. -/
def step (os : DmaOp σ) (hw : IRxQueue ι) (s : State ι σ) (e : Event) : Option (State ι σ) :=
  match s.life, e, s.packet with
  | .filling, .fill, none =>
    match prefillStep (s.dma os) hw s.queue with
    | (.ok true, q) => some { s with queue := q }
    | (.ok false, q) => some { s with queue := q, life := .running }
    | (.error (.err _), q) => some { s with queue := q.drop (s.dma os), life := .dropped }
    | (.error .panic, q) => some { s with queue := q, life := .panicked }
  | .running, .tryReceive, none =>
    let r := tryReceive hw s.queue
    some { s with queue := r.2, packet := r.1 }
  | .running, .consume, some p =>
    match consume (s.dma os) hw p s.queue with
    | (.ok _, q) => some { s with queue := q, packet := none }
    | (.error _, q) => some { s with queue := q, life := .panicked }
  | .running, .dropPacket, some p => some { s with queue := dropPacket (s.dma os) hw p s.queue, packet := none }
  | .running, .dropQueue, none => some { s with queue := s.queue.drop (s.dma os), life := .dropped }
  | _, _, _ => none

/-! ### What the calls do -/

section Calls

variable {d : DeviceDma σ} {hw : IRxQueue ι} {q q' : Queue ι σ} {held : List DCommon} {c : DCommon}

theorem submitBuffer_spec (d : DeviceDma σ) (hw : IRxQueue ι) (h : q.Inv (c :: held)) {r : Except Stop Unit}
    (hrun : submitBuffer d hw c q = (r, q')) :
    q'.Inv held ∧ q'.pool.world = q.pool.world ∧ q'.config = q.config ∧
      (r = .ok () ∨ (∃ e, r = .error (.err e)) ∧ q'.inflight = q.inflight) := by
  rcases hsubmit : Queue.submit hw c.handle.dmaAddr (min q.config.bufSize c.handle.size) q with ⟨r₁, q₁⟩
  simp only [submitBuffer, hsubmit] at hrun
  rcases submit_cases hsubmit with ⟨rfl, i, rfl⟩ | ⟨e, i, rfl, rfl⟩
  · obtain ⟨rfl, rfl⟩ := Prod.mk.inj hrun
    refine ⟨h.insert i _, ?_, ?_, .inl rfl⟩
    all_goals simp only [Queue.insert, h.get_held List.mem_cons_self]
  · obtain ⟨rfl, rfl⟩ := Prod.mk.inj hrun
    have hsame := (h.interface i).same_dropBuff (d := d)
    exact ⟨(h.interface i).dropBuff, hsame.world, hsame.config, .inr ⟨⟨e, rfl⟩, rfl⟩⟩

theorem moves_submitBuffer (d : DeviceDma σ) (hw : IRxQueue ι) (c : DCommon) :
    Exec.Moves (Grows (ι := ι)) (submitBuffer d hw c) := by
  intro q
  rcases hsubmit : Queue.submit hw c.handle.dmaAddr (min q.config.bufSize c.handle.size) q with ⟨_ | _, q₁⟩
  all_goals
    have hmoves := (moves_submit hw _ _).of_run hsubmit
    simp only [submitBuffer, hsubmit]
  · exact hmoves.trans (grows_dropBuff d c q₁)
  · exact hmoves.trans (grows_insert d _ c q₁)

theorem moves_prefillStep (d : DeviceDma σ) (hw : IRxQueue ι) : Exec.Moves (Grows (ι := ι)) (prefillStep d hw) := by
  refine Grows.gets fun n => Grows.gets fun m => ?_
  split_ifs
  · refine Grows.bind (moves_alloc d) fun c q => ?_
    rw [prefillBuffer]
    split
    all_goals
      next hrun => exact (moves_submitBuffer d hw c).of_run hrun
  · exact Grows.refl

/-- What a turn of the loop does: the ring is full, there is no buffer, or the hardware answers. -/
theorem prefillStep_inv {r : Except Stop Bool} (hrun : prefillStep d hw q = (r, q')) :
    (r = .ok false ∧ q' = q) ∨ (∃ e, r = .error e ∧ alloc d q = (.error e, q')) ∨
      ∃ c q₁ answer, alloc d q = (.ok c, q₁) ∧ submitBuffer d hw c q₁ = (answer, q') ∧
        (answer = .ok () ∧ r = .ok true ∨ answer = .error (.err .retry) ∧ r = .ok false ∨
          ∃ e, answer = .error e ∧ r = .error e) := by
  rw [prefillStep, Exec.bind_apply_ok (Exec.gets_apply ..), Exec.bind_apply_ok (Exec.gets_apply ..)] at hrun
  split_ifs at hrun
  · rcases halloc : alloc d q with ⟨e | c, q₁⟩
    · rw [Exec.bind_apply, halloc] at hrun
      obtain ⟨rfl, rfl⟩ := Prod.mk.inj hrun
      exact .inr (.inl ⟨e, rfl, rfl⟩)
    · rw [Exec.bind_apply_ok halloc, prefillBuffer] at hrun
      refine .inr (.inr ⟨c, q₁, ?_⟩)
      split at hrun
      all_goals
        next hsubmit =>
        obtain ⟨rfl, rfl⟩ := Prod.mk.inj hrun
        exact ⟨_, rfl, hsubmit, by simp⟩
  · obtain ⟨rfl, rfl⟩ := Prod.mk.inj hrun
    exact .inl ⟨rfl, rfl⟩

/-- One turn of the loop of `prefill` adds a buffer to the map or leaves it as it is. -/
theorem prefillStep_spec (h : q.Inv []) (hsmall : q.config.bufSize < 2 ^ 64) {r : Except Stop Bool}
    (hrun : prefillStep d hw q = (r, q')) (hfresh : Fresh q'.pool.world.calls) :
    q'.Inv [] ∧ q'.config = q.config ∧
      ((∃ b, r = .ok b) ∨ (∃ e, r = .error (.err e)) ∧ q'.inflight = q.inflight) := by
  rcases prefillStep_inv hrun with ⟨rfl, rfl⟩ | ⟨e, rfl, halloc⟩ | ⟨c, q₁, answer, halloc, hsubmit, hr⟩
  · exact ⟨h, rfl, .inl ⟨false, rfl⟩⟩
  · have hpanic := h.alloc_ne_panic hsmall halloc
    obtain ⟨hconfig, hinv⟩ := h.alloc halloc hfresh
    obtain ⟨r', pool, -, rfl, -⟩ := alloc_cases halloc
    cases e with
    | err e => exact ⟨hinv, hconfig, .inr ⟨⟨e, rfl⟩, rfl⟩⟩
    | panic => exact absurd rfl hpanic
  · have hmoves := (moves_submitBuffer d hw c).of_run hsubmit
    obtain ⟨hconfig, hinv⟩ := h.alloc halloc (hfresh.of_suffix hmoves)
    obtain ⟨r', pool, -, rfl, -⟩ := alloc_cases halloc
    obtain ⟨hinv₂, -, hconfig₂, hanswer⟩ := submitBuffer_spec d hw hinv hsubmit
    refine ⟨hinv₂, hconfig₂.trans hconfig, ?_⟩
    rcases hr with ⟨-, rfl⟩ | ⟨-, rfl⟩ | ⟨e, rfl, rfl⟩
    · exact .inl ⟨true, rfl⟩
    · exact .inl ⟨false, rfl⟩
    · obtain ⟨⟨e', he'⟩, hinflight⟩ := hanswer.resolve_left (by simp)
      obtain rfl : e = .err e' := Except.error.inj he'
      exact .inr ⟨⟨e', rfl⟩, hinflight⟩

/-- What a turn of the loop of `prefill` can do if it does not fail: nothing, post a buffer, or give it back. -/
theorem prefillStep_cases {r : Bool} (hrun : prefillStep d hw q = (.ok r, q')) :
    (r = false ∧ q' = q) ∨
      ∃ c i answer pool, hw.submit q.interface c.handle.dmaAddr (min q.config.bufSize c.handle.size) = (answer, i) ∧
        (answer = .ok () ∧ q' = { q with
            interface := i, pool := pool, device := q.device ++ [c.handle.dmaAddr], submitted := q.submitted + 1
            inflight := q.inflight.insert c.handle.dmaAddr c } ∨
          answer = .error .retry ∧ q' = { q with interface := i, pool := pool }) := by
  rcases prefillStep_inv hrun with ⟨hr, rfl⟩ | ⟨e, hr, -⟩ | ⟨c, q₁, answer, halloc, hsubmit, hr⟩
  · exact .inl ⟨Except.ok.inj hr, rfl⟩
  · cases hr
  · obtain ⟨r', pool, -, rfl, -⟩ := alloc_cases halloc
    rcases hhw : hw.submit q.interface c.handle.dmaAddr (min q.config.bufSize c.handle.size) with ⟨e | _, i⟩
    all_goals
      simp only [submitBuffer, Queue.submit, hhw] at hsubmit
      obtain ⟨rfl, rfl⟩ := Prod.mk.inj hsubmit
    · rcases hr with ⟨hok, -⟩ | ⟨hretry, -⟩ | ⟨e', -, hr⟩
      · cases hok
      · exact .inr ⟨c, i, _, _, hhw, .inr ⟨congrArg _ (Stop.err.inj (Except.error.inj hretry)), rfl⟩⟩
      · cases hr
    · obtain ⟨pool', hinsert⟩ := insert_eq d c.handle.dmaAddr c { q with
        interface := i, pool := pool, device := q.device ++ [c.handle.dmaAddr], submitted := q.submitted + 1 }
      exact .inr ⟨c, i, _, pool', hhw, .inl ⟨rfl, hinsert⟩⟩

theorem tryReceive_spec {r : Option RxPacket} (h : q.Inv []) (hrun : tryReceive hw q = (r, q')) :
    q'.Inv (r.map (·.buff)).toList ∧ q.Same q' ∧ ∀ p, r = some p → p.len ≤ p.buff.handle.size := by
  rw [tryReceive, reclaimPacket, Exec.bind_apply] at hrun
  rcases hone : reclaimBuffer hw "reclaimed unknown rx buffer" q with ⟨r₁, q₁⟩
  rw [hone] at hrun
  obtain ⟨hsame, ⟨rfl | rfl, hinv⟩ | ⟨c, len, rfl, hinv⟩⟩ := h.reclaimBuffer hone
  · obtain ⟨rfl, rfl⟩ := Prod.mk.inj hrun
    exact ⟨hinv, hsame, fun p hp => by cases hp⟩
  · obtain ⟨rfl, rfl⟩ := Prod.mk.inj hrun
    exact ⟨hinv, hsame, fun p hp => by cases hp⟩
  · obtain ⟨rfl, rfl⟩ := Prod.mk.inj hrun
    refine ⟨hinv, hsame, fun p hp => ?_⟩
    obtain rfl := Option.some.inj hp
    exact min_le_right _ _

end Calls

/-! ### Runs -/

variable {hw : IRxQueue ι} {os : DmaOp σ} {s s' : State ι σ} {e : Event}

/-- The queue is in order, and its packet fits in its buffer. -/
structure State.Inv (s : State ι σ) : Prop where
  life : s.life = .filling ∨ s.life = .running
  queue : s.queue.Inv (s.packet.map (·.buff)).toList
  small : s.queue.config.bufSize < 2 ^ 64
  fits : ∀ {p}, s.packet = some p → p.len ≤ p.buff.handle.size

theorem moves_reclaimPacket (hw : IRxQueue ι) : Exec.Moves (Grows (σ := σ)) (reclaimPacket hw) := by
  refine Grows.bind (moves_reclaimBuffer hw _) fun r => ?_
  rcases r with _ | ⟨c, len⟩
  · exact Grows.refl
  · exact Grows.gets fun _ => Grows.refl

theorem grows_tryReceive (q : Queue ι σ) : q.Grows (tryReceive hw q).2 := by
  rw [tryReceive]
  split
  all_goals
    next hrun => exact (moves_reclaimPacket hw).of_run hrun

theorem moves_consume (d : DeviceDma σ) (hw : IRxQueue ι) (p : RxPacket) :
    Exec.Moves (Grows (ι := ι)) (consume d hw p) := by
  refine Grows.bind (fun q => ?_) fun _ => Grows.bind (fun q => moves_submitBuffer d hw p.buff q) fun _ => Grows.refl
  rw [readWith]
  split_ifs
  · exact List.suffix_rfl
  · exact List.suffix_rfl

theorem grows_step (hstep : step os hw s e = some s') : s.queue.Grows s'.queue := by
  unfold step at hstep
  split at hstep
  · have hmoves := moves_prefillStep (s.dma os) hw s.queue
    rcases hrun : prefillStep (s.dma os) hw s.queue with ⟨(_ | _) | (_ | _), q⟩
    all_goals
      rw [hrun] at hstep hmoves
      obtain rfl := Option.some.inj hstep
    · exact hmoves.trans (grows_drop ..)
    all_goals exact hmoves
  · exact Option.some.inj hstep ▸ grows_tryReceive _
  · next p _ _ =>
    split at hstep
    all_goals
      next hrun => exact Option.some.inj hstep ▸ (moves_consume (s.dma os) hw p).of_run hrun
  · exact Option.some.inj hstep ▸ moves_submitBuffer _ _ _ _
  · exact Option.some.inj hstep ▸ grows_drop ..
  · cases hstep

theorem step_fill (hstep : step os hw s .fill = some s') (halive : s'.life = .filling ∨ s'.life = .running) :
    s.life = .filling ∧ ∃ r q, prefillStep (s.dma os) hw s.queue = (.ok r, q) ∧ s' = ⟨q, none, s'.life⟩ := by
  rcases hlife : s.life with _ | _ | _ | _ <;> rcases hpacket : s.packet with _ | p <;>
    simp only [step, hlife, hpacket] at hstep <;> try cases hstep
  refine ⟨rfl, ?_⟩
  rcases hrun : prefillStep (s.dma os) hw s.queue with ⟨(_ | _) | b, q⟩
  all_goals simp only [hrun] at hstep
  · obtain rfl := Option.some.inj hstep
    rcases halive with halive | halive <;> cases halive
  · obtain rfl := Option.some.inj hstep
    rcases halive with halive | halive <;> cases halive
  · cases b with
    | true | false => exact ⟨_, q, rfl, Option.some.inj hstep ▸ rfl⟩

theorem fresh_step (hstep : step os hw s e = some s') (hfresh : Fresh s'.queue.pool.world.calls) :
    Fresh s.queue.pool.world.calls :=
  hfresh.of_suffix (grows_step hstep)

/-- The queue is dropped, by its owner or because it cannot be filled; what it is before that. -/
inductive Drops (os : DmaOp σ) (hw : IRxQueue ι) (s : State ι σ) : Event → Queue ι σ → Prop
  | owner : s.life = .running → s.packet = none → Drops os hw s .dropQueue s.queue
  | unfilled {err : NetError} {q : Queue ι σ} : s.life = .filling → s.packet = none →
      prefillStep (s.dma os) hw s.queue = (.error (.err err), q) → Drops os hw s .fill q

variable {q : Queue ι σ}

theorem Drops.step (h : Drops os hw s e q) :
    step os hw s e = some { s with queue := q.drop (s.dma os), life := .dropped } := by
  cases h with
  | owner hlife hpacket => simp only [RxQueue.step, hlife, hpacket]
  | unfilled hlife hpacket hrun => simp only [RxQueue.step, hlife, hpacket, hrun]

theorem step_cases (h : s.Inv) (hstep : step os hw s e = some s') (hfresh : Fresh s'.queue.pool.world.calls) :
    s'.Inv ∨ ∃ q, Drops os hw s e q := by
  unfold step at hstep
  have hqueue := h.queue
  split at hstep
  · next hlife hpacket =>
    rw [hpacket] at hqueue
    rcases hrun : prefillStep (s.dma os) hw s.queue with ⟨r, q⟩
    simp only [hrun] at hstep
    have hgrows : q.Grows s'.queue := by
      rcases r with (_ | _) | (_ | _)
      · exact Option.some.inj hstep ▸ grows_drop ..
      all_goals exact Option.some.inj hstep ▸ Grows.refl q
    obtain ⟨hinv, hconfig, ⟨b, rfl⟩ | ⟨⟨err, rfl⟩, -⟩⟩ :=
      prefillStep_spec hqueue h.small hrun (hfresh.of_suffix hgrows)
    · refine .inl ?_
      cases b with
      | true =>
        obtain rfl := Option.some.inj hstep
        exact ⟨h.life, by rw [hpacket]; exact hinv, hconfig ▸ h.small, h.fits⟩
      | false =>
        obtain rfl := Option.some.inj hstep
        exact ⟨.inr rfl, by rw [hpacket]; exact hinv, hconfig ▸ h.small, h.fits⟩
    · exact .inr ⟨q, .unfilled hlife hpacket hrun⟩
  · next hlife hpacket =>
    rw [hpacket] at hqueue
    obtain ⟨hinv, hsame, hfits⟩ := tryReceive_spec hqueue (Prod.eta (tryReceive hw s.queue))
    obtain rfl := Option.some.inj hstep
    exact .inl ⟨h.life, hinv, hsame.config ▸ h.small, fun hp => hfits _ hp⟩
  · next p hlife hpacket =>
    have hfits := h.fits hpacket
    rw [hpacket] at hqueue
    simp only [consume, Exec.bind_apply, readWith, if_pos hfits, Exec.modify_apply, Exec.pure_apply] at hstep
    obtain rfl := Option.some.inj hstep
    obtain ⟨hinv, -, hconfig, -⟩ := submitBuffer_spec (s.dma os) hw (hqueue.access _) (Prod.eta _)
    exact .inl ⟨h.life, hinv, hconfig ▸ h.small, fun hp => by cases hp⟩
  · next p hlife hpacket =>
    rw [hpacket] at hqueue
    obtain rfl := Option.some.inj hstep
    obtain ⟨hinv, -, hconfig, -⟩ := submitBuffer_spec (s.dma os) hw hqueue (Prod.eta _)
    exact .inl ⟨h.life, hinv, hconfig ▸ h.small, fun hp => by cases hp⟩
  · next hlife hpacket => exact .inr ⟨_, .owner hlife hpacket⟩
  · cases hstep

theorem step_stopped (hlife : s.life = .dropped) : step os hw s e = none := by
  simp only [step, hlife]

theorem inv_start {config : QueueConfig} {i : ι} {w : World σ}
    (hcreate : Queue.create os config .fromDevice i w = .ok q) (hfresh : Fresh q.pool.world.calls) :
    State.Inv { queue := q } := by
  obtain ⟨hinv, hsmall⟩ := inv_create hcreate hfresh
  exact ⟨.inl rfl, hinv, hsmall, fun hp => by cases hp⟩

/-! ### What the device has -/

/-- The queue is dropped while the device has buffers of it. -/
def Hazard (os : DmaOp σ) (hw : IRxQueue ι) (s : State ι σ) (e : Event) : Prop :=
  s.queue.config.bufSize ≠ 0 ∧ s.queue.inflight.entries ≠ [] ∧ ∃ q, Drops os hw s e q

theorem Drops.safe_iff (h : Drops os hw s e q) (hinv : s.Inv) (hfresh : Fresh (q.drop (s.dma os)).pool.world.calls) :
    (q.drop (s.dma os)).Safe ↔ s.queue.config.bufSize = 0 ∨ s.queue.inflight.entries = [] := by
  have hfresh : Fresh q.pool.world.calls := hfresh.of_suffix (grows_drop ..)
  have hqueue := hinv.queue
  cases h with
  | owner _ hpacket =>
    rw [hpacket] at hqueue
    exact hqueue.drop_safe_iff hfresh
  | unfilled _ hpacket hrun =>
    rw [hpacket] at hqueue
    obtain ⟨hinv', hconfig, ⟨b, hb⟩ | ⟨-, hinflight⟩⟩ := prefillStep_spec hqueue hinv.small hrun hfresh
    · cases hb
    · rw [hinv'.drop_safe_iff hfresh, hconfig, hinflight]

theorem safe_iff {config : QueueConfig} {i : ι} {w : World σ} {es : List Event} {t : State ι σ}
    (hcreate : Queue.create os config .fromDevice i w = .ok q)
    (hrun : Machine.run (step os hw) { queue := q } es = some t) (hfresh : Fresh t.queue.pool.world.calls) :
    (∀ es' u, es' <+: es → Machine.run (step os hw) { queue := q } es' = some u → u.queue.Safe) ↔
      ∀ es' e u, es' ++ [e] <+: es → Machine.run (step os hw) { queue := q } es' = some u → ¬ Hazard os hw u e := by
  refine Machine.safe_iff_no_hazard (P := fun s => Fresh s.queue.pool.world.calls) (I := State.Inv) fresh_step
    (fun hinv => hinv.queue.safe) ?_ ?_ hrun hfresh (inv_start hcreate)
  · intro s e s' hinv hhazard hstep hfresh
    rcases step_cases hinv hstep hfresh with hinv' | ⟨q, hdrops⟩
    · exact .inl hinv'
    · obtain rfl := Option.some.inj (hdrops.step.symm.trans hstep)
      refine .inr ⟨(hdrops.safe_iff hinv hfresh).mpr ?_, fun _ => step_stopped rfl⟩
      by_contra hneither
      exact hhazard ⟨(not_or.mp hneither).1, (not_or.mp hneither).2, q, hdrops⟩
  · rintro s e s' hinv ⟨hsize, hne, q, hdrops⟩ hstep hfresh hsafe
    obtain rfl := Option.some.inj (hdrops.step.symm.trans hstep)
    exact ((hdrops.safe_iff hinv hfresh).mp hsafe).elim hsize hne

/-- The buffers of a network queue outlive their use by the device, unless the queue is dropped while the device has
some, or a packet is submitted again after its buffer went back to the pool. -/
theorem buffers_outlive_iff (os : DmaOp σ) (config : QueueConfig) (i : ι) (w : World σ) :
    (∀ (hw : ITxQueue ι) (q : Queue ι σ) (es : List TxQueue.Event) (t : TxQueue.State ι σ),
      Queue.create os config .toDevice i w = .ok q →
      Machine.run (TxQueue.step os hw) { queue := q } es = some t → Fresh t.queue.pool.world.calls →
      ((∀ es' u, es' <+: es → Machine.run (TxQueue.step os hw) { queue := q } es' = some u → u.queue.Safe) ↔
        ∀ es' e u, es' ++ [e] <+: es → Machine.run (TxQueue.step os hw) { queue := q } es' = some u →
          ¬ TxQueue.Hazard os hw u e)) ∧
    ∀ (hw : IRxQueue ι) (q : Queue ι σ) (es : List Event) (t : State ι σ),
      Queue.create os config .fromDevice i w = .ok q →
      Machine.run (step os hw) { queue := q } es = some t → Fresh t.queue.pool.world.calls →
      ((∀ es' u, es' <+: es → Machine.run (step os hw) { queue := q } es' = some u → u.queue.Safe) ↔
        ∀ es' e u, es' ++ [e] <+: es → Machine.run (step os hw) { queue := q } es' = some u → ¬ Hazard os hw u e) :=
  ⟨fun _ _ _ _ hcreate hrun hfresh => TxQueue.safe_iff hcreate hrun hfresh,
    fun _ _ _ _ hcreate hrun hfresh => safe_iff hcreate hrun hfresh⟩

/-- The device has the buffer of the packet when the `TxPending` is dropped. -/
theorem buffers_outlive_sent : ∃ q t,
    Queue.create Pool.bumpBackend TxQueue.oneBuffer .toDevice () Pool.freshWorld = .ok q ∧
      Machine.run (TxQueue.step Pool.bumpBackend (TxQueue.greedy Unit)) { queue := q }
        [.prepareSend 4 id, .trySubmit, .dropPending] = some t ∧ t.queue.device = [4096] ∧ t.queue.Safe := by
  refine ⟨_, _, rfl, rfl, rfl, ?_⟩
  refine ((buffers_outlive_iff Pool.bumpBackend TxQueue.oneBuffer () Pool.freshWorld).1 (TxQueue.greedy Unit) _
    [.prepareSend 4 id, .trySubmit, .dropPending] _ rfl rfl ⟨fun b hb => absurd hb id, trivial⟩).mpr ?_ _ _
    List.prefix_rfl rfl
  refine Machine.steps_cons.mpr ⟨by rintro ⟨⟩, fun s₁ h₁ => Machine.steps_cons.mpr ⟨fun hhazard => ?_, fun s₂ _ => ?_⟩⟩
  · obtain rfl := Option.some.inj h₁
    cases hhazard with
    | trySubmit hp hbuff =>
      obtain rfl := Option.some.inj hp
      cases hbuff
  · exact Machine.steps_cons.mpr ⟨by rintro ⟨⟩, fun _ _ => Machine.steps_nil⟩

/-- A queue that is dropped after a packet was sent, and one that is dropped after it was filled: the device has the
buffer at 4096, and it was given back. -/
theorem dropped_while_in_use :
    (∃ q t, Queue.create Pool.bumpBackend TxQueue.oneBuffer .toDevice () Pool.freshWorld = .ok q ∧
      Machine.run (TxQueue.step Pool.bumpBackend (TxQueue.greedy Unit)) { queue := q }
        [.prepareSend 4 id, .trySubmit, .dropPending, .dropQueue] = some t ∧
      t.queue.device = [4096] ∧ t.queue.pool.world.calls.head? = some (.release ⟨4096, 4096, ⟨64, 64, by decide⟩⟩) ∧
      ¬ t.queue.Safe) ∧
    ∃ q t, Queue.create Pool.bumpBackend ⟨2 ^ 32 - 1, 64, 64, 2⟩ .fromDevice () Pool.freshWorld = .ok q ∧
      Machine.run (step Pool.bumpBackend (TxQueue.greedy Nat)) { queue := q } [.fill, .fill, .dropQueue] = some t ∧
      t.queue.device = [4096] ∧ t.queue.pool.world.calls.head? = some (.release ⟨4096, 4096, ⟨64, 64, by decide⟩⟩) ∧
      ¬ t.queue.Safe := by
  refine ⟨⟨_, _, rfl, rfl, rfl, rfl, fun hsafe => ?_⟩, _, _, rfl, rfl, rfl, rfl, fun hsafe => ?_⟩
  · obtain ⟨⟨h, hlive, haddr⟩, -⟩ := hsafe 4096 List.mem_cons_self
    obtain ⟨hne, rfl | hnone⟩ := hlive
    · exact hne rfl
    · exact hnone
  · obtain ⟨⟨h, hlive, haddr⟩, -⟩ := hsafe 4096 List.mem_cons_self
    obtain ⟨hne, hne', rfl | rfl | hnone⟩ := hlive
    · exact hne' rfl
    · exact hne rfl
    · exact hnone

end Sparreal.Eth.RxQueue
