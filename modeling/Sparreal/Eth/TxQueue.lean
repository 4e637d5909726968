import Sparreal.Lib.Machine
import Sparreal.Eth.Inflight

/-!
# Sending packets

A `TxQueue` of `rd-net/src/lib.rs` in use: packets are prepared, submitted as often as the caller likes, dropped,
and at some point the queue is dropped. A packet refers to its queue, so there is one at a time and the queue
outlives it.

`try_submit` gives the buffer to the device before it looks whether the packet still has it. Calling it again after
it returned `Ok` sends the packet twice and panics, unless the device refuses (`once_iff`).
-/

namespace Sparreal.Eth.TxQueue

open Queue
open Dma (DeviceDma DmaOp World DCommon Pool Fresh)

variable {ι σ : Type}

/-! ### The queue in use -/

structure State (ι σ : Type) where
  queue : Queue ι σ
  pending : Option TxPending := none
  /-- How often `submit` had accepted a buffer when the packet was prepared. -/
  before : Nat := 0
  life : Life := .running

inductive Event where
  | prepareSend (len : Nat) (f : List UInt8 → List UInt8)
  | trySubmit
  | dropPending
  | dropQueue

def State.dma (os : DmaOp σ) (s : State ι σ) : DeviceDma σ := ⟨os, s.queue.config.dmaMask⟩

def step (os : DmaOp σ) (hw : ITxQueue ι) (s : State ι σ) (e : Event) : Option (State ι σ) :=
  if s.life ≠ .running then none
  else match e, s.pending with
    | .prepareSend len f, none =>
      match prepareSend (s.dma os) hw len f s.queue with
      | (.ok p, q) => some { s with queue := q, pending := some p, before := q.submitted }
      | (.error (.err _), q) => some { s with queue := q }
      | (.error .panic, q) => some { s with queue := q, life := .panicked }
    | .trySubmit, some p =>
      match trySubmit (s.dma os) hw p s.queue with
      | (.ok p, q) => some { s with queue := q, pending := some p }
      | (.error (.err _), q) => some { s with queue := q }
      | (.error .panic, q) => some { s with queue := q, life := .panicked }
    | .dropPending, some p => some { s with queue := dropPending (s.dma os) p s.queue, pending := none }
    | .dropQueue, none => some { s with queue := s.queue.drop (s.dma os), life := .dropped }
    | _, _ => none

/-- `try_submit` gets as far as the device, which accepts the packet; what the queue is before and after that. -/
def Accepts (os : DmaOp σ) (hw : ITxQueue ι) (s : State ι σ) (p : TxPending) (q q' : Queue ι σ) : Prop :=
  (∃ n, reclaimBounded (s.dma os) hw (max s.queue.capacity 1) s.queue = (.ok n, q)) ∧
    submit hw p.busAddr p.len q = (.ok (), q')

/-! ### What the calls do -/

variable {p : TxPending}

section Calls

variable {d : DeviceDma σ} {hw : ITxQueue ι} {q q' : Queue ι σ} {held : List DCommon}

theorem reclaimBounded_spec {limit : Nat} (h : q.Inv held) {r : Except Stop Nat}
    (hrun : reclaimBounded d hw limit q = (r, q')) : q'.Inv held ∧ q.Same q' ∧ r ≠ .error .panic := by
  induction limit generalizing q r q' with
  | zero =>
    obtain ⟨rfl, rfl⟩ := Prod.mk.inj hrun
    exact ⟨h, ⟨rfl, rfl, rfl, .refl _⟩, by simp⟩
  | succ limit ih =>
    rw [reclaimBounded, Exec.bind_apply] at hrun
    rcases hone : reclaimBuffer hw "reclaimed unknown tx buffer" q with ⟨r₁, q₁⟩
    rw [hone] at hrun
    obtain ⟨hsame, ⟨rfl | rfl, hinv⟩ | ⟨c, x, rfl, hinv⟩⟩ := h.reclaimBuffer hone
    · obtain ⟨rfl, rfl⟩ := Prod.mk.inj hrun
      exact ⟨hinv, hsame, by simp⟩
    · obtain ⟨rfl, rfl⟩ := Prod.mk.inj hrun
      exact ⟨hinv, hsame, fun he => Stop.noConfusion (Except.error.inj he)⟩
    · have hdrop := hinv.same_dropBuff (d := d)
      rcases hrest : reclaimBounded d hw limit (q₁.dropBuff d c) with ⟨r₂, q₂⟩
      obtain ⟨hinv₂, hsame₂, hr₂⟩ := ih hinv.dropBuff hrest
      have hrun : (Exec.modify (dropBuff d c) >>= fun _ => reclaimBounded d hw limit >>= fun n => pure (n + 1)) q₁ =
          (r, q') := hrun
      rw [Exec.bind_apply_ok (Exec.modify_apply ..), Exec.bind_apply, hrest] at hrun
      cases r₂ with
      | error e =>
        obtain ⟨rfl, rfl⟩ := Prod.mk.inj hrun
        exact ⟨hinv₂, hsame.trans (hdrop.trans hsame₂), fun he => hr₂ (congrArg Except.error (Except.error.inj he))⟩
      | ok n =>
        obtain ⟨rfl, rfl⟩ := Prod.mk.inj hrun
        exact ⟨hinv₂, hsame.trans (hdrop.trans hsame₂), by simp⟩

/-- How a call of `try_submit` ends: before the device has accepted the packet, or after. -/
theorem trySubmit_cases (h : q.Inv held) {r : Except Stop TxPending} (hrun : trySubmit d hw p q = (r, q')) :
    ∃ r₁ q₁, reclaimBounded d hw (max q.capacity 1) q = (r₁, q₁) ∧ q₁.Inv held ∧ q.Same q₁ ∧
      ((∃ e i, r = .error (.err e) ∧ q' = { q₁ with interface := i }) ∨
        ∃ n q₂, r₁ = .ok n ∧ submit hw p.busAddr p.len q₁ = (.ok (), q₂) ∧
          (p.buff = none ∧ r = .error .panic ∧ q' = q₂ ∨
            ∃ c, p.buff = some c ∧ r = .ok { p with buff := none } ∧ q' = q₂.insert d p.busAddr c)) := by
  rw [trySubmit, Exec.bind_apply_ok (Exec.gets_apply ..), Exec.bind_apply] at hrun
  rcases hreclaim : reclaimBounded d hw (max q.capacity 1) q with ⟨r₁, q₁⟩
  rw [hreclaim] at hrun
  obtain ⟨hinv, hsame, hpanic⟩ := reclaimBounded_spec h hreclaim
  refine ⟨r₁, q₁, rfl, hinv, hsame, ?_⟩
  cases r₁ with
  | error e =>
    obtain ⟨rfl, rfl⟩ := Prod.mk.inj hrun
    cases e with
    | err e => exact .inl ⟨e, q₁.interface, rfl, rfl⟩
    | panic => exact absurd rfl hpanic
  | ok n =>
    simp only [Exec.bind_apply] at hrun
    rcases hsubmit : submit hw p.busAddr p.len q₁ with ⟨r₂, q₂⟩
    rw [hsubmit] at hrun
    cases r₂ with
    | error e =>
      obtain ⟨rfl, rfl⟩ := Prod.mk.inj hrun
      rcases submit_cases hsubmit with ⟨he, -⟩ | ⟨e', i, he, rfl⟩
      · cases he
      · obtain rfl := Except.error.inj he
        exact .inl ⟨e', i, rfl, rfl⟩
    | ok u =>
      refine .inr ⟨n, q₂, rfl, rfl, ?_⟩
      rcases hbuff : p.buff with _ | c
      · simp only [hbuff] at hrun
        obtain ⟨rfl, rfl⟩ := Prod.mk.inj hrun
        exact .inl ⟨rfl, rfl, rfl⟩
      · simp only [hbuff] at hrun
        obtain ⟨rfl, rfl⟩ := Prod.mk.inj hrun
        exact .inr ⟨c, rfl, rfl, rfl⟩

theorem moves_reclaimBounded (d : DeviceDma σ) (hw : ITxQueue ι) (limit : Nat) :
    Exec.Moves (Grows (ι := ι)) (reclaimBounded d hw limit) := by
  induction limit with
  | zero => exact Grows.refl
  | succ limit ih =>
    refine Grows.bind (moves_reclaimBuffer hw _) fun r => ?_
    rcases r with _ | ⟨c, x⟩
    · exact Grows.refl
    · exact Grows.bind (grows_dropBuff d c) fun _ => Grows.bind ih fun _ => Grows.refl

theorem moves_trySubmit (d : DeviceDma σ) (hw : ITxQueue ι) (p : TxPending) :
    Exec.Moves (Grows (ι := ι)) (trySubmit d hw p) := by
  refine Grows.gets fun n => Grows.bind (moves_reclaimBounded d hw _) fun _ => ?_
  refine Grows.bind (moves_submit hw _ _) fun _ => ?_
  split
  · exact Grows.refl
  · next c _ => exact Grows.bind (grows_insert d p.busAddr c) fun _ => Grows.refl

theorem moves_writeWith (c : DCommon) (len : Nat) (f : List UInt8 → List UInt8) :
    Exec.Moves (Grows (ι := ι) (σ := σ)) (writeWith c len f) := by
  intro q
  rw [writeWith]
  split_ifs
  · exact List.suffix_rfl
  · exact List.suffix_rfl

theorem moves_prepareSend (d : DeviceDma σ) (hw : ITxQueue ι) (len : Nat) (f : List UInt8 → List UInt8) :
    Exec.Moves (Grows (ι := ι)) (prepareSend d hw len f) := by
  refine Grows.gets fun n => ?_
  split_ifs
  · exact Grows.refl
  · refine Grows.gets fun n => Grows.bind (moves_reclaimBounded d hw _) fun _ => ?_
    exact Grows.bind (moves_alloc d) fun c => Grows.bind (moves_writeWith c len f) fun _ => Grows.refl

theorem prepareSend_spec {len : Nat} {f : List UInt8 → List UInt8} (h : q.Inv [])
    (hsmall : q.config.bufSize < 2 ^ 64) {r : Except Stop TxPending}
    (hrun : prepareSend d hw len f q = (r, q')) (hfresh : Fresh q'.pool.world.calls) :
    q'.config = q.config ∧
      ((∃ e, r = .error (.err e)) ∧ q'.Inv [] ∨ ∃ c, r = .ok ⟨len, c.handle.dmaAddr, some c⟩ ∧ q'.Inv [c]) := by
  rw [prepareSend, Exec.bind_apply_ok (Exec.gets_apply ..)] at hrun
  split_ifs at hrun with hlarge
  · obtain ⟨rfl, rfl⟩ := Prod.mk.inj hrun
    exact ⟨rfl, .inl ⟨⟨_, rfl⟩, h⟩⟩
  · rw [Exec.bind_apply_ok (Exec.gets_apply ..), Exec.bind_apply] at hrun
    rcases hreclaim : reclaimBounded d hw (max q.capacity 1) q with ⟨r₁, q₁⟩
    rw [hreclaim] at hrun
    obtain ⟨hinv₁, hsame₁, hpanic₁⟩ := reclaimBounded_spec h hreclaim
    cases r₁ with
    | error e =>
      obtain ⟨rfl, rfl⟩ := Prod.mk.inj hrun
      cases e with
      | err e => exact ⟨hsame₁.config, .inl ⟨⟨e, rfl⟩, hinv₁⟩⟩
      | panic => exact absurd rfl hpanic₁
    | ok n =>
      simp only [Exec.bind_apply] at hrun
      rcases halloc : alloc d q₁ with ⟨r₂, q₂⟩
      rw [halloc] at hrun
      have hpanic₂ := hinv₁.alloc_ne_panic (hsame₁.config ▸ hsmall) halloc
      cases r₂ with
      | error e =>
        obtain ⟨rfl, rfl⟩ := Prod.mk.inj hrun
        obtain ⟨hconfig, hinv₂⟩ := hinv₁.alloc halloc hfresh
        cases e with
        | err e => exact ⟨hconfig.trans hsame₁.config, .inl ⟨⟨e, rfl⟩, hinv₂⟩⟩
        | panic => exact absurd rfl hpanic₂
      | ok c =>
        have hgrows : q₂.Grows q' := by
          rcases hwrite : writeWith c len f q₂ with ⟨_ | _, q₃⟩
          all_goals
            simp only [hwrite] at hrun
            obtain ⟨-, rfl⟩ := Prod.mk.inj hrun
            exact (moves_writeWith c len f).of_run hwrite
        obtain ⟨hconfig, (hinv₂ : q₂.Inv [c])⟩ := hinv₁.alloc halloc (hfresh.of_suffix hgrows)
        -- the buffer is as large as any packet
        have hfits : len ≤ c.handle.size := by
          rw [hinv₂.stocked.size c (List.mem_append_right _ List.mem_cons_self), hconfig, hsame₁.config]
          exact Nat.not_lt.mp hlarge
        simp only [writeWith, if_pos hfits, Exec.pure_apply] at hrun
        obtain ⟨rfl, rfl⟩ := Prod.mk.inj hrun
        exact ⟨hconfig.trans hsame₁.config, .inr ⟨c, rfl, hinv₂.access _⟩⟩

end Calls

/-! ### Runs -/

variable {hw : ITxQueue ι} {os : DmaOp σ} {s s' : State ι σ} {e : Event}

def State.held (s : State ι σ) : List DCommon := (s.pending.bind (·.buff)).toList

/-- The queue is in order, and so is its packet. The buffer of a packet that was accepted is in the map or back in
the pool. -/
structure State.Inv (s : State ι σ) : Prop where
  running : s.life = .running
  queue : s.queue.Inv s.held
  small : s.queue.config.bufSize < 2 ^ 64
  unsent : ∀ {p c}, s.pending = some p → p.buff = some c →
    c.handle.dmaAddr = p.busAddr ∧ s.queue.submitted = s.before
  sent : ∀ {p}, s.pending = some p → p.buff = none →
    s.queue.submitted = s.before + 1 ∧ ∃ c ∈ s.queue.pool.containers, c.handle.dmaAddr = p.busAddr

theorem grows_step (hstep : step os hw s e = some s') : s.queue.Grows s'.queue := by
  unfold step at hstep
  split_ifs at hstep
  split at hstep
  · next len f _ =>
    split at hstep
    all_goals
      next hrun => exact Option.some.inj hstep ▸ (moves_prepareSend (s.dma os) hw len f).of_run hrun
  · next p _ =>
    split at hstep
    all_goals
      next hrun => exact Option.some.inj hstep ▸ (moves_trySubmit (s.dma os) hw p).of_run hrun
  · next p _ =>
    obtain rfl := Option.some.inj hstep
    show s.queue.Grows (dropPending (s.dma os) p s.queue)
    rw [dropPending]
    split
    · exact Grows.refl _
    · exact grows_dropBuff ..
  · exact Option.some.inj hstep ▸ grows_drop ..
  · cases hstep

theorem fresh_step (hstep : step os hw s e = some s') (hfresh : Fresh s'.queue.pool.world.calls) :
    Fresh s.queue.pool.world.calls :=
  hfresh.of_suffix (grows_step hstep)

variable {q : Queue ι σ}

theorem State.Inv.keep (h : s.Inv) (hinv : q.Inv s.held) (hsame : s.queue.Same q) (i : ι) :
    State.Inv { s with queue := { q with interface := i } } where
  running := h.running
  queue := hinv.interface i
  small := hsame.config ▸ h.small
  unsent hp hc := ⟨(h.unsent hp hc).1, hsame.submitted.trans (h.unsent hp hc).2⟩
  sent hp hnone := by
    obtain ⟨hcount, c, hc, haddr⟩ := h.sent hp hnone
    exact ⟨hsame.submitted.trans hcount, c, hsame.containers.mem_iff.mp hc, haddr⟩

theorem State.Inv.prepared (h : s.Inv) {c : DCommon} (hinv : q.Inv [c]) (hconfig : q.config = s.queue.config)
    (len : Nat) :
    State.Inv { s with queue := q, pending := some ⟨len, c.handle.dmaAddr, some c⟩, before := q.submitted } := by
  refine ⟨h.running, hinv, hconfig ▸ h.small, fun hp hc => ?_, fun hp hnone => ?_⟩
  · obtain rfl := Option.some.inj hp
    obtain rfl := Option.some.inj hc
    exact ⟨rfl, rfl⟩
  · obtain rfl := Option.some.inj hp
    cases hnone

variable {q q' : Queue ι σ}

theorem State.Inv.submitted (h : s.Inv) {c : DCommon} (hpending : s.pending = some p) (hbuff : p.buff = some c)
    (hinv : q.Inv s.held) (hsame : s.queue.Same q) (hsubmit : submit hw p.busAddr p.len q = (.ok (), q')) :
    State.Inv { s with queue := q'.insert (s.dma os) p.busAddr c, pending := some { p with buff := none } } := by
  rw [State.held, hpending, Option.bind_some, hbuff] at hinv
  obtain ⟨haddr, hcount⟩ := h.unsent hpending hbuff
  rcases submit_cases hsubmit with ⟨-, i, rfl⟩ | ⟨e, i, he, -⟩
  · have hget := hinv.get_held List.mem_cons_self
    have hinserted := hinv.insert (d := s.dma os) i (q.submitted + 1)
    have hc : c ∈ q.pool.containers := by
      rw [Pool.containers, List.mem_append, List.mem_append]
      exact .inl (.inr (hinv.buffs.mem_iff.mpr List.mem_cons_self))
    rw [haddr] at hinserted hget
    refine ⟨h.running, hinserted, ?_, fun hp hsome => ?_, fun hp _ => ?_⟩
    · simp only [Queue.insert, hget]
      exact hsame.config ▸ h.small
    · obtain rfl := Option.some.inj hp
      cases hsome
    · obtain rfl := Option.some.inj hp
      simp only [Queue.insert, hget]
      exact ⟨congrArg Nat.succ (hsame.submitted.trans hcount), c, hc, haddr⟩
  · cases he

theorem State.Inv.dropPending (h : s.Inv) (hpending : s.pending = some p) :
    State.Inv { s with queue := dropPending (s.dma os) p s.queue, pending := none } := by
  have hqueue := h.queue
  rw [State.held, hpending, Option.bind_some] at hqueue
  refine ⟨h.running, ?_, ?_, fun hp => absurd hp (by simp), fun hp => absurd hp (by simp)⟩
  · rcases hbuff : p.buff with _ | c
    · simp only [TxQueue.dropPending, hbuff]
      rwa [hbuff] at hqueue
    · simp only [TxQueue.dropPending, hbuff]
      rw [hbuff] at hqueue
      exact hqueue.dropBuff
  · simp only [TxQueue.dropPending]
    split
    · exact h.small
    · exact h.small

theorem step_cases (h : s.Inv) (hstep : step os hw s e = some s') (hfresh : Fresh s'.queue.pool.world.calls) :
    s'.Inv ∨
      (e = .dropQueue ∧ s.pending = none ∧
        s' = { s with queue := s.queue.drop (s.dma os), life := .dropped }) ∨
      e = .trySubmit ∧ ∃ p q q', s.pending = some p ∧ p.buff = none ∧ Accepts os hw s p q q' ∧ q.Inv [] ∧
        s.queue.Same q ∧ s' = { s with queue := q', life := .panicked } := by
  unfold step at hstep
  rw [if_neg (not_not.mpr h.running)] at hstep
  have hqueue := h.queue
  split at hstep
  · next len f hpending =>
    rw [State.held, hpending] at hqueue
    rcases hrun : prepareSend (s.dma os) hw len f s.queue with ⟨r, q⟩
    simp only [hrun] at hstep
    have hq : s'.queue = q := by
      rcases r with (_ | _) | _ <;> exact Option.some.inj hstep ▸ rfl
    obtain ⟨hconfig, ⟨⟨e, rfl⟩, hinv⟩ | ⟨c, rfl, hinv⟩⟩ := prepareSend_spec hqueue h.small hrun (hq ▸ hfresh)
    · obtain rfl := Option.some.inj hstep
      refine .inl ⟨h.running, ?_, hconfig ▸ h.small, ?_, ?_⟩
      · rw [State.held]
        exact hpending ▸ hinv
      · exact fun hp => absurd (hpending.symm.trans hp) (by simp)
      · exact fun hp => absurd (hpending.symm.trans hp) (by simp)
    · exact .inl (Option.some.inj hstep ▸ h.prepared hinv hconfig len)
  · next p hpending =>
    rcases hrun : trySubmit (s.dma os) hw p s.queue with ⟨r, q⟩
    simp only [hrun] at hstep
    obtain ⟨r₁, q₁, hreclaim, hinv₁, hsame₁, ⟨e, i, rfl, rfl⟩ | ⟨n, q₂, rfl, hsubmit, hrest⟩⟩ :=
      trySubmit_cases hqueue hrun
    · exact .inl (Option.some.inj hstep ▸ h.keep hinv₁ hsame₁ i)
    · rcases hrest with ⟨hbuff, rfl, rfl⟩ | ⟨c, hbuff, rfl, rfl⟩
      · refine .inr (.inr ⟨rfl, p, q₁, _, hpending, hbuff, ⟨⟨n, hreclaim⟩, hsubmit⟩, ?_, hsame₁, ?_⟩)
        · rwa [State.held, hpending, Option.bind_some, hbuff] at hinv₁
        · exact (Option.some.inj hstep).symm
      · exact .inl (Option.some.inj hstep ▸ h.submitted hpending hbuff hinv₁ hsame₁ hsubmit)
  · next p hpending => exact .inl (Option.some.inj hstep ▸ h.dropPending hpending)
  · next hpending => exact .inr (.inl ⟨rfl, hpending, (Option.some.inj hstep).symm⟩)
  · cases hstep

theorem step_again (hrunning : s.life = .running) (hpending : s.pending = some p) (hbuff : p.buff = none)
    (haccepts : Accepts os hw s p q q') :
    step os hw s .trySubmit = some { s with queue := q', life := .panicked } := by
  obtain ⟨⟨n, hreclaim⟩, hsubmit⟩ := haccepts
  have hrun : trySubmit (s.dma os) hw p s.queue = (.error .panic, q') := by
    rw [trySubmit, Exec.bind_apply_ok (Exec.gets_apply ..), Exec.bind_apply_ok hreclaim, Exec.bind_apply_ok hsubmit,
      hbuff]
    rfl
  unfold step
  simp only [hrunning, ne_eq, not_true_eq_false, if_false, hpending, hrun]

theorem step_dropQueue (hstep : step os hw s .dropQueue = some s') :
    s.pending = none ∧ s' = { s with queue := s.queue.drop (s.dma os), life := .dropped } := by
  unfold step at hstep
  split_ifs at hstep
  rcases hpending : s.pending with _ | p
  · rw [hpending] at hstep
    exact ⟨rfl, (Option.some.inj hstep).symm⟩
  · rw [hpending] at hstep
    cases hstep

theorem step_stopped (hlife : s.life ≠ .running) : step os hw s e = none := if_pos hlife

theorem inv_start {config : QueueConfig} {i : ι} {w : World σ}
    (hcreate : Queue.create os config .toDevice i w = .ok q) (hfresh : Fresh q.pool.world.calls) :
    State.Inv { queue := q } := by
  obtain ⟨hinv, hsmall⟩ := inv_create hcreate hfresh
  exact ⟨rfl, hinv, hsmall, fun hp => absurd hp (by simp), fun hp => absurd hp (by simp)⟩

/-- The packet is accepted once at most, the map has the buffers that the device has, and nothing has panicked. -/
structure Once (s : State ι σ) : Prop where
  atMostOnce : s.pending.isSome → s.queue.submitted ≤ s.before + 1
  inflight : s.life ≠ .dropped → ∀ a, (∃ c, s.queue.inflight.get a = some c) ↔ a ∈ s.queue.device
  noPanic : s.life ≠ .panicked

theorem State.Inv.once (h : s.Inv) : Once s := by
  refine ⟨fun hsome => ?_, fun _ a => (h.queue.device a).symm, by rw [h.running]; decide⟩
  obtain ⟨p, hp⟩ := Option.isSome_iff_exists.mp hsome
  rcases hbuff : p.buff with _ | c
  · exact (h.sent hp hbuff).1.le
  · exact (h.unsent hp hbuff).2.le.trans (Nat.le_succ _)

/-- `try_submit` is called again after it returned `Ok`, and the device accepts. -/
def Again (os : DmaOp σ) (hw : ITxQueue ι) (s : State ι σ) (e : Event) : Prop :=
  e = .trySubmit ∧ ∃ p q q', s.pending = some p ∧ p.buff = none ∧ Accepts os hw s p q q'

/-- Every packet is sent at most once, as long as none is submitted again and accepted. -/
theorem once_iff (os : DmaOp σ) (hw : ITxQueue ι) (config : QueueConfig) (i : ι) (w : World σ) (q : Queue ι σ)
    (es : List Event) (t : State ι σ) (hcreate : Queue.create os config .toDevice i w = .ok q)
    (hrun : Machine.run (step os hw) { queue := q } es = some t) (hfresh : Fresh t.queue.pool.world.calls) :
    (∀ es' u, es' <+: es → Machine.run (step os hw) { queue := q } es' = some u → Once u) ↔
      ∀ es' e u, es' ++ [e] <+: es → Machine.run (step os hw) { queue := q } es' = some u → ¬ Again os hw u e := by
  refine Machine.safe_iff_no_hazard (P := fun s => Fresh s.queue.pool.world.calls) (I := State.Inv) fresh_step
    State.Inv.once ?_ ?_ hrun hfresh (inv_start hcreate)
  · intro s e s' hinv hagain hstep hfresh
    rcases step_cases hinv hstep hfresh with hinv' | ⟨-, hpending, rfl⟩ | ⟨he, p, q, q', hp, hbuff, haccepts, -⟩
    · exact .inl hinv'
    · refine .inr ⟨⟨fun hsome => absurd hsome (by simp [hpending]), fun h => absurd rfl h, nofun⟩, fun _ => ?_⟩
      exact step_stopped nofun
    · exact absurd ⟨he, p, q, q', hp, hbuff, haccepts⟩ hagain
  · rintro s e s' hinv ⟨rfl, p, q, q', hp, hbuff, haccepts⟩ hstep - honce
    obtain rfl := Option.some.inj ((step_again hinv.running hp hbuff haccepts).symm.trans hstep)
    exact honce.noPanic rfl

/-- A device that takes everything and returns nothing. -/
def greedy (β : Type) : IQueue Unit β where
  submit _ _ _ := (.ok (), ())
  reclaim _ := (none, ())

def oneBuffer : QueueConfig := ⟨2 ^ 32 - 1, 64, 64, 1⟩

theorem once_iff_sent_once : ∃ q t,
    Queue.create Pool.bumpBackend oneBuffer .toDevice () Pool.freshWorld = .ok q ∧
      Machine.run (step Pool.bumpBackend (greedy Unit)) { queue := q } [.prepareSend 4 id, .trySubmit] = some t ∧
      t.queue.submitted = 1 ∧ Once t := by
  refine ⟨_, _, rfl, rfl, rfl, ?_⟩
  refine (once_iff Pool.bumpBackend (greedy Unit) oneBuffer () Pool.freshWorld _ [.prepareSend 4 id, .trySubmit] _ rfl rfl
    ⟨fun b hb => absurd hb id, trivial⟩).mpr ?_ _ _ List.prefix_rfl rfl
  refine Machine.steps_cons.mpr ⟨fun hagain => ?_, fun s hs => Machine.steps_cons.mpr ⟨?_, fun _ _ => Machine.steps_nil⟩⟩
  · cases hagain.1
  · obtain rfl := Option.some.inj hs
    rintro ⟨-, p, q, q', hp, hbuff, -⟩
    obtain rfl := Option.some.inj hp
    cases hbuff

/-- The packet is sent twice, and the second call panics. -/
theorem sent_twice : ∃ q t,
    Queue.create Pool.bumpBackend oneBuffer .toDevice () Pool.freshWorld = .ok q ∧
      Machine.run (step Pool.bumpBackend (greedy Unit)) { queue := q } [.prepareSend 4 id, .trySubmit, .trySubmit] =
        some t ∧
      t.before = 0 ∧ t.queue.submitted = 2 ∧ t.queue.device = [4096, 4096] ∧ t.life = .panicked ∧ ¬ Once t :=
  ⟨_, _, rfl, rfl, rfl, rfl, rfl, rfl, fun h => h.noPanic rfl⟩

/-! ### What the device has -/

/-- The queue is dropped while the device has buffers of it; or a packet is submitted again and accepted although its
buffer is back in the pool. -/
inductive Hazard (os : DmaOp σ) (hw : ITxQueue ι) (s : State ι σ) : Event → Prop
  | dropQueue : s.queue.config.bufSize ≠ 0 → s.queue.inflight.entries ≠ [] → Hazard os hw s .dropQueue
  | trySubmit {p : TxPending} {q q' : Queue ι σ} : s.pending = some p → p.buff = none → Accepts os hw s p q q' →
      q.inflight.get p.busAddr = none → Hazard os hw s .trySubmit

theorem safe_again {a len : Nat} (hinv : q.Inv []) (hsubmit : submit hw a len q = (.ok (), q')) {c : DCommon}
    (hget : q.inflight.get a = some c) : q'.Safe := by
  rcases submit_cases hsubmit with ⟨-, i, rfl⟩ | ⟨e, i, he, -⟩
  · intro b hb
    rcases List.mem_append.mp hb with hb | hb
    · exact hinv.safe b hb
    · obtain rfl := List.mem_singleton.mp hb
      exact hinv.safe b ((hinv.device b).mpr ⟨c, hget⟩)
  · cases he

theorem not_safe_again {a len : Nat} (hinv : q.Inv []) (hsubmit : submit hw a len q = (.ok (), q'))
    (hget : q.inflight.get a = none) (hknown : ∃ c ∈ q.pool.containers, c.handle.dmaAddr = a) : ¬ q'.Safe := by
  intro hsafe
  obtain ⟨c, hc, haddr⟩ := hknown
  rw [Pool.containers, hinv.returning, List.append_nil, List.mem_append, hinv.buffs.mem_iff, List.nil_append] at hc
  rcases submit_cases hsubmit with ⟨-, i, rfl⟩ | ⟨e, i, he, -⟩
  · rcases hc with hc | hc
    · exact (hsafe a (List.mem_append_right _ (List.mem_singleton_self a))).2 c hc haddr
    · obtain ⟨k, hk⟩ := SortedMap.mem_values.mp hc
      obtain rfl := (hinv.key hk).symm.trans haddr
      cases hget.symm.trans hk
  · cases he

theorem safe_iff {config : QueueConfig} {i : ι} {w : World σ} {es : List Event} {t : State ι σ}
    (hcreate : Queue.create os config .toDevice i w = .ok q)
    (hrun : Machine.run (step os hw) { queue := q } es = some t) (hfresh : Fresh t.queue.pool.world.calls) :
    (∀ es' u, es' <+: es → Machine.run (step os hw) { queue := q } es' = some u → u.queue.Safe) ↔
      ∀ es' e u, es' ++ [e] <+: es → Machine.run (step os hw) { queue := q } es' = some u → ¬ Hazard os hw u e := by
  refine Machine.safe_iff_no_hazard (P := fun s => Fresh s.queue.pool.world.calls) (I := State.Inv) fresh_step
    (fun hinv => hinv.queue.safe) ?_ ?_ hrun hfresh (inv_start hcreate)
  · intro s e s' hinv hhazard hstep hfresh
    rcases step_cases hinv hstep hfresh with hinv' | ⟨rfl, hpending, rfl⟩ | ⟨rfl, p, q, q', hp, hbuff, haccepts,
      hqueue, -, rfl⟩
    · exact .inl hinv'
    · have hqueue := hinv.queue
      rw [State.held, hpending] at hqueue
      refine .inr ⟨(hqueue.drop_safe_iff (fresh_step hstep hfresh)).mpr ?_, fun _ => step_stopped nofun⟩
      by_contra hneither
      exact hhazard (.dropQueue (not_or.mp hneither).1 (not_or.mp hneither).2)
    · rcases hget : q.inflight.get p.busAddr with _ | c
      · exact absurd (.trySubmit hp hbuff haccepts hget) hhazard
      · exact .inr ⟨safe_again hqueue haccepts.2 hget, fun _ => step_stopped nofun⟩
  · intro s e s' hinv hhazard hstep hfresh
    cases hhazard with
    | dropQueue hsize hne =>
      obtain ⟨hpending, rfl⟩ := step_dropQueue hstep
      have hqueue := hinv.queue
      rw [State.held, hpending] at hqueue
      exact fun hsafe => ((hqueue.drop_safe_iff (fresh_step hstep hfresh)).mp hsafe).elim hsize hne
    | trySubmit hp hbuff haccepts hget =>
      obtain rfl := Option.some.inj ((step_again hinv.running hp hbuff haccepts).symm.trans hstep)
      have hqueue := hinv.queue
      rw [State.held, hp, Option.bind_some, hbuff] at hqueue
      obtain ⟨hinv', hsame, -⟩ := reclaimBounded_spec hqueue haccepts.1.choose_spec
      obtain ⟨-, c, hc, haddr⟩ := hinv.sent hp hbuff
      exact not_safe_again hinv' haccepts.2 hget ⟨c, hsame.containers.mem_iff.mp hc, haddr⟩

end Sparreal.Eth.TxQueue
