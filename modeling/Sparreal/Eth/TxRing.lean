import Sparreal.Lib.Machine
import Sparreal.Eth.Ring

/-!
# The transmit ring of the e1000

`E1000TxQueue` with a device that moves its head on and sets the done bits, both in order and at its own pace.

Nothing keeps the two indices of the driver together. `submit` looks at the head of the device only, so when a
full round of buffers was sent and not reclaimed it puts the next one over the oldest; and a `reclaim` with nothing to
reclaim runs on over the done bits of an earlier round, so that it stands at the wrong slot when the next buffer is
done. A run without these two steps is right, over any number of rounds (`sound_iff`).
-/

namespace Sparreal.Eth.E1000

/-- The ring, and what has passed through it. -/
structure TxRing where
  ring : Ring := {}
  accepted : List Nat := []
  returned : List Nat := []
  finished : Nat := 0

namespace TxRing

inductive Event where
  | submit (busAddr len : Nat)
  | reclaim
  | advance
  /-- The device sets the next done bit. -/
  | finish
  deriving DecidableEq, Repr

def step (s : TxRing) : Event → Option TxRing
  | .submit busAddr len =>
    match txSubmit s.ring busAddr len with
    | (.ok _, ring) => some { s with ring := ring, accepted := s.accepted ++ [busAddr] }
    | (.error _, ring) => some { s with ring := ring }
  | .reclaim =>
    match txReclaim s.ring with
    | (some busAddr, ring) => some { s with ring := ring, returned := s.returned ++ [busAddr] }
    | (none, ring) => some { s with ring := ring }
  | .advance => s.ring.advance.map fun ring => { s with ring := ring }
  | .finish =>
    if s.finished < s.accepted.length then
      let idx := s.finished % queueSize
      some { s with ring := s.ring.finish idx (s.ring.desc idx).length, finished := s.finished + 1 }
    else none

/-- The buffers that were submitted and not returned, by number. -/
def Outstanding (s : TxRing) (k : Nat) : Prop := s.returned.length ≤ k ∧ k < s.accepted.length

/-- What `reclaim` has returned is what was submitted, in order; it returns the oldest buffer if that is done; and
the table has all that were not returned, each in a slot of its own. -/
structure Sound (s : TxRing) : Prop where
  inOrder : s.returned <+: s.accepted
  oldest : ∀ busAddr, s.accepted[s.returned.length]? = some busAddr → s.returned.length < s.finished →
    (txReclaim s.ring).1 = some busAddr
  record : ∀ k busAddr, s.accepted[k]? = some busAddr → s.returned.length ≤ k →
    s.ring.busAddrs (k % queueSize) = some busAddr
  apart : ∀ j k, s.Outstanding j → s.Outstanding k → j % queueSize = k % queueSize → j = k

/-- The steps that do harm: `submit` takes a buffer when a full round of them is outstanding; and the device is done
with the oldest buffer while `reclaim` stands at another slot, gone astray over done bits of an earlier round. -/
def Hazard (s : TxRing) : Event → Prop
  | .submit busAddr len =>
    s.returned.length + queueSize ≤ s.accepted.length ∧ (txSubmit s.ring busAddr len).1 = .ok ()
  | .finish =>
    s.finished < s.accepted.length ∧ s.returned.length = s.finished ∧
      s.ring.nextReclaim ≠ s.finished % queueSize
  | _ => False

/-! ### What the other steps keep -/

variable {s s' : TxRing} {e : Event}

/-- At most a round of buffers is outstanding, and `reclaim` stands at the oldest of them if that is done. The
slots without a buffer are empty, whatever their done bits are. -/
structure InStep (s : TxRing) : Prop where
  nextSubmit : s.ring.nextSubmit = s.accepted.length % queueSize
  nextReclaim : s.returned.length < s.finished → s.ring.nextReclaim = s.returned.length % queueSize
  returned_le : s.returned.length ≤ s.finished
  finished_le : s.finished ≤ s.accepted.length
  accepted_le : s.accepted.length ≤ s.returned.length + queueSize
  record : ∀ k, s.Outstanding k → s.ring.busAddrs (k % queueSize) = s.accepted[k]?
  done : ∀ k, s.Outstanding k → (s.ring.desc (k % queueSize)).isDone = decide (k < s.finished)
  empty : ∀ i, (∀ k, s.Outstanding k → k % queueSize ≠ i) → s.ring.busAddrs i = none
  inOrder : s.returned <+: s.accepted

theorem inStep_start : InStep {} where
  nextSubmit := rfl
  nextReclaim _ := rfl
  returned_le := Nat.le_refl 0
  finished_le := Nat.le_refl 0
  accepted_le := Nat.zero_le _
  record _ hk := absurd hk.2 (Nat.not_lt_zero _)
  done _ hk := absurd hk.2 (Nat.not_lt_zero _)
  empty _ _ := rfl
  inOrder := List.nil_prefix

theorem slot_inj {n j k : Nat} (hj : n ≤ j) (hk : n ≤ k) (hj' : j < n + queueSize) (hk' : k < n + queueSize)
    (h : j % queueSize = k % queueSize) : j = k := by
  simp only [queueSize] at hj' hk' h
  omega

theorem InStep.apart (h : s.InStep) {j k : Nat} (hj : s.Outstanding j) (hk : s.Outstanding k)
    (hslot : j % queueSize = k % queueSize) : j = k :=
  slot_inj hj.1 hk.1 (Nat.lt_of_lt_of_le hj.2 h.accepted_le) (Nat.lt_of_lt_of_le hk.2 h.accepted_le) hslot

/-- A done bit with no done buffer outstanding is left from an earlier round. -/
theorem InStep.empty_of_done (h : s.InStep) (hnone : s.returned.length = s.finished)
    (hbit : (s.ring.desc s.ring.nextReclaim).isDone = true) : s.ring.busAddrs s.ring.nextReclaim = none := by
  apply h.empty
  intro k hk hslot
  have hdone := h.done k hk
  rw [hslot, hbit] at hdone
  have hless := of_decide_eq_true hdone.symm
  have hle := hk.1
  omega

theorem InStep.oldest (h : s.InStep) (hlt : s.returned.length < s.finished) :
    s.Outstanding s.returned.length ∧ (s.ring.desc s.ring.nextReclaim).isDone = true ∧
      s.ring.busAddrs s.ring.nextReclaim = s.accepted[s.returned.length]? := by
  have hout : s.Outstanding s.returned.length := ⟨Nat.le_refl _, Nat.lt_of_lt_of_le hlt h.finished_le⟩
  rw [h.nextReclaim hlt, h.done _ hout, h.record _ hout]
  exact ⟨hout, decide_eq_true hlt, rfl⟩

theorem txReclaim_fst (q : Ring) :
    (txReclaim q).1 = if (q.desc q.nextReclaim).isDone then q.busAddrs q.nextReclaim else none := by
  rw [txReclaim]
  split_ifs with hdone
  · rw [Ring.reclaim_of_done hdone, Option.map_map]
    exact congrFun Option.map_id _
  · rw [Ring.reclaim_of_not_done (Bool.eq_false_iff.mpr hdone)]
    rfl

/-- `reclaim` returns the oldest buffer just when it is done. -/
theorem InStep.reclaim (h : s.InStep) :
    (txReclaim s.ring).1 = if s.returned.length < s.finished then s.accepted[s.returned.length]? else none := by
  rw [txReclaim_fst]
  by_cases hlt : s.returned.length < s.finished
  · obtain ⟨-, hdone, hrecord⟩ := h.oldest hlt
    rw [if_pos hlt, if_pos hdone, hrecord]
  · rw [if_neg hlt]
    split_ifs with hbit
    · exact h.empty_of_done (Nat.le_antisymm h.returned_le (Nat.not_lt.mp hlt)) hbit
    · rfl

theorem InStep.sound (h : s.InStep) : s.Sound where
  inOrder := h.inOrder
  oldest busAddr hoccupied hfinished := by rw [h.reclaim, if_pos hfinished, hoccupied]
  record k busAddr hk hreturned := by
    rw [h.record k ⟨hreturned, (List.getElem?_eq_some_iff.mp hk).1⟩, hk]
  apart _ _ := h.apart

theorem step_submit {busAddr len : Nat} (hstep : s.step (.submit busAddr len) = some s') :
    s' = s ∨ ∃ ring, txSubmit s.ring busAddr len = (.ok (), ring) ∧
      s' = { s with ring := ring, accepted := s.accepted ++ [busAddr] } := by
  simp only [step] at hstep
  rcases hsubmit : txSubmit s.ring busAddr len with ⟨err | _, ring⟩
  · rw [hsubmit] at hstep
    obtain rfl := Ring.submit_eq_error hsubmit
    exact .inl (Option.some.inj hstep).symm
  · rw [hsubmit] at hstep
    exact .inr ⟨ring, rfl, (Option.some.inj hstep).symm⟩

theorem step_reclaim (s : TxRing) : s.step .reclaim = some
    { s with ring := (txReclaim s.ring).2, returned := s.returned ++ (txReclaim s.ring).1.toList } := by
  simp only [step]
  rcases txReclaim s.ring with ⟨_ | busAddr, ring⟩
  · simp
  · rfl

theorem step_advance (hstep : s.step .advance = some s') :
    s.ring.head ≠ s.ring.tail ∧
      s' = { s with ring := { s.ring with head := (s.ring.head + 1) % queueSize } } := by
  obtain ⟨ring, hring, rfl⟩ := Option.map_eq_some_iff.mp hstep
  rw [Ring.advance] at hring
  split_ifs at hring with hempty
  exact ⟨hempty, Option.some.inj hring ▸ rfl⟩

theorem step_finish (hstep : s.step .finish = some s') :
    s.finished < s.accepted.length ∧
      s' = { s with
        ring := s.ring.finish (s.finished % queueSize) (s.ring.desc (s.finished % queueSize)).length
        finished := s.finished + 1 } := by
  simp only [step] at hstep
  split_ifs at hstep with hlt
  exact ⟨hlt, (Option.some.inj hstep).symm⟩

theorem InStep.submit (h : s.InStep) {busAddr len : Nat} {ring : Ring}
    (hlt : s.accepted.length < s.returned.length + queueSize)
    (hsubmit : txSubmit s.ring busAddr len = (.ok (), ring)) :
    InStep { s with ring := ring, accepted := s.accepted ++ [busAddr] } := by
  obtain ⟨-, -, rfl⟩ := Ring.submit_eq_ok.mp hsubmit
  have hlength : (s.accepted ++ [busAddr]).length = s.accepted.length + 1 := List.length_append
  have hreturned := h.returned_le
  have hfinished := h.finished_le
  -- the slot of the new buffer is that of no other
  have hnew (k : Nat) (hk : s.Outstanding k) : k % queueSize ≠ s.accepted.length % queueSize := by
    intro hslot
    have heq := slot_inj hk.1 (hreturned.trans hfinished) (Nat.lt_trans hk.2 hlt) hlt hslot
    exact absurd hk.2 (Nat.not_lt.mpr (Nat.le_of_eq heq.symm))
  have hcases (k : Nat) (hk : s.returned.length ≤ k ∧ k < (s.accepted ++ [busAddr]).length) :
      s.Outstanding k ∨ k = s.accepted.length := by
    rw [hlength] at hk
    rcases Nat.lt_succ_iff_lt_or_eq.mp hk.2 with hless | heq
    · exact .inl ⟨hk.1, hless⟩
    · exact .inr heq
  refine ⟨?_, h.nextReclaim, h.returned_le, ?_, ?_, fun k hk => ?_, fun k hk => ?_, fun i hi => ?_,
    h.inOrder.trans (List.prefix_append ..)⟩
  · show (s.ring.nextSubmit + 1) % queueSize = (s.accepted ++ [busAddr]).length % queueSize
    rw [h.nextSubmit, hlength, Nat.mod_add_mod]
  · show s.finished ≤ (s.accepted ++ [busAddr]).length
    omega
  · show (s.accepted ++ [busAddr]).length ≤ s.returned.length + queueSize
    omega
  · show Function.update s.ring.busAddrs s.ring.nextSubmit (some busAddr) (k % queueSize) =
      (s.accepted ++ [busAddr])[k]?
    rw [h.nextSubmit]
    rcases hcases k hk with hold | rfl
    · rw [Function.update_of_ne (hnew k hold), h.record k hold, List.getElem?_append_left hold.2]
    · rw [Function.update_self, List.getElem?_concat_length]
  · show (Function.update s.ring.desc s.ring.nextSubmit (txDesc busAddr len) (k % queueSize)).isDone =
      decide (k < s.finished)
    rw [h.nextSubmit]
    rcases hcases k hk with hold | rfl
    · rw [Function.update_of_ne (hnew k hold), h.done k hold]
    · rw [Function.update_self, decide_eq_false (Nat.not_lt.mpr hfinished)]
      rfl
  · have hlast : s.accepted.length % queueSize ≠ i :=
      hi s.accepted.length ⟨hreturned.trans hfinished, hlength ▸ Nat.lt_succ_self _⟩
    show Function.update s.ring.busAddrs s.ring.nextSubmit (some busAddr) i = none
    rw [h.nextSubmit, Function.update_of_ne hlast.symm]
    exact h.empty i fun k hk => hi k ⟨hk.1, hlength ▸ Nat.lt_succ_of_lt hk.2⟩

theorem InStep.step_reclaim (h : s.InStep) :
    InStep { s with
      ring := (txReclaim s.ring).2, returned := s.returned ++ (txReclaim s.ring).1.toList } := by
  rw [h.reclaim]
  split_ifs with hlt
  · -- the oldest buffer is done
    obtain ⟨hout, hdone, -⟩ := h.oldest hlt
    have hidx := h.nextReclaim hlt
    obtain ⟨busAddr, hbusAddr⟩ : ∃ busAddr, s.accepted[s.returned.length]? = some busAddr :=
      ⟨_, List.getElem?_eq_getElem hout.2⟩
    have hlength : (s.returned ++ [busAddr]).length = s.returned.length + 1 := List.length_append
    have hle := h.accepted_le
    rw [txReclaim, Ring.reclaim_of_done hdone, hbusAddr]
    have hold (k : Nat) (hk : (s.returned ++ [busAddr]).length ≤ k ∧ k < s.accepted.length) :
        s.Outstanding k ∧ k % queueSize ≠ s.ring.nextReclaim := by
      rw [hlength] at hk
      have hk' : s.Outstanding k := ⟨Nat.le_of_succ_le hk.1, hk.2⟩
      refine ⟨hk', fun hslot => ?_⟩
      have heq := h.apart hk' hout (hslot.trans hidx)
      omega
    refine ⟨h.nextSubmit, fun _ => ?_, hlength ▸ hlt, h.finished_le, ?_, fun k hk => ?_,
      fun k hk => h.done k (hold k hk).1, fun i hi => ?_, ?_⟩
    · show (s.ring.nextReclaim + 1) % queueSize = (s.returned ++ [busAddr]).length % queueSize
      rw [hidx, hlength, Nat.mod_add_mod]
    · show s.accepted.length ≤ (s.returned ++ [busAddr]).length + queueSize
      omega
    · show Function.update s.ring.busAddrs s.ring.nextReclaim none (k % queueSize) = s.accepted[k]?
      rw [Function.update_of_ne (hold k hk).2, h.record k (hold k hk).1]
    · show Function.update s.ring.busAddrs s.ring.nextReclaim none i = none
      rw [Function.update_apply]
      split_ifs with hslot
      · rfl
      · apply h.empty
        intro k hk hki
        rcases Nat.eq_or_lt_of_le hk.1 with rfl | hless
        · exact hslot (hki.symm.trans hidx.symm)
        · exact hi k ⟨hlength ▸ hless, hk.2⟩ hki
    · show s.returned ++ [busAddr] <+: s.accepted
      rw [List.prefix_iff_eq_take, hlength, List.take_add_one, hbusAddr, ← List.prefix_iff_eq_take.mp h.inOrder]
      rfl
  · have hnone : s.returned.length = s.finished := Nat.le_antisymm h.returned_le (Nat.not_lt.mp hlt)
    rw [Option.toList_none, List.append_nil, txReclaim]
    cases hbit : (s.ring.desc s.ring.nextReclaim).isDone with
    | false => rw [Ring.reclaim_of_not_done hbit]; exact h
    | true =>
      -- only the index moves
      have hempty := h.empty_of_done hnone hbit
      rw [Ring.reclaim_of_done hbit, ← hempty, Function.update_eq_self]
      exact { h with nextReclaim := fun hless => absurd hless hlt }

theorem InStep.step (h : s.InStep) (hsafe : ¬ s.Hazard e) (hstep : s.step e = some s') : s'.InStep := by
  cases e with
  | submit busAddr len =>
    rcases step_submit hstep with rfl | ⟨ring, hsubmit, rfl⟩
    · exact h
    · refine h.submit (Nat.lt_of_not_le fun hfull => hsafe ⟨hfull, ?_⟩) hsubmit
      rw [hsubmit]
  | reclaim =>
    obtain rfl := Option.some.inj ((TxRing.step_reclaim s).symm.trans hstep)
    exact h.step_reclaim
  | advance =>
    obtain ⟨-, rfl⟩ := step_advance hstep
    exact { h with }
  | finish =>
    obtain ⟨hlt, rfl⟩ := step_finish hstep
    have hreturned := h.returned_le
    refine { h with
      nextReclaim := fun _ => ?_
      returned_le := Nat.le_succ_of_le h.returned_le
      finished_le := hlt
      done := fun k hk => ?_ }
    · show s.ring.nextReclaim = s.returned.length % queueSize
      rcases Nat.eq_or_lt_of_le h.returned_le with heq | hless
      · rw [heq]
        by_contra hastray
        exact hsafe ⟨hlt, heq, hastray⟩
      · exact h.nextReclaim hless
    · show ((s.ring.finish _ _).desc (k % queueSize)).isDone = decide (k < s.finished + 1)
      rw [Ring.isDone_finish, h.done k hk]
      split_ifs with hslot
      · have heq := h.apart hk ⟨hreturned, hlt⟩ hslot
        exact (decide_eq_true (heq ▸ Nat.lt_succ_self k)).symm
      · have hne : k ≠ s.finished := fun heq => hslot (heq ▸ rfl)
        exact decide_eq_decide.mpr (by omega)

/-! ### What a hazardous step does -/

theorem reclaim_finish {q : Ring} {idx length : Nat} (hidx : q.nextReclaim ≠ idx) :
    (txReclaim (q.finish idx length)).1 = (txReclaim q).1 := by
  have hdesc : (q.finish idx length).desc q.nextReclaim = q.desc q.nextReclaim := Function.update_of_ne hidx ..
  rw [txReclaim_fst, txReclaim_fst, ← hdesc]
  rfl

theorem InStep.fails (h : s.InStep) (hhazard : s.Hazard e) : ∃ s', s.step e = some s' ∧ ¬ s'.Sound := by
  cases e with
  | submit busAddr len =>
    obtain ⟨hfull, hok⟩ := hhazard
    refine ⟨{ s with ring := (txSubmit s.ring busAddr len).2, accepted := s.accepted ++ [busAddr] }, ?_, ?_⟩
    · simp only [TxRing.step]
      rw [show txSubmit s.ring busAddr len = (.ok (), (txSubmit s.ring busAddr len).2) from Prod.ext hok rfl]
    · -- the new buffer and the oldest are a round apart
      intro hsound
      have hle := h.accepted_le
      have hlength : (s.accepted ++ [busAddr]).length = s.accepted.length + 1 := List.length_append
      have hround : s.accepted.length = s.returned.length + queueSize := Nat.le_antisymm hle hfull
      have heq := hsound.apart s.returned.length s.accepted.length
        ⟨Nat.le_refl _, by show _ < (s.accepted ++ [busAddr]).length; omega⟩
        ⟨by show s.returned.length ≤ _; omega, by show _ < (s.accepted ++ [busAddr]).length; omega⟩
        (by rw [hround, Nat.add_mod_right])
      rw [hround] at heq
      simp [queueSize] at heq
  | reclaim => exact hhazard.elim
  | advance => exact hhazard.elim
  | finish =>
    obtain ⟨hlt, hnone, hastray⟩ := hhazard
    refine ⟨_, if_pos hlt, fun hsound => ?_⟩
    have holdest := hsound.oldest s.accepted[s.returned.length]
      (List.getElem?_eq_getElem (hnone ▸ hlt)) (hnone ▸ Nat.lt_succ_self _)
    rw [reclaim_finish hastray, h.reclaim, if_neg (Nat.not_lt.mpr (Nat.le_of_eq hnone.symm))] at holdest
    cases holdest

/-- A run is right up to its first hazardous step, over any number of rounds. -/
theorem sound_iff (es : List Event) :
    (∀ es' s, es' <+: es → Machine.run step {} es' = some s → s.Sound) ↔
      ∀ es' e s, es' ++ [e] <+: es → Machine.run step {} es' = some s → ¬ s.Hazard e :=
  Machine.safe_iff_no_hazard_of_step InStep.sound InStep.step InStep.fails inStep_start

/-! ### The second round -/

def send (busAddr : Nat) : List Event := [.submit busAddr 64, .advance, .finish]

/-- One buffer after the other is submitted, sent and reclaimed. -/
def roundTrips : Nat → List Event
  | 0 => []
  | n + 1 => roundTrips n ++ (send n ++ [.reclaim])

/-- The ring after so many buffers, all of them returned. -/
structure Level (n : Nat) (s : TxRing) : Prop extends s.InStep where
  accepted : s.accepted = List.range n
  returned : s.returned.length = n
  head : s.ring.head = n % queueSize
  tail : s.ring.tail = n % queueSize

theorem Level.finished {n : Nat} (h : s.Level n) : s.finished = n := by
  have hle := h.finished_le
  rw [h.accepted, List.length_range] at hle
  exact Nat.le_antisymm hle (h.returned ▸ h.returned_le)

/-- The next buffer is submitted, and the device takes it. -/
theorem Level.post {n : Nat} (h : s.Level n) :
    ∃ s', (∀ es, Machine.run step s (.submit n 64 :: .advance :: es) = Machine.run step s' es) ∧ s'.InStep ∧
      s'.accepted = List.range (n + 1) ∧ s'.returned = s.returned ∧ s'.finished = n ∧
      s'.ring.nextReclaim = s.ring.nextReclaim ∧ s'.ring.head = (n + 1) % queueSize ∧ s'.ring.tail = (n + 1) % queueSize ∧
      (n % queueSize ≠ 0 → s'.ring.desc 0 = s.ring.desc 0) := by
  have hnext : s.ring.nextSubmit = n % queueSize := by rw [h.nextSubmit, h.accepted, List.length_range]
  have hwrap : (s.ring.nextSubmit + 1) % queueSize = (n + 1) % queueSize := by rw [hnext, Nat.mod_add_mod]
  have hne : (n + 1) % queueSize ≠ n % queueSize := by
    simp only [queueSize]
    omega
  obtain ⟨ring, hsubmit⟩ : ∃ ring, txSubmit s.ring n 64 = (.ok (), ring) :=
    ⟨_, Ring.submit_eq_ok.mpr ⟨by decide, by rwa [hwrap, h.head], rfl⟩⟩
  have hroom : s.accepted.length < s.returned.length + queueSize := by
    rw [h.accepted, h.returned, List.length_range]
    exact Nat.lt_add_of_pos_right (by decide)
  have hsent := h.submit hroom hsubmit
  obtain ⟨-, -, hring⟩ := Ring.submit_eq_ok.mp hsubmit
  have hhead : ring.head = n % queueSize := hring ▸ h.head
  have htail : ring.tail = (n + 1) % queueSize := hring ▸ hwrap
  have hadvance : ring.advance = some { ring with head := (n + 1) % queueSize } := by
    rw [Ring.advance, hhead, htail, if_neg hne.symm, Nat.mod_add_mod]
  refine ⟨{ s with ring := { ring with head := (n + 1) % queueSize }, accepted := s.accepted ++ [n] }, fun es => ?_,
    { hsent with }, ?_, rfl, h.finished, hring ▸ rfl, rfl, htail, fun hslot => ?_⟩
  · simp only [Machine.run, step, hsubmit, hadvance, Option.map_some, Option.bind_some]
  · rw [h.accepted, List.range_succ]
  · rw [hring]
    exact Function.update_of_ne (hnext ▸ hslot.symm) ..

/-- The first slot has its done bit from the first round on. -/
theorem level_roundTrips (n : Nat) :
    ∃ s, Machine.run step {} (roundTrips n) = some s ∧ s.Level n ∧ s.ring.nextReclaim = n % queueSize ∧
      (0 < n → (s.ring.desc 0).isDone = true) := by
  induction n with
  | zero => exact ⟨_, rfl, ⟨inStep_start, rfl, rfl, rfl, rfl⟩, rfl, fun h => absurd h (Nat.lt_irrefl 0)⟩
  | succ n ih =>
    obtain ⟨s, hrun, hlevel, hreclaim, hfirst⟩ := ih
    obtain ⟨s₁, hpost, h₁, haccepted, hreturned, hfinished, hreclaim₁, hhead, htail, hdesc⟩ := hlevel.post
    replace hreturned : s₁.returned.length = n := hreturned ▸ hlevel.returned
    have hidx : s₁.ring.nextReclaim = n % queueSize := hreclaim₁.trans hreclaim
    have hlt : s₁.finished < s₁.accepted.length := by
      rw [hfinished, haccepted, List.length_range]
      exact Nat.lt_succ_self n
    obtain ⟨s₂, hfinish⟩ : ∃ s₂, s₁.step .finish = some s₂ := ⟨_, if_pos hlt⟩
    have h₂ : s₂.InStep := h₁.step (e := .finish) (fun hhazard => hhazard.2.2 (hfinished ▸ hidx)) hfinish
    obtain ⟨-, rfl⟩ := step_finish hfinish
    have hdone : s₁.returned.length < s₁.finished + 1 := by omega
    have hring := congrArg Prod.snd (Ring.reclaim_of_done (h₂.oldest hdone).2.1)
    have hvalue := h₂.reclaim.trans (if_pos hdone)
    simp only [hreturned, haccepted, List.getElem?_range (Nat.lt_succ_self n)] at hvalue
    have hback : Machine.run step s₁ [.finish, .reclaim] = some _ :=
      Machine.run_cons.mpr ⟨_, hfinish, Machine.run_cons.mpr ⟨_, TxRing.step_reclaim _, rfl⟩⟩
    refine ⟨_, Machine.run_append.mpr ⟨s, hrun, (hpost _).trans hback⟩,
      ⟨h₂.step_reclaim, haccepted, ?_, ?_, ?_⟩, ?_, fun _ => ?_⟩
    · rw [hvalue, List.length_append, hreturned]
      rfl
    · exact (congrArg Ring.head hring).trans hhead
    · exact (congrArg Ring.tail hring).trans htail
    · refine (congrArg Ring.nextReclaim hring).trans ?_
      show (s₁.ring.nextReclaim + 1) % queueSize = _
      rw [hidx, Nat.mod_add_mod]
    · refine (congrArg (fun q => (Ring.desc q 0).isDone) hring).trans ((Ring.isDone_finish ..).trans ?_)
      split_ifs with hslot
      · rfl
      · rw [hfinished] at hslot
        rw [hdesc (Ne.symm hslot)]
        exact hfirst (Nat.pos_of_ne_zero fun h0 => hslot (by rw [h0]; rfl))

/-- A round of buffers, a call of `reclaim` that has nothing to return, and one more buffer. -/
def strayReclaim : List Event := roundTrips queueSize ++ (.reclaim :: send queueSize)

/-- After a stray call of `reclaim` the buffer of the second round is done and `reclaim` returns nothing. -/
theorem second_round_not_reclaimed : ∃ s, Machine.run step {} strayReclaim = some s ∧
    s.accepted.length = 257 ∧ s.returned.length = 256 ∧ s.finished = 257 ∧ (txReclaim s.ring).1 = none ∧
      ¬ s.Sound := by
  obtain ⟨s, hrun, hlevel, hreclaim, hfirst⟩ := level_roundTrips queueSize
  rw [Nat.mod_self] at hreclaim
  -- the stray call returns nothing, and goes over the first slot
  have hnone : (txReclaim s.ring).1 = none := by
    rw [hlevel.reclaim, hlevel.returned, hlevel.finished, if_neg (Nat.lt_irrefl _)]
  have hring := congrArg Prod.snd (Ring.reclaim_of_done (q := s.ring) (hreclaim ▸ hfirst (by decide)))
  have hstray : Level queueSize
      { s with ring := (txReclaim s.ring).2, returned := s.returned ++ (txReclaim s.ring).1.toList } := by
    refine ⟨hlevel.step_reclaim, hlevel.accepted, ?_, (congrArg Ring.head hring).trans hlevel.head,
      (congrArg Ring.tail hring).trans hlevel.tail⟩
    rw [hnone, Option.toList_none, List.append_nil, hlevel.returned]
  obtain ⟨s₁, hpost, h₁, haccepted, hreturned, hfinished, hreclaim₁, -⟩ := hstray.post
  have hcount : s₁.returned.length = queueSize := hreturned ▸ hstray.returned
  have hastray : s₁.ring.nextReclaim ≠ s₁.finished % queueSize := by
    have hnext : (txReclaim s.ring).2.nextReclaim = (s.ring.nextReclaim + 1) % queueSize :=
      congrArg Ring.nextReclaim hring
    rw [hreclaim₁, hnext, hreclaim, hfinished]
    decide
  have hlength : s₁.accepted.length = queueSize + 1 := by rw [haccepted, List.length_range]
  have hlt : s₁.finished < s₁.accepted.length := by omega
  have hequal : s₁.returned.length = s₁.finished := hcount.trans hfinished.symm
  obtain ⟨s₂, hfinish, hfails⟩ := h₁.fails (e := .finish) ⟨hlt, hequal, hastray⟩
  obtain ⟨-, rfl⟩ := step_finish hfinish
  have hsend : Machine.run step s₁ [.finish] = some _ := Machine.run_cons.mpr ⟨_, hfinish, rfl⟩
  refine ⟨_, Machine.run_append.mpr ⟨s, hrun, Machine.run_cons.mpr ⟨_, step_reclaim s, (hpost _).trans hsend⟩⟩,
    hlength, hcount, congrArg Nat.succ hfinished, ?_, hfails⟩
  rw [reclaim_finish hastray, h₁.reclaim, if_neg (Nat.not_lt.mpr hequal.ge)]

end TxRing

end Sparreal.Eth.E1000
