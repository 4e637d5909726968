import Sparreal.Lib.PhaseRing
import Sparreal.Eth.Ring

/-!
# The receive ring of the e1000

`E1000RxQueue` with a device that fills the descriptors in order. What is posted and not reclaimed takes up
consecutive slots, from the index of `reclaim` to the index of `submit`, and at least one slot is left over. The
head of the device is among them, so `submit` finds room as long as two slots are left over (`Level.submit`), and
the done bits that earlier rounds have left behind are in slots `reclaim` does not look at (`Level.reclaim`).
-/

namespace Sparreal.Eth.E1000.RxRing

open PhaseRing

/-- The ring, with the addresses that are posted, how many were reclaimed, how far the head has come, and the lengths
of the packets the device has filled in. -/
structure Level (ring : Ring) (posted : List Nat) (received advanced : Nat) (lengths : List Nat) : Prop where
  nextSubmit : ring.nextSubmit = (received + posted.length) % queueSize
  nextReclaim : ring.nextReclaim = received % queueSize
  head : ring.head = advanced % queueSize
  tail : ring.tail = (received + posted.length) % queueSize
  received_le : received ≤ lengths.length
  lengths_le : lengths.length ≤ advanced
  advanced_le : advanced ≤ received + posted.length
  room : posted.length < queueSize
  slot : ∀ k a, posted[k]? = some a → ring.busAddrs ((received + k) % queueSize) = some a ∧
    (ring.desc ((received + k) % queueSize)).addr = a
  done : ∀ k < posted.length, (ring.desc ((received + k) % queueSize)).isDone = decide (received + k < lengths.length)
  length : ∀ k l, k < posted.length → lengths[received + k]? = some l →
    (ring.desc ((received + k) % queueSize)).length = l

variable {ring ring' : Ring} {posted lengths : List Nat} {received advanced : Nat}

theorem level_start : Level {} [] 0 0 [] where
  nextSubmit := rfl
  nextReclaim := rfl
  head := rfl
  tail := rfl
  received_le := Nat.le_refl 0
  lengths_le := Nat.le_refl 0
  advanced_le := Nat.le_refl 0
  room := by decide
  slot k a h := by cases h
  done k h := absurd h (Nat.not_lt_zero k)
  length k l h := absurd h (Nat.not_lt_zero k)

theorem Level.submit (h : Level ring posted received advanced lengths) (busAddr : Nat) {len : Nat} (hlen : len ≤ maxPacket)
    (hroom : posted.length + 1 < queueSize) :
    ∃ ring', rxSubmit ring busAddr len = (.ok (), ring') ∧
      Level ring' (posted ++ [busAddr]) received advanced lengths := by
  have hlength : (posted ++ [busAddr]).length = posted.length + 1 := List.length_append
  have hreceived := h.received_le
  have hfilled := h.lengths_le
  have hadvanced := h.advanced_le
  have hnext : (ring.nextSubmit + 1) % queueSize = (received + posted.length + 1) % queueSize := by
    rw [h.nextSubmit, Nat.mod_add_mod]
  have hfree : (ring.nextSubmit + 1) % queueSize ≠ ring.head := by
    rw [hnext, h.head]
    exact (mod_ne_mod (by omega) (by omega)).symm
  -- the slots of what is posted are not written to
  have hother : ∀ k < posted.length, (received + k) % queueSize ≠ ring.nextSubmit := fun k hk => by
    rw [h.nextSubmit]
    exact mod_ne_mod (by omega) (by omega)
  refine ⟨_, Ring.submit_eq_ok.mpr ⟨hlen, hfree, rfl⟩, ?_, h.nextReclaim, h.head, ?_, h.received_le, h.lengths_le, ?_,
    hlength ▸ hroom, fun k a hk => ?_, fun k hk => ?_, fun k l hk hl => ?_⟩
  · rw [hlength]
    exact hnext
  · rw [hlength]
    exact hnext
  · rw [hlength]
    omega
  · rcases Nat.lt_or_ge k posted.length with hlt | hge
    · rw [List.getElem?_append_left hlt] at hk
      simp only [Function.update_of_ne (hother k hlt)]
      exact h.slot k a hk
    · obtain rfl : k = posted.length := by
        have hlt := (List.getElem?_eq_some_iff.mp hk).1
        omega
      rw [List.getElem?_concat_length] at hk
      obtain rfl := Option.some.inj hk
      simp only [← h.nextSubmit, Function.update_self]
      exact ⟨trivial, rfl⟩
  · rcases Nat.lt_or_ge k posted.length with hlt | hge
    · simp only [Function.update_of_ne (hother k hlt)]
      exact h.done k hlt
    · obtain rfl : k = posted.length := by omega
      simp only [← h.nextSubmit, Function.update_self]
      exact (decide_eq_false (by omega)).symm
  · rcases Nat.lt_or_ge k posted.length with hlt | hge
    · simp only [Function.update_of_ne (hother k hlt)]
      exact h.length k l hlt hl
    · have hlt := (List.getElem?_eq_some_iff.mp hl).1
      omega

theorem Level.reclaim {busAddr : Nat} (h : Level ring (busAddr :: posted) received advanced lengths) :
    (lengths[received]? = none ∧ rxReclaim ring = (none, ring)) ∨
      ∃ l ring', lengths[received]? = some l ∧ rxReclaim ring = (some (busAddr, l), ring') ∧
        Level ring' posted (received + 1) advanced lengths := by
  have hpos : 0 < (busAddr :: posted).length := Nat.succ_pos _
  have hroom : posted.length + 1 < queueSize := h.room
  have hdone := h.done 0 hpos
  have hslot := (h.slot 0 busAddr rfl).1
  have hlength := h.length 0
  simp only [Nat.add_zero, ← h.nextReclaim] at hdone hslot hlength
  rcases hl : lengths[received]? with _ | l
  · rw [decide_eq_false (Nat.not_lt.mpr (List.getElem?_eq_none_iff.mp hl))] at hdone
    exact .inl ⟨rfl, Ring.reclaim_of_not_done hdone⟩
  · have hfilled := (List.getElem?_eq_some_iff.mp hl).1
    rw [decide_eq_true hfilled] at hdone
    have hshift : ∀ k, received + 1 + k = received + (k + 1) := fun k => by omega
    have hother : ∀ k < posted.length, (received + (k + 1)) % queueSize ≠ ring.nextReclaim := fun k hk => by
      rw [h.nextReclaim]
      exact (mod_ne_mod (by omega) (by omega)).symm
    have htotal : received + (busAddr :: posted).length = received + 1 + posted.length := by
      rw [List.length_cons]
      omega
    have hreclaim := Ring.reclaim_of_done hdone
    rw [hslot, hlength l hpos hl] at hreclaim
    refine .inr ⟨l, _, rfl, hreclaim, htotal ▸ h.nextSubmit, ?_, h.head, htotal ▸ h.tail, hfilled, h.lengths_le,
      htotal ▸ h.advanced_le, Nat.lt_of_succ_lt hroom, fun k a hk => ?_, fun k hk => ?_, fun k l' hk hl' => ?_⟩
    · show (ring.nextReclaim + 1) % queueSize = _
      rw [h.nextReclaim, Nat.mod_add_mod]
    · have hslot' := h.slot (k + 1) a hk
      rw [hshift]
      simp only [Function.update_of_ne (hother k (List.getElem?_eq_some_iff.mp hk).1)]
      exact hslot'
    · rw [hshift]
      exact h.done (k + 1) (Nat.succ_lt_succ hk)
    · rw [hshift] at hl' ⊢
      exact h.length (k + 1) l' (Nat.succ_lt_succ hk) hl'

theorem Level.advance (h : Level ring posted received advanced lengths) (hadvance : ring.advance = some ring') :
    Level ring' posted received (advanced + 1) lengths := by
  rw [Ring.advance] at hadvance
  split_ifs at hadvance with hempty
  obtain rfl := Option.some.inj hadvance
  have hne : advanced ≠ received + posted.length := by
    rintro rfl
    exact hempty (h.head.trans h.tail.symm)
  refine { h with head := ?_, lengths_le := Nat.le_succ_of_le h.lengths_le, advanced_le := ?_ }
  · show (ring.head + 1) % queueSize = _
    rw [h.head, Nat.mod_add_mod]
  · have hle := h.advanced_le
    omega

theorem Level.finish (h : Level ring posted received advanced lengths) (hbehind : lengths.length < advanced) (l : Nat) :
    Level (ring.finish (lengths.length % queueSize) l) posted received advanced (lengths ++ [l]) := by
  have hlength : (lengths ++ [l]).length = lengths.length + 1 := List.length_append
  have hreceived := h.received_le
  have hadvanced := h.advanced_le
  have hroom := h.room
  have hother : ∀ k < posted.length, received + k ≠ lengths.length →
      (received + k) % queueSize ≠ lengths.length % queueSize := fun k hk hne => by
    rcases Nat.lt_or_gt_of_ne hne with hlt | hgt
    · exact mod_ne_mod hlt (by omega)
    · exact (mod_ne_mod hgt (by omega)).symm
  refine { h with
    received_le := by rw [hlength]; omega, lengths_le := by rw [hlength]; omega
    slot := fun k a hk => ?_, done := fun k hk => ?_, length := fun k l' hk hl' => ?_ }
  · obtain ⟨hbus, haddr⟩ := h.slot k a hk
    refine ⟨hbus, ?_⟩
    show (Function.update ring.desc _ _ _).addr = a
    rw [Function.update_apply]
    split_ifs with hsame
    · exact hsame ▸ haddr
    · exact haddr
  · rw [Ring.isDone_finish, h.done k hk, hlength]
    by_cases hsame : received + k = lengths.length
    · rw [if_pos (hsame ▸ rfl)]
      exact (decide_eq_true (by omega)).symm
    · rw [if_neg (hother k hk hsame)]
      exact decide_eq_decide.mpr (by omega)
  · show (Function.update ring.desc _ _ _).length = l'
    by_cases hsame : received + k = lengths.length
    · rw [hsame, Function.update_self]
      rw [hsame, List.getElem?_concat_length] at hl'
      exact Option.some.inj hl'
    · rw [Function.update_of_ne (hother k hk hsame)]
      refine h.length k l' hk ?_
      have hlt := (List.getElem?_eq_some_iff.mp hl').1
      rwa [List.getElem?_append_left (by omega)] at hl'

end Sparreal.Eth.E1000.RxRing
