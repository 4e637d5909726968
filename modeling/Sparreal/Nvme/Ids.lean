import Sparreal.Lib.Machine
import Sparreal.Nvme.Command

/-!
# Command identifiers

`next_id` of `nvme/src/queue.rs`, called on any number of processors: the exchange that wraps the counter and the
addition are two steps. The exchange returns 0 and leaves 0 in the counter, so the call after it returns 0 again
(`distinct_iff`).
-/

namespace Sparreal.Nvme

/-- An identifier that `next_id` has returned, after the exchange or after the addition. -/
structure Issue where
  id : UInt32
  wrapped : Bool
  deriving DecidableEq, Repr

/-- The identifier in the first dword of a command. -/
def Issue.stored (i : Issue) : Nat := i.id.toNat % 2 ^ 16

theorem Issue.stored_eq (i : Issue) (opcode : UInt8) :
    i.stored = (CommandSet.cdw0FromOpcode opcode i.id >>> 16).toNat := by
  have hid : (i.id &&& 0xffff).toNat = i.stored := Nat.and_two_pow_sub_one_eq_mod i.id.toNat 16
  have hlt : i.stored < 2 ^ 16 := Nat.mod_lt _ (by decide)
  have hopcode : opcode.toNat &&& 0xff < 2 ^ 8 := Nat.and_lt_two_pow _ (by decide)
  rw [CommandSet.cdw0FromOpcode, UInt32.toNat_shiftRight, UInt32.toNat_add, UInt32.toNat_shiftLeft, hid]
  simp [Nat.shiftRight_eq_div_pow, Nat.shiftLeft_eq]
  omega

structure IdFactory where
  counter : UInt32
  /-- The number of calls between the exchange and the addition. -/
  adding : Nat
  /-- The last first. -/
  issued : List Issue
  deriving DecidableEq, Repr

namespace IdFactory

inductive Event
  | exchange | add
  deriving DecidableEq, Repr

def start : IdFactory := ⟨0, 0, []⟩

def step (s : IdFactory) : Event → Option IdFactory
  | .exchange =>
    some (if s.counter = 0xFFFF then { s with counter := 0, issued := ⟨0, true⟩ :: s.issued }
      else { s with adding := s.adding + 1 })
  | .add =>
    if 0 < s.adding then some ⟨s.counter + 1, s.adding - 1, ⟨s.counter, false⟩ :: s.issued⟩ else none

/-- The counter is what the identifiers leave. -/
inductive After : UInt32 → List Issue → Prop
  | start : After 0 []
  | wrap {issued : List Issue} (h : After 0xFFFF issued) : After 0 (⟨0, true⟩ :: issued)
  | add {counter : UInt32} {issued : List Issue} (h : After counter issued) :
    After (counter + 1) (⟨counter, false⟩ :: issued)

variable {s s' : IdFactory} {e : Event} {es : List Event} {c : UInt32} {i x : Issue} {l w earlier : List Issue}

theorem after_step (h : After s.counter s.issued) (hstep : step s e = some s') : After s'.counter s'.issued := by
  cases e with
  | exchange =>
    obtain rfl := Option.some.inj hstep
    split_ifs with hfull
    · exact .wrap (hfull ▸ h)
    · exact h
  | add =>
    obtain ⟨-, ⟨⟩⟩ := Option.ite_none_right_eq_some.mp hstep
    exact .add h

theorem After.of_append (h : After c (l ++ w)) : ∃ c, After c w := by
  induction l generalizing c with
  | nil => exact ⟨c, h⟩
  | cons x l ih =>
    cases h with
    | wrap h => exact ih h
    | add h => exact ih h

/-- Without the exchange, the identifiers count up to the counter. -/
theorem After.distance (h : After c (w ++ earlier)) (hw : ∀ i ∈ w, i.wrapped = false) (hi : i ∈ w) :
    ∃ k, 0 < k ∧ k ≤ w.length ∧ (i.id.toNat + k) % 2 ^ 32 = c.toNat := by
  induction w generalizing c with
  | nil => cases hi
  | cons x w ih =>
    obtain ⟨hx, hrest⟩ := List.forall_mem_cons.mp hw
    cases h with
    | wrap => cases hx
    | @add counter _ h =>
      have hadd : (counter + 1).toNat = (counter.toNat + 1) % 2 ^ 32 := UInt32.toNat_add counter 1
      rcases List.mem_cons.mp hi with rfl | hi
      · exact ⟨1, Nat.one_pos, by simp, hadd.symm⟩
      · obtain ⟨k, hpos, hle, hk⟩ := ih h hrest hi
        exact ⟨k + 1, by omega, by simpa using hle, by omega⟩

theorem After.nodup (h : After c (w ++ earlier)) (hw : ∀ i ∈ w, i.wrapped = false)
    (hlength : w.length ≤ 2 ^ 16) : (w.map Issue.stored).Nodup := by
  induction w generalizing c with
  | nil => exact List.nodup_nil
  | cons x w ih =>
    obtain ⟨hx, hrest⟩ := List.forall_mem_cons.mp hw
    rw [List.length_cons] at hlength
    cases h with
    | wrap => cases hx
    | add h =>
      refine List.nodup_cons.mpr ⟨fun hmem => ?_, ih h hrest (by omega)⟩
      obtain ⟨i, hi, heq⟩ := List.mem_map.mp hmem
      obtain ⟨k, hpos, hle, hk⟩ := h.distance hrest hi
      simp only [Issue.stored] at heq
      omega

theorem After.eq_zero (h : After c (x :: l)) (hx : x.wrapped = true) : x.id = 0 ∧ c = 0 := by
  cases h with
  | wrap => exact ⟨rfl, rfl⟩
  | add => cases hx

/-- The call after the exchange returns 0 too. -/
theorem After.not_wrapped (h : After c (x :: w ++ earlier)) (hnodup : ((x :: w).map Issue.stored).Nodup)
    (hi : i ∈ w) : i.wrapped = false := by
  induction w generalizing c x with
  | nil => cases hi
  | cons y w ih =>
    obtain ⟨hx, hnodup⟩ := List.nodup_cons.mp hnodup
    obtain ⟨c', hy⟩ : ∃ c, After c (y :: w ++ earlier) := h.of_append (l := [x])
    rcases List.mem_cons.mp hi with rfl | hi
    · refine Bool.eq_false_iff.mpr fun hwrapped => ?_
      cases h with
      | wrap h => exact absurd (h.eq_zero hwrapped).2 (by decide)
      | add h =>
        obtain ⟨hid, rfl⟩ := h.eq_zero hwrapped
        exact hx (by simp [Issue.stored, hid])
    · exact ih hy hnodup hi

/-- A call that nothing comes between. -/
theorem run_nextId (counter : UInt32) (n : Nat) (issued : List Issue) :
    ∃ es, Machine.run step ⟨counter, n, issued⟩ es =
      some ⟨(nextId counter).2, n, ⟨(nextId counter).1, decide (counter = 0xFFFF)⟩ :: issued⟩ := by
  unfold nextId
  split_ifs with hfull
  · exact ⟨[.exchange], by simp [Machine.run, step, hfull]⟩
  · exact ⟨[.exchange, .add], by simp [Machine.run, step, hfull]⟩

theorem run_calls {n : Nat} (h : n ≤ 0xFFFF) :
    ∃ es issued, Machine.run step start es = some ⟨.ofNat n, 0, issued⟩ ∧ issued.length = n ∧
      ∀ i ∈ issued, i.wrapped = false := by
  induction n with
  | zero => exact ⟨[], [], rfl, rfl, by simp⟩
  | succ n ih =>
    obtain ⟨es, issued, hrun, hlength, hwrapped⟩ := ih (by omega)
    have hnot : UInt32.ofNat n ≠ 0xFFFF := fun heq => by
      have := congrArg UInt32.toNat heq
      simp at this
      omega
    obtain ⟨call, hcall⟩ := run_nextId (.ofNat n) 0 issued
    refine ⟨es ++ call, ⟨.ofNat n, false⟩ :: issued, Machine.run_append.mpr ⟨_, hrun, ?_⟩, by simp [hlength], ?_⟩
    · simpa [nextId, hnot] using hcall
    · exact List.forall_mem_cons.mpr ⟨rfl, hwrapped⟩

/-- Identifiers in a row are distinct if the exchange returned none of them but the last. -/
theorem distinct_iff (hrun : Machine.run step start es = some s) {later window earlier : List Issue}
    (hissued : s.issued = later ++ (window ++ earlier)) (hlength : window.length ≤ 65535) :
    (window.map Issue.stored).Nodup ↔ ∀ i ∈ window.tail, i.wrapped = false := by
  have hafter := Machine.run_keeps (I := fun s => After s.counter s.issued) after_step hrun .start
  rw [hissued] at hafter
  obtain ⟨c, h⟩ := hafter.of_append
  cases window with
  | nil => simp
  | cons x w =>
    refine ⟨fun hnodup i hi => h.not_wrapped hnodup hi, fun hw => ?_⟩
    rw [List.length_cons] at hlength
    have hx := h
    cases hx with
    | add => exact h.nodup (List.forall_mem_cons.mpr ⟨rfl, hw⟩) (by rw [List.length_cons]; omega)
    | wrap hrest =>
      refine List.nodup_cons.mpr ⟨fun hmem => ?_, hrest.nodup hw (by omega)⟩
      obtain ⟨i, hi, heq⟩ := List.mem_map.mp hmem
      obtain ⟨k, hpos, hle, hk⟩ := hrest.distance hw hi
      have hzero : i.id.toNat % 2 ^ 16 = 0 := heq
      have hfull : (0xFFFF : UInt32).toNat = 65535 := rfl
      omega

/-- The first 65535 identifiers. -/
theorem distinct_first_round : ∃ es s, Machine.run step start es = some s ∧ s.issued.length = 65535 ∧
    (s.issued.map Issue.stored).Nodup := by
  obtain ⟨es, issued, hrun, hlength, hwrapped⟩ := run_calls (Nat.le_refl 0xFFFF)
  have hissued : issued = [] ++ (issued ++ []) := (List.append_nil issued).symm
  refine ⟨es, _, hrun, hlength, (distinct_iff hrun hissued (Nat.le_of_eq hlength)).mpr fun i hi => ?_⟩
  exact hwrapped i (List.mem_of_mem_tail hi)

/-- After 65535 calls, the next two return 0. -/
theorem ids_repeat : ∃ es s window earlier, Machine.run step start es = some s ∧ s.issued = window ++ earlier ∧
    window.length = 65535 ∧ ¬ (window.map Issue.stored).Nodup := by
  obtain ⟨es, issued, hrun, hlength, -⟩ := run_calls (Nat.le_refl 0xFFFF)
  have hlast : Machine.run step ⟨.ofNat 0xFFFF, 0, issued⟩ [.exchange, .exchange, .add] =
      some ⟨1, 0, ⟨0, false⟩ :: ⟨0, true⟩ :: issued⟩ := rfl
  refine ⟨_, _, ⟨0, false⟩ :: ⟨0, true⟩ :: issued.take 65533, issued.drop 65533,
    Machine.run_append.mpr ⟨_, hrun, hlast⟩, by simp, by simp [hlength], ?_⟩
  simp [Issue.stored]

end IdFactory

end Sparreal.Nvme
