import Sparreal.Serial.Receive
import Mathlib.Data.BitVec

/-!
# Bulk reads of the PL011

`Pl011Reciever` of `serial/src/pl011.rs`. The UART is given by the values its data register will show, one for each
read, up to where its FIFO is empty. A value carries a byte and four error flags. `read_bytes` has its own loop: a byte with
the overrun flag goes into the buffer like a good one, and the overrun is reported only if the FIFO runs empty before
the buffer is full, with the count of bytes less one.

The overrun flag says that bytes were lost; the byte it comes with is valid. So a bulk read accounts for what it has
consumed (`Accounts`) only if it meets no overrun, or if another error ends it; `readBytes_accounts_iff` is exact.
-/

namespace Sparreal.Serial.Pl011

/-! ### `UARTDR` -/

/-- A value of `UARTDR`. -/
abbrev Word := BitVec 32

/-- `UARTDR::DATA`. -/
def Word.data (dr : Word) : UInt8 := UInt8.ofBitVec (dr.extractLsb' 0 8)

/-- `UARTDR::FE`. -/
def Word.fe (dr : Word) : Bool := dr.getLsbD 8

/-- `UARTDR::PE`. -/
def Word.pe (dr : Word) : Bool := dr.getLsbD 9

/-- `UARTDR::BE`. -/
def Word.be (dr : Word) : Bool := dr.getLsbD 10

/-- `UARTDR::OE`. -/
def Word.oe (dr : Word) : Bool := dr.getLsbD 11

/-! ### `Pl011Reciever` -/

def readByte : List Word → Option Item × List Word
  -- `UARTFR::RXFE`
  | [] => (none, [])
  | dr :: words =>
    if Word.fe dr then (some (.error .framing), words)
    else if Word.pe dr then (some (.error .parity), words)
    else if Word.oe dr then (some (.error (.overrun (Word.data dr))), words)
    else if Word.be dr then (some (.error .breakCondition), words)
    else (some (.ok (Word.data dr)), words)

/-- The loop of `Pl011Reciever::read_bytes`; the first argument is what is left of the buffer. -/
def readLoop : Nat → Nat → Option UInt8 → List UInt8 → List Word → (Except TransBytesError Nat × List UInt8) × List Word
  | 0, count, _, bytes, words => ((.ok count, bytes), words)
  | left + 1, count, overrunData, bytes, words =>
    match readByte words with
    | (some (.ok b), words) => readLoop left (count + 1) overrunData (bytes.set count b) words
    | (some (.error (.overrun b)), words) => readLoop left (count + 1) (some b) (bytes.set count b) words
    | (some (.error e), words) => ((.error ⟨count, e⟩, bytes), words)
    | (none, words) =>
      match overrunData with
      | some data => ((.error ⟨count - 1, .overrun data⟩, bytes), words)
      | none => ((.ok count, bytes), words)

def readBytes (words : List Word) (bytes : List UInt8) : (Except TransBytesError Nat × List UInt8) × List Word :=
  readLoop bytes.length 0 none bytes words

/-- The word holds a byte as it was sent. -/
def Word.valid (dr : Word) : Bool := !(Word.fe dr || Word.pe dr || Word.be dr)

/-- The word carries an error flag. -/
def Word.flagged (dr : Word) : Bool := Word.fe dr || Word.pe dr || Word.be dr || Word.oe dr

/-- The count that a bulk read reports. -/
def counted : Except TransBytesError Nat → Nat
  | .ok n => n
  | .error e => e.bytesTransferred

structure Accounts (consumed : List Word) (result : Except TransBytesError Nat) (bytes : List UInt8) : Prop where
  count : counted result = (consumed.filter Word.valid).length
  stored : bytes.take (counted result) = (consumed.filter Word.valid).map Word.data
  error : (∃ dr ∈ consumed, Word.flagged dr = true) → ∃ e, result = .error e

/-- The word ends a bulk read. -/
def Word.stops (dr : Word) : Bool := Word.fe dr || Word.pe dr || (Word.be dr && !Word.oe dr)

def consumed : Nat → List Word → List Word
  | 0, _ => []
  | _ + 1, [] => []
  | left + 1, dr :: words => if Word.stops dr then [dr] else dr :: consumed left words

/-- The words under which a bulk read accounts for what it consumes: no overrun; or overruns that come with valid bytes,
and then an error that ends the read; or an empty FIFO, with the valid bytes those of all words but the last (which is
an overrun with a break, rightly taken off the count). -/
def Accountable (left : Nat) (c : List Word) : Prop :=
  (∀ dr ∈ c, Word.oe dr = false) ∨
    ((∃ dr ∈ c, Word.stops dr = true) ∧ ∀ dr ∈ c, Word.stops dr = false → Word.valid dr = true) ∨
    ((∀ dr ∈ c, Word.stops dr = false) ∧ c.length < left ∧
      c.dropLast.map Word.data = (c.filter Word.valid).map Word.data)

/-! ### The loop -/

variable {dr : Word}

theorem readByte_goes (h : Word.stops dr = false) (words : List Word) :
    readByte (dr :: words) =
      (some (if Word.oe dr then .error (.overrun (Word.data dr)) else .ok (Word.data dr)), words) := by
  simp only [Word.stops, Bool.or_eq_false_iff, Bool.and_eq_false_iff, Bool.not_eq_false'] at h
  obtain ⟨⟨hfe, hpe⟩, hbe⟩ := h
  cases hoe : Word.oe dr with
  | true => simp [readByte, hfe, hpe, hoe]
  | false =>
    have hbreak : Word.be dr = false := by simpa [hoe] using hbe
    simp [readByte, hfe, hpe, hoe, hbreak]

theorem readByte_stops (h : Word.stops dr = true) (words : List Word) :
    ∃ e, readByte (dr :: words) = (some (.error e), words) ∧ ∀ b, e ≠ .overrun b := by
  cases hfe : Word.fe dr with
  | true => exact ⟨.framing, by simp [readByte, hfe], by simp⟩
  | false =>
    cases hpe : Word.pe dr with
    | true => exact ⟨.parity, by simp [readByte, hfe, hpe], by simp⟩
    | false =>
      simp only [Word.stops, hfe, hpe, Bool.false_or, Bool.and_eq_true, Bool.not_eq_true'] at h
      obtain ⟨hbe, hoe⟩ := h
      exact ⟨.breakCondition, by simp [readByte, hfe, hpe, hoe, hbe], by simp⟩

theorem readLoop_goes (h : Word.stops dr = false) (left count : Nat) (overrunData : Option UInt8) (bytes : List UInt8)
    (words : List Word) :
    readLoop (left + 1) count overrunData bytes (dr :: words) =
      readLoop left (count + 1) (if Word.oe dr then some (Word.data dr) else overrunData)
        (bytes.set count (Word.data dr)) words := by
  rw [readLoop, readByte_goes h]
  cases Word.oe dr <;> rfl

inductive Ending (left count : Nat) (overrunData : Option UInt8) (stored c : List Word) :
    Except TransBytesError Nat → Prop
  | full (hc : c = stored) (hfull : stored.length = left) : Ending left count overrunData stored c (.ok (count + left))
  | stopped {dr : Word} {e : TransferError} (hc : c = stored ++ [dr]) (hstops : Word.stops dr = true)
    (hroom : stored.length < left) : Ending left count overrunData stored c (.error ⟨count + stored.length, e⟩)
  /-- The FIFO is empty, and there was no overrun. -/
  | empty (hc : c = stored) (hroom : stored.length < left) (hnone : overrunData = none)
    (hover : ∀ dr ∈ stored, Word.oe dr = false) : Ending left count overrunData stored c (.ok (count + stored.length))
  /-- The FIFO is empty, and there was an overrun. -/
  | overrun {b : UInt8} (hc : c = stored) (hroom : stored.length < left)
    (hover : overrunData ≠ none ∨ ∃ dr ∈ stored, Word.oe dr = true) :
    Ending left count overrunData stored c (.error ⟨count + stored.length - 1, .overrun b⟩)

variable {result : Except TransBytesError Nat}

theorem Ending.cons {left count : Nat} {overrunData : Option UInt8} {stored c : List Word}
    (h : Ending left (count + 1) (if Word.oe dr then some (Word.data dr) else overrunData) stored c result) :
    Ending (left + 1) count overrunData (dr :: stored) (dr :: c) result := by
  have hcount : ∀ n, count + 1 + n = count + (n + 1) := fun n => by omega
  cases h with
  | full hc hfull =>
    rw [hcount]
    exact .full (by rw [hc]) (by rw [List.length_cons, hfull])
  | stopped hc hstops hroom =>
    rw [hcount]
    exact .stopped (by rw [hc]; rfl) hstops (by rw [List.length_cons]; omega)
  | empty hc hroom hnone hover =>
    rw [hcount]
    cases hoe : Word.oe dr with
    | true => simp [hoe] at hnone
    | false =>
      refine .empty (by rw [hc]) (by rw [List.length_cons]; omega) (by simpa [hoe] using hnone) ?_
      exact List.forall_mem_cons.mpr ⟨hoe, hover⟩
  | overrun hc hroom hover =>
    rw [hcount]
    refine .overrun (by rw [hc]) (by rw [List.length_cons]; omega) ?_
    cases hoe : Word.oe dr with
    | true => exact .inr ⟨dr, List.mem_cons_self, hoe⟩
    | false =>
      simp only [hoe, Bool.false_eq_true, if_false] at hover
      rcases hover with hsome | ⟨dr', hmem, hoe'⟩
      · exact .inl hsome
      · exact .inr ⟨dr', List.mem_cons_of_mem _ hmem, hoe'⟩

theorem readLoop_spec (left count : Nat) (overrunData : Option UInt8) (bytes : List UInt8) (words : List Word)
    (hleft : count + left = bytes.length) :
    ∃ stored result bytes' rest, readLoop left count overrunData bytes words = ((result, bytes'), rest) ∧
      words = consumed left words ++ rest ∧ (∀ dr ∈ stored, Word.stops dr = false) ∧
      bytes'.take (count + stored.length) = bytes.take count ++ stored.map Word.data ∧
      Ending left count overrunData stored (consumed left words) result := by
  induction left generalizing count overrunData bytes words with
  | zero =>
    refine ⟨[], .ok count, bytes, words, rfl, rfl, by simp, by simp, ?_⟩
    exact .full rfl rfl
  | succ left ih =>
    cases words with
    | nil =>
      cases overrunData with
      | none =>
        refine ⟨[], .ok count, bytes, [], rfl, rfl, by simp, by simp, ?_⟩
        exact .empty rfl (Nat.succ_pos _) rfl (by simp)
      | some b =>
        refine ⟨[], .error ⟨count - 1, .overrun b⟩, bytes, [], rfl, rfl, by simp, by simp, ?_⟩
        exact .overrun rfl (Nat.succ_pos _) (.inl (by simp))
    | cons dr words =>
      cases hstops : Word.stops dr with
      | true =>
        obtain ⟨e, hread, hnot⟩ := readByte_stops hstops words
        have hconsumed : consumed (left + 1) (dr :: words) = [dr] := by simp [consumed, hstops]
        refine ⟨[], .error ⟨count, e⟩, bytes, words, ?_, by rw [hconsumed]; rfl, by simp, by simp, ?_⟩
        · rw [readLoop, hread]
          cases e with
          | overrun b => exact absurd rfl (hnot b)
          | _ => rfl
        · rw [hconsumed]
          exact .stopped rfl hstops (Nat.succ_pos _)
      | false =>
        have hconsumed : consumed (left + 1) (dr :: words) = dr :: consumed left words := by simp [consumed, hstops]
        obtain ⟨stored, result, bytes', rest, hloop, hwords, hgoes, htake, hending⟩ :=
          ih (count + 1) (if Word.oe dr then some (Word.data dr) else overrunData) (bytes.set count (Word.data dr)) words
            (by rw [List.length_set]; omega)
        refine ⟨dr :: stored, result, bytes', rest, ?_, ?_, List.forall_mem_cons.mpr ⟨hstops, hgoes⟩, ?_, ?_⟩
        · rw [readLoop_goes hstops, hloop]
        · rw [hconsumed, List.cons_append, ← hwords]
        · rw [take_succ_set (by omega), List.append_assoc] at htake
          rw [List.length_cons, Nat.add_comm stored.length, ← Nat.add_assoc, htake]
          rfl
        · rw [hconsumed]
          exact hending.cons

/-! ### What is accounted for -/

theorem plain_of_goes (hstops : Word.stops dr = false) (hoe : Word.oe dr = false) :
    Word.valid dr = true ∧ Word.flagged dr = false := by
  simp only [Word.stops, hoe, Bool.not_false, Bool.and_true, Bool.or_eq_false_iff] at hstops
  simp [Word.valid, Word.flagged, hstops, hoe]

theorem not_valid_of_stops (h : Word.stops dr = true) : Word.valid dr = false := by
  simp only [Word.stops, Bool.or_eq_true, Bool.and_eq_true] at h
  rcases h with (hfe | hpe) | ⟨hbe, -⟩
  · simp [Word.valid, hfe]
  · simp [Word.valid, hpe]
  · simp [Word.valid, hbe]

theorem flagged_of_oe (h : Word.oe dr = true) : Word.flagged dr = true := by
  simp [Word.flagged, h]

section Endings

variable {left : Nat} {stored : List Word} {bytes : List UInt8}

theorem accounts_of_valid {c : List Word} (hfilter : c.filter Word.valid = stored)
    (hcount : counted result = stored.length) (htake : bytes.take stored.length = stored.map Word.data)
    (herror : (∃ dr ∈ c, Word.flagged dr = true) → ∃ e, result = .error e) : Accounts c result bytes := by
  refine ⟨?_, ?_, herror⟩
  · rw [hfilter, hcount]
  · rw [hfilter, hcount, htake]

variable (hgoes : ∀ dr ∈ stored, Word.stops dr = false) (htake : bytes.take stored.length = stored.map Word.data)

include hgoes htake

theorem accounts_of_plain (hplain : ∀ dr ∈ stored, Word.oe dr = false) (hcount : counted result = stored.length) :
    Accounts stored result bytes := by
  have hword : ∀ dr ∈ stored, Word.valid dr = true ∧ Word.flagged dr = false :=
    fun dr hmem => plain_of_goes (hgoes dr hmem) (hplain dr hmem)
  refine accounts_of_valid (List.filter_eq_self.mpr fun dr hmem => (hword dr hmem).1) hcount htake ?_
  rintro ⟨dr, hmem, hflagged⟩
  rw [(hword dr hmem).2] at hflagged
  exact absurd hflagged (by simp)

/-- A full buffer: the answer is `Ok`, so there must be no overrun. -/
theorem full_iff (hfull : stored.length = left) :
    Accounts stored (.ok left) bytes ↔ Accountable left stored := by
  constructor
  · intro h
    refine .inl fun dr hmem => ?_
    by_contra hoe
    obtain ⟨e, he⟩ := h.error ⟨dr, hmem, flagged_of_oe (by simpa using hoe)⟩
    exact absurd he (by simp)
  · rintro (hplain | ⟨⟨dr, hmem, hstops⟩, -⟩ | ⟨-, hlt, -⟩)
    · exact accounts_of_plain hgoes htake hplain hfull.symm
    · rw [hgoes dr hmem] at hstops
      exact absurd hstops (by simp)
    · omega

theorem stopped_iff {dr : Word} (e : TransferError) (hstops : Word.stops dr = true) :
    Accounts (stored ++ [dr]) (.error ⟨stored.length, e⟩) bytes ↔ Accountable left (stored ++ [dr]) := by
  have hfilter : (stored ++ [dr]).filter Word.valid = stored.filter Word.valid := by
    simp [List.filter_append, not_valid_of_stops hstops]
  have hmem : dr ∈ stored ++ [dr] := List.mem_append_right _ (List.mem_singleton_self dr)
  constructor
  · intro h
    have hcount := h.count
    rw [hfilter] at hcount
    have hvalid := List.length_filter_eq_length_iff.mp hcount.symm
    refine .inr (.inl ⟨⟨dr, hmem, hstops⟩, fun dr' hmem' hgoes' => ?_⟩)
    rcases List.mem_append.mp hmem' with hmem' | hlast
    · exact hvalid dr' hmem'
    · rw [List.mem_singleton.mp hlast, hstops] at hgoes'
      exact absurd hgoes' (by simp)
  · intro h
    have hvalid : ∀ dr' ∈ stored, Word.valid dr' = true := by
      intro dr' hmem'
      rcases h with hplain | ⟨-, hvalid⟩ | ⟨hnone, -, -⟩
      · exact (plain_of_goes (hgoes dr' hmem') (hplain dr' (List.mem_append_left _ hmem'))).1
      · exact hvalid dr' (List.mem_append_left _ hmem') (hgoes dr' hmem')
      · rw [hnone dr hmem] at hstops
        exact absurd hstops (by simp)
    refine accounts_of_valid ?_ rfl htake fun _ => ⟨_, rfl⟩
    rw [hfilter]
    exact List.filter_eq_self.mpr hvalid

theorem overrun_iff (b : UInt8) (hroom : stored.length < left) (hover : ∃ dr ∈ stored, Word.oe dr = true) :
    Accounts stored (.error ⟨stored.length - 1, .overrun b⟩) bytes ↔ Accountable left stored := by
  have hfront : bytes.take (stored.length - 1) = stored.dropLast.map Word.data := by
    rw [List.dropLast_eq_take, List.map_take, ← htake, List.take_take, Nat.min_eq_left (Nat.sub_le _ _)]
  constructor
  · intro h
    exact .inr (.inr ⟨hgoes, hroom, hfront.symm.trans h.stored⟩)
  · rintro (hplain | ⟨⟨dr, hmem, hstops⟩, -⟩ | ⟨-, -, hdata⟩)
    · obtain ⟨dr, hmem, hoe⟩ := hover
      rw [hplain dr hmem] at hoe
      exact absurd hoe (by simp)
    · rw [hgoes dr hmem] at hstops
      exact absurd hstops (by simp)
    · refine ⟨?_, hfront.trans hdata, fun _ => ⟨_, rfl⟩⟩
      simpa [counted] using congrArg List.length hdata

end Endings

/-- For every sequence of data words and every buffer: `read_bytes` stores the valid bytes it consumes in order, reports
their number, and returns an error if a word carried an error flag, exactly if the words it consumes are
`Accountable`. -/
theorem readBytes_accounts_iff (words : List Word) (bytes : List UInt8) :
    (∃ result bytes' c rest, readBytes words bytes = ((result, bytes'), rest) ∧ words = c ++ rest ∧
      Accounts c result bytes') ↔
    Accountable bytes.length (consumed bytes.length words) := by
  obtain ⟨stored, result, bytes', rest, hloop, hwords, hgoes, htake, hending⟩ :=
    readLoop_spec bytes.length 0 none bytes words (Nat.zero_add _)
  have hread : readBytes words bytes = ((result, bytes'), rest) := hloop
  simp only [Nat.zero_add, List.take_zero, List.nil_append] at htake
  have honly : (∃ result bytes' c rest, readBytes words bytes = ((result, bytes'), rest) ∧ words = c ++ rest ∧
      Accounts c result bytes') ↔ Accounts (consumed bytes.length words) result bytes' := by
    constructor
    · rintro ⟨result₁, bytes₁, c, rest₁, hread₁, hwords₁, haccounts⟩
      obtain ⟨hpair, rfl⟩ := Prod.mk.inj (hread.symm.trans hread₁)
      obtain ⟨rfl, rfl⟩ := Prod.mk.inj hpair
      rwa [List.append_cancel_right (hwords₁.symm.trans hwords)] at haccounts
    · intro haccounts
      exact ⟨result, bytes', consumed bytes.length words, rest, hread, hwords, haccounts⟩
  rw [honly]
  cases hending with
  | full hc hfull =>
    rw [hc, Nat.zero_add]
    exact full_iff hgoes htake hfull
  | stopped hc hstops hroom =>
    rw [hc, Nat.zero_add]
    exact stopped_iff hgoes htake _ hstops
  | empty hc hroom hnone hover =>
    rw [hc, Nat.zero_add]
    exact iff_of_true (accounts_of_plain hgoes htake hover rfl) (.inl hover)
  | overrun hc hroom hover =>
    rw [hc, Nat.zero_add]
    exact overrun_iff hgoes htake _ hroom (hover.resolve_left (by simp))

/-- An overrun and a good byte after it. In a buffer with room the good byte is stored and left out of the count; in a
buffer that they fill the overrun is not reported. -/
theorem readBytes_miscounts :
    readBytes [0x861#32, 0x62#32] [0, 0, 0] = ((.error ⟨1, .overrun 0x61⟩, [0x61, 0x62, 0]), []) ∧
    ¬ Accounts [0x861#32, 0x62#32] (.error ⟨1, .overrun 0x61⟩) [0x61, 0x62, 0] ∧
    readBytes [0x861#32, 0x62#32] [0, 0] = ((.ok 2, [0x61, 0x62]), []) ∧
    ¬ Accounts [0x861#32, 0x62#32] (.ok 2) [0x61, 0x62] := by
  refine ⟨rfl, fun h => ?_, rfl, fun h => ?_⟩
  · exact absurd h.count (by decide)
  · obtain ⟨e, he⟩ := h.error ⟨0x861#32, by decide, by decide⟩
    exact absurd he (by simp)

end Sparreal.Serial.Pl011
