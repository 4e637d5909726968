import Mathlib.Data.List.Basic

/-!
# The stored command line

`set_cmdline` and `cmdline` of `someboot/src/cmdline.rs`. The command line is kept in a buffer of 4096 bytes, ended by
a zero byte, and a longer one is cut after 4095 bytes. The cut is made between bytes, not between characters, and
`cmdline` makes a string of what it finds without a check: it is well-formed if the cut is at the end of a character
(`stored_iff`).
-/

namespace Sparreal.Boot

/-- `CMDLINE`. -/
structure CmdlineBuffer where
  bytes : List UInt8
  length_eq : bytes.length = 0x1000

def asBytes (s : String) : List UInt8 := s.toByteArray.data.toList

/-- The length that `set_cmdline` stores. -/
def storedLen (s : String) : Nat := min (asBytes s).length (0x1000 - 1)

theorem storedLen_lt (s : String) : storedLen s < 0x1000 := by
  unfold storedLen
  omega

theorem length_stored (s : String) (buf : CmdlineBuffer) :
    ((asBytes s).take (storedLen s) ++ 0 :: buf.bytes.drop (storedLen s + 1)).length = 0x1000 := by
  have hlt := storedLen_lt s
  have hle : storedLen s ≤ (asBytes s).length := Nat.min_le_left _ _
  simp only [List.length_append, List.length_take, List.length_cons, List.length_drop, buf.length_eq]
  omega

def setCmdline (s : String) (buf : CmdlineBuffer) : CmdlineBuffer where
  bytes := (asBytes s).take (storedLen s) ++ 0 :: buf.bytes.drop (storedLen s + 1)
  length_eq := length_stored s buf

/-- `cmdline`, as the bytes of the string it returns; `buildin` is `BUILDIN_CMDLINE`. -/
def cmdline (buildin : Option String) (buf : CmdlineBuffer) : Option (List UInt8) :=
  if buf.bytes.head? = some 0 then buildin.map asBytes
  else some (buf.bytes.take (buf.bytes.findIdx (· == 0)))

/-- The bytes are those of a string. -/
def WellFormed (bytes : List UInt8) : Prop := (ByteArray.mk bytes.toArray).IsValidUTF8

/-- What `cmdline` should return once `s` is set. -/
structure Stored (s : String) (out : List UInt8) : Prop where
  wellFormed : WellFormed out
  front : out <+: asBytes s
  whole : (asBytes s).length < 0x1000 → out = asBytes s

/-! ### What `cmdline` finds -/

theorem findIdx_zero {front : List UInt8} (h : 0 ∉ front) (rest : List UInt8) :
    (front ++ 0 :: rest).findIdx (· == 0) = front.length := by
  have hidx : (front ++ 0 :: rest).idxOf 0 = _ := List.idxOf_append_of_notMem h
  rwa [List.idxOf_cons_self, Nat.add_zero] at hidx

/-- A string without a zero byte is found up to where `set_cmdline` has cut it. -/
theorem cmdline_setCmdline {s : String} (hs : s ≠ "") (hnul : 0 ∉ asBytes s) (buildin : Option String)
    (buf : CmdlineBuffer) : cmdline buildin (setCmdline s buf) = some ((asBytes s).take (storedLen s)) := by
  have hne : asBytes s ≠ [] := by
    intro h
    apply hs
    rw [← String.toByteArray_inj, ByteArray.ext_iff]
    exact Array.toList_inj.mp h
  have hnone : 0 ∉ (asBytes s).take (storedLen s) := fun h => hnul (List.mem_of_mem_take h)
  have hbytes : (setCmdline s buf).bytes =
      (asBytes s).take (storedLen s) ++ 0 :: buf.bytes.drop (storedLen s + 1) := rfl
  have hhead : (setCmdline s buf).bytes.head? ≠ some 0 := by
    have hfront : (asBytes s).take (storedLen s) ≠ [] := by
      have hlen := List.length_pos_iff.mpr hne
      rw [← List.length_pos_iff, List.length_take, storedLen]
      omega
    obtain ⟨b, front, hcons⟩ := List.exists_cons_of_ne_nil hfront
    rw [hbytes, hcons, List.cons_append, List.head?_cons]
    intro hzero
    exact hnone (by simp [hcons, Option.some.inj hzero])
  rw [cmdline, if_neg hhead, hbytes, findIdx_zero hnone, List.take_left]

/-! ### Where a string may be cut -/

theorem wellFormed_take_iff {s : String} {n : Nat} (hn : n ≤ (asBytes s).length) :
    WellFormed ((asBytes s).take n) ↔ (String.Pos.Raw.mk n).IsValid s := by
  have hextract : ByteArray.mk ((asBytes s).take n).toArray = s.toByteArray.extract 0 n := by
    rw [ByteArray.ext_iff]
    apply Array.toList_inj.mp
    simp [asBytes]
  have hle : String.Pos.Raw.mk n ≤ s.rawEndPos := hn
  rw [WellFormed, hextract, String.Pos.Raw.isValid_iff_isValidUTF8_extract_zero]
  exact ⟨fun h => ⟨hle, h⟩, fun h => h.2⟩

/-- The value that `cmdline` returns is as it should be if the string is not cut, or is cut between characters. -/
theorem stored_iff {s : String} (hs : s ≠ "") (hnul : 0 ∉ asBytes s) (buildin : Option String) (buf : CmdlineBuffer) :
    (∃ out, cmdline buildin (setCmdline s buf) = some out ∧ Stored s out) ↔
      (asBytes s).length < 0x1000 ∨ (String.Pos.Raw.mk 4095).IsValid s := by
  have hle : storedLen s ≤ (asBytes s).length := Nat.min_le_left _ _
  have hcut : Stored s ((asBytes s).take (storedLen s)) ↔ (String.Pos.Raw.mk (storedLen s)).IsValid s := by
    rw [← wellFormed_take_iff hle]
    refine ⟨fun h => h.wellFormed, fun h => ⟨h, List.take_prefix _ _, fun hshort => ?_⟩⟩
    exact List.take_of_length_le (by unfold storedLen; omega)
  simp only [cmdline_setCmdline hs hnul, Option.some.injEq, exists_eq_left', hcut]
  by_cases hshort : (asBytes s).length < 0x1000
  · have hlen : storedLen s = (asBytes s).length := by
      unfold storedLen
      omega
    rw [hlen]
    exact ⟨fun _ => .inl hshort, fun _ => String.Pos.Raw.isValid_rawEndPos⟩
  · have hlen : storedLen s = 4095 := by
      unfold storedLen
      omega
    rw [hlen]
    exact ⟨.inr, fun h => h.resolve_left hshort⟩

/-- A string with a character of two bytes, over the remains of a longer one. -/
theorem stored_iff_shorter : ∃ out, cmdline none (setCmdline "né=1"
    (setCmdline "console=ttyS0" ⟨List.replicate 0x1000 0, List.length_replicate⟩)) = some out ∧ Stored "né=1" out :=
  (stored_iff (by decide) (by decide) none _).mpr (.inl (by decide))

/-! ### A character across the end of the buffer -/

/-- `n` letters, and a character of two bytes. -/
def lettersThen (n : Nat) : String := String.ofList (List.replicate n 'a' ++ ['é'])

theorem asBytes_ofList (cs : List Char) : asBytes (String.ofList cs) = cs.flatMap String.utf8EncodeChar := by
  rw [asBytes, String.toByteArray_ofList, List.utf8Encode]
  simp

theorem asBytes_lettersThen (n : Nat) : asBytes (lettersThen n) = List.replicate n 97 ++ [0xC3, 0xA9] := by
  rw [lettersThen, asBytes_ofList]
  induction n with
  | zero => rfl
  | succ n ih =>
    rw [List.replicate_succ, List.cons_append, List.flatMap_cons, ih]
    rfl

theorem wellFormed_letters_append (n : Nat) (bytes : List UInt8) :
    WellFormed (List.replicate n 97 ++ bytes) ↔ WellFormed bytes := by
  induction n with
  | zero => rfl
  | succ n ih =>
    have hletter : ByteArray.mk (List.replicate (n + 1) 97 ++ bytes).toArray =
        ['a'].utf8Encode ++ ByteArray.mk (List.replicate n 97 ++ bytes).toArray := by
      rw [ByteArray.ext_iff, ← Array.toList_inj, ByteArray.data_append, Array.toList_append]
      rfl
    rw [← ih, WellFormed, hletter, ByteArray.isValidUTF8_utf8Encode_singleton_append_iff]
    rfl

/-- The first byte of the character is stored alone. -/
theorem setCmdline_cuts_character : lettersThen 4094 ≠ "" ∧ 0 ∉ asBytes (lettersThen 4094) ∧
    ∃ out, cmdline none (setCmdline (lettersThen 4094) ⟨List.replicate 0x1000 0, List.length_replicate⟩) = some out ∧
      ¬ WellFormed out := by
  have hbytes := asBytes_lettersThen 4094
  have hnul : 0 ∉ asBytes (lettersThen 4094) := by
    rw [hbytes, List.mem_append, List.mem_replicate]
    decide
  have hs : lettersThen 4094 ≠ "" := by
    intro h
    rw [h] at hbytes
    exact absurd (congrArg List.length hbytes) (by rw [List.length_append, List.length_replicate]; decide)
  refine ⟨hs, hnul, _, cmdline_setCmdline hs hnul _ _, ?_⟩
  have hcut : (asBytes (lettersThen 4094)).take (storedLen (lettersThen 4094)) = List.replicate 4094 97 ++ [0xC3] := by
    have hlen : storedLen (lettersThen 4094) = (List.replicate 4094 (97 : UInt8)).length + 1 := by
      rw [storedLen, hbytes, List.length_append, List.length_replicate]
      rfl
    rw [hlen, hbytes, List.take_length_add_append]
    rfl
  rw [hcut, wellFormed_letters_append, WellFormed]
  decide

end Sparreal.Boot
