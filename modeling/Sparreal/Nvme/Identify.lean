import Sparreal.Lib.Bytes

/-!
# Identify data of an NVMe namespace

`IdentifyNamespaceDataStructure::parse` of `nvme/src/command.rs` reads the buffer of an Identify command as an array of
32-bit words. The sizes of a namespace are numbers of 64 bits, so that its first three words are the two halves of the
size and a half of the capacity. `parse_iff` says for which buffers the result is right nevertheless.
-/

namespace Sparreal.Nvme

structure NamespaceDataStructure where
  namespaceSize : Nat
  namespcaeCapacity : Nat
  namespaceNused : Nat
  lbaSize : Nat
  metadataSize : Nat
  deriving DecidableEq, Repr

/-- `LBAFormatDataStructure`, without the field nothing reads. -/
structure LBAFormatDataStructure where
  metadataSize : Nat
  lbaDataSize : Nat
  deriving DecidableEq, Repr

/-- `2u32.pow(exp)`. One that does not fit is a panic with overflow checks and wraps without. -/
def powU32 (overflowChecks : Bool) (exp : Nat) : Option Nat :=
  if exp < 32 then some (2 ^ exp)
  else if overflowChecks then none
  else some (2 ^ exp % 2 ^ 32)

/-- `raw[index]`. -/
def rawWord (data : List UInt8) (index : Nat) : Nat := Bytes.field data (4 * index) 4

/-- An entry of the table of formats. -/
def lbaFormat (data : List UInt8) (index : Nat) : LBAFormatDataStructure :=
  ⟨Bytes.field data (128 + 4 * index) 2, Bytes.field data (128 + 4 * index + 2) 1⟩

def formattedLbaSizeField (data : List UInt8) : Nat := Bytes.field data 26 1

def lbaSizeIdx (data : List UInt8) : Nat := formattedLbaSizeField data &&& 0b1111

def hasMetadata (data : List UInt8) : Bool := (formattedLbaSizeField data >>> 4) &&& 1 == 1

/-- The format `parse` works with. -/
def lbaFmt (data : List UInt8) : LBAFormatDataStructure :=
  if lbaSizeIdx data > 0 then lbaFormat data (lbaSizeIdx data) else ⟨0, 9⟩

/-- `IdentifyNamespaceDataStructure::parse`; the outer `none` is a panic. -/
def parse (overflowChecks : Bool) (data : List UInt8) : Option (Option NamespaceDataStructure) :=
  if rawWord data 0 = 0 then some none
  else do
    let lbaSize ← powU32 overflowChecks (lbaFmt data).lbaDataSize
    return some
      { namespaceSize := rawWord data 0
        namespcaeCapacity := rawWord data 1
        namespaceNused := rawWord data 2
        lbaSize := lbaSize
        metadataSize := if hasMetadata data then Bytes.field data 27 1 else (lbaFmt data).metadataSize }

/-! ### The fields of the specification -/

/-- The size of the namespace. -/
def nsze (data : List UInt8) : Nat := Bytes.field data 0 8

/-- The capacity of the namespace. -/
def ncap (data : List UInt8) : Nat := Bytes.field data 8 8

/-- The use of the namespace. -/
def nuse (data : List UInt8) : Nat := Bytes.field data 16 8

/-- The number of formats, less one. -/
def nlbaf (data : List UInt8) : Nat := Bytes.field data 25 1

def formatInUse (data : List UInt8) : LBAFormatDataStructure := lbaFormat data (formattedLbaSizeField data % 16)

/-- An Identify Namespace structure, whose format in use is one of its formats. -/
structure IdentifyData (data : List UInt8) : Prop where
  length : data.length = 4096
  valid : formattedLbaSizeField data % 16 ≤ nlbaf data

/-- The result says what the structure says. -/
def Decoded (data : List UInt8) : Option (Option NamespaceDataStructure) → Prop
  | none => False
  | some none => nsze data = 0
  | some (some s) => nsze data ≠ 0 ∧ s.namespaceSize = nsze data ∧ s.namespcaeCapacity = ncap data ∧
      s.namespaceNused = nuse data ∧ s.lbaSize = 2 ^ (formatInUse data).lbaDataSize ∧
      s.metadataSize = (formatInUse data).metadataSize

instance (data : List UInt8) : (result : Option (Option NamespaceDataStructure)) → Decidable (Decoded data result)
  | none => inferInstanceAs (Decidable False)
  | some none => inferInstanceAs (Decidable (nsze data = 0))
  | some (some _) => inferInstanceAs (Decidable (_ ∧ _))

/-- The sizes survive the reading by words: the size has one, and the capacity and the use are zero. -/
structure SizesFit (data : List UInt8) : Prop where
  nsze_lt : nsze data < 2 ^ 32
  ncap_eq : ncap data = 0
  nuse_eq : nuse data = 0

/-- The format in use is the one `parse` works with, and its block size has 32 bits. -/
structure FormatFits (data : List UInt8) : Prop where
  lbads_lt : (formatInUse data).lbaDataSize < 32
  first : formattedLbaSizeField data % 16 = 0 → (formatInUse data).lbaDataSize = 9
  extended : hasMetadata data = true → Bytes.field data 27 1 = (formatInUse data).metadataSize
  separate : hasMetadata data = false → formattedLbaSizeField data % 16 = 0 → (formatInUse data).metadataSize = 0

/-! ### Words -/

section Words

variable {data : List UInt8}

theorem lbaSizeIdx_eq (data : List UInt8) : lbaSizeIdx data = formattedLbaSizeField data % 16 :=
  Nat.and_two_pow_sub_one_eq_mod _ 4

theorem twoWords_eq (index : Nat) (h : 4 * index + 4 ≤ data.length) :
    Bytes.field data (4 * index) 8 = rawWord data index + 2 ^ 32 * rawWord data (index + 1) :=
  Bytes.field_add h 4

theorem nsze_eq (h : data.length = 4096) : nsze data = rawWord data 0 + 2 ^ 32 * rawWord data 1 :=
  twoWords_eq 0 (by omega)

theorem ncap_eq (h : data.length = 4096) : ncap data = rawWord data 2 + 2 ^ 32 * rawWord data 3 :=
  twoWords_eq 2 (by omega)

theorem rawWord_lt (data : List UInt8) (index : Nat) : rawWord data index < 2 ^ 32 := Bytes.field_lt _ _ 4

theorem words_iff (h : data.length = 4096) :
    rawWord data 0 = nsze data ∧ rawWord data 1 = ncap data ∧ rawWord data 2 = nuse data ↔ SizesFit data := by
  have hnsze := nsze_eq h
  have hncap := ncap_eq h
  have h0 := rawWord_lt data 0
  have h2 := rawWord_lt data 2
  constructor
  · rintro ⟨hsize, hcap, huse⟩
    exact ⟨by omega, by omega, by omega⟩
  · rintro ⟨hlt, hcap, huse⟩
    exact ⟨by omega, by omega, by omega⟩

end Words

/-! ### The format -/

section Format

variable {data : List UInt8}

theorem lbaFmt_of_first (h : formattedLbaSizeField data % 16 = 0) : lbaFmt data = ⟨0, 9⟩ := by
  rw [lbaFmt, lbaSizeIdx_eq, if_neg (by omega)]

theorem lbaFmt_of_other (h : formattedLbaSizeField data % 16 ≠ 0) : lbaFmt data = formatInUse data := by
  rw [lbaFmt, lbaSizeIdx_eq, if_pos (Nat.pos_of_ne_zero h), formatInUse]

/-- What `parse` takes from the format is right exactly if the format fits. -/
theorem format_iff (data : List UInt8) :
    (lbaFmt data).lbaDataSize < 32 ∧ (lbaFmt data).lbaDataSize = (formatInUse data).lbaDataSize ∧
        (if hasMetadata data then Bytes.field data 27 1 else (lbaFmt data).metadataSize) =
          (formatInUse data).metadataSize ↔ FormatFits data := by
  by_cases hfirst : formattedLbaSizeField data % 16 = 0
  · rw [lbaFmt_of_first hfirst]
    constructor
    · rintro ⟨-, hsize, hmeta⟩
      refine ⟨hsize ▸ by decide, fun _ => hsize.symm, fun hext => ?_, fun hsep _ => ?_⟩
      · rwa [if_pos hext] at hmeta
      · rw [hsep] at hmeta
        exact hmeta.symm
    · intro h
      refine ⟨by decide, (h.first hfirst).symm, ?_⟩
      cases hext : hasMetadata data with
      | false => exact (h.separate hext hfirst).symm
      | true => exact h.extended hext
  · rw [lbaFmt_of_other hfirst]
    constructor
    · rintro ⟨hlt, -, hmeta⟩
      refine ⟨hlt, fun h0 => absurd h0 hfirst, fun hext => ?_, fun _ h0 => absurd h0 hfirst⟩
      rwa [if_pos hext] at hmeta
    · intro h
      refine ⟨h.lbads_lt, rfl, ?_⟩
      cases hext : hasMetadata data with
      | false => rfl
      | true => exact h.extended hext

theorem powU32_eq_some {overflowChecks : Bool} {exp exp' : Nat} :
    powU32 overflowChecks exp = some (2 ^ exp') ↔ exp < 32 ∧ exp = exp' := by
  unfold powU32
  by_cases hlt : exp < 32
  · rw [if_pos hlt, Option.some.injEq, Nat.pow_right_inj (by decide)]
    exact ⟨fun h => ⟨hlt, h⟩, And.right⟩
  · have hwrap : 2 ^ exp % 2 ^ 32 = 0 := Nat.mod_eq_zero_of_dvd (Nat.pow_dvd_pow 2 (Nat.not_lt.mp hlt))
    refine iff_of_false ?_ fun h => hlt h.1
    rw [if_neg hlt, hwrap]
    cases overflowChecks with
    | false =>
      intro h
      exact absurd (Option.some.inj h) (Nat.ne_of_lt (Nat.two_pow_pos exp'))
    | true => simp

end Format

/-- The result of `parse` is right exactly if the namespace is empty, or its size has one word, its capacity and use
are zero, and the format in use is the first one only where that is the format `parse` puts in its place, with a block
size of 32 bits, and has the metadata size of byte 27 where the metadata is part of the blocks. -/
theorem parse_iff (overflowChecks : Bool) (data : List UInt8) (h : IdentifyData data) :
    Decoded data (parse overflowChecks data) ↔ nsze data = 0 ∨ SizesFit data ∧ FormatFits data := by
  have hnsze := nsze_eq h.length
  have h0 := rawWord_lt data 0
  unfold parse
  by_cases hzero : rawWord data 0 = 0
  · rw [if_pos hzero]
    refine ⟨.inl, ?_⟩
    rintro (hempty | ⟨hsizes, -⟩)
    · exact hempty
    · -- a size of one word that is zero
      have hlt := hsizes.nsze_lt
      show nsze data = 0
      omega
  · have hpos : nsze data ≠ 0 := by omega
    rw [if_neg hzero, ← words_iff h.length, ← format_iff, or_iff_right hpos]
    cases hpow : powU32 overflowChecks (lbaFmt data).lbaDataSize with
    | none =>
      refine iff_of_false (fun h => h) ?_
      rintro ⟨-, hlt, heq, -⟩
      rw [powU32_eq_some.mpr ⟨hlt, heq⟩] at hpow
      cases hpow
    | some lbaSize =>
      have hsize : lbaSize = 2 ^ (formatInUse data).lbaDataSize ↔
          (lbaFmt data).lbaDataSize < 32 ∧ (lbaFmt data).lbaDataSize = (formatInUse data).lbaDataSize := by
        rw [← powU32_eq_some, hpow, Option.some.injEq]
      show nsze data ≠ 0 ∧ _ ∧ _ ∧ _ ∧ lbaSize = _ ∧ _ ↔ _
      rw [hsize]
      constructor
      · rintro ⟨-, hword, hcap, huse, ⟨hlt, heq⟩, hmeta⟩
        exact ⟨⟨hword, hcap, huse⟩, hlt, heq, hmeta⟩
      · rintro ⟨⟨hword, hcap, huse⟩, hlt, heq, hmeta⟩
        exact ⟨hpos, hword, hcap, huse, ⟨hlt, heq⟩, hmeta⟩

/-- A namespace with one format and no metadata, whose sizes are the given bytes. -/
def oneFormat (size capacity use : List UInt8) (lbads : UInt8) : List UInt8 :=
  size ++ capacity ++ use ++ [0, 0, 0, 0] ++ List.replicate 100 0 ++ [0, 0, lbads, 0] ++ List.replicate 3964 0

/-- A namespace of 2000 blocks of 512 bytes, none of which can be used. -/
theorem parse_iff_small :
    IdentifyData (oneFormat [208, 7, 0, 0, 0, 0, 0, 0] (List.replicate 8 0) (List.replicate 8 0) 9) ∧
      Decoded (oneFormat [208, 7, 0, 0, 0, 0, 0, 0] (List.replicate 8 0) (List.replicate 8 0) 9)
        (parse true (oneFormat [208, 7, 0, 0, 0, 0, 0, 0] (List.replicate 8 0) (List.replicate 8 0) 9)) := by
  have hdata : IdentifyData (oneFormat [208, 7, 0, 0, 0, 0, 0, 0] (List.replicate 8 0) (List.replicate 8 0) 9) :=
    ⟨by decide +kernel, by decide +kernel⟩
  refine ⟨hdata, (parse_iff true _ hdata).mpr (.inr ⟨⟨?_, ?_, ?_⟩, ⟨?_, fun _ => ?_, fun h => ?_, fun _ _ => ?_⟩⟩)⟩
  case refine_6 => exact absurd h (by decide +kernel)
  all_goals decide +kernel

/-- A full namespace of 2²⁰ blocks of 4 KiB is taken to have blocks of 512 bytes and no capacity, and one of 2³² blocks
to be none. -/
theorem parse_wrong :
    (IdentifyData (oneFormat [0, 0, 16, 0, 0, 0, 0, 0] [0, 0, 16, 0, 0, 0, 0, 0] [0, 0, 16, 0, 0, 0, 0, 0] 12) ∧
      parse true (oneFormat [0, 0, 16, 0, 0, 0, 0, 0] [0, 0, 16, 0, 0, 0, 0, 0] [0, 0, 16, 0, 0, 0, 0, 0] 12) =
        some (some ⟨0x100000, 0, 0x100000, 512, 0⟩) ∧
      ¬ Decoded (oneFormat [0, 0, 16, 0, 0, 0, 0, 0] [0, 0, 16, 0, 0, 0, 0, 0] [0, 0, 16, 0, 0, 0, 0, 0] 12)
        (some (some ⟨0x100000, 0, 0x100000, 512, 0⟩))) ∧
    IdentifyData (oneFormat [0, 0, 0, 0, 1, 0, 0, 0] [0, 0, 0, 0, 1, 0, 0, 0] (List.replicate 8 0) 9) ∧
      parse true (oneFormat [0, 0, 0, 0, 1, 0, 0, 0] [0, 0, 0, 0, 1, 0, 0, 0] (List.replicate 8 0) 9) = some none ∧
      ¬ Decoded (oneFormat [0, 0, 0, 0, 1, 0, 0, 0] [0, 0, 0, 0, 1, 0, 0, 0] (List.replicate 8 0) 9) (some none) := by
  refine ⟨⟨⟨?_, ?_⟩, ?_, ?_⟩, ⟨?_, ?_⟩, ?_, ?_⟩
  all_goals decide +kernel

end Sparreal.Nvme
