import Mathlib.Data.List.Infix
import Mathlib.Tactic.Common

/-!
# Records that carry their length

Records follow one another in a buffer; the second byte of a record is its length. A buffer has at most one record at
its start (`IsRecord.unique`), so its well-formed beginnings are the beginnings of one list of records, the longest one
(`longest_nil`, `longest_cons`).
-/

namespace Records

def IsRecord (r : List UInt8) : Prop := 2 ≤ r.length ∧ r[1]?.map UInt8.toNat = some r.length

instance (r : List UInt8) : Decidable (IsRecord r) := inferInstanceAs (Decidable (_ ∧ _))

def Begins (l : List UInt8) (rs : List (List UInt8)) : Prop := (∀ r ∈ rs, IsRecord r) ∧ rs.flatten <+: l

def Longest (l : List UInt8) (rs : List (List UInt8)) : Prop := Begins l rs ∧ ∀ rs', Begins l rs' → rs' <+: rs

variable {l r r' : List UInt8} {rs : List (List UInt8)}

theorem IsRecord.length_eq (hr : IsRecord r) (h : r <+: l) : l[1]?.map UInt8.toNat = some r.length := by
  obtain ⟨tail, rfl⟩ := h
  rw [List.getElem?_append_left hr.1, hr.2]

theorem IsRecord.unique (hr : IsRecord r) (h : r <+: l) (hr' : IsRecord r') (h' : r' <+: l) : r = r' := by
  have hlength := Option.some.inj ((hr.length_eq h).symm.trans (hr'.length_eq h'))
  rw [List.prefix_iff_eq_take.mp h, List.prefix_iff_eq_take.mp h', hlength]

theorem begins_cons : Begins l (r :: rs) ↔ IsRecord r ∧ r <+: l ∧ Begins (l.drop r.length) rs := by
  constructor
  · rintro ⟨hall, hfront⟩
    obtain ⟨hr, hrs⟩ := List.forall_mem_cons.mp hall
    obtain ⟨tail, rfl⟩ := hfront
    rw [List.flatten_cons, List.append_assoc]
    exact ⟨hr, List.prefix_append _ _, hrs, by rw [List.drop_left]; exact List.prefix_append _ _⟩
  · rintro ⟨hr, ⟨tail, rfl⟩, hrs, hfront⟩
    rw [List.drop_left] at hfront
    exact ⟨List.forall_mem_cons.mpr ⟨hr, hrs⟩, (List.prefix_append_right_inj r).mpr hfront⟩

theorem longest_nil (h : ∀ r, IsRecord r → ¬ r <+: l) : Longest l [] := by
  refine ⟨⟨by simp, List.nil_prefix⟩, fun rs' hrs' => ?_⟩
  cases rs' with
  | nil => exact List.prefix_rfl
  | cons r' rs' =>
    obtain ⟨hr', hfront, -⟩ := begins_cons.mp hrs'
    exact absurd hfront (h r' hr')

/-- After the record at the start come those of the rest. -/
theorem longest_cons (hr : IsRecord r) (hfront : r <+: l) (hrs : Longest (l.drop r.length) rs) :
    Longest l (r :: rs) := by
  refine ⟨begins_cons.mpr ⟨hr, hfront, hrs.1⟩, fun rs' hrs' => ?_⟩
  cases rs' with
  | nil => exact List.nil_prefix
  | cons r' rs' =>
    obtain ⟨hr', hfront', hrest⟩ := begins_cons.mp hrs'
    obtain rfl := hr.unique hfront hr' hfront'
    exact List.cons_prefix_cons.mpr ⟨rfl, hrs.2 rs' hrest⟩

/-- A buffer that is made of records begins with them and no others. -/
theorem longest_flatten (h : ∀ r ∈ rs, IsRecord r) : Longest rs.flatten rs := by
  induction rs with
  | nil =>
    refine longest_nil fun r hr hfront => ?_
    have hempty := List.prefix_nil.mp hfront
    exact absurd hr.1 (by simp [hempty])
  | cons r rs ih =>
    obtain ⟨hr, hrs⟩ := List.forall_mem_cons.mp h
    refine longest_cons hr (List.prefix_append _ _) ?_
    rw [List.flatten_cons, List.drop_left]
    exact ih hrs

def first (l : List UInt8) : Option (List UInt8) :=
  match l[1]? with
  | none => none
  | some len => if 2 ≤ len.toNat ∧ len.toNat ≤ l.length then some (l.take len.toNat) else none

theorem first_eq_some : first l = some r ↔ IsRecord r ∧ r <+: l := by
  unfold first
  constructor
  · intro h
    split at h
    · cases h
    · next len hlen =>
      obtain ⟨⟨htwo, hle⟩, heq⟩ := Option.ite_none_right_eq_some.mp h
      obtain rfl := Option.some.inj heq
      have hlength : (l.take len.toNat).length = len.toNat := List.length_take_of_le hle
      refine ⟨⟨hlength.symm ▸ htwo, ?_⟩, List.take_prefix _ _⟩
      rw [hlength, List.getElem?_take_of_lt htwo, hlen]
      rfl
  · rintro ⟨hr, hfront⟩
    obtain ⟨len, hlen, hlength⟩ := Option.map_eq_some_iff.mp (hr.length_eq hfront)
    simp only [hlen, hlength]
    rw [if_pos ⟨hr.1, hfront.length_le⟩, ← List.prefix_iff_eq_take.mp hfront]

theorem IsRecord.drop_lt (hr : IsRecord r) (hfront : r <+: l) : (l.drop r.length).length < l.length := by
  have hlength := hr.1
  have hle := hfront.length_le
  rw [List.length_drop]
  omega

def split (l : List UInt8) : List (List UInt8) :=
  match _h : first l with
  | none => []
  | some r => r :: split (l.drop r.length)
termination_by l.length
decreasing_by
  have hr := first_eq_some.mp _h
  exact hr.1.drop_lt hr.2

theorem split_of_none (h : first l = none) : split l = [] := by
  rw [split]
  split
  · rfl
  · next heq => cases h.symm.trans heq

theorem split_of_some (h : first l = some r) : split l = r :: split (l.drop r.length) := by
  rw [split]
  split
  · next heq => cases h.symm.trans heq
  · next heq => rw [Option.some.inj (heq.symm.trans h)]

theorem split_longest (l : List UInt8) : Longest l (split l) := by
  induction hn : l.length using Nat.strongRecOn generalizing l with
  | ind n ih =>
    cases hfirst : first l with
    | none =>
      rw [split_of_none hfirst]
      refine longest_nil fun r hr hfront => ?_
      cases hfirst.symm.trans (first_eq_some.mpr ⟨hr, hfront⟩)
    | some r =>
      obtain ⟨hr, hfront⟩ := first_eq_some.mp hfirst
      rw [split_of_some hfirst]
      exact longest_cons hr hfront (ih _ (hn ▸ hr.drop_lt hfront) _ rfl)

theorem Longest.unique {rs' : List (List UInt8)} (h : Longest l rs) (h' : Longest l rs') : rs = rs' :=
  (h'.2 rs h.1).eq_of_length_le (h.2 rs' h'.1).length_le

end Records
