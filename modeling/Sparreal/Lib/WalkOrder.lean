import Mathlib.Data.List.Infix
import Mathlib.Data.List.Lex
import Sparreal.Lib.Forest

/-!
# The order of a walk

A walk through a forest that takes what hangs from a node by increasing labels meets the nodes in the order of their
ways from the ground, compared as words: a node comes before what is below it, and of two branches the one with the
smaller label comes first. Nodes can be told apart by their ways where the labels of what hangs from one node differ
(`way_inj`, `under_of_way_prefix`).
-/

namespace Forest

/-! ### Words -/

section Words

variable {l m r : List Nat} {a b : Nat}

/-- There is no word between one and its extension by the smallest letter. -/
theorem lt_concat_zero : l < m ++ [0] ↔ ¬ m < l := by
  induction l generalizing m with
  | nil => cases m <;> simp
  | cons a l ih =>
    cases m with
    | nil => simp [List.cons_lt_cons_iff]
    | cons b m =>
      rw [List.cons_append, List.cons_lt_cons_iff, List.cons_lt_cons_iff, ih]
      rcases Nat.lt_trichotomy a b with hlt | rfl | hlt
      · simp [hlt, Nat.lt_asymm hlt, Nat.ne_of_gt hlt]
      · simp
      · simp [hlt, Nat.lt_asymm hlt, Nat.ne_of_gt hlt]

theorem concat_lt_append_cons : l ++ [a] < l ++ b :: r ↔ a < b ∨ a = b ∧ r ≠ [] := by
  induction l with
  | nil =>
    rw [List.nil_append, List.nil_append, List.cons_lt_cons_iff]
    cases r <;> simp
  | cons x l ih => rw [List.cons_append, List.cons_append, List.cons_lt_cons_iff, ih]; simp

/-- A word before another one that it does not begin stays before it however it goes on. -/
theorem append_lt (h : l < m) (hnot : ¬ l <+: m) (r : List Nat) : l ++ r < m := by
  induction l generalizing m with
  | nil => exact absurd List.nil_prefix hnot
  | cons a l ih =>
    cases m with
    | nil => exact absurd h (List.not_lt_nil _)
    | cons b m =>
      rw [List.cons_append]
      rw [List.cons_lt_cons_iff] at h ⊢
      refine h.imp_right ?_
      rintro ⟨rfl, hlt⟩
      exact ⟨rfl, ih hlt fun hprefix => hnot (List.cons_prefix_cons.mpr ⟨rfl, hprefix⟩)⟩

theorem lt_of_append_lt (h : l ++ r < m) : l < m := List.lt_of_le_of_lt List.le_append_left h

end Words

/-! ### Ways -/

variable {F : Forest} {label : Nat → Nat} {b c d : Nat}

instance : Decidable (F.Node c) := inferInstanceAs (Decidable (1 ≤ c ∧ c ≤ F.size))

def way (F : Forest) (label : Nat → Nat) (c : Nat) : List Nat :=
  if _h : F.Node c then F.way label (F.parent c) ++ [label c] else []
termination_by c
decreasing_by exact F.parent_lt _h.1 _h.2

theorem way_zero : F.way label 0 = [] := by
  rw [way, dif_neg]
  exact fun h => Nat.not_lt_zero 0 h.1

theorem Hangs.way_eq (h : F.Hangs c b) : F.way label c = F.way label b ++ [label c] := by
  rw [way, dif_pos h.1, h.2]

theorem zero_or_hangs (hc : c ≤ F.size) : c = 0 ∨ F.Hangs c (F.parent c) := by
  rcases Nat.eq_zero_or_pos c with h0 | hpos
  · exact .inl h0
  · exact .inr ⟨⟨hpos, hc⟩, rfl⟩

theorem Under.way_prefix (h : F.Under d c) : F.way label c <+: F.way label d := by
  induction h with
  | refl => exact List.prefix_rfl
  | tail _ hone ih =>
    refine List.IsPrefix.trans ?_ ih
    rw [hone.way_eq]
    exact List.prefix_append _ _

section Apart

variable {S : Nat → Prop} (hup : ∀ {c d}, S d → F.Under d c → S c)
  (hapart : ∀ {b c d}, S c → S d → F.Hangs c b → F.Hangs d b → label c = label d → c = d)

include hup hapart

theorem way_inj (hc : c ≤ F.size) (hd : d ≤ F.size) (hSc : S c) (hSd : S d)
    (h : F.way label c = F.way label d) : c = d := by
  induction c using Nat.strongRecOn generalizing d with
  | ind c ih =>
    rcases zero_or_hangs hc with rfl | hcb
    · rcases zero_or_hangs hd with rfl | hdb
      · rfl
      · rw [way_zero, hdb.way_eq] at h
        simp at h
    · rcases zero_or_hangs hd with rfl | hdb
      · rw [way_zero, hcb.way_eq] at h
        simp at h
      · rw [hcb.way_eq, hdb.way_eq] at h
        obtain ⟨hway, hlabel⟩ := List.append_inj' h rfl
        have hparent := ih _ hcb.lt (Nat.le_trans (Nat.le_of_lt hcb.lt) hc) (Nat.le_trans (Nat.le_of_lt hdb.lt) hd)
          (hup hSc hcb.under) (hup hSd hdb.under) hway
        exact hapart hSc hSd hcb (hparent ▸ hdb) (List.cons.inj hlabel).1

theorem under_of_way_prefix (hc : c ≤ F.size) (hd : d ≤ F.size) (hSc : S c) (hSd : S d)
    (h : F.way label c <+: F.way label d) : F.Under d c := by
  induction d using Nat.strongRecOn with
  | ind d ih =>
    rcases zero_or_hangs hd with rfl | hdb
    · rw [way_zero, List.prefix_nil, ← way_zero] at h
      exact way_inj hup hapart hc hd hSc hSd h ▸ Under.refl c
    · rw [hdb.way_eq, List.prefix_concat_iff, ← hdb.way_eq] at h
      rcases h with heq | hprefix
      · exact way_inj hup hapart hc hd hSc hSd heq ▸ Under.refl c
      · exact hdb.under.trans
          (ih _ hdb.lt (Nat.le_trans (Nat.le_of_lt hdb.lt) hd) (hup hSd hdb.under) hprefix)

end Apart

end Forest
