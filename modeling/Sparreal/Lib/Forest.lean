import Mathlib.Data.List.Nodup
import Mathlib.Data.List.Perm.Subperm
import Mathlib.Data.Set.Lattice
import Mathlib.Logic.Relation
import Mathlib.Order.CompletePartialOrder
import Mathlib.Order.Interval.Set.Basic
import Mathlib.Order.Nat
import Mathlib.Tactic.Common

/-!
# Interval labels of a forest

The nodes of a forest are the numbers `1, …, size`, and each hangs from a smaller node or from the ground `0`. A walk
that counts the nodes as it meets them, and keeps in every node it is still inside the last number it gave out,
labels each node with an interval. `Labels` says what such labels mean while the walk is under way, `Labels.push`
is the walk's step, and the intervals of two nodes are nested or apart as the nodes are (`Labels.nested`,
`Labels.apart`).
-/

structure Forest where
  size : Nat
  parent : Nat → Nat
  parent_lt : ∀ {c}, 1 ≤ c → c ≤ size → parent c < c

namespace Forest

variable {F : Forest} {b c d : Nat}

def Node (F : Forest) (c : Nat) : Prop := 1 ≤ c ∧ c ≤ F.size

/-- `d` hangs directly from `b`. -/
def Hangs (F : Forest) (d b : Nat) : Prop := F.Node d ∧ F.parent d = b

/-- `d` is `c` or below it. -/
def Under (F : Forest) (d c : Nat) : Prop := Relation.ReflTransGen F.Hangs d c

theorem Hangs.lt (h : F.Hangs d b) : b < d := h.2 ▸ F.parent_lt h.1.1 h.1.2

theorem Under.refl (c : Nat) : F.Under c c := Relation.ReflTransGen.refl

theorem Under.trans (hdc : F.Under d c) (hcb : F.Under c b) : F.Under d b := Relation.ReflTransGen.trans hdc hcb

theorem Hangs.under (h : F.Hangs d b) : F.Under d b := Relation.ReflTransGen.single h

theorem Under.le (h : F.Under d c) : c ≤ d := by
  induction h with
  | refl => exact Nat.le_refl d
  | tail _ hone ih => exact Nat.le_trans (Nat.le_of_lt hone.lt) ih

theorem Under.node (h : F.Under d c) (hd : F.Node d) (hc : c ≠ 0) : F.Node c :=
  ⟨Nat.pos_of_ne_zero hc, Nat.le_trans h.le hd.2⟩

theorem Node.under_zero (hd : F.Node d) : F.Under d 0 := by
  induction d using Nat.strongRecOn with
  | ind d ih =>
    have hone : F.Hangs d (F.parent d) := ⟨hd, rfl⟩
    by_cases h0 : F.parent d = 0
    · exact h0 ▸ hone.under
    · exact hone.under.trans (ih _ hone.lt (hone.under.node hd h0))

theorem Under.total (hb : F.Under d b) (hc : F.Under d c) : F.Under b c ∨ F.Under c b :=
  Relation.ReflTransGen.total_of_right_unique (fun _ _ _ h h' => h.2.symm.trans h'.2) hb hc

/-- The node hanging from `b` on the way from `d` up to it. -/
theorem Under.exists_child (h : F.Under d b) (hne : d ≠ b) : ∃ a, F.Hangs a b ∧ F.Under d a := by
  rcases Relation.ReflTransGen.cases_tail h with heq | ⟨a, hda, hab⟩
  · exact absurd heq.symm hne
  · exact ⟨a, hab, hda⟩

theorem Hangs.under_iff {x : Nat} (h : F.Hangs c b) : F.Under c x ↔ x = c ∨ F.Under b x := by
  constructor
  · intro hx
    rcases Relation.ReflTransGen.cases_head hx with heq | ⟨y, hy, hyx⟩
    · exact Or.inl heq.symm
    · exact Or.inr (h.2 ▸ hy.2 ▸ hyx)
  · rintro (rfl | hx)
    · exact Under.refl _
    · exact h.under.trans hx

theorem Hangs.unique {a a' : Nat} (ha : F.Hangs a b) (ha' : F.Hangs a' b) (hd : F.Under d a)
    (hd' : F.Under d a') : a = a' := by
  wlog hle : F.Under a a' generalizing a a'
  · exact (this ha' ha hd' hd ((hd.total hd').resolve_left hle)).symm
  rcases ha.under_iff.mp hle with heq | hb
  · exact heq.symm
  · exact absurd hb.le (Nat.not_le.mpr ha'.lt)

/-- The labels after the nodes of `V` were met, the last one first: they are numbered in that order, and a node's
interval holds the number of each node below it, and no other. -/
structure Labels (F : Forest) (first last : Nat → Nat) (V : List Nat) : Prop where
  node : ∀ c ∈ V, F.Node c
  closed : ∀ c ∈ V, F.parent c = 0 ∨ F.parent c ∈ V
  order : V.map first = (List.range' 1 V.length).reverse
  fresh : ∀ c, c ∉ V → first c = 0 ∧ last c = 0
  last_le : ∀ c, last c ≤ V.length
  covers : ∀ d ∈ V, ∀ c, F.Node c → (first c ≤ first d ∧ first d ≤ last c ↔ F.Under d c)

theorem labels_nil : F.Labels (fun _ => 0) (fun _ => 0) [] where
  node := by simp
  closed := by simp
  order := by simp
  fresh := by simp
  last_le := by simp
  covers := by simp

namespace Labels

variable {first last : Nat → Nat} {V : List Nat}

variable (h : F.Labels first last V)

include h

theorem nodup : V.Nodup := by
  apply List.Nodup.of_map first
  rw [h.order, List.nodup_reverse]
  exact List.nodup_range'

theorem mem_first_iff {k : Nat} : (∃ c ∈ V, first c = k) ↔ 1 ≤ k ∧ k ≤ V.length := by
  rw [← List.mem_map, h.order, List.mem_reverse, List.mem_range'_1]
  omega

theorem first_pos (hc : c ∈ V) : 1 ≤ first c := (h.mem_first_iff.mp ⟨c, hc, rfl⟩).1

theorem first_le (c : Nat) : first c ≤ V.length := by
  by_cases hc : c ∈ V
  · exact (h.mem_first_iff.mp ⟨c, hc, rfl⟩).2
  · exact (h.fresh c hc).1 ▸ Nat.zero_le _

theorem first_inj (hc : c ∈ V) (hd : d ∈ V) (heq : first c = first d) : c = d := by
  have hnodup : (V.map first).Nodup := by
    rw [h.order, List.nodup_reverse]
    exact List.nodup_range'
  exact List.inj_on_of_nodup_map hnodup hc hd heq

theorem first_le_last (hc : c ∈ V) : first c ≤ last c :=
  ((h.covers c hc c (h.node c hc)).mpr (Under.refl c)).2

theorem mem_of_under (hd : d ∈ V) (hdc : F.Under d c) (hc : c ≠ 0) : c ∈ V := by
  induction hdc with
  | refl => exact hd
  | tail _ hone ih =>
    obtain ⟨hnode, rfl⟩ := hone
    exact (h.closed _ (ih (Nat.ne_of_gt hnode.1))).resolve_left hc

theorem subperm : V.Subperm (List.range' 1 F.size) := by
  apply List.subperm_of_subset h.nodup
  intro c hc
  obtain ⟨hpos, hle⟩ := h.node c hc
  exact List.mem_range'_1.mpr ⟨hpos, by omega⟩

theorem length_le : V.length ≤ F.size := by simpa using h.subperm.length_le

/-- Once there are as many numbers as nodes, every node has been met. -/
theorem mem_of_length (hlen : F.size ≤ V.length) (hc : F.Node c) : c ∈ V := by
  have hperm := h.subperm.perm_of_length_le (by simpa using hlen)
  obtain ⟨hpos, hle⟩ := hc
  exact hperm.mem_iff.mpr (List.mem_range'_1.mpr ⟨hpos, by omega⟩)

/-- The walk meets `c`, inside the nodes above it: `c` gets the next number, and their intervals grow to hold it. -/
theorem push (hc : F.Node c) (hnew : c ∉ V) (hparent : F.parent c = 0 ∨ F.parent c ∈ V) {first' last' : Nat → Nat}
    (hopen : ∀ x, x ≠ c → x ≠ 0 → F.Under c x → last x = V.length) (hfirst : first' c = V.length + 1)
    (hsame : ∀ x, x ≠ c → first' x = first x) (hup : ∀ x, x ≠ 0 → F.Under c x → last' x = V.length + 1)
    (hrest : ∀ x, x = 0 ∨ ¬ F.Under c x → last' x = last x) : F.Labels first' last' (c :: V) := by
  have hold : ∀ d ∈ V, first' d = first d := fun d hd => hsame d fun heq => hnew (heq ▸ hd)
  refine ⟨?_, ?_, ?_, ?_, ?_, ?_⟩
  · exact List.forall_mem_cons.mpr ⟨hc, h.node⟩
  · refine List.forall_mem_cons.mpr ⟨hparent.imp_right (List.mem_cons_of_mem c), fun d hd => ?_⟩
    exact (h.closed d hd).imp_right (List.mem_cons_of_mem c)
  · rw [List.map_cons, List.map_congr_left hold, h.order, hfirst, List.length_cons, List.range'_concat]
    simp [Nat.add_comm]
  · intro x hx
    obtain ⟨hxc, hxV⟩ := not_or.mp (mt List.mem_cons.mpr hx)
    obtain ⟨hf, hl⟩ := h.fresh x hxV
    refine ⟨(hsame x hxc).trans hf, ?_⟩
    by_cases hx0 : x = 0
    · exact (hrest x (Or.inl hx0)).trans hl
    · refine (hrest x (Or.inr fun hcx => ?_)).trans hl
      -- what lies above `c` has been met
      rcases Relation.ReflTransGen.cases_head hcx with heq | ⟨y, ⟨_, rfl⟩, hyx⟩
      · exact hxc heq.symm
      · rcases hparent with h0 | hmem
        · exact hx0 (Nat.le_zero.mp (h0 ▸ Under.le hyx))
        · exact hxV (h.mem_of_under hmem hyx hx0)
  · intro x
    by_cases hx : x ≠ 0 ∧ F.Under c x
    · exact (hup x hx.1 hx.2).le
    · rw [hrest x (by tauto)]
      exact Nat.le_succ_of_le (h.last_le x)
  · refine List.forall_mem_cons.mpr ⟨fun x hx => ?_, fun d hd x hx => ?_⟩
    · rw [hfirst]
      constructor
      · rintro ⟨_, hle⟩
        by_contra hcx
        have := hrest x (Or.inr hcx) ▸ h.last_le x
        omega
      · intro hcx
        refine ⟨?_, (hup x (Nat.ne_of_gt hx.1) hcx).ge⟩
        by_cases hxc : x = c
        · exact (hxc ▸ hfirst).le
        · exact hsame x hxc ▸ Nat.le_succ_of_le (h.first_le x)
    · rw [hold d hd]
      have hle := h.first_le d
      by_cases hxc : x = c
      · subst hxc
        refine iff_of_false (fun hin => ?_) fun hdx => hnew (h.mem_of_under hd hdx (Nat.ne_of_gt hx.1))
        have := hfirst ▸ hin.1
        omega
      · rw [hsame x hxc, ← h.covers d hd x hx]
        by_cases hcx : F.Under c x
        · rw [hup x (Nat.ne_of_gt hx.1) hcx, hopen x hxc (Nat.ne_of_gt hx.1) hcx]
          omega
        · rw [hrest x (Or.inr hcx)]

theorem nested (hd : d ∈ V) (hc : c ∈ V) (hdc : F.Under d c) :
    Set.Icc (first d) (last d) ⊆ Set.Icc (first c) (last c) := by
  have hpos := h.first_pos hd
  have hle := h.first_le_last hd
  -- the last number of `d`'s interval belongs to a node below `d`, and so below `c`
  obtain ⟨e, he, heq⟩ := h.mem_first_iff.mpr ⟨Nat.le_trans hpos hle, h.last_le d⟩
  have hed : F.Under e d := (h.covers e he d (h.node d hd)).mp ⟨heq ▸ hle, heq.le⟩
  apply Set.Icc_subset_Icc
  · exact ((h.covers d hd c (h.node c hc)).mpr hdc).1
  · exact heq ▸ ((h.covers e he c (h.node c hc)).mpr (hed.trans hdc)).2

theorem apart (hd : d ∈ V) (hc : c ∈ V) (hdc : ¬ F.Under d c) (hcd : ¬ F.Under c d) :
    Disjoint (Set.Icc (first d) (last d)) (Set.Icc (first c) (last c)) := by
  refine Set.disjoint_left.mpr fun k hkd hkc => ?_
  obtain ⟨e, he, rfl⟩ := h.mem_first_iff.mpr
    ⟨Nat.le_trans (h.first_pos hd) hkd.1, Nat.le_trans hkd.2 (h.last_le d)⟩
  have hed : F.Under e d := (h.covers e he d (h.node d hd)).mp hkd
  have hec : F.Under e c := (h.covers e he c (h.node c hc)).mp hkc
  exact (hed.total hec).elim hdc hcd

end Labels

end Forest
