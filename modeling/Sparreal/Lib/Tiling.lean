import Mathlib.Data.List.Pairwise
import Mathlib.Data.List.Perm.Basic
import Mathlib.Data.Set.Lattice
import Mathlib.Order.CompletePartialOrder

/-!
# Labelled tilings

A list of tiles, each a set of points with a label. `Covers` says which labels a point has and
`Tiles` that no two tiles share a point. Both are about the tiles and not about their order, so the
rules are stated for the three ways a list is edited: appending, replacing every tile by pieces of it
(`covers_flatMap`, `tiles_flatMap`), and replacing two tiles by their union (`covers_union`,
`tiles_union`).
-/

namespace Tiling

variable {ι K P : Type} (points : ι → Set P) (label : ι → K)

/-- Some tile with label `k` has the point `x`. -/
def Covers (l : List ι) (k : K) (x : P) : Prop := ∃ t ∈ l, label t = k ∧ x ∈ points t

def Tiles (l : List ι) : Prop := l.Pairwise fun a b => Disjoint (points a) (points b)

variable {points label}

variable {k : K} {x : P} {l l₁ l₂ : List ι} {has : ι → Bool}

@[simp] theorem covers_nil : Covers points label [] k x ↔ False := by
  simp [Covers]

@[simp] theorem covers_cons {t : ι} :
    Covers points label (t :: l) k x ↔ (label t = k ∧ x ∈ points t) ∨ Covers points label l k x := by
  simp [Covers]

@[simp] theorem covers_append :
    Covers points label (l₁ ++ l₂) k x ↔ Covers points label l₁ k x ∨ Covers points label l₂ k x := by
  simp [Covers, or_and_right, exists_or]

theorem covers_perm (h : l₁.Perm l₂) :
    Covers points label l₁ k x ↔ Covers points label l₂ k x := by
  simp [Covers, h.mem_iff]

theorem tiles_perm (h : l₁.Perm l₂) : Tiles points l₁ ↔ Tiles points l₂ :=
  h.pairwise_iff fun hab => hab.symm

theorem label_of_covers (hl : Tiles points l) {t : ι} (ht : t ∈ l) (hx : x ∈ points t)
    (hk : Covers points label l k x) : label t = k := by
  obtain ⟨u, hu, rfl, hxu⟩ := hk
  by_contra hne
  have hsymm : Std.Symm fun a b : ι => Disjoint (points a) (points b) := ⟨fun _ _ h => h.symm⟩
  have hapart : Disjoint (points t) (points u) := List.Pairwise.forall hl ht hu fun heq => hne (heq ▸ rfl)
  exact Set.disjoint_left.mp hapart hx hxu

/-! ### Cutting every tile -/

/-- The points that `S` takes away from tiles that are cut into pieces. -/
theorem covers_flatMap {f : ι → List ι} {S : Set P}
    (hf : ∀ t ∈ l, ∀ k x, Covers points label (f t) k x ↔ label t = k ∧ x ∈ points t ∧ x ∉ S) :
    Covers points label (l.flatMap f) k x ↔ Covers points label l k x ∧ x ∉ S := by
  induction l with
  | nil => simp
  | cons t l ih =>
    rw [List.flatMap_cons, covers_append, hf t List.mem_cons_self,
      ih fun s hs => hf s (List.mem_cons_of_mem t hs), covers_cons, or_and_right, and_assoc]

/-- Tiles that are cut into separate pieces of themselves stay apart. -/
theorem tiles_flatMap {f : ι → List ι} (hl : Tiles points l) (hpieces : ∀ t ∈ l, Tiles points (f t))
    (hsub : ∀ t ∈ l, ∀ p ∈ f t, points p ⊆ points t) : Tiles points (l.flatMap f) := by
  refine List.pairwise_flatMap.mpr ⟨hpieces, hl.imp_of_mem ?_⟩
  intro a b ha hb hab p hp q hq
  exact hab.mono (hsub a ha p hp) (hsub b hb q hq)

theorem tiles_append :
    Tiles points (l₁ ++ l₂) ↔
      Tiles points l₁ ∧ Tiles points l₂ ∧ ∀ a ∈ l₁, ∀ b ∈ l₂, Disjoint (points a) (points b) :=
  List.pairwise_append

variable (label) in
/-- Two tilings that cover no common point are one. -/
theorem tiles_append_of_covers (h₁ : Tiles points l₁) (h₂ : Tiles points l₂)
    (h : ∀ k₁ k₂ x, Covers points label l₁ k₁ x → ¬ Covers points label l₂ k₂ x) :
    Tiles points (l₁ ++ l₂) := by
  refine tiles_append.mpr ⟨h₁, h₂, fun a ha b hb => Set.disjoint_left.mpr fun x hxa hxb => ?_⟩
  exact h (label a) (label b) x ⟨a, ha, rfl, hxa⟩ ⟨b, hb, rfl, hxb⟩

/-! ### Joining two tiles -/

theorem covers_union {a b c : ι} (hc : points c = points a ∪ points b) (hca : label c = label a)
    (hab : label a = label b) :
    Covers points label (c :: l) k x ↔ Covers points label (a :: b :: l) k x := by
  rw [covers_cons, covers_cons, covers_cons, hc, hca, hab, Set.mem_union, and_or_left, or_assoc]

theorem tiles_union {a b c : ι} (hc : points c = points a ∪ points b) (hl : Tiles points (a :: b :: l)) :
    Tiles points (c :: l) := by
  obtain ⟨ha, hb, hl⟩ : (∀ t ∈ b :: l, Disjoint (points a) (points t)) ∧
      (∀ t ∈ l, Disjoint (points b) (points t)) ∧ Tiles points l := by
    simpa only [Tiles, List.pairwise_cons] using hl
  refine List.pairwise_cons.mpr ⟨fun t ht => ?_, hl⟩
  rw [hc]
  exact Disjoint.union_left (ha t (List.mem_cons_of_mem b ht)) (hb t ht)

/-! ### The labels of a point -/

def labelsAt (has : ι → Bool) (label : ι → K) (l : List ι) : List K := (l.filter has).map label

variable (hhas : ∀ t, has t = true ↔ x ∈ points t)

include hhas

theorem labelsAt_eq_nil (hx : ∀ k, ¬ Covers points label l k x) : labelsAt has label l = [] := by
  refine List.map_eq_nil_iff.mpr (List.filter_eq_nil_iff.mpr fun t ht hhit => ?_)
  exact hx (label t) ⟨t, ht, rfl, (hhas t).mp hhit⟩

theorem labelsAt_of_covers (hl : Tiles points l) (hk : Covers points label l k x) : labelsAt has label l = [k] := by
  induction l with
  | nil => exact absurd hk (covers_nil.mp)
  | cons t l ih =>
    obtain ⟨hapart, hrest⟩ := List.pairwise_cons.mp hl
    have hmiss (hx : x ∈ points t) (k : K) : ¬ Covers points label l k x := by
      rintro ⟨s, hs, -, hxs⟩
      exact Set.disjoint_left.mp (hapart s hs) hx hxs
    by_cases hx : x ∈ points t
    · have hlabel : label t = k := by
        rcases covers_cons.mp hk with ⟨hlabel, -⟩ | hk
        · exact hlabel
        · exact absurd hk (hmiss hx k)
      have hnil := labelsAt_eq_nil hhas (hmiss hx)
      unfold labelsAt at hnil ⊢
      rw [List.filter_cons_of_pos ((hhas t).mpr hx), List.map_cons, hnil, hlabel]
    · have hk' : Covers points label l k x := by
        rcases covers_cons.mp hk with ⟨-, hxt⟩ | hk
        · exact absurd hxt hx
        · exact hk
      have hone := ih hrest hk'
      unfold labelsAt at hone ⊢
      rw [List.filter_cons_of_neg (fun hhit => hx ((hhas t).mp hhit)), hone]

theorem labelsAt_congr (h₁ : Tiles points l₁) (h₂ : Tiles points l₂)
    (h : ∀ k, Covers points label l₁ k x ↔ Covers points label l₂ k x) :
    labelsAt has label l₁ = labelsAt has label l₂ := by
  by_cases hx : ∃ k, Covers points label l₁ k x
  · obtain ⟨k, hk⟩ := hx
    rw [labelsAt_of_covers hhas h₁ hk, labelsAt_of_covers hhas h₂ ((h k).mp hk)]
  · have hx₁ := not_exists.mp hx
    rw [labelsAt_eq_nil hhas hx₁, labelsAt_eq_nil hhas fun k hk => hx₁ k ((h k).mpr hk)]

end Tiling
