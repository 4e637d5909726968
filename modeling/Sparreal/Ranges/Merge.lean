import Sparreal.Lib.Tiling
import Sparreal.Ranges.Def
import Mathlib.Order.Interval.Set.Disjoint
import Mathlib.Order.Interval.Set.LinearOrder

/-!
# Merging ranges of a kind

Seen without its order, a round of `merge_same_kind` replaces two ranges of a kind that overlap or
touch by the range from the lower start to the higher end (`mergeRound_eq`). That range is the union
of the two, so whatever survives the replacement of two tiles by their union survives the whole call
(`mergeSameKind_returns`).
-/

namespace Sparreal.Ranges

open VecOp

variable {T K P : Type} [RangeOp T K P] [DecidableEq K] [LinearOrder P]

/-- The points of an element of a collection. -/
def points (t : T) : Set P := (range t).points

/-- An element of kind `k` has the point `x`. -/
abbrev Covers (l : List T) (k : K) (x : P) : Prop := Tiling.Covers points kind l k x

/-- The ranges of a memory map: none is empty and no two share a point. -/
structure Tiled (l : List T) : Prop where
  nonempty : ∀ t ∈ l, (range t).Nonempty
  tiles : Tiling.Tiles points l

variable {l : List T}

omit [DecidableEq K] in
theorem tiled_iff :
    Tiled l ↔ (∀ t ∈ l, (range t).Nonempty) ∧ l.Pairwise fun a b =>
      min (range a).stop (range b).stop ≤ max (range a).start (range b).start := by
  refine ⟨fun h => ⟨h.nonempty, h.tiles.imp Set.Ico_disjoint_Ico.mp⟩, fun h => ⟨h.1, ?_⟩⟩
  exact h.2.imp Set.Ico_disjoint_Ico.mpr

instance (l : List T) : Decidable (Tiled l) := decidable_of_iff _ tiled_iff.symm

theorem adjoins_iff {a b : T} :
    adjoins a b = true ↔ kind a = kind b ∧ (range b).start ≤ (range a).stop ∧
      (range a).start ≤ (range b).stop := by
  simp [adjoins, mergeable, and_assoc]

/-! ### One round -/

theorem mergePair_eq_some {i j : Nat} (h : mergePair l = some (i, j)) :
    i < j ∧ ∃ a b, l[i]? = some a ∧ l[j]? = some b ∧ adjoins a b = true := by
  obtain ⟨i', -, h⟩ := List.exists_of_findSome?_eq_some h
  obtain ⟨j', hj', h⟩ := List.exists_of_findSome?_eq_some h
  rw [List.mem_range'_1] at hj'
  split at h
  · next a b ha hb =>
    by_cases hab : adjoins a b = true
    · rw [if_pos hab] at h
      obtain ⟨rfl, rfl⟩ : i' = i ∧ j' = j := by simpa using h
      exact ⟨by omega, a, b, ha, hb, hab⟩
    · rw [if_neg hab] at h
      exact absurd h (by simp)
  · exact absurd h (by simp)

theorem pairwise_of_mergePair (h : mergePair l = none) : l.Pairwise fun a b => adjoins a b = false := by
  refine List.pairwise_iff_getElem.mpr fun i j hi hj hij => ?_
  have hinner := List.findSome?_eq_none_iff.mp h i (List.mem_range.mpr hi)
  have hpair := List.findSome?_eq_none_iff.mp hinner j (List.mem_range'_1.mpr (by omega))
  simpa [List.getElem?_eq_getElem hi, List.getElem?_eq_getElem hj] using hpair

/-- `next` is a merge of two elements of `l`. -/
def MergesTo (l next : List T) : Prop :=
  ∃ a b rest, adjoins a b = true ∧ l.Perm (a :: b :: rest) ∧ next.Perm (merged a b :: rest)

variable {l next : List T}

theorem MergesTo.length_eq (h : MergesTo l next) : l.length = next.length + 1 := by
  obtain ⟨a, b, rest, -, hl, hnext⟩ := h
  rw [hl.length_eq, hnext.length_eq]
  rfl

theorem mergeRound_eq {c : Container} (hfits : c.Fits l.length) :
    (mergePair l = none ∧ mergeRound c l = (.ok (some ()), l)) ∨
      ∃ next, mergeRound c l = (.ok none, next) ∧ MergesTo l next := by
  cases hpair : mergePair l with
  | none => exact .inl ⟨rfl, by simp [mergeRound, Exec.bind_apply, hpair]⟩
  | some pair =>
    obtain ⟨i, j⟩ := pair
    obtain ⟨hij, a, b, ha, hb, hab⟩ := mergePair_eq_some hpair
    obtain ⟨hi, rfl⟩ := List.getElem?_eq_some_iff.mp ha
    obtain ⟨hj, rfl⟩ := List.getElem?_eq_some_iff.mp hb
    have hi' : i < (l.eraseIdx j).length := by
      rw [List.length_eraseIdx_of_lt hj]
      omega
    have hcurrent : (l.eraseIdx j)[i] = l[i] := List.getElem_eraseIdx_of_lt hi' hij
    have hrest : ((l.eraseIdx j).eraseIdx i).length + 2 = l.length := by
      rw [List.length_eraseIdx_of_lt hi', List.length_eraseIdx_of_lt hj]
      omega
    refine .inr ⟨((l.eraseIdx j).eraseIdx i).insertIdx i (merged l[i] l[j]), ?_, l[i], l[j],
      (l.eraseIdx j).eraseIdx i, hab, ?_, List.perm_insertIdx _ _ (by omega)⟩
    · have hfull : c.full ((l.eraseIdx j).eraseIdx i).length = false :=
        Container.full_eq_false.mpr (hfits.mono (by omega))
      have hroom : ¬ ((l.eraseIdx j).eraseIdx i).length < i := by omega
      simp [mergeRound, Exec.bind_apply, hpair, index, remove, insertIgnored, VecOp.insert, hi, hj, hi',
        hfull, hroom]
    · have hnext := List.getElem_cons_eraseIdx_perm hj
      have hcur := List.getElem_cons_eraseIdx_perm hi'
      rw [hcurrent] at hcur
      exact (hnext.symm.trans (hcur.symm.cons _)).trans (.swap _ _ _)

/-! ### The whole call -/

/-- `merge_same_kind` returns, with nothing left to merge and whatever merging keeps. -/
theorem mergeSameKind_returns {I : List T → Prop} (hI : ∀ l next, I l → MergesTo l next → I next) {c : Container}
    (hfits : c.Fits l.length) (hl : I l) : ∃ l', mergeSameKind c l = (.ok (), l') ∧ I l' ∧ mergePair l' = none := by
  have hround : ∀ l, c.Fits l.length ∧ I l →
      (∃ u next, mergeRound c l = (.ok (some u), next) ∧ I next ∧ mergePair next = none) ∨
        ∃ next, mergeRound c l = (.ok none, next) ∧ (c.Fits next.length ∧ I next) ∧
          next.length < l.length := by
    rintro l ⟨hfits, hl⟩
    rcases mergeRound_eq hfits with ⟨hpair, hround⟩ | ⟨next, hround, hmerge⟩
    · exact .inl ⟨(), l, hround, hl, hpair⟩
    · have hlen := hmerge.length_eq
      exact .inr ⟨next, hround, ⟨hfits.mono (by omega), hI l next hl hmerge⟩, by omega⟩
  obtain ⟨⟨⟩, l', hrun, hl', hpair⟩ :=
    Exec.repeatUntil_returns List.length hround (Nat.lt_succ_self l.length) ⟨hfits, hl⟩
  exact ⟨l', hrun, hl', hpair⟩

section Lawful

variable [LawfulRangeOp T]

omit [DecidableEq K] in
theorem range_merged {a b : T} (ha : (range a).Nonempty) :
    range (merged a b) =
      ⟨min (range a).start (range b).start, max (range a).stop (range b).stop⟩ :=
  range_cloneWithRange a ((min_le_left _ _).trans_lt (ha.trans_le (le_max_left _ _)))

theorem points_merged {a b : T} (ha : (range a).Nonempty) (hab : adjoins a b = true) :
    points (merged a b) = points a ∪ points b := by
  obtain ⟨-, hba, hab⟩ := adjoins_iff.mp hab
  unfold points
  rw [range_merged ha]
  exact (Set.Ico_union_Ico' hba hab).symm

theorem MergesTo.covers (hne : ∀ t ∈ l, (range t).Nonempty) (h : MergesTo l next) (k : K) (x : P) :
    Covers next k x ↔ Covers l k x := by
  obtain ⟨a, b, rest, hab, hl, hnext⟩ := h
  have ha : (range a).Nonempty := hne a (hl.mem_iff.mpr List.mem_cons_self)
  rw [Covers, Covers, Tiling.covers_perm hl, Tiling.covers_perm hnext,
    Tiling.covers_union (points_merged ha hab) (kind_cloneWithRange a _) (adjoins_iff.mp hab).1]

theorem MergesTo.nonempty (hne : ∀ t ∈ l, (range t).Nonempty) (h : MergesTo l next) :
    ∀ t ∈ next, (range t).Nonempty := by
  obtain ⟨a, b, rest, hab, hl, hnext⟩ := h
  have ha : (range a).Nonempty := hne a (hl.mem_iff.mpr List.mem_cons_self)
  intro t ht
  rcases List.mem_cons.mp (hnext.mem_iff.mp ht) with rfl | ht
  · rw [range_merged ha]
    exact (min_le_left _ _).trans_lt (ha.trans_le (le_max_left _ _))
  · exact hne t (hl.mem_iff.mpr (List.mem_cons_of_mem a (List.mem_cons_of_mem b ht)))

theorem MergesTo.tiled (hl : Tiled l) (h : MergesTo l next) : Tiled next := by
  refine ⟨h.nonempty hl.nonempty, ?_⟩
  obtain ⟨a, b, rest, hab, hperm, hnext⟩ := h
  have ha : (range a).Nonempty := hl.nonempty a (hperm.mem_iff.mpr List.mem_cons_self)
  exact (Tiling.tiles_perm hnext).mpr
    (Tiling.tiles_union (points_merged ha hab) ((Tiling.tiles_perm hperm).mp hl.tiles))

end Lawful

end Sparreal.Ranges
