import Sparreal.Ranges.Descriptor
import Sparreal.Ranges.Merge
import Mathlib.Tactic.Order

/-!
# Insertion into a range collection

The scan of `merge_add` replaces every range by what is left of it outside the new one (`cut`): the
positions before the cursor hold the pieces of the ranges already settled, those from the cursor on
the ranges not looked at yet (`mergeAddLoop_eq`). The pieces tile what the ranges tiled, without the
points of the new range, so pushing it and merging leaves a tiling that agrees with the old one outside
the new range and has its kind inside.
-/

namespace Sparreal.Ranges

open VecOp

variable {T K P : Type} [RangeOp T K P] [LinearOrder P]

/-! ### What is left of a range -/

/-- The two ranges share a point, if neither is empty. -/
def Overlaps (new old : Range P) : Prop := new.start < old.stop ∧ old.start < new.stop

instance (new old : Range P) : Decidable (Overlaps new old) :=
  inferInstanceAs (Decidable (_ ∧ _))

/-- The part of `t` from `start` on and below `stop`, if there is one. -/
def piece (t : T) (start stop : P) : List T :=
  if start < stop then [cloneWithRange t ⟨start, stop⟩] else []

/-- What the scan leaves of `t` when `item` is inserted. -/
def cut (item t : T) : List T :=
  if Overlaps (range item) (range t) then
    piece t (range t).start (range item).start ++ piece t (range item).stop (range t).stop
  else [t]

/-! ### The scan -/

theorem index_append (done rest : List T) (t : T) :
    index done.length (done ++ t :: rest) = (.ok t, done ++ t :: rest) := by
  simp [index]

theorem remove_append (done rest : List T) (t : T) :
    remove done.length (done ++ t :: rest) = (.ok t, done ++ rest) := by
  simp [remove, List.eraseIdx_append_of_length_le]

theorem insert_append (c : Container) (done rest : List T) (t : T) :
    VecOp.insert c done.length t (done ++ rest) =
      if c.full (done ++ rest).length then (.error (.err .capacity), done ++ rest)
      else (.ok (), done ++ t :: rest) := by
  have hroom : ¬ (done ++ rest).length < done.length := by simp
  have hinsert : (done ++ rest).insertIdx done.length t = done ++ t :: rest := by
    induction done with
    | nil => rfl
    | cons s done ih => simp [ih]
  rw [VecOp.insert, if_neg hroom, hinsert]

/-- How a round at `t` can end: with its pieces in its place, or with an error in between. -/
def Settles (pieces done : List T) (t : T) (rest : List T) (r : Except (Fault T) Nat × List T) : Prop :=
  r = (.ok (done ++ pieces).length, done ++ pieces ++ rest) ∨
    ∃ e kept, r = (.error (.err e), done ++ kept ++ rest) ∧ (kept = [t] ∨ kept <+: pieces)

/-- Pieces inserted one after the other behind `done`. -/
def placed (c : Container) (rest : List T) : List T → List T → Except (Fault T) Nat × List T
  | done, [] => (.ok done.length, done ++ rest)
  | done, p :: pieces =>
    if c.full (done ++ rest).length then (.error (.err .capacity), done ++ rest)
    else placed c rest (done ++ [p]) pieces

theorem insertOne_apply (c : Container) (done rest : List T) (t p : T) :
    (do
      let _ ← remove done.length
      VecOp.insert c done.length p
      pure (done.length + 1) : VecRun T Nat) (done ++ t :: rest) = placed c rest done [p] := by
  rw [Exec.bind_apply_ok (remove_append done rest t), Exec.bind_apply, insert_append, placed]
  by_cases hfull : c.full (done ++ rest).length
  · rw [if_pos hfull, if_pos hfull]
  · rw [if_neg hfull, if_neg hfull]
    simp [placed]

theorem insertTwo_apply (c : Container) (done rest : List T) (t p q : T) :
    (do
      let _ ← remove done.length
      VecOp.insert c done.length p
      VecOp.insert c (done.length + 1) q
      pure (done.length + 2) : VecRun T Nat) (done ++ t :: rest) = placed c rest done [p, q] := by
  have hright := insert_append c (done ++ [p]) rest q
  rw [List.length_append, List.length_singleton] at hright
  rw [Exec.bind_apply_ok (remove_append done rest t), Exec.bind_apply, insert_append, placed]
  by_cases hfull : c.full (done ++ rest).length
  · rw [if_pos hfull, if_pos hfull]
  · rw [if_neg hfull, if_neg hfull, placed]
    simp only [List.append_assoc, List.singleton_append] at hright ⊢
    simp only [Exec.bind_apply, hright]
    split_ifs
    · rfl
    · simp [placed]

theorem mergeAddStep_apply [DecidableEq K] (c : Container) (item : T) (done : List T) (t : T) (rest : List T) :
    mergeAddStep c item done.length (done ++ t :: rest) =
      if Overlaps (range item) (range t) then
        if !(overwritable t item || mergeable t item) then (.error (.err (.conflict item t)), done ++ t :: rest)
        else placed c rest done (cut item t)
      else (.ok (done.length + 1), done ++ t :: rest) := by
  rw [mergeAddStep, Exec.bind_apply_ok (index_append done rest t)]
  unfold cut piece
  by_cases hover : Overlaps (range item) (range t)
  · rw [if_pos hover]
    dsimp only
    rw [if_pos (show _ ∧ _ from hover), if_pos hover]
    by_cases hblock : (!(overwritable t item || mergeable t item)) = true
    · rw [if_pos hblock, if_pos hblock]
      rfl
    rw [if_neg hblock, if_neg hblock]
    rcases lt_or_ge (range t).start (range item).start with hleft | hleft <;>
      rcases lt_or_ge (range item).stop (range t).stop with hright | hright
    · simp only [hleft, hleft.not_ge, hright, hright.not_ge, and_self, ↓reduceIte]
      exact insertTwo_apply c done rest t _ _
    · simp only [hleft, hleft.not_ge, hright, hright.not_gt, and_true, and_false, ↓reduceIte]
      exact insertOne_apply c done rest t _
    · simp only [hleft, hleft.not_gt, hright, hright.not_ge, and_true, and_false, ↓reduceIte]
      exact insertOne_apply c done rest t _
    · simp only [hleft, hleft.not_gt, hright, hright.not_gt, and_self, ↓reduceIte]
      rw [Exec.bind_apply_ok (remove_append done rest t)]
      rfl
  · rw [if_neg hover]
    dsimp only
    rw [if_neg (show ¬ (_ ∧ _) from hover)]
    rfl

theorem placed_cases (c : Container) (rest : List T) (done pieces : List T) :
    placed c rest done pieces = (.ok (done ++ pieces).length, done ++ pieces ++ rest) ∨
      ∃ kept, placed c rest done pieces = (.error (.err .capacity), done ++ kept ++ rest) ∧ kept <+: pieces := by
  induction pieces generalizing done with
  | nil => exact .inl (by simp [placed])
  | cons p pieces ih =>
    rw [placed]
    split_ifs with hfull
    · exact .inr ⟨[], by simp, List.nil_prefix⟩
    · rcases ih (done ++ [p]) with hok | ⟨kept, hstop, hkept⟩
      · exact .inl (by simpa using hok)
      · exact .inr ⟨p :: kept, by simpa using hstop, List.prefix_cons_iff.mpr (.inr ⟨kept, rfl, hkept⟩)⟩

theorem mergeAddStep_settles [DecidableEq K] (c : Container) (item : T) (done : List T) (t : T)
    (rest : List T) :
    Settles (cut item t) done t rest (mergeAddStep c item done.length (done ++ t :: rest)) := by
  rw [mergeAddStep_apply]
  split_ifs with hover hblock
  · exact .inr ⟨.conflict item t, [t], by simp, .inl rfl⟩
  · rcases placed_cases c rest done (cut item t) with hok | ⟨kept, hstop, hkept⟩
    · exact .inl hok
    · exact .inr ⟨.capacity, kept, hstop, .inr hkept⟩
  · exact .inl (by simp [cut, hover])

theorem mergeAddLoop_cons [DecidableEq K] (c : Container) (item : T) (fuel : Nat) (done : List T) (t : T) (rest : List T) :
    mergeAddLoop c item (fuel + 1) done.length (done ++ t :: rest) =
      (mergeAddStep c item done.length >>= mergeAddLoop c item fuel) (done ++ t :: rest) := by
  simp [mergeAddLoop, len, Exec.bind_apply]

/-- The scan cuts every range it has not settled yet. -/
theorem mergeAddLoop_eq [DecidableEq K] (c : Container) (item : T) (done : List T) {pending : List T}
    {fuel : Nat} (hfuel : pending.length ≤ fuel) :
    mergeAddLoop c item fuel done.length (done ++ pending) =
        (.ok (), done ++ pending.flatMap (cut item)) ∨
      ∃ e l', mergeAddLoop c item fuel done.length (done ++ pending) = (.error (.err e), l') := by
  induction pending generalizing fuel done with
  | nil =>
    left
    cases fuel <;> simp [mergeAddLoop, len, Exec.bind_apply]
  | cons t rest ih =>
    obtain ⟨fuel, rfl⟩ : ∃ n, fuel = n + 1 := ⟨fuel - 1, by simp at hfuel; omega⟩
    rw [mergeAddLoop_cons]
    rcases mergeAddStep_settles c item done t rest with hstep | ⟨e, kept, hstep, -⟩
    · rw [Exec.bind_apply_ok hstep, List.flatMap_cons, ← List.append_assoc]
      exact ih (done ++ cut item t) (by simpa using hfuel)
    · exact .inr ⟨e, _, Exec.bind_eq_error.mpr (.inl hstep)⟩

theorem mergeAddLoop_zero [DecidableEq K] (c : Container) (item : T) (l : List T) :
    mergeAddLoop c item l.length 0 l = (.ok (), l.flatMap (cut item)) ∨
      ∃ e l', mergeAddLoop c item l.length 0 l = (.error (.err e), l') :=
  mergeAddLoop_eq c item [] (le_refl l.length)

/-! ### The pieces -/

variable {item : T}

section Pieces

variable [LawfulRangeOp T]

theorem range_clone (t : T) {start stop : P} (h : start < stop) :
    range (cloneWithRange t ⟨start, stop⟩) = ⟨start, stop⟩ :=
  range_cloneWithRange t (r := ⟨start, stop⟩) h

theorem covers_piece (t : T) (start stop : P) (k : K) (x : P) :
    Covers (piece t start stop) k x ↔ kind t = k ∧ start ≤ x ∧ x < stop := by
  unfold piece
  split_ifs with hlt
  · have hpoints : points (cloneWithRange t ⟨start, stop⟩) = Set.Ico start stop := by
      rw [points, range_clone t hlt]
      rfl
    rw [Covers, Tiling.covers_cons, hpoints, kind_cloneWithRange, Tiling.covers_nil, or_false,
      Set.mem_Ico]
  · rw [Covers, Tiling.covers_nil, false_iff]
    exact fun h => hlt (h.2.1.trans_lt h.2.2)

theorem covers_cut (item t : T) (k : K) (x : P) :
    Covers (cut item t) k x ↔ kind t = k ∧ x ∈ points t ∧ x ∉ points item := by
  unfold cut
  split_ifs with hover
  · obtain ⟨hnew, hold⟩ := hover
    rw [Covers, Tiling.covers_append, ← Covers, ← Covers, covers_piece, covers_piece, ← and_or_left]
    refine and_congr_right fun _ => ?_
    show _ ↔ (_ ≤ x ∧ x < _) ∧ ¬ (_ ≤ x ∧ x < _)
    constructor
    · rintro (⟨hge, hlt⟩ | ⟨hge, hlt⟩)
      · exact ⟨⟨hge, hlt.trans hnew⟩, fun h => absurd hlt h.1.not_gt⟩
      · exact ⟨⟨hold.le.trans hge, hlt⟩, fun h => absurd h.2 hge.not_gt⟩
    · rintro ⟨⟨hge, hlt⟩, hout⟩
      rcases lt_or_ge x (range item).start with hx | hx
      · exact .inl ⟨hge, hx⟩
      · exact .inr ⟨le_of_not_gt fun h => hout ⟨hx, h⟩, hlt⟩
  · rw [Covers, Tiling.covers_cons, Tiling.covers_nil, or_false]
    refine and_congr_right fun _ => (and_iff_left_of_imp fun hx hin => hover ?_).symm
    exact ⟨hin.1.trans_lt hx.2, hx.1.trans_lt hin.2⟩

variable {t p : T}

theorem points_of_mem_cut (hp : p ∈ cut item t) {x : P} (hx : x ∈ points p) : x ∈ points t ∧ x ∉ points item :=
  ((covers_cut item t (kind p) x).mp ⟨p, hp, rfl, hx⟩).2

theorem nonempty_of_mem_piece {start stop : P} (hp : p ∈ piece t start stop) :
    (range p).Nonempty := by
  unfold piece at hp
  split_ifs at hp with hlt
  · rw [List.mem_singleton.mp hp, range_clone t hlt]
    exact hlt
  · exact absurd hp List.not_mem_nil

theorem nonempty_of_mem_cut (ht : (range t).Nonempty) (hp : p ∈ cut item t) : (range p).Nonempty := by
  unfold cut at hp
  split_ifs at hp
  · exact (List.mem_append.mp hp).elim nonempty_of_mem_piece nonempty_of_mem_piece
  · rw [List.mem_singleton.mp hp]
    exact ht

omit [LawfulRangeOp T] in
theorem tiles_piece (t : T) (start stop : P) : Tiling.Tiles points (piece t start stop) := by
  unfold piece
  split_ifs
  · exact List.pairwise_singleton _ _
  · exact List.Pairwise.nil

/-- The two pieces of a range are on two sides of the new one. -/
theorem tiles_cut (hitem : (range item).start ≤ (range item).stop) (t : T) : Tiling.Tiles points (cut item t) := by
  unfold cut
  split_ifs
  · refine Tiling.tiles_append_of_covers kind (tiles_piece t _ _) (tiles_piece t _ _)
      fun k₁ k₂ x h₁ h₂ => ?_
    have hleft := (covers_piece t _ _ k₁ x).mp h₁
    have hright := (covers_piece t _ _ k₂ x).mp h₂
    exact absurd (hleft.2.2.trans_le hitem) hright.2.1.not_gt
  · exact List.pairwise_singleton _ _

/-- The scan and the push leave ranges that share no point. -/
theorem tiles_cut_append (hitem : (range item).start ≤ (range item).stop) {l : List T} (hl : Tiling.Tiles points l) :
    Tiling.Tiles points (l.flatMap (cut item) ++ [item]) := by
  refine Tiling.tiles_append.mpr ⟨?_, List.pairwise_singleton _ _, fun p hp q hq => ?_⟩
  · exact Tiling.tiles_flatMap hl (fun t _ => tiles_cut hitem t)
      fun t _ p hp x hx => (points_of_mem_cut hp hx).1
  · obtain ⟨t, -, hp⟩ := List.mem_flatMap.mp hp
    rw [List.mem_singleton.mp hq, Set.disjoint_left]
    exact fun x hx => (points_of_mem_cut hp hx).2

theorem tiled_cut (hitem : (range item).Nonempty) {l : List T} (hl : Tiled l) :
    Tiled (l.flatMap (cut item) ++ [item]) := by
  constructor
  · intro p hp
    rcases List.mem_append.mp hp with hp | hp
    · obtain ⟨t, ht, hp⟩ := List.mem_flatMap.mp hp
      exact nonempty_of_mem_cut (hl.nonempty t ht) hp
    · rw [List.mem_singleton.mp hp]
      exact hitem
  · exact tiles_cut_append (le_of_lt hitem) hl.tiles

theorem covers_cut_append (item : T) (l : List T) (k : K) (x : P) :
    Covers (l.flatMap (cut item) ++ [item]) k x ↔
      (Covers l k x ∧ x ∉ points item) ∨ (kind item = k ∧ x ∈ points item) := by
  rw [Covers, Tiling.covers_append, Tiling.covers_flatMap fun t _ => covers_cut item t,
    Tiling.covers_cons, Tiling.covers_nil, or_false]

end Pieces

/-! ### The whole call -/

variable [DecidableEq K]

/-- The kinds of the elements that have a point. -/
def kindsAt (l : List T) (x : P) : List K :=
  Tiling.labelsAt (fun t => (range t).contains x) kind l

variable {c : Container} {l l' : List T}

theorem mergeAdd_apply (c : Container) (item : T) (l : List T) :
    mergeAdd c item l =
      (mergeAddLoop c item l.length 0 >>= fun _ => push c item >>= fun _ => mergeSameKind c) l :=
  Exec.bind_apply_ok (show len l = (.ok l.length, l) from rfl)

/-- After the scan the item is pushed and merged, if there is room for it. -/
theorem push_merge (c : Container) (item : T) (l : List T) :
    (c.Fits (l.length + 1) ∧ ∃ l', mergeSameKind c (l ++ [item]) = (.ok (), l') ∧
        (push c item >>= fun _ => mergeSameKind c) l = (.ok (), l')) ∨
      (¬ c.Fits (l.length + 1) ∧
        (push c item >>= fun _ => mergeSameKind c) l = (.error (.err .capacity), l)) := by
  by_cases hroom : c.Fits (l.length + 1)
  · have hpush : push c item l = (.ok (), l ++ [item]) := by
      rw [push, Container.full_eq_false.mpr hroom, if_neg Bool.false_ne_true]
    have hfits : c.Fits (l ++ [item]).length := by simpa using hroom
    obtain ⟨l', hmerge, -⟩ := mergeSameKind_returns (I := fun _ => True) (fun _ _ _ _ => trivial) hfits trivial
    exact .inl ⟨hroom, l', hmerge, by rw [Exec.bind_apply_ok hpush, hmerge]⟩
  · have hfull : c.full l.length = true := by
      rw [← Bool.not_eq_false, Container.full_eq_false]
      exact hroom
    refine .inr ⟨hroom, Exec.bind_eq_error.mpr (.inl ?_)⟩
    rw [push, if_pos hfull]

theorem mergeAdd_eq_ok (h : mergeAdd c item l = (.ok (), l')) :
    c.Fits (l.flatMap (cut item) ++ [item]).length ∧
      mergeSameKind c (l.flatMap (cut item) ++ [item]) = (.ok (), l') := by
  rw [mergeAdd_apply] at h
  rcases mergeAddLoop_zero c item l with hscan | ⟨e, l₁, hscan⟩
  · rw [Exec.bind_apply_ok hscan] at h
    rcases push_merge c item (l.flatMap (cut item)) with ⟨hroom, l₂, hmerge, hok⟩ | ⟨-, herr⟩
    · obtain rfl : l₂ = l' := by simpa using hok.symm.trans h
      exact ⟨by simpa using hroom, hmerge⟩
    · exact absurd (herr.symm.trans h) (by simp)
  · exact absurd ((Exec.bind_eq_error.mpr (.inl hscan)).symm.trans h) (by simp)

/-- A call always comes back, with `Ok` or with an `Err`: it neither panics nor runs forever. -/
theorem mergeAdd_returns (c : Container) (item : T) (l : List T) :
    (∃ l', mergeAdd c item l = (.ok (), l')) ∨ ∃ e l', mergeAdd c item l = (.error (.err e), l') := by
  rw [mergeAdd_apply]
  rcases mergeAddLoop_zero c item l with hscan | ⟨e, l₁, hscan⟩
  · rw [Exec.bind_apply_ok hscan]
    rcases push_merge c item (l.flatMap (cut item)) with ⟨-, l', -, hok⟩ | ⟨-, herr⟩
    · exact .inl ⟨l', hok⟩
    · exact .inr ⟨.capacity, _, herr⟩
  · exact .inr ⟨e, l₁, Exec.bind_eq_error.mpr (.inl hscan)⟩

/-- What holds of the cut ranges and the item and survives merging holds after a call that returns `Ok`. -/
theorem mergeAdd_keeps {I : List T → Prop} (hI : ∀ l next, I l → MergesTo l next → I next)
    (hok : mergeAdd c item l = (.ok (), l')) (hl : I (l.flatMap (cut item) ++ [item])) :
    I l' ∧ c.Fits l'.length ∧ mergePair l' = none := by
  obtain ⟨hfits, hmerge⟩ := mergeAdd_eq_ok hok
  have hround (m next : List T) (hm : I m ∧ c.Fits m.length) (h : MergesTo m next) :
      I next ∧ c.Fits next.length :=
    ⟨hI m next hm.1 h, hm.2.mono (by rw [h.length_eq]; omega)⟩
  obtain ⟨l₂, hmerge', ⟨hl₂, hfits'⟩, hpair⟩ := mergeSameKind_returns hround hfits ⟨hl, hfits⟩
  obtain rfl : l₂ = l' := by simpa using hmerge'.symm.trans hmerge
  exact ⟨hl₂, hfits', hpair⟩

variable [LawfulRangeOp T]

/-- What a call that returns `Ok` leaves: a tiling with nothing to merge, in which the item has its points
and every other point is covered as before. -/
theorem mergeAdd_spec (hitem : (range item).Nonempty) (hl : Tiled l) (hok : mergeAdd c item l = (.ok (), l')) :
    Tiled l' ∧ c.Fits l'.length ∧ mergePair l' = none ∧
      ∀ k x, Covers l' k x ↔ (Covers l k x ∧ x ∉ points item) ∨ (kind item = k ∧ x ∈ points item) := by
  have hround (m next : List T)
      (hm : Tiled m ∧ ∀ k x, Covers m k x ↔ Covers (l.flatMap (cut item) ++ [item]) k x)
      (h : MergesTo m next) :
      Tiled next ∧ ∀ k x, Covers next k x ↔ Covers (l.flatMap (cut item) ++ [item]) k x :=
    ⟨h.tiled hm.1, fun k x => (h.covers hm.1.nonempty k x).trans (hm.2 k x)⟩
  obtain ⟨⟨htiled, hcovers⟩, hfits, hpair⟩ :=
    mergeAdd_keeps hround hok ⟨tiled_cut hitem hl, fun _ _ => Iff.rfl⟩
  exact ⟨htiled, hfits, hpair, fun k x => (hcovers k x).trans (covers_cut_append item l k x)⟩

/-- Insertion is pointwise exact: a point of the item belongs to one range, of the item's kind; every
other point belongs to a range of the kind it had, or to none if it had none; and the ranges still
share no point. -/
theorem mergeAdd_exact {c : Container} {item : T} (hitem : (range item).Nonempty) {l l' : List T}
    (hl : Tiled l) (hok : mergeAdd c item l = (.ok (), l')) :
    Tiled l' ∧
      ∀ x, kindsAt l' x = if (range item).contains x then [kind item] else kindsAt l x := by
  obtain ⟨htiled, -, -, hcovers⟩ := mergeAdd_spec hitem hl hok
  refine ⟨htiled, fun x => ?_⟩
  have hhas (t : T) : (range t).contains x = true ↔ x ∈ points t := Range.contains_iff
  by_cases hin : x ∈ points item
  · rw [if_pos ((hhas item).mpr hin)]
    exact Tiling.labelsAt_of_covers hhas htiled.tiles
      ((hcovers (kind item) x).mpr (.inr ⟨rfl, hin⟩))
  · rw [if_neg (fun h => hin ((hhas item).mp h))]
    exact Tiling.labelsAt_congr hhas htiled.tiles hl.tiles fun k =>
      (hcovers k x).trans (by simp only [hin, not_false_eq_true, and_true, and_false, or_false])

/-- Free memory with the kernel image in the middle of it, and a reserved page. -/
def carved : List MemoryDescriptor :=
  [⟨0, 0x1000, .free⟩, ⟨0x2000, 0x2000, .free⟩, ⟨0x8000, 0x1000, .reserved⟩, ⟨0x1000, 0x1000, .kImage⟩]

/-- The kernel image is carved out of free memory. -/
theorem mergeAdd_exact_kImage :
    mergeAdd (.heapless 4) ⟨0x1000, 0x1000, .kImage⟩
        [⟨0, 0x4000, .free⟩, ⟨0x8000, 0x1000, .reserved⟩] = (.ok (), carved) ∧
      kindsAt carved 0x1800 = [.kImage] := by
  have hok : mergeAdd (.heapless 4) ⟨0x1000, 0x1000, .kImage⟩
      [⟨0, 0x4000, .free⟩, ⟨0x8000, 0x1000, .reserved⟩] = (.ok (), carved) := rfl
  exact ⟨hok, (mergeAdd_exact (by decide) (by decide) hok).2 0x1800⟩

end Sparreal.Ranges
