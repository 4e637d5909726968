import Sparreal.Ranges.MergeAdd

/-!
# Insertions that fail or succeed

`merge_add` finds a conflict, or the lack of room for the second half of a split, while it scans. The
ranges before the cursor have been cut by then, and nothing puts their points back: after an `Err` the
collection is `remains`. Where the scan stops (`scan`) decides whether a point gets lost
(`mergeAdd_atomic_iff`). It returns `Ok` exactly if no range blocks the item and there is room for each range
the scan splits and for the item itself (`mergeAdd_ok_iff`).
-/

namespace Sparreal.Ranges

open VecOp

variable {T K P : Type} [RangeOp T K P] [LinearOrder P] [DecidableEq K]

/-! ### Where the scan stops -/

/-- The scan reports a conflict at `t`. -/
def blocks (item t : T) : Bool :=
  decide (Overlaps (range item) (range t)) && !(overwritable t item || mergeable t item)

/-- The scan stops at `t`, in a collection of `n` ranges: the insertion is a conflict, or splits `t` in
two where there is room for one. -/
def refuses (c : Container) (item : T) (n : Nat) (t : T) : Bool :=
  blocks item t || (decide ((cut item t).length = 2) && c.full n)

/-- The collection an insertion into `n` ranges leaves if it fails: the ranges the scan gets past are cut,
the range it stops at keeps its left part in a split, and the rest is as it was. -/
def remains (c : Container) (item : T) : Nat → List T → List T
  | _, [] => []
  | n, t :: rest =>
    if blocks item t then t :: rest
    else if refuses c item n t then (cut item t).take 1 ++ rest
    else cut item t ++ remains c item (n + (cut item t).length - 1) rest

/-- Where the scan stops: the ranges it gets past, the range whose split finds no room, and those it leaves alone. -/
structure Scan (T : Type) where
  passed : List T
  halved : Option T
  spared : List T

def scan (c : Container) (item : T) : Nat → List T → Scan T
  | _, [] => ⟨[], none, []⟩
  | n, t :: rest =>
    if blocks item t then ⟨[], none, t :: rest⟩
    else if refuses c item n t then ⟨[], some t, rest⟩
    else
      let s := scan c item (n + (cut item t).length - 1) rest
      { s with passed := t :: s.passed }

/-- A container of `n` ranges has room for every split on the way through the list, and for the item after it. -/
def VecOp.HasRoom (c : Container) (item : T) : Nat → List T → Prop
  | n, [] => c.Fits (n + 1)
  | n, t :: rest =>
    ((cut item t).length = 2 → c.Fits (n + 1)) ∧ HasRoom c item (n + (cut item t).length - 1) rest

/-- Nothing blocks the item, and there is room. -/
def Admits (c : Container) (item : T) (n : Nat) (l : List T) : Prop :=
  (∀ t ∈ l, blocks item t = false) ∧ HasRoom c item n l

/-! ### One round, with its error state -/

omit [DecidableEq K] in
theorem length_cut_le (item t : T) : (cut item t).length ≤ 2 := by
  have hpiece (start stop : P) : (piece t start stop).length ≤ 1 := by
    unfold piece
    split_ifs <;> simp
  unfold cut
  split_ifs
  · have hleft := hpiece (range t).start (range item).start
    have hright := hpiece (range item).stop (range t).stop
    rw [List.length_append]
    omega
  · simp

variable {c : Container}

omit [DecidableEq K] [LinearOrder P] [RangeOp T K P] in
/-- Of two pieces the second may find no room. -/
theorem placed_of_fits (done rest : List T) (t : T) {pieces : List T} (hle : pieces.length ≤ 2)
    (hfits : c.Fits (done ++ t :: rest).length) :
    placed c rest done pieces =
      if decide (pieces.length = 2) && c.full (done ++ t :: rest).length then
        (.error (.err .capacity), done ++ (pieces.take 1 ++ rest))
      else (.ok (done ++ pieces).length, done ++ pieces ++ rest) := by
  have hroom : c.full (done ++ rest).length = false :=
    Container.full_eq_false.mpr (hfits.mono (by simp only [List.length_append, List.length_cons]; omega))
  rcases pieces with _ | ⟨p, _ | ⟨q, _ | ⟨_, _⟩⟩⟩
  · simp [placed]
  · rw [placed, hroom]
    simp [placed]
  · have hlength : (done ++ [p] ++ rest).length = (done ++ t :: rest).length := by simp
    rw [placed, hroom, if_neg Bool.false_ne_true, placed, hlength]
    simp [placed]
  · simp at hle

/-- A round stops with an error, or replaces the range by its pieces. -/
theorem mergeAddStep_eq (item : T) (done : List T) (t : T) (rest : List T)
    (hfits : c.Fits (done ++ t :: rest).length) :
    mergeAddStep c item done.length (done ++ t :: rest) =
      if blocks item t then (.error (.err (.conflict item t)), done ++ t :: rest)
      else if refuses c item (done ++ t :: rest).length t then
        (.error (.err .capacity), done ++ ((cut item t).take 1 ++ rest))
      else (.ok (done ++ cut item t).length, done ++ cut item t ++ rest) := by
  rw [mergeAddStep_apply, refuses]
  by_cases hover : Overlaps (range item) (range t)
  · rw [if_pos hover, placed_of_fits done rest t (length_cut_le item t) hfits, blocks, decide_eq_true hover,
      Bool.true_and]
    by_cases hblock : (!(overwritable t item || mergeable t item)) = true
    · rw [if_pos hblock, if_pos hblock]
    · rw [if_neg hblock, if_neg hblock, Bool.eq_false_iff.mpr hblock, Bool.false_or]
  · simp [blocks, cut, hover]

/-! ### The scan, with its error state -/

variable {n : Nat}

theorem admits_cons {item t : T} {l : List T} :
    Admits c item n (t :: l) ↔ refuses c item n t = false ∧ Admits c item (n + (cut item t).length - 1) l := by
  rw [Admits, List.forall_mem_cons, HasRoom, Admits, and_and_and_comm, refuses, Bool.or_eq_false_iff,
    Bool.and_eq_false_imp, decide_eq_true_iff, Container.full_eq_false]

theorem two_of_refuses {item t : T} (hblock : ¬ blocks item t = true) (hrefuse : refuses c item n t = true) :
    (cut item t).length = 2 := by
  simp only [refuses, Bool.eq_false_iff.mpr hblock, Bool.false_or, Bool.and_eq_true,
    decide_eq_true_eq] at hrefuse
  exact hrefuse.1

theorem fits_cut {item t : T} (hfits : c.Fits n) (hpass : refuses c item n t = false) :
    c.Fits (n + (cut item t).length - 1) := by
  have hle := length_cut_le item t
  by_cases htwo : (cut item t).length = 2
  · have hroom : c.full n = false := by
      rw [refuses, Bool.or_eq_false_iff, decide_eq_true htwo, Bool.true_and] at hpass
      exact hpass.2
    exact (Container.full_eq_false.mp hroom).mono (by omega)
  · exact hfits.mono (by omega)

omit [RangeOp T K P] [LinearOrder P] [DecidableEq K] in
theorem length_replaced (done pieces rest : List T) (t : T) :
    (done ++ t :: rest).length + pieces.length - 1 = (done ++ pieces ++ rest).length := by
  simp only [List.length_append, List.length_cons]
  omega

theorem mergeAddLoop_remains (item : T) (done : List T) {pending : List T} {fuel : Nat}
    (hfuel : pending.length ≤ fuel) (hfits : c.Fits (done ++ pending).length) :
    (mergeAddLoop c item fuel done.length (done ++ pending) =
        (.ok (), done ++ pending.flatMap (cut item)) ∧
      remains c item (done ++ pending).length pending = pending.flatMap (cut item) ∧
      (Admits c item (done ++ pending).length pending ↔ c.Fits ((done ++ pending.flatMap (cut item)).length + 1))) ∨
    ∃ e, mergeAddLoop c item fuel done.length (done ++ pending) =
        (.error (.err e), done ++ remains c item (done ++ pending).length pending) ∧
      (e = .capacity ∨ ∃ t ∈ pending, blocks item t = true) ∧ ¬ Admits c item (done ++ pending).length pending := by
  induction pending generalizing fuel done with
  | nil =>
    left
    cases fuel <;> simp [mergeAddLoop, len, Exec.bind_apply, remains, Admits, HasRoom]
  | cons t rest ih =>
    obtain ⟨fuel, rfl⟩ : ∃ n, fuel = n + 1 := ⟨fuel - 1, by simp at hfuel; omega⟩
    have hstep := mergeAddStep_eq item done t rest hfits
    rw [mergeAddLoop_cons, remains, admits_cons]
    by_cases hblock : blocks item t = true
    · rw [if_pos hblock] at hstep ⊢
      refine .inr ⟨.conflict item t, Exec.bind_eq_error.mpr (.inl hstep), .inr ⟨t, List.mem_cons_self, hblock⟩, ?_⟩
      simp [refuses, hblock]
    rw [if_neg hblock] at hstep ⊢
    by_cases hrefuse : refuses c item (done ++ t :: rest).length t = true
    · rw [if_pos hrefuse] at hstep ⊢
      refine .inr ⟨.capacity, Exec.bind_eq_error.mpr (.inl hstep), .inl rfl, fun h => ?_⟩
      exact Bool.false_ne_true (h.1.symm.trans hrefuse)
    · have hlength := length_replaced done (cut item t) rest t
      have hpass := Bool.eq_false_iff.mpr hrefuse
      have hnext := fits_cut hfits hpass
      rw [if_neg hrefuse] at hstep ⊢
      rw [Exec.bind_apply_ok hstep, and_iff_right hpass, hlength, List.flatMap_cons]
      rw [hlength] at hnext
      rcases ih (done ++ cut item t) (by simpa using hfuel) hnext with ⟨hok, hall, hroom⟩ | ⟨e, herr, hwhy, hnot⟩
      · exact .inl ⟨by rw [hok, List.append_assoc], by rw [hall], by rw [hroom, List.append_assoc]⟩
      · refine .inr ⟨e, by rw [herr, List.append_assoc], hwhy.imp_right ?_, hnot⟩
        rintro ⟨s, hs, hblock⟩
        exact ⟨s, List.mem_cons_of_mem t hs, hblock⟩

variable {l : List T}

theorem fits_remains (item : T) (done : List T) (hn : n = (done ++ l).length) (hfits : c.Fits n) :
    c.Fits (done ++ remains c item n l).length := by
  induction l generalizing n done with
  | nil => simpa [remains, hn] using hfits
  | cons t rest ih =>
    rw [remains]
    split_ifs with hblock hrefuse
    · exact hn ▸ hfits
    · refine hfits.mono ?_
      simp only [hn, List.length_append, List.length_cons, List.length_take]
      omega
    · have hnext := ih (done ++ cut item t) ?_ (fits_cut hfits (Bool.eq_false_iff.mpr hrefuse))
      · rwa [List.append_assoc] at hnext
      · simp only [hn, List.length_append, List.length_cons]
        omega

variable {item : T}

/-- How a call ends. If the scan gets past every range, the push decides. -/
theorem mergeAdd_cases (item : T) (hfits : c.Fits l.length) :
    (∃ l', mergeAdd c item l = (.ok (), l')) ∧ Admits c item l.length l ∨
      ∃ e, mergeAdd c item l = (.error (.err e), remains c item l.length l) ∧
        (e = .capacity ∨ ∃ t ∈ l, blocks item t = true) ∧ ¬ Admits c item l.length l := by
  rw [mergeAdd_apply]
  rcases mergeAddLoop_remains item [] (le_refl l.length) hfits with ⟨hok, hall, hroom⟩ | ⟨e, hscan, hwhy, hnot⟩
  · rw [List.nil_append] at hall hroom
    rw [List.length_nil, List.nil_append] at hok
    rw [Exec.bind_apply_ok hok, hall, hroom]
    rcases push_merge c item (l.flatMap (cut item)) with ⟨hfits, l', -, h⟩ | ⟨hfull, herr⟩
    · exact .inl ⟨⟨l', h⟩, hfits⟩
    · exact .inr ⟨.capacity, herr, .inl rfl, hfull⟩
  · exact .inr ⟨e, Exec.bind_eq_error.mpr (.inl hscan), hwhy, hnot⟩

/-- What a call that returns `Err` leaves, and why it does. -/
theorem mergeAdd_eq_error {l l' : List T} {e : RangeError T} (hfits : c.Fits l.length)
    (herr : mergeAdd c item l = (.error (.err e), l')) :
    l' = remains c item l.length l ∧ (e = .capacity ∨ ∃ t ∈ l, blocks item t = true) := by
  rcases mergeAdd_cases item hfits with ⟨⟨_, hok⟩, -⟩ | ⟨e', herr', hwhy, -⟩
  · cases herr.symm.trans hok
  · obtain ⟨rfl, rfl⟩ : e = e' ∧ l' = remains c item l.length l := by simpa using herr.symm.trans herr'
    exact ⟨rfl, hwhy⟩

/-- A call returns `Ok` exactly if nothing blocks the item and there is room. -/
theorem VecOp.mergeAdd_ok_iff {l : List T} (hfits : c.Fits l.length) :
    (∃ l', mergeAdd c item l = (.ok (), l')) ↔
      (∀ t ∈ l, blocks item t = false) ∧ HasRoom c item l.length l := by
  rcases mergeAdd_cases item hfits with ⟨hok, hadmits⟩ | ⟨e, herr, -, hnot⟩
  · exact iff_of_true hok hadmits
  · refine iff_of_false (fun ⟨l', h⟩ => ?_) hnot
    cases herr.symm.trans h

/-! ### What an error loses -/

section Lost

variable [LawfulRangeOp T]

omit [LawfulRangeOp T] [DecidableEq K] in
theorem take_cut {item t : T} (htwo : (cut item t).length = 2) :
    (cut item t).take 1 = piece t (range t).start (range item).start ∧
      (range t).start < (range item).start ∧ (range item).start < (range t).stop := by
  unfold cut piece at htwo ⊢
  split_ifs at htwo ⊢ with hover hleft hright <;> simp at htwo ⊢
  exact ⟨hleft, hover.1⟩

omit [DecidableEq K] in
theorem covers_take_cut {item t : T} (htwo : (cut item t).length = 2) (k : K) (x : P) :
    Covers ((cut item t).take 1) k x ↔ (kind t = k ∧ x ∈ points t) ∧ x < (range item).start := by
  obtain ⟨htake, -, hright⟩ := take_cut htwo
  rw [htake, covers_piece, and_assoc]
  refine and_congr_right fun _ => ?_
  exact ⟨fun ⟨hge, hlt⟩ => ⟨⟨hge, hlt.trans hright⟩, hlt⟩, fun ⟨hx, hlt⟩ => ⟨hx.1, hlt⟩⟩

omit [LawfulRangeOp T] in
theorem scan_append (c : Container) (item : T) (n : Nat) (l : List T) :
    (scan c item n l).passed ++ ((scan c item n l).halved.toList ++ (scan c item n l).spared) = l := by
  induction l generalizing n with
  | nil => rfl
  | cons t rest ih =>
    rw [scan]
    split_ifs
    · rfl
    · rfl
    · exact congrArg (t :: ·) (ih _)

omit [LawfulRangeOp T] in
theorem two_of_halved {t : T} (ht : (scan c item n l).halved = some t) : (cut item t).length = 2 := by
  induction l generalizing n with
  | nil => cases ht
  | cons s rest ih =>
    rw [scan] at ht
    split_ifs at ht with hblock hrefuse
    · obtain rfl := Option.some.inj ht
      exact two_of_refuses hblock hrefuse
    · exact ih ht

/-- The ranges that are passed lose the points of the item, and the one that is halved all from there on. -/
theorem covers_remains (c : Container) (item : T) (n : Nat) (l : List T) (k : K) (x : P) :
    Covers (remains c item n l) k x ↔
      (Covers (scan c item n l).passed k x ∧ x ∉ points item) ∨
        (Covers (scan c item n l).halved.toList k x ∧ x < (range item).start) ∨
          Covers (scan c item n l).spared k x := by
  induction l generalizing n with
  | nil => simp [remains, scan]
  | cons t rest ih =>
    rw [remains, scan]
    by_cases hblock : blocks item t = true
    · simp [hblock]
    by_cases hrefuse : refuses c item n t = true
    · simp [hblock, hrefuse, covers_take_cut (two_of_refuses hblock hrefuse)]
    · simp only [if_neg hblock, if_neg hrefuse, Tiling.covers_append, Tiling.covers_cons, covers_cut, ih]
      tauto

theorem covers_of_remains {k : K} {x : P} (hx : Covers (remains c item n l) k x) : Covers l k x := by
  rw [← scan_append c item n l, Covers, Tiling.covers_append, Tiling.covers_append]
  exact ((covers_remains c item n l k x).mp hx).imp And.left (Or.imp_left And.left)

theorem tiles_remains (hitem : (range item).start ≤ (range item).stop) (c : Container) (n : Nat)
    (hl : Tiling.Tiles points l) : Tiling.Tiles points (remains c item n l) := by
  induction l generalizing n with
  | nil => exact List.Pairwise.nil
  | cons t rest ih =>
    obtain ⟨hhead, hrest⟩ := List.pairwise_cons.mp hl
    -- the pieces of `t` stay in `t`, the others in the ranges after it
    have happend {pieces others : List T} (hpieces : pieces.Sublist (cut item t)) (hothers : Tiling.Tiles points others)
        (hout : ∀ k x, Covers others k x → Covers rest k x) : Tiling.Tiles points (pieces ++ others) := by
      refine Tiling.tiles_append_of_covers kind ((tiles_cut hitem t).sublist hpieces) hothers fun k₁ k₂ x hx₁ hx₂ => ?_
      obtain ⟨p, hp, -, hxp⟩ := hx₁
      obtain ⟨s, hs, -, hxs⟩ := hout k₂ x hx₂
      exact Set.disjoint_left.mp (hhead s hs) (points_of_mem_cut (hpieces.subset hp) hxp).1 hxs
    rw [remains]
    split_ifs
    · exact hl
    · exact happend (List.take_sublist 1 _) hrest fun _ _ => id
    · exact happend (List.Sublist.refl _) (ih _ hrest) fun _ _ => covers_of_remains

theorem nonempty_of_mem_remains (hl : ∀ t ∈ l, (range t).Nonempty) :
    ∀ p ∈ remains c item n l, (range p).Nonempty := by
  induction l generalizing n with
  | nil => exact fun p hp => absurd hp List.not_mem_nil
  | cons t rest ih =>
    obtain ⟨ht, hrest⟩ := List.forall_mem_cons.mp hl
    intro p hp
    rw [remains] at hp
    split_ifs at hp
    · exact hl p hp
    · rcases List.mem_append.mp hp with hp | hp
      · exact nonempty_of_mem_cut ht (List.mem_of_mem_take hp)
      · exact hrest p hp
    · rcases List.mem_append.mp hp with hp | hp
      · exact nonempty_of_mem_cut ht hp
      · exact ih hrest p hp

theorem tiled_remains (hitem : (range item).Nonempty) (c : Container) (n : Nat) (hl : Tiled l) :
    Tiled (remains c item n l) :=
  ⟨nonempty_of_mem_remains hl.nonempty, tiles_remains (le_of_lt hitem) c n hl.tiles⟩

/-- What the scan takes from the ranges it gets past, and from one it halves, is in a range of that kind that it leaves
alone, or, outside the item, in one that it gets past. -/
structure Backed (c : Container) (item : T) (l : List T) : Prop where
  passed : ∀ k x, Covers (scan c item l.length l).passed k x → x ∈ points item →
    Covers (scan c item l.length l).spared k x
  halved : ∀ k x, Covers (scan c item l.length l).halved.toList k x → (range item).start ≤ x →
    Covers (scan c item l.length l).spared k x ∨ x ∉ points item ∧ Covers (scan c item l.length l).passed k x

theorem covers_remains_iff (c : Container) (item : T) (l : List T) :
    (∀ k x, Covers (remains c item l.length l) k x ↔ Covers l k x) ↔ Backed c item l := by
  have hall (k : K) (x : P) : Covers l k x ↔ Covers (scan c item l.length l).passed k x ∨
      Covers (scan c item l.length l).halved.toList k x ∨ Covers (scan c item l.length l).spared k x := by
    rw [← Tiling.covers_append, ← Tiling.covers_append, scan_append]
  have hleft := covers_remains c item l.length l
  constructor
  · intro hsame
    refine ⟨fun k x hx hin => ?_, fun k x hx hge => ?_⟩
    · rcases (hleft k x).mp ((hsame k x).mpr ((hall k x).mpr (.inl hx))) with hx | hx | hx
      · exact absurd hin hx.2
      · exact absurd hin.1 hx.2.not_ge
      · exact hx
    · rcases (hleft k x).mp ((hsame k x).mpr ((hall k x).mpr (.inr (.inl hx)))) with hx | hx | hx
      · exact .inr hx.symm
      · exact absurd hge hx.2.not_ge
      · exact .inl hx
  · intro hbacked k x
    refine ⟨covers_of_remains, fun hx => (hleft k x).mpr ?_⟩
    rcases (hall k x).mp hx with hx | hx | hx
    · by_cases hin : x ∈ points item
      · exact .inr (.inr (hbacked.passed k x hx hin))
      · exact .inl ⟨hx, hin⟩
    · rcases lt_or_ge x (range item).start with hlt | hge
      · exact .inr (.inl ⟨hx, hlt⟩)
      · rcases hbacked.halved k x hx hge with hx | hx
        · exact .inr (.inr hx)
        · exact .inl hx.symm
    · exact .inr (.inr hx)

omit [LawfulRangeOp T] in
/-- Ranges that share no point do not stand in for one another. -/
theorem backed_iff_of_tiled (hitem : (range item).Nonempty) (hl : Tiled l) :
    Backed c item l ↔ (scan c item l.length l).halved = none ∧
      ∀ s ∈ (scan c item l.length l).passed, ¬ Overlaps (range item) (range s) := by
  have htiles := hl.tiles
  rw [← scan_append c item l.length l, Tiling.tiles_append, Tiling.tiles_append] at htiles
  obtain ⟨-, ⟨-, -, hhalved⟩, hpassed⟩ := htiles
  constructor
  · intro hbacked
    refine ⟨Option.eq_none_iff_forall_ne_some.mpr fun t ht => ?_, fun s hs hover => ?_⟩
    · obtain ⟨-, hleft, hright⟩ := take_cut (two_of_halved ht)
      have hmem : t ∈ (scan c item l.length l).halved.toList := Option.mem_toList.mpr ht
      have hx : (range item).start ∈ points t := ⟨hleft.le, hright⟩
      rcases hbacked.halved (kind t) _ ⟨t, hmem, rfl, hx⟩ le_rfl with ⟨u, hu, -, hxu⟩ | ⟨hout, -⟩
      · exact Set.disjoint_left.mp (hhalved t hmem u hu) hx hxu
      · exact hout ⟨le_rfl, hitem⟩
    · have hne : (range s).Nonempty := hl.nonempty s (by
        rw [← scan_append c item l.length l]
        exact List.mem_append_left _ hs)
      have hx : max (range s).start (range item).start ∈ points s := ⟨le_max_left .., max_lt hne hover.1⟩
      have hin : max (range s).start (range item).start ∈ points item := ⟨le_max_right .., max_lt hover.2 hitem⟩
      obtain ⟨u, hu, -, hxu⟩ := hbacked.passed (kind s) _ ⟨s, hs, rfl, hx⟩ hin
      exact Set.disjoint_left.mp (hpassed s hs u (List.mem_append_right _ hu)) hx hxu
  · intro ⟨hnone, hapart⟩
    refine ⟨fun k x ⟨s, hs, _, hx⟩ hin => ?_, fun k x hx => ?_⟩
    · exact absurd ⟨hin.1.trans_lt hx.2, hx.1.trans_lt hin.2⟩ (hapart s hs)
    · rw [hnone] at hx
      exact absurd hx Tiling.covers_nil.mp

/-- An insertion that returns `Err` leaves the points of the collection as they were exactly if what the scan takes is
`Backed`; for ranges that share no point, exactly if it halves none and gets past none that overlaps the item. -/
theorem mergeAdd_atomic_iff {c : Container} {item : T} {l l' : List T} {e : RangeError T}
    (hfits : c.Fits l.length) (herr : mergeAdd c item l = (.error (.err e), l')) :
    ((∀ k x, Covers l' k x ↔ Covers l k x) ↔ Backed c item l) ∧
    ((range item).Nonempty → Tiled l →
      ((∀ k x, Covers l' k x ↔ Covers l k x) ↔
        (scan c item l.length l).halved = none ∧
          ∀ s ∈ (scan c item l.length l).passed, ¬ Overlaps (range item) (range s))) := by
  obtain ⟨rfl, -⟩ := mergeAdd_eq_error hfits herr
  have hiff := covers_remains_iff c item l
  exact ⟨hiff, fun hitem hl => hiff.trans (backed_iff_of_tiled hitem hl)⟩

def image : MemoryDescriptor := ⟨0x1000, 0x1800, .kImage⟩

def firmware : MemoryDescriptor := ⟨0x2000, 0x1000, .reserved⟩

def below : MemoryDescriptor := ⟨0, 0x2000, .free⟩

def above : MemoryDescriptor := ⟨0x3000, 0x1000, .free⟩

def shared : MemoryDescriptor := ⟨0x1000, 0x1000, .free⟩

/-- What the image takes of the free memory below is free in another range too; and where the firmware memory is met
before the memory below, the scan gets past nothing that overlaps the image. -/
theorem mergeAdd_atomic_firmware :
    (mergeAdd (.heapless 128) image [below, firmware, shared] =
        (.error (.err (.conflict image firmware)), [⟨0, 0x1000, .free⟩, firmware, shared]) ∧
      ∀ k x, Covers [⟨0, 0x1000, .free⟩, firmware, shared] k x ↔ Covers [below, firmware, shared] k x) ∧
    (scan (.heapless 128) image 3 [above, firmware, below]).passed = [above] ∧
      ∀ s ∈ (scan (.heapless 128) image 3 [above, firmware, below]).passed, ¬ Overlaps (range image) (range s) := by
  have hfits : Container.Fits (.heapless 128) 3 := by
    show 3 ≤ 128
    decide
  have hshared : mergeAdd (.heapless 128) image [below, firmware, shared] =
      (.error (.err (.conflict image firmware)), [⟨0, 0x1000, .free⟩, firmware, shared]) := rfl
  have hfirst : mergeAdd (.heapless 128) image [above, firmware, below] =
      (.error (.err (.conflict image firmware)), [above, firmware, below]) := rfl
  refine ⟨⟨hshared, (mergeAdd_atomic_iff hfits hshared).1.mpr ⟨fun k x hx hin => ?_, fun k x hx => ?_⟩⟩, rfl, ?_⟩
  · obtain ⟨s, hs, hk, hx⟩ := hx
    obtain rfl : s = below := List.mem_singleton.mp hs
    exact ⟨shared, by decide, hk, hin.1, hx.2⟩
  · exact absurd hx Tiling.covers_nil.mp
  · exact (((mergeAdd_atomic_iff hfits hfirst).2 (by decide) (by decide)).mp fun _ _ => Iff.rfl).2

/-- Where the free memory is met first, the image takes its part of it before the conflict is found, and the
page at `0x1000` is in no range afterwards. -/
theorem mergeAdd_conflict_loses :
    mergeAdd (.heapless 128) image [below, firmware] =
        (.error (.err (.conflict image firmware)), [⟨0, 0x1000, .free⟩, firmware]) ∧
      kindsAt [below, firmware] 0x1800 = [.free] ∧
      kindsAt [⟨0, 0x1000, .free⟩, firmware] 0x1800 = [] :=
  ⟨rfl, rfl, rfl⟩

end Lost

end Sparreal.Ranges
