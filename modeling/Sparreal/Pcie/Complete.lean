import Sparreal.Pcie.Ending

/-!
# What comes of an enumeration

An endpoint is yielded, once, if the iterator comes to its bus (`Reached`) and looks at its function there
(`LookedAt`). Whatever comes after the end of the bus with the last number is not looked at any more, on the buses above
it too. So an enumeration is complete exactly when this covers every endpoint that is there (`complete_iff`).

The same says when it comes to its end at all: if it looks at no function it has no branch for. Then its bus numbers are
consistent if there is one bridge on the root bus and none is passed over (`numbered_iff`).
-/

namespace Sparreal.Pcie

open Forest

variable {t : Topology} {s s' : PciIterator} {regs : Registers} {V : List Nat} {p : List (Nat × Nat)}
  {L L' : List Place} {q : Place} {n z : Nat}

/-! ### The specification -/

/-- An endpoint function is there. A device has other functions than the first only if that says so. -/
def Topology.Present (t : Topology) (q : Place) : Prop :=
  q.bus ≤ t.size ∧ (∃ m, t.slot q = some (.endpoint m)) ∧
    (q.function ≠ 0 → ∃ x, t.slot { q with function := 0 } = some x ∧ x.hasMultipleFunctions = true)

/-- The enumeration comes to its end and yields every endpoint exactly once. -/
def Complete (t : Topology) (range : Option (Nat × Nat)) : Prop :=
  Ends t (enumerateByController .reset range) [] fun L => ∀ q, t.Present q → L.count q = 1

/-! ### What each end yields -/

theorem Listing.mem_iff_of_reached (hL : Listing t V [] 0 L) (hnodup : V.Nodup) (hroom : V.length < n)
    (hV : ∀ c, t.forest.Node c → (c ∈ V ↔ t.Reached c)) (hq : q.bus ≤ t.size) (hleaf : t.Leaf q) :
    q ∈ L ↔ t.Reached q.bus ∧ t.LookedAt n q := by
  have hbus : q.bus = 0 ∨ q.bus ∈ V ↔ t.Reached q.bus := by
    by_cases h0 : q.bus = 0
    · exact iff_of_true (.inl h0) (h0 ▸ Topology.reached_zero)
    · rw [← hV _ ⟨Nat.pos_of_ne_zero h0, hq⟩]
      exact or_iff_right h0
  have hless : ∀ l, (t.ahead l).ncard < n := fun l =>
    Nat.lt_of_le_of_lt (Topology.ncard_ahead_le hnodup fun c hc => (hV c hc.1).mpr hc.2.1) hroom
  rw [hL.mem_iff q hleaf, Past, hbus]
  constructor
  · rintro ⟨hclear, hr, -⟩
    exact ⟨hr, .inl ⟨hclear, hless _⟩⟩
  · rintro ⟨hr, ⟨hclear, -⟩ | ⟨-, hfull⟩⟩
    · exact ⟨hclear, hr, trivial⟩
    · exact absurd hfull (Nat.ne_of_lt (hless _))

theorem Listing.nodup_spent {L₀ M : List Place} (hL : Listing t V ((z, 0) :: p) 0 L₀)
    (hM : Gathers t z (maxDevice + 1) 0 M) : (L₀ ++ M).Nodup := by
  refine List.nodup_append.mpr ⟨hL.nodup, hM.nodup, ?_⟩
  rintro q hq q' hq' rfl
  obtain ⟨m, hm⟩ := hM.endpoint q hq'
  have hleaf : t.Leaf q := ⟨_, hm, rfl⟩
  exact (behind_start.mp ((hL.mem_iff q hleaf).mp hq).2.2).1 ((hM.mem_iff q hleaf).mp hq').1

theorem Walk.mem_iff_spent {L₀ M : List Place} (h : Walk t regs V ((z, 0) :: p) 0)
    (hL : Listing t V ((z, 0) :: p) 0 L₀) (hM : Gathers t z (maxDevice + 1) 0 M) (hfull : V.length = n)
    (hq : q.bus ≤ t.size) (hleaf : t.Leaf q) : q ∈ L₀ ++ M ↔ t.Reached q.bus ∧ t.LookedAt n q := by
  have hz : t.Reached z := h.reached (h.visited (z, 0) List.mem_cons_self)
  have hstart : (t.ahead (t.way z ++ [0])).ncard = n := h.ncard_ahead_start.trans hfull
  have hlast : q ∈ M ↔ q.bus = z ∧ t.Exposed q := by
    have hbefore : q.Before (maxDevice + 1) 0 := .inl hleaf.lt.1
    rw [hM.mem_iff q hleaf, and_iff_left hbefore]
  rw [List.mem_append, hL.mem_iff q hleaf, hlast]
  constructor
  · rintro (⟨hclear, hpast⟩ | ⟨hbus, hexposed⟩)
    · have hr := h.reached hpast.1
      refine ⟨hr, .inl ⟨hclear, ?_⟩⟩
      exact hstart ▸ hz.ncard_ahead_lt h.start_le ((h.past_iff hq hr).mp hpast)
    · exact ⟨hbus ▸ hz, .inr ⟨hexposed, hbus ▸ hstart⟩⟩
  · rintro ⟨hr, ⟨hclear, hlt⟩ | ⟨hexposed, heq⟩⟩
    · refine .inl ⟨hclear, (h.past_iff hq hr).mpr ?_⟩
      by_contra hnot
      have hle := Set.ncard_le_ncard (Topology.ahead_mono (t := t) hnot) Topology.ahead_finite
      omega
    · refine .inr ⟨?_, hexposed⟩
      -- the number of bridges before the start of a bus tells the bus
      rcases lt_trichotomy (t.way q.bus ++ [0]) (t.way z ++ [0]) with hlt | hsame | hgt
      · have hless := hz.ncard_ahead_lt h.start_le hlt
        omega
      · exact hr.way_inj hq h.start_le hz (List.append_inj' hsame rfl).1
      · have hless := hr.ncard_ahead_lt hq hgt
        omega

theorem Outcome.nodup (h : Outcome t n L) : L.Nodup := by
  cases h with
  | through _ _ hL => exact hL.nodup
  | spent _ _ hL hM heq => exact heq ▸ hL.nodup_spent hM

theorem Outcome.endpoint (h : Outcome t n L) (hq : q ∈ L) : ∃ m, t.slot q = some (.endpoint m) := by
  cases h with
  | through _ _ hL => exact hL.endpoint q hq
  | spent _ _ hL hM heq =>
    rcases List.mem_append.mp (heq ▸ hq) with hq | hq
    · exact hL.endpoint q hq
    · exact hM.endpoint q hq

/-- No function but an endpoint is yielded, so of the others that are no bridges this says that they are not looked
at. -/
theorem Outcome.mem_iff (h : Outcome t n L) (hq : q.bus ≤ t.size) (hleaf : t.Leaf q) :
    q ∈ L ↔ t.Reached q.bus ∧ t.LookedAt n q := by
  cases h with
  | through hroom hwalk hL =>
    exact hL.mem_iff_of_reached hwalk.labels.nodup hroom (fun _ => hwalk.mem_iff_reached) hq hleaf
  | spent hfull hwalk hL hM heq => exact heq ▸ hwalk.mem_iff_spent hL hM hfull hq hleaf

/-! ### There is one end -/

theorem PciIterator.collect_of_finish (hfin : s.isFinish = true) : PciIterator.collect t (s, L) = some (s, L) := by
  simp [collect, step_of_finish hfin, item, hfin]

theorem PciIterator.run_collect_of_finish {turns : List Unit} (hfin : s.isFinish = true)
    (hrun : Machine.run (fun x (_ : Unit) => PciIterator.collect t x) (s, L) turns = some (s', L')) : L' = L := by
  have hkeeps := Machine.run_keeps (I := fun x => x = (s, L)) ?_ hrun rfl
  · exact (Prod.mk.inj hkeeps).2
  · rintro x _ x' rfl hx'
    rw [collect_of_finish hfin] at hx'
    exact (Option.some.inj hx').symm

theorem Ends.of_run {P : List Place → Prop} {turns : List Unit} (h : Ends t s L P)
    (hrun : Machine.run (fun x (_ : Unit) => PciIterator.collect t x) (s, L) turns = some (s', L'))
    (hfin : s'.isFinish = true) : P L' := by
  obtain ⟨turns', u, L'', hrun', hfin', hP⟩ := h
  suffices hsame : L' = L'' from hsame ▸ hP
  induction turns generalizing s L turns' with
  | nil =>
    obtain ⟨rfl, rfl⟩ := Prod.mk.inj (Option.some.inj hrun)
    exact (PciIterator.run_collect_of_finish hfin hrun').symm
  | cons e turns ih =>
    cases turns' with
    | nil =>
      obtain ⟨rfl, rfl⟩ := Prod.mk.inj (Option.some.inj hrun')
      exact PciIterator.run_collect_of_finish hfin' hrun
    | cons e' turns' =>
      obtain ⟨x, hx, hrest⟩ := Machine.run_cons.mp hrun
      obtain ⟨x', hx', hrest'⟩ := Machine.run_cons.mp hrun'
      obtain rfl := Option.some.inj (hx.symm.trans hx')
      exact ih hrest turns' hrest'

/-! ### Complete enumerations -/

/-- For every topology of endpoints and bridges with one bridge to look at on the root bus, whichever of several
bridges the hardware would pick: an enumeration from bus `0` with the numbers up to `n` yields every endpoint exactly
once if and only if it comes to the bus of every endpoint and looks at the endpoint there. -/
theorem complete_iff {range : Option (Nat × Nat)} (hrange : range.getD (0, 0x100) = (0, n + 1)) (hn : n ≤ 255)
    (hkinds : ∀ q m, t.slot q ≠ some (.other m)) (hone : t.OneRoot) :
    Complete t range ↔ ∀ q, t.Present q → t.Reached q.bus ∧ t.LookedAt n q := by
  have hends := (enumerateByController_ends hrange hn hone).resolve_right fun hpanics => by
    obtain ⟨⟨q, m, -, hslot, -⟩, -⟩ := hpanics
    exact hkinds q m hslot
  obtain ⟨turns, s, L, hrun, hfin, houtcome⟩ := hends
  have hcount : ∀ q, t.Present q → (L.count q = 1 ↔ t.Reached q.bus ∧ t.LookedAt n q) := by
    rintro q ⟨hbus, ⟨m, hm⟩, -⟩
    rw [← houtcome.mem_iff hbus ⟨_, hm, rfl⟩]
    refine ⟨fun hone => List.count_pos_iff.mp ?_, List.count_eq_one_of_mem houtcome.nodup⟩
    rw [hone]
    exact Nat.one_pos
  constructor
  · intro hcomplete q hq
    exact (hcount q hq).mp (hcomplete.of_run hrun hfin q hq)
  · intro hall
    exact ⟨turns, s, L, hrun, hfin, fun q hq => (hcount q hq).mpr (hall q hq)⟩

def simpleTree : Topology :=
  .ofList [⟨0, 0, 0⟩] [(⟨0, 0, 0⟩, .bridge false 1), (⟨0, 1, 0⟩, .endpoint false), (⟨1, 0, 0⟩, .endpoint false)]
    (by decide)

theorem complete_simpleTree : Complete simpleTree none := by
  have hnode : ∀ {c}, simpleTree.forest.Node c → c = 1 := fun hc => Nat.le_antisymm hc.2 hc.1
  have hslot : ∀ {q x}, simpleTree.slot q = some x → q.function = 0 ∧ ∀ m, x ≠ .other m := by
    intro q x hx
    have hall : ∀ e ∈ [((⟨0, 0, 0⟩ : Place), PciFunction.bridge false 1), (⟨0, 1, 0⟩, .endpoint false),
      (⟨1, 0, 0⟩, .endpoint false)], e.1.function = 0 ∧ ∀ m, e.2 ≠ .other m := by decide
    exact hall (q, x) (Topology.mem_of_lookup hx)
  have hone : simpleTree.OneRoot := fun c d hc hd _ _ => (hnode hc.1).trans (hnode hd.1).symm
  refine (complete_iff (n := 255) rfl (Nat.le_refl 255) (fun q m hm => (hslot hm).2 m rfl) hone).mpr ?_
  rintro q ⟨hbus, ⟨m, hm⟩, -⟩
  constructor
  · intro x hx hunder
    obtain rfl := hnode ⟨Nat.pos_of_ne_zero hx, Nat.le_trans hunder.le hbus⟩
    exact fun g hg => absurd hg (Nat.not_lt_zero g)
  · left
    constructor
    · intro g hg
      rw [(hslot hm).1] at hg
      exact absurd hg (Nat.not_lt_zero g)
    · have hle := Topology.ncard_ahead_le (t := simpleTree) (V := [1]) (l := simpleTree.way q.bus ++ [q.device])
        (List.nodup_singleton 1) fun c hc => List.mem_singleton.mpr (hnode hc.1)
      exact Nat.lt_of_le_of_lt hle (by decide)

def bridgeFirst : Topology :=
  .ofList [⟨0, 0, 0⟩] [(⟨0, 0, 0⟩, .bridge true 1), (⟨0, 0, 1⟩, .endpoint false)] (by decide)

theorem bridgeFirst_yields_nothing :
    ((Machine.run (fun x (_ : Unit) => PciIterator.collect bridgeFirst x) (enumerateByController .reset none, [])
      (List.replicate 505 ())).map fun x => (x.1.isFinish, x.2)) = some (true, []) ∧
    bridgeFirst.Present ⟨0, 0, 1⟩ ∧ ¬ Complete bridgeFirst none := by
  have hpresent : bridgeFirst.Present ⟨0, 0, 1⟩ := ⟨Nat.zero_le _, ⟨false, rfl⟩, fun _ => ⟨_, rfl, rfl⟩⟩
  have hrun : ((Machine.run (fun x (_ : Unit) => PciIterator.collect bridgeFirst x)
      (enumerateByController .reset none, []) (List.replicate 505 ())).map fun x => (x.1.isFinish, x.2)) =
      some (true, []) := by decide +kernel
  refine ⟨hrun, hpresent, fun hcomplete => ?_⟩
  obtain ⟨⟨s, L⟩, hs, heq⟩ := Option.map_eq_some_iff.mp hrun
  obtain ⟨hfin, rfl⟩ := Prod.mk.inj heq
  exact absurd (hcomplete.of_run hs hfin _ hpresent) (by simp)

/-! ### Numbered enumerations -/

/-- Without what it yields, a run is one of the iterator. -/
theorem PciIterator.run_of_collect {turns : List Unit}
    (h : Machine.run (fun x (_ : Unit) => PciIterator.collect t x) (s, L) turns = some (s', L')) :
    s.run t turns = some s' := by
  induction turns generalizing s L with
  | nil => exact congrArg (Option.map Prod.fst) h
  | cons e turns ih =>
    obtain ⟨x, hx, hrest⟩ := Machine.run_cons.mp h
    obtain ⟨s₁, hstep, rfl⟩ := Option.map_eq_some_iff.mp hx
    exact Machine.run_cons.mpr ⟨s₁, hstep, ih hrest⟩

/-- For every topology whose buses fit in the range: an enumeration ends with consistent bus numbers exactly when it
looks at no function with a header type it has no branch for, there is at most one bridge on the root bus, and no bridge
is at a function that is passed over, because a function before it on its device is a bridge or does not say that there
are more. -/
theorem numbered_iff {range : Option (Nat × Nat)} {last : Nat} (hrange : range.getD (0, 0x100) = (0, last))
    (hlast : last ≤ 256) (hfit : t.size < last) :
    Numbered t range ↔
      (∀ q m, q.bus ≤ t.size → t.slot q = some (.other m) → ¬ t.LookedAt (last - 1) q) ∧
      (∀ c d, t.forest.Hangs c 0 → t.forest.Hangs d 0 → c = d) ∧ ∀ c, t.forest.Node c → t.Scanned c := by
  obtain ⟨n, rfl⟩ : ∃ n, last = n + 1 := ⟨last - 1, by omega⟩
  rw [Nat.add_sub_cancel]
  have hends (hsingle : ∀ c d, t.forest.Hangs c 0 → t.forest.Hangs d 0 → c = d) :=
    enumerateByController_ends hrange (Nat.le_of_succ_le_succ hlast) fun c d hc hd _ _ => hsingle c d hc hd
  constructor
  · rintro ⟨turns, s, hrun, hfin, hconsistent⟩
    obtain ⟨hsingle, hall⟩ := hconsistent.visited (scanning_or_contested hrange hlast hfit hrun)
    refine ⟨fun q m hbus hslot hlooked => ?_, hsingle, hall⟩
    rcases hends hsingle with ⟨-, -, L, -, -, houtcome⟩ | ⟨-, turns', hnone⟩
    · have hreached := Topology.reached_of_scanned hall hbus
      obtain ⟨m', hm'⟩ := houtcome.endpoint ((houtcome.mem_iff hbus ⟨_, hslot, rfl⟩).mpr ⟨hreached, hlooked⟩)
      cases hslot.symm.trans hm'
    · obtain ⟨u, hu⟩ := PciIterator.run_of_finish hrun hfin turns'
      cases hnone.symm.trans hu
  · rintro ⟨hpasses, hsingle, hall⟩
    rcases hends hsingle with ⟨turns, s, L, hrun, hfin, -⟩ | ⟨⟨q, m, hbus, hslot, -, hlooked⟩, -⟩
    · have hrun := PciIterator.run_of_collect hrun
      refine ⟨turns, s, hrun, hfin, ?_⟩
      rcases scanning_or_contested hrange hlast hfit hrun with ⟨hfit', V, p, hs⟩ | hs
      · exact hs.consistent hfin hfit' hall
      · obtain ⟨c, d, hc, hd, hne, -⟩ := hs.twice
        exact absurd (hsingle c d hc hd) hne
    · exact absurd hlooked (hpasses q m hbus hslot)

def nestedBridges : Topology :=
  .ofList [⟨0, 0, 0⟩, ⟨1, 0, 0⟩] [(⟨0, 0, 0⟩, .bridge false 1), (⟨1, 0, 0⟩, .bridge false 2)] (by decide)

theorem numbered_nested : Numbered nestedBridges none := by
  have hplace : ∀ {c}, nestedBridges.forest.Node c →
      (nestedBridges.place c).function = 0 ∧ ((nestedBridges.place c).bus = 0 → c = 1) := by
    intro c ⟨hpos, hle⟩
    rcases Nat.le_succ_iff.mp (show c ≤ 1 + 1 from hle) with hle | rfl
    · exact ⟨by rw [Nat.le_antisymm hle hpos]; rfl, fun _ => Nat.le_antisymm hle hpos⟩
    · exact ⟨rfl, fun hbus => absurd hbus (by decide)⟩
  refine (numbered_iff rfl (Nat.le_refl 256) (by decide)).mpr
    ⟨fun q m _ hslot => ?_, fun c d hc hd => ?_, fun c hc g hg => ?_⟩
  · simpa using Topology.mem_of_lookup hslot
  · exact ((hplace hc.1).2 hc.2).trans ((hplace hd.1).2 hd.2).symm
  · exact absurd ((hplace hc).1 ▸ hg) (Nat.not_lt_zero g)

def siblingBridges : Topology :=
  .ofList [⟨0, 0, 0⟩, ⟨0, 1, 0⟩] [(⟨0, 0, 0⟩, .bridge false 1), (⟨0, 1, 0⟩, .bridge false 2)] (by decide)

/-- Both get number `1`. -/
theorem siblings_share_number :
    (((enumerateByController .reset none).run siblingBridges (List.replicate 96 ())).map fun s =>
      (s.isFinish, s.regs 1, s.regs 2)) = some (true, ⟨0, 1, 1⟩, ⟨0, 1, 1⟩) ∧ ¬ Numbered siblingBridges none := by
  constructor
  · decide +kernel
  · rintro ⟨turns, s, hrun, hfin, hconsistent⟩
    have hreached := scanning_or_contested rfl (Nat.le_refl 256) (by decide) hrun
    exact absurd ((hconsistent.visited hreached).1 1 2 ⟨⟨by decide, by decide⟩, rfl⟩ ⟨⟨by decide, by decide⟩, rfl⟩)
      (by decide)

end Sparreal.Pcie
