import Mathlib.Data.Set.Card
import Sparreal.Lib.WalkOrder
import Sparreal.Pcie.Spent

/-!
# Where an enumeration comes to

The iterator meets bridges and endpoints in the order of the devices on the way to them (`way`): at any place the
bridges before it have been visited (`Walk.mem_of_ahead`). On the bus with the last number the walk is past exactly what
comes before the start of this bus (`Walk.past_iff`).

So the number of bridges before a place tells how the iterator looks at it (`LookedAt`). While there are numbers left it
does if no function before it on its device is a bridge or says that there are no more (`Clear`). On the bus with the
last number bridges are passed over, and hide nothing (`Exposed`).
-/

namespace Sparreal.Pcie

open Forest

variable {t : Topology} {regs : Registers} {V : List Nat} {p : List (Nat × Nat)} {q : Place}
  {l : List Nat} {b c d j k f z : Nat}

/-! ### The order of the walk -/

def Topology.way (t : Topology) (b : Nat) : List Nat := t.forest.way (fun c => (t.place c).device) b

theorem Topology.way_hangs (h : t.forest.Hangs c b) : t.way c = t.way b ++ [(t.place c).device] := h.way_eq

theorem Topology.Reached.way_inj (hc : c ≤ t.size) (hd : d ≤ t.size) (hrc : t.Reached c) (hrd : t.Reached d)
    (h : t.way c = t.way d) : c = d :=
  Forest.way_inj (S := t.Reached) (F := t.forest) Topology.Reached.up
    (fun hc hd hcb hdb => (hc.scanned hcb.1).unique (hd.scanned hdb.1) hcb hdb) hc hd hrc hrd h

theorem Topology.Reached.under_of_prefix (hc : c ≤ t.size) (hd : d ≤ t.size) (hrc : t.Reached c) (hrd : t.Reached d)
    (h : t.way c <+: t.way d) : t.forest.Under d c :=
  Forest.under_of_way_prefix (S := t.Reached) (F := t.forest) Topology.Reached.up
    (fun hc hd hcb hdb => (hc.scanned hcb.1).unique (hd.scanned hdb.1) hcb hdb) hc hd hrc hrd h

/-- On an open bus above `z`, what is passed is up to the device the bus stands at. -/
theorem Walk.lt_way_iff (h : Walk t regs V ((z, j) :: p) f) {e : Nat × Nat} (he : e ∈ p) :
    t.way e.1 ++ [k] < t.way z ++ [j] ↔ k ≤ e.2 := by
  obtain ⟨x, hx, hangs, hdevice⟩ := h.path.exists_child he
  rw [h.path.mem_iff] at hx
  obtain ⟨r, hr⟩ : t.way x <+: t.way z := hx.way_prefix
  have hstart : t.way z ++ [j] = t.way e.1 ++ e.2 :: (r ++ [j]) := by
    rw [← hr, Topology.way_hangs hangs, hdevice]
    simp
  rw [hstart, concat_lt_append_cons]
  simp only [ne_eq, List.append_eq_nil_iff, List.cons_ne_nil, and_false, not_false_eq_true, and_true]
  omega

/-- The bridges before the device the walk stands at have been visited. -/
theorem Walk.mem_of_ahead (h : Walk t regs V ((b, k) :: p) f) (hc : t.forest.Node c) (hr : t.Reached c)
    (hlt : t.way c < t.way b ++ [k]) : c ∈ V := by
  induction c using Nat.strongRecOn with
  | ind c ih =>
    have hhangs : t.forest.Hangs c (t.place c).bus := ⟨hc, rfl⟩
    rw [Topology.way_hangs hhangs] at hlt
    refine (h.front c hc).mpr ⟨hr.scanned hc, ?_, fun hbus => .inl ?_, fun e he hbus => ?_⟩
    · by_cases h0 : (t.place c).bus = 0
      · exact .inl h0
      · exact .inr (ih _ hhangs.lt (hhangs.under.node hc h0) (hr.up hhangs.under) (lt_of_append_lt hlt))
    · obtain rfl : b = (t.place c).bus := hbus
      rw [concat_lt_append_cons] at hlt
      exact hlt.resolve_right fun hnil => hnil.2 rfl
    · rwa [← hbus, h.lt_way_iff he] at hlt

/-! ### At the start of a bus -/

section Start

variable (h : Walk t regs V ((z, 0) :: p) 0)

include h

theorem Walk.start_le : z ≤ t.size := h.labels.le_size (h.visited (z, 0) List.mem_cons_self)

theorem Walk.under_zero : t.forest.Under z 0 := by
  rcases h.visited (z, 0) List.mem_cons_self with rfl | hz
  · exact Under.refl _
  · exact (h.labels.node z hz).under_zero

/-- A bus the walk is through with comes before the start of bus `z` as a whole, as the bridge to it does. -/
theorem Walk.closed_lt (hb : b ∈ V) (hr : t.Reached b) (hpath : ¬ t.forest.Under z b)
    (hlt : t.way b < t.way z ++ [0]) (k : Nat) : t.way b ++ [k] < t.way z ++ [0] := by
  have hhangs : t.forest.Hangs b (t.place b).bus := ⟨h.labels.node b hb, rfl⟩
  have hb_le := hhangs.1.2
  have hz : t.Reached z := h.reached (h.visited (z, 0) List.mem_cons_self)
  refine append_lt hlt (fun hprefix => ?_) _
  rcases List.prefix_concat_iff.mp hprefix with heq | hprefix
  · rw [Topology.way_hangs hhangs] at heq
    have hparent_le := Nat.le_trans (Nat.le_of_lt hhangs.lt) hb_le
    have hsame := (hr.up hhangs.under).way_inj hparent_le h.start_le hz (List.append_inj' heq rfl).1
    exact h.not_hangs_start hb (hsame ▸ hhangs)
  · exact hpath (hr.under_of_prefix hb_le h.start_le hz hprefix)

/-- What the walk is past is what comes before the start of bus `z`. -/
theorem Walk.past_iff (hq : q.bus ≤ t.size) (hr : t.Reached q.bus) :
    Past V ((z, 0) :: p) 0 q ↔ t.way q.bus ++ [q.device] < t.way z ++ [0] := by
  obtain ⟨b, k, g⟩ := q
  induction b using Nat.strongRecOn generalizing k g with
  | ind b ih =>
    simp only at hq hr ⊢
    constructor
    · rintro ⟨hbus, hbehind⟩
      obtain ⟨hz, hopen⟩ := behind_start.mp hbehind
      by_cases hin : b ∈ p.map Prod.fst
      · obtain ⟨e, he, rfl⟩ := List.mem_map.mp hin
        exact (h.lt_way_iff he).mpr (hopen e he rfl)
      -- the walk is through with the bus, and with what is below the bridge to it
      have hpath : ¬ t.forest.Under z b := fun hunder =>
        List.not_mem_cons_of_ne_of_not_mem hz hin (h.path.mem_iff.mpr hunder)
      have hbV : b ∈ V := by
        refine hbus.resolve_left fun h0 => ?_
        obtain rfl : b = 0 := h0
        exact hpath h.under_zero
      have hhangs : t.forest.Hangs b (t.place b).bus := ⟨h.labels.node b hbV, rfl⟩
      refine h.closed_lt hbV hr hpath ?_ k
      rw [Topology.way_hangs hhangs]
      refine (ih _ hhangs.lt _ _ ?_ (hr.up hhangs.under)).mp ((h.front b hhangs.1).mp hbV).2
      exact Nat.le_trans (Nat.le_of_lt hhangs.lt) hq
    · intro hlt
      refine ⟨?_, behind_start.mpr ⟨?_, fun e he hbus => ?_⟩⟩
      · by_cases h0 : b = 0
        · exact .inl h0
        · exact .inr (h.mem_of_ahead ⟨Nat.pos_of_ne_zero h0, hq⟩ hr (lt_of_append_lt hlt))
      · rintro rfl
        simp [concat_lt_append_cons] at hlt
      · obtain rfl : e.1 = b := hbus
        exact (h.lt_way_iff he).mp hlt

end Start

/-! ### Counting bridges -/

/-- The bridges the iterator has come to before it comes to a position, if there are numbers for all of them. -/
def Topology.ahead (t : Topology) (l : List Nat) : Set Nat := {c | t.forest.Node c ∧ t.Reached c ∧ t.way c < l}

/-- With `n` numbers to give, the iterator looks at the place when it has come to its bus: there are numbers left then,
or the bus has the last one. -/
def Topology.LookedAt (t : Topology) (n : Nat) (q : Place) : Prop :=
  t.Clear q ∧ (t.ahead (t.way q.bus ++ [q.device])).ncard < n ∨
    t.Exposed q ∧ (t.ahead (t.way q.bus ++ [0])).ncard = n

theorem Topology.ahead_finite : (t.ahead l).Finite := (Set.finite_le_nat t.size).subset fun _ hc => hc.1.2

theorem Topology.ahead_mono {m : List Nat} (hle : ¬ m < l) : t.ahead l ⊆ t.ahead m :=
  fun _ hc => ⟨hc.1, hc.2.1, lt_of_lt_of_le hc.2.2 (not_lt.mp hle)⟩

theorem ncard_mem (hnodup : V.Nodup) : {c | c ∈ V}.ncard = V.length := by
  rw [← List.coe_toFinset, Set.ncard_coe_finset, List.toFinset_card_of_nodup hnodup]

theorem Topology.ncard_ahead_le (hnodup : V.Nodup) (hV : ∀ c ∈ t.ahead l, c ∈ V) : (t.ahead l).ncard ≤ V.length := by
  rw [← ncard_mem hnodup]
  exact Set.ncard_le_ncard hV (List.finite_toSet V)

theorem Walk.ncard_ahead_le (h : Walk t regs V ((b, k) :: p) f) : (t.ahead (t.way b ++ [k])).ncard ≤ V.length :=
  Topology.ncard_ahead_le h.labels.nodup fun _ hc => h.mem_of_ahead hc.1 hc.2.1 hc.2.2

/-- Before the start of a bus there are more bridges than before any earlier position, since the bridge to the bus is
one of them. -/
theorem Topology.Reached.ncard_ahead_lt (hr : t.Reached b) (hb : b ≤ t.size)
    (hlt : t.way c ++ [k] < t.way b ++ [0]) : (t.ahead (t.way c ++ [k])).ncard < (t.ahead (t.way b ++ [0])).ncard := by
  have hnot := lt_concat_zero.mp hlt
  have h0 : b ≠ 0 := by
    rintro rfl
    rw [Topology.way, way_zero] at hnot
    exact hnot (by cases t.way c <;> simp)
  refine Set.ncard_lt_ncard ⟨Topology.ahead_mono (lt_asymm hlt), fun hsub => ?_⟩ Topology.ahead_finite
  have hstart : b ∈ t.ahead (t.way b ++ [0]) :=
    ⟨⟨Nat.pos_of_ne_zero h0, hb⟩, hr, lt_concat_zero.mpr (lt_irrefl _)⟩
  exact hnot (hsub hstart).2.2

/-- The bridges visited are those before the start of bus `z`. -/
theorem Walk.ncard_ahead_start (h : Walk t regs V ((z, 0) :: p) 0) :
    (t.ahead (t.way z ++ [0])).ncard = V.length := by
  rw [← ncard_mem h.labels.nodup]
  congr 1
  ext c
  constructor
  · rintro ⟨hc, hr, hlt⟩
    exact h.mem_of_ahead hc hr hlt
  · intro hmem
    have hc := h.labels.node c hmem
    have hr := h.reached (.inr hmem)
    have hhangs : t.forest.Hangs c (t.place c).bus := ⟨hc, rfl⟩
    refine ⟨hc, hr, ?_⟩
    rw [Topology.way_hangs hhangs]
    refine (h.past_iff (q := t.place c) (Nat.le_trans (Nat.le_of_lt hhangs.lt) hc.2) (hr.up hhangs.under)).mp ?_
    exact ((h.front c hc).mp hmem).2

end Sparreal.Pcie
