import Sparreal.Pcie.Routing

/-!
# The walk over the buses

Where the enumeration stands: the bridges visited so far, the last one first, and the open buses, each with the
device its scan has come to. `Walk` says that the numbers label the bridges visited and which bridges those are: of
those the iterator looks at the ones the walk is `Past`. The iterator goes from one such position to another by passing a
function (`Walk.skip`), leaving a device (`Walk.leave`, `Walk.nextDevice`), going down to the bus behind a bridge
(`Walk.push`) and coming back from it (`Walk.pop`). As long as there are numbers left, it comes to a bus if it looks at
every bridge above it (`Reached`).
-/

namespace Sparreal.Pcie

open Forest

variable {t : Topology} {regs : Registers} {V : List Nat} {p : List (Nat × Nat)} {q : Place} {b c k f x : Nat}

/-- Nothing at the functions before this one keeps the iterator from it: what is there says that the device has more
functions, and is no bridge, after which the rest of the device is passed over. -/
def Topology.Clear (t : Topology) (place : Place) : Prop :=
  ∀ g < place.function, ∀ x, t.slot { place with function := g } = some x →
    x.hasMultipleFunctions = true ∧ x.isBridge = false

/-- The iterator looks at the bridge, once it has come to its bus. -/
def Topology.Scanned (t : Topology) (c : Nat) : Prop := t.Clear (t.place c)

/-- The scan of its bus comes to the place before it comes to function `f` of device `k`. -/
def Place.Before (q : Place) (k f : Nat) : Prop := q.device < k ∨ q.device = k ∧ q.function < f

/-- Where its bus is open, the scan is past the place. The bus on top is scanned up to function `f`, and those under it
are through with the device they stand at. -/
def Behind (f : Nat) : List (Nat × Nat) → Place → Prop
  | [], _ => True
  | e :: p, q => (e.1 = q.bus → q.Before e.2 f) ∧ ∀ e' ∈ p, e'.1 = q.bus → q.device ≤ e'.2

/-- The walk is past the place: its bus has been visited, and the scan is past it there. -/
def Past (V : List Nat) (p : List (Nat × Nat)) (f : Nat) (q : Place) : Prop :=
  (q.bus = 0 ∨ q.bus ∈ V) ∧ Behind f p q

/-- The open buses, each behind a bridge on the device where the bus under it on the stack stands. -/
def Descends (t : Topology) : List (Nat × Nat) → Prop
  | [] => True
  | [e] => e.1 = 0
  | e :: e' :: p => t.forest.Hangs e.1 e'.1 ∧ (t.place e.1).device = e'.2 ∧ Descends t (e' :: p)

structure Walk (t : Topology) (regs : Registers) (V : List Nat) (p : List (Nat × Nat)) (f : Nat) : Prop where
  labels : Labelled t regs V
  primary : ∀ c ∈ V, (regs c).primary = regs.number (t.place c).bus
  /-- A bridge on the root bus always gets number `1`. -/
  first : ∀ c ∈ V, (t.place c).bus = 0 → (regs c).secondary = 1
  path : Descends t p
  device_le : ∀ e ∈ p, e.2 ≤ maxDevice
  visited : ∀ e ∈ p, e.1 = 0 ∨ e.1 ∈ V
  /-- An open bridge takes every number given out so far and not below its own. -/
  isOpen : ∀ e ∈ p, e.1 ≠ 0 → (regs e.1).subordinate = V.length
  front : ∀ c, t.forest.Node c → (c ∈ V ↔ t.Scanned c ∧ Past V p f (t.place c))

/-! ### The open buses -/

theorem Descends.tail {e : Nat × Nat} (h : Descends t (e :: p)) : Descends t p := by
  cases p with
  | nil => trivial
  | cons e' p => exact h.2.2

theorem Descends.mem_iff {x : Nat} (h : Descends t ((b, k) :: p)) :
    x ∈ ((b, k) :: p).map Prod.fst ↔ t.forest.Under b x := by
  induction p generalizing b k with
  | nil =>
    obtain rfl : b = 0 := h
    simp only [List.map_cons, List.map_nil, List.mem_singleton]
    exact ⟨fun hx => hx ▸ Under.refl _, fun hx => Nat.le_zero.mp hx.le⟩
  | cons e p ih =>
    obtain ⟨hbe, -, hrest⟩ := h
    rw [List.map_cons, List.mem_cons, ih hrest, hbe.under_iff]

/-- An open bus other than the one on top is where the next one hangs. -/
theorem Descends.exists_child {e e' : Nat × Nat} (h : Descends t (e :: p)) (he' : e' ∈ p) :
    ∃ x ∈ (e :: p).map Prod.fst, t.forest.Hangs x e'.1 ∧ (t.place x).device = e'.2 := by
  induction p generalizing e with
  | nil => cases he'
  | cons e₁ p ih =>
    obtain ⟨hangs, hdevice, hrest⟩ := h
    rcases List.mem_cons.mp he' with rfl | he'
    · exact ⟨e.1, List.mem_cons_self, hangs, hdevice⟩
    · obtain ⟨x, hx, hchild⟩ := ih hrest he'
      exact ⟨x, List.mem_cons_of_mem _ hx, hchild⟩

theorem Descends.nodup (h : Descends t p) : (p.map Prod.fst).Nodup := by
  induction p with
  | nil => exact List.nodup_nil
  | cons e p ih =>
    refine List.nodup_cons.mpr ⟨?_, ih h.tail⟩
    cases p with
    | nil => simp
    | cons e' p =>
      intro hmem
      exact absurd (h.2.2.mem_iff.mp hmem).le (Nat.not_le.mpr h.1.lt)

theorem Walk.notMem_path (h : Walk t regs V p f) (hc : t.forest.Node c) (hnew : c ∉ V) : c ∉ p.map Prod.fst := by
  intro hin
  obtain ⟨e, he, rfl⟩ := List.mem_map.mp hin
  exact (h.visited e he).elim (Nat.ne_of_gt hc.1) hnew

/-! ### Moving on -/

theorem Topology.place_eq (hc : t.forest.Hangs c b) (hdevice : (t.place c).device = k) :
    t.place c = ⟨b, k, (t.place c).function⟩ := by
  have hbus : (t.place c).bus = b := hc.2
  rw [← hbus, ← hdevice]

theorem Topology.node_lt (hc : t.forest.Node c) : (t.place c).device < 32 ∧ (t.place c).function < 8 := by
  obtain ⟨m, hm⟩ := t.slot_place hc.1 hc.2
  exact t.slot_lt hm

theorem Place.before_succ (hbus : q.bus = b) : q.Before k (f + 1) ↔ q.Before k f ∨ q = ⟨b, k, f⟩ := by
  obtain ⟨bus, device, function⟩ := q
  obtain rfl : bus = b := hbus
  simp only [Before, Place.mk.injEq, true_and]
  omega

theorem behind_eight (hlt : q.function < 8) : Behind 8 p q ↔ ∀ e ∈ p, e.1 = q.bus → q.device ≤ e.2 := by
  cases p with
  | nil => simp [Behind]
  | cons e p =>
    have hbefore : q.Before e.2 8 ↔ q.device ≤ e.2 := by
      unfold Place.Before
      omega
    rw [Behind, hbefore, List.forall_mem_cons]

theorem behind_start : Behind 0 ((c, 0) :: p) q ↔ q.bus ≠ c ∧ ∀ e ∈ p, e.1 = q.bus → q.device ≤ e.2 := by
  simp [Behind, Place.Before, eq_comm]

theorem not_past_start : ¬ Past [] [(0, 0)] 0 q := by
  rintro ⟨hbus, hbehind⟩
  exact (behind_start.mp hbehind).1 (hbus.resolve_right List.not_mem_nil)

theorem past_succ (hvisited : b = 0 ∨ b ∈ V) (hpath : b ∉ p.map Prod.fst) :
    Past V ((b, k) :: p) (f + 1) q ↔ Past V ((b, k) :: p) f q ∨ q = ⟨b, k, f⟩ := by
  constructor
  · rintro ⟨hbus, hbefore, hunder⟩
    by_cases heq : b = q.bus
    · exact ((Place.before_succ heq.symm).mp (hbefore heq)).imp_left fun hbefore => ⟨hbus, fun _ => hbefore, hunder⟩
    · exact .inl ⟨hbus, fun hb => absurd hb heq, hunder⟩
  · rintro (⟨hbus, hbefore, hunder⟩ | rfl)
    · exact ⟨hbus, fun heq => (Place.before_succ heq.symm).mpr (.inl (hbefore heq)), hunder⟩
    · refine ⟨hvisited, fun _ => (Place.before_succ rfl).mpr (.inr rfl), fun e he hbus => ?_⟩
      exact absurd (List.mem_map.mpr ⟨e, he, hbus⟩) hpath

/-- Nothing at function `f` of the device or after it matters. -/
theorem past_leave (hlt : q.function < 8) (hnot : q.bus = b → q.device = k → q.function < f) :
    Past V ((b, k) :: p) f q ↔ Past V ((b, k) :: p) 8 q := by
  refine and_congr_right' (and_congr_left' (imp_congr_right fun hbus => ?_))
  have hbefore := hnot hbus.symm
  unfold Place.Before
  omega

theorem past_next (hlt : q.function < 8) : Past V ((b, k) :: p) 8 q ↔ Past V ((b, k + 1) :: p) 0 q := by
  refine and_congr_right' (and_congr_left' ?_)
  simp only [Place.Before]
  omega

theorem past_pop (hlt : q.device < 32 ∧ q.function < 8) : Past V ((b, maxDevice) :: p) 8 q ↔ Past V p 8 q := by
  refine and_congr_right' ?_
  rw [behind_eight hlt.2, behind_eight hlt.2, List.forall_mem_cons]
  exact and_iff_right fun _ => Nat.le_of_lt_succ hlt.1

theorem past_visit (hlt : q.function < 8) (hnew : c ∉ V) (hpos : c ≠ 0) :
    Past (c :: V) ((c, 0) :: p) 0 q ↔ Past V p 8 q := by
  rw [Past, Past, behind_eight hlt, behind_start, ← and_assoc]
  refine and_congr_left' ⟨fun ⟨hbus, hne⟩ => ?_, fun hbus => ⟨hbus.imp_right (List.mem_cons_of_mem c), ?_⟩⟩
  · exact hbus.imp_right fun hmem => (List.mem_cons.mp hmem).resolve_left hne
  · rintro rfl
    exact hbus.elim hpos hnew

theorem Walk.skip (h : Walk t regs V ((b, k) :: p) f) (hslot : ∀ m c, t.slot ⟨b, k, f⟩ ≠ some (.bridge m c)) :
    Walk t regs V ((b, k) :: p) (f + 1) := by
  refine { h with front := fun c hc => ?_ }
  rw [h.front c hc, past_succ (h.visited _ List.mem_cons_self) (List.nodup_cons.mp h.path.nodup).1, or_iff_left]
  intro hplace
  obtain ⟨m, hm⟩ := t.slot_place hc.1 hc.2
  exact hslot m c (hplace ▸ hm)

/-- Leave a device when none of the bridges left on it is to be visited. -/
theorem Walk.leave (h : Walk t regs V ((b, k) :: p) f)
    (hleft : ∀ c, t.forest.Hangs c b → (t.place c).device = k → f ≤ (t.place c).function → ¬ t.Scanned c) :
    Walk t regs V ((b, k) :: p) 8 := by
  refine { h with front := fun c hc => ?_ }
  rw [h.front c hc]
  refine and_congr_right fun hscanned => past_leave (Topology.node_lt hc).2 fun hbus hdevice => ?_
  exact Nat.not_le.mp fun hle => hleft c ⟨hc, hbus⟩ hdevice hle hscanned

theorem Walk.nextDevice (h : Walk t regs V ((b, k) :: p) 8) (hk : k ≠ maxDevice) :
    Walk t regs V ((b, k + 1) :: p) 0 := by
  have hle := (List.forall_mem_cons.mp h.device_le).1
  refine { h with path := ?_, device_le := ?_, visited := ?_, isOpen := ?_, front := ?_ }
  · cases p with
    | nil => exact h.path
    | cons e p => exact h.path
  · exact List.forall_mem_cons.mpr ⟨Nat.lt_of_le_of_ne hle hk, (List.forall_mem_cons.mp h.device_le).2⟩
  · exact List.forall_mem_cons.mpr (List.forall_mem_cons.mp h.visited)
  · exact List.forall_mem_cons.mpr (List.forall_mem_cons.mp h.isOpen)
  · intro c hc
    rw [h.front c hc, past_next (Topology.node_lt hc).2]

theorem Walk.pop (h : Walk t regs V ((b, maxDevice) :: p) 8) : Walk t regs V p 8 := by
  refine { h with path := h.path.tail, device_le := ?_, visited := ?_, isOpen := ?_, front := ?_ }
  · exact (List.forall_mem_cons.mp h.device_le).2
  · exact (List.forall_mem_cons.mp h.visited).2
  · exact (List.forall_mem_cons.mp h.isOpen).2
  · intro c hc
    rw [h.front c hc, past_pop (Topology.node_lt hc)]

/-! ### Going down -/

/-- The registers after a bridge on the bus on top has been numbered and the open bridges have made room. -/
def Registers.descend (t : Topology) (regs : Registers) (p : List (Nat × Nat)) (n c : Nat) : Registers :=
  Registers.raise (Function.update regs c ⟨regs.number (t.place c).bus, n, n⟩) (p.map Prod.fst)

section Descend

variable {n : Nat}

theorem Registers.descend_self (hc : c ∉ p.map Prod.fst) :
    regs.descend t p n c c = ⟨regs.number (t.place c).bus, n, n⟩ := by
  simp [descend, raise, hc]

theorem Registers.descend_of_ne (hx : x ≠ c) : regs.descend t p n c x = regs.raise (p.map Prod.fst) x := by
  simp [descend, raise, hx]

theorem Registers.raise_primary {B : List Nat} : (regs.raise B c).primary = (regs c).primary := by
  unfold raise
  split <;> rfl

theorem Registers.number_descend (hx : x ≠ c) : (regs.descend t p n c).number x = regs.number x := by
  simp only [number, descend_of_ne hx, raise_secondary]

end Descend

theorem Walk.labels_descend {e : Nat × Nat} (h : Walk t regs V (e :: p) f) (hc : t.forest.Hangs c e.1)
    (hnew : c ∉ V) : Labelled t (regs.descend t (e :: p) (V.length + 1) c) (c :: V) := by
  have hself := h.notMem_path hc.1 hnew
  have hopen : ∀ x, x ≠ 0 → x ∈ (e :: p).map Prod.fst → (regs x).subordinate = V.length := by
    intro x hx0 hx
    obtain ⟨e', he', rfl⟩ := List.mem_map.mp hx
    exact h.isOpen e' he' hx0
  have hunder : ∀ x, t.forest.Under c x ↔ x = c ∨ x ∈ (e :: p).map Prod.fst := by
    intro x
    rw [hc.under_iff, h.path.mem_iff]
  refine h.labels.push hc.1 hnew (hc.2.symm ▸ h.visited e List.mem_cons_self) ?_ ?_ ?_ ?_ ?_
  · intro x hxc hx0 hcx
    exact hopen x hx0 (((hunder x).mp hcx).resolve_left hxc)
  · simp only [Registers.descend_self hself]
  · intro x hxc
    simp only [Registers.descend_of_ne hxc, Registers.raise_secondary]
  · intro x hx0 hcx
    rcases (hunder x).mp hcx with rfl | hx
    · simp only [Registers.descend_self hself]
    · have hxc : x ≠ c := fun heq => hself (heq ▸ hx)
      simp only [Registers.descend_of_ne hxc, Registers.raise, if_pos (And.intro hx0 hx), hopen x hx0 hx]
  · intro x hx
    rw [hunder] at hx
    have hxc : x ≠ c := by
      rcases hx with rfl | hx
      · exact (Nat.ne_of_gt hc.1.1).symm
      · exact fun heq => hx (Or.inl heq)
    have hnot : ¬ (x ≠ 0 ∧ x ∈ (e :: p).map Prod.fst) := by tauto
    simp only [Registers.descend_of_ne hxc, Registers.raise, if_neg hnot]

theorem Walk.fresh {m : Bool} (h : Walk t regs V ((b, k) :: p) f) (hslot : t.slot ⟨b, k, f⟩ = some (.bridge m c)) :
    t.place c = ⟨b, k, f⟩ ∧ t.forest.Hangs c b ∧ c ∉ V := by
  obtain ⟨hpos, hle, hplace⟩ := t.bridge_place hslot
  have hc : t.forest.Hangs c b := ⟨⟨hpos, hle⟩, congrArg Place.bus hplace⟩
  refine ⟨hplace, hc, fun hmem => ?_⟩
  have hbefore := ((h.front c hc.1).mp hmem).2.2.1 hc.2.symm
  simp [Place.Before, hplace] at hbefore

theorem Topology.Clear.not_bridge {m : Bool} {g : Nat} (h : t.Clear ⟨b, k, g⟩) (hlt : f < g) :
    t.slot ⟨b, k, f⟩ ≠ some (.bridge m c) := by
  intro hslot
  exact absurd (h f hlt _ hslot).2 (by simp [PciFunction.isBridge])

theorem Topology.Scanned.clear (h : t.Scanned c) (hc : t.forest.Hangs c b) (hdevice : (t.place c).device = k) :
    t.Clear ⟨b, k, (t.place c).function⟩ := place_eq hc hdevice ▸ h

/-- The bridge at which the walk goes down is the last one of its device. -/
theorem Walk.front_push {m : Bool} (h : Walk t regs V ((b, k) :: p) f)
    (hslot : t.slot ⟨b, k, f⟩ = some (.bridge m c)) (hclear : t.Clear ⟨b, k, f⟩) (hx : t.forest.Node x) :
    x ∈ c :: V ↔ t.Scanned x ∧ Past V ((b, k) :: p) 8 (t.place x) := by
  have hplace : t.place x = ⟨b, k, f⟩ ↔ x = c := by
    constructor
    · intro hplace
      obtain ⟨m', hm'⟩ := t.slot_place hx.1 hx.2
      rw [hplace, hslot] at hm'
      injection hm' with hm'
      injection hm' with _ hcx
      exact hcx.symm
    · rintro rfl
      exact (h.fresh hslot).1
  have hlast (hscanned : t.Scanned x) :
      Past V ((b, k) :: p) 8 (t.place x) ↔ Past V ((b, k) :: p) f (t.place x) ∨ x = c := by
    rw [← hplace, ← past_succ (h.visited _ List.mem_cons_self) (List.nodup_cons.mp h.path.nodup).1]
    refine (past_leave (Topology.node_lt hx).2 fun hbus hdevice => Nat.lt_succ_of_le (Nat.not_lt.mp fun hlt => ?_)).symm
    exact absurd hslot ((hscanned.clear ⟨hx, hbus⟩ hdevice).not_bridge hlt)
  rw [List.mem_cons, h.front x hx]
  constructor
  · rintro (hxc | ⟨hscanned, hpast⟩)
    · have hscanned : t.Scanned x := by
        rw [Topology.Scanned, hplace.mpr hxc]
        exact hclear
      exact ⟨hscanned, (hlast hscanned).mpr (.inr hxc)⟩
    · exact ⟨hscanned, (hlast hscanned).mpr (.inl hpast)⟩
  · rintro ⟨hscanned, hpast⟩
    exact ((hlast hscanned).mp hpast).symm.imp_right fun hpast => ⟨hscanned, hpast⟩

theorem Walk.push {m : Bool} (h : Walk t regs V ((b, k) :: p) f) (hslot : t.slot ⟨b, k, f⟩ = some (.bridge m c))
    (hclear : t.Clear ⟨b, k, f⟩) (hroot : b = 0 → V = []) :
    Walk t (regs.descend t ((b, k) :: p) (V.length + 1) c) (c :: V) ((c, 0) :: (b, k) :: p) 0 := by
  obtain ⟨hplace, hc, hnew⟩ := h.fresh hslot
  have hself := h.notMem_path hc.1 hnew
  have hne : ∀ x ∈ V, x ≠ c := fun x hx heq => hnew (heq ▸ hx)
  have hnumber : ∀ x, x = 0 ∨ x ∈ V → (regs.descend t ((b, k) :: p) (V.length + 1) c).number x = regs.number x :=
    fun x hx => Registers.number_descend (hx.elim (fun h0 => h0 ▸ (Nat.ne_of_gt hc.1.1).symm) (hne x))
  refine ⟨h.labels_descend hc hnew, ?_, ?_, ⟨hc, congrArg Place.device hplace, h.path⟩, ?_, ?_, ?_, ?_⟩
  · refine List.forall_mem_cons.mpr ⟨?_, fun x hx => ?_⟩
    · rw [hplace, hnumber b (h.visited (b, k) List.mem_cons_self), Registers.descend_self hself, hplace]
    · rw [hnumber _ (h.labels.bus_mem hx), Registers.descend_of_ne (hne x hx), Registers.raise_primary]
      exact h.primary x hx
  · refine List.forall_mem_cons.mpr ⟨fun h0 => ?_, fun x hx h0 => ?_⟩
    · rw [Registers.descend_self hself, hroot (hc.2.symm.trans h0)]
      rfl
    · rw [Registers.descend_of_ne (hne x hx), Registers.raise_secondary]
      exact h.first x hx h0
  · exact List.forall_mem_cons.mpr ⟨Nat.zero_le _, h.device_le⟩
  · refine List.forall_mem_cons.mpr ⟨Or.inr List.mem_cons_self, fun e he => ?_⟩
    exact (h.visited e he).imp_right (List.mem_cons_of_mem c)
  · refine List.forall_mem_cons.mpr ⟨fun _ => ?_, fun e he h0 => ?_⟩
    · rw [Registers.descend_self hself, List.length_cons]
    · have hmem : e.1 ∈ ((b, k) :: p).map Prod.fst := List.mem_map_of_mem he
      have hec : e.1 ≠ c := fun heq => hself (heq ▸ hmem)
      rw [Registers.descend_of_ne hec, Registers.raise, if_pos ⟨h0, hmem⟩, List.length_cons]
      exact congrArg (· + 1) (h.isOpen e he h0)
  · intro x hx
    rw [h.front_push hslot hclear hx, past_visit (Topology.node_lt hx).2 hnew (Nat.ne_of_gt hc.1.1)]

/-! ### What has been visited -/

theorem Walk.not_hangs_start {z : Nat} (h : Walk t regs V ((z, 0) :: p) 0) (hc : c ∈ V) : ¬ t.forest.Hangs c z := by
  intro hz
  exact (behind_start.mp ((h.front c hz.1).mp hc).2.2).1 hz.2

theorem Topology.slot_of_none (hslot : t.slot ⟨b, k, 0⟩ = none) (g : Nat) : t.slot ⟨b, k, g⟩ = none := by
  by_contra hne
  obtain ⟨x, hx⟩ := Option.ne_none_iff_exists'.mp hne
  obtain ⟨y, hy⟩ := t.function_zero hx
  rw [hslot] at hy
  cases hy

theorem Topology.slot_after_last {g : Nat} (hf : f = maxFunction) (hg : f < g) : t.slot ⟨b, k, g⟩ = none := by
  by_contra hne
  obtain ⟨x, hx⟩ := Option.ne_none_iff_exists'.mp hne
  have hlt : g < 8 := (t.slot_lt hx).2
  simp only [maxFunction] at hf
  omega

/-- Two bridges on one device are not both looked at. -/
theorem Topology.Scanned.unique {d : Nat} (hc : t.Scanned c) (hd : t.Scanned d) (hcb : t.forest.Hangs c b)
    (hdb : t.forest.Hangs d b) (hdevice : (t.place c).device = (t.place d).device) : c = d := by
  wlog hle : (t.place c).function ≤ (t.place d).function generalizing c d
  · exact (this hd hc hdb hcb hdevice.symm (Nat.le_of_not_le hle)).symm
  obtain ⟨m, hm⟩ := t.slot_place hcb.1.1 hcb.1.2
  obtain ⟨m', hm'⟩ := t.slot_place hdb.1.1 hdb.1.2
  rw [Topology.place_eq hcb hdevice] at hm
  rw [Topology.place_eq hdb rfl] at hm'
  rcases Nat.eq_or_lt_of_le hle with heq | hlt
  · rw [heq, hm'] at hm
    injection hm with hm
    injection hm with _ hdc
    exact hdc.symm
  · exact absurd hm ((hd.clear hdb rfl).not_bridge hlt)

theorem Walk.scanned (h : Walk t regs V p f) (hc : c ∈ V) : t.Scanned c :=
  ((h.front c (h.labels.node c hc)).mp hc).1

/-! ### Reached buses -/

/-- The iterator comes to the bus, if there are numbers left. -/
def Topology.Reached (t : Topology) (b : Nat) : Prop := ∀ x, x ≠ 0 → t.forest.Under b x → t.Scanned x

theorem Topology.reached_zero : t.Reached 0 := fun _ hx hunder => absurd (Nat.le_zero.mp hunder.le) hx

theorem Topology.reached_of_scanned (hall : ∀ c, t.forest.Node c → t.Scanned c) (hb : b ≤ t.size) : t.Reached b :=
  fun x hx hunder => hall x ⟨Nat.pos_of_ne_zero hx, hunder.le.trans hb⟩

theorem Topology.Reached.up {d : Nat} (h : t.Reached d) (hunder : t.forest.Under d c) : t.Reached c :=
  fun x hx hcx => h x hx (hunder.trans hcx)

theorem Topology.Reached.scanned (h : t.Reached c) (hc : t.forest.Node c) : t.Scanned c :=
  h c (Nat.ne_of_gt hc.1) (Under.refl c)

theorem Topology.reached_iff (hc : t.forest.Hangs c b) : t.Reached c ↔ t.Reached b ∧ t.Scanned c := by
  constructor
  · intro h
    exact ⟨h.up hc.under, h.scanned hc.1⟩
  · rintro ⟨hb, hscanned⟩ x hx hunder
    rcases hc.under_iff.mp hunder with rfl | hunder
    · exact hscanned
    · exact hb x hx hunder

theorem Walk.reached (h : Walk t regs V p f) (hc : c = 0 ∨ c ∈ V) : t.Reached c := by
  induction c using Nat.strongRecOn with
  | ind c ih =>
    rcases hc with rfl | hc
    · exact Topology.reached_zero
    · have hhangs : t.forest.Hangs c (t.place c).bus := ⟨h.labels.node c hc, rfl⟩
      rw [Topology.reached_iff hhangs]
      exact ⟨ih _ hhangs.lt (h.labels.closed c hc), h.scanned hc⟩

/-- When no bus is open any more, the bridges left out are those that are not looked at, and what is behind them. -/
theorem Walk.mem_iff_reached (h : Walk t regs V [] f) (hc : t.forest.Node c) : c ∈ V ↔ t.Reached c := by
  refine ⟨fun hmem => h.reached (.inr hmem), fun hr => ?_⟩
  induction c using Nat.strongRecOn with
  | ind c ih =>
    have hhangs : t.forest.Hangs c (t.place c).bus := ⟨hc, rfl⟩
    obtain ⟨hparent, hscanned⟩ := (Topology.reached_iff hhangs).mp hr
    refine (h.front c hc).mpr ⟨hscanned, ?_, trivial⟩
    by_cases h0 : (t.place c).bus = 0
    · exact .inl h0
    · exact .inr (ih _ hhangs.lt (hhangs.under.node hc h0) hparent)

end Sparreal.Pcie
