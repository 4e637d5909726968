import Sparreal.Pcie.Numbering

/-!
# The endpoints an enumeration yields

`collect` is the iterator with what it has yielded so far. An endpoint is known by its place, since its address is
only as good as the bus numbers. `Yields` says what a list of places has of a topology: endpoints only, each once, and
of the functions that are no bridges exactly those with a property. Of a function the iterator has no branch for that
says that it was not looked at.

`Listing` is the property for a position on the walk: the place is looked at at all, and the walk is `Past` it. The
moves of the walk keep it: a function is passed (`Listing.pass`), a device is left (`Listing.leave`, `Listing.carry`),
and a bridge is entered (`Listing.visit`).
-/

namespace Sparreal.Pcie

open Forest

variable {t : Topology} {s s' : PciIterator} {V : List Nat} {p p' : List (Nat × Nat)} {L : List Place} {b c k f : Nat}

/-! ### What a turn yields -/

def Topology.placeOf (t : Topology) (regs : Registers) (a : PciAddress) : Option Place :=
  (t.busOf regs a.bus).map fun b => ⟨b, a.device, a.function⟩

/-- The endpoint a turn yields. -/
def PciIterator.item (t : Topology) (s : PciIterator) : Option Place :=
  if s.isFinish then none
  else
    match s.getCurrentValid t with
    | some (some .endpoint, _) => (s.address t).bind (t.placeOf s.regs)
    | _ => none

/-- One turn, and the endpoints yielded so far. -/
def PciIterator.collect (t : Topology) (x : PciIterator × List Place) : Option (PciIterator × List Place) :=
  (x.1.step t).map fun s => (s, x.2 ++ (x.1.item t).toList)

def Topology.endpointAt (t : Topology) (q : Place) : Option Place :=
  match t.slot q with
  | some (.endpoint _) => some q
  | _ => none

theorem Topology.mem_endpointAt {q q' : Place} :
    q' ∈ (t.endpointAt q).toList ↔ q' = q ∧ ∃ m, t.slot q = some (.endpoint m) := by
  unfold endpointAt
  rcases t.slot q with _ | (m | ⟨m, c⟩ | m) <;> simp

theorem PciIterator.item_eq {parent : Bridge} {stack : List Bridge} (hfin : s.isFinish = false)
    (hstack : s.stack = parent :: stack) : s.item t =
      match t.header s.regs (s.here t parent) with
      | some (.endpoint _) => t.placeOf s.regs (s.here t parent)
      | _ => none := by
  have haddress : s.address t = some (s.here t parent) := by rw [address, hstack]; rfl
  rw [item, if_neg (by simp [hfin]), getCurrentValid, haddress]
  rcases hheader : t.header s.regs (s.here t parent) with _ | (m | ⟨m, c⟩ | m)
  · simp [hheader]
  · simp [hheader]
  · simp only [Option.bind_eq_bind, Option.bind_some, hheader, hstack]
    by_cases hmax : parent.bridge.subordinateBusNumber t s.regs = s.busMax
    · simp only [if_pos hmax]
    · simp only [if_neg hmax]
  · simp [hheader]

/-- On a bus that has been visited a turn yields the endpoint the iterator stands at. -/
theorem Walk.item_eq {stack : List Bridge} (h : Walk t s.regs V p f) (hb : b = 0 ∨ b ∈ V) (hfin : s.isFinish = false)
    (hstack : s.stack = ⟨t.bridgeOf s.regs b, k⟩ :: stack) : s.item t = t.endpointAt ⟨b, k, s.function⟩ := by
  obtain ⟨hhere, hheader⟩ := h.here_eq hb k
  have hplace : t.placeOf s.regs (s.here t ⟨t.bridgeOf s.regs b, k⟩) = some ⟨b, k, s.function⟩ := by
    rw [hhere, Topology.placeOf, h.labels.busOf_number hb]
    rfl
  rw [PciIterator.item_eq hfin hstack, hheader, hplace]
  rfl

/-! ### What has been yielded -/

/-- A function that is not a bridge. -/
def Topology.Leaf (t : Topology) (q : Place) : Prop := ∃ x, t.slot q = some x ∧ x.isBridge = false

theorem Topology.Leaf.lt {q : Place} (h : t.Leaf q) : q.device < 32 ∧ q.function < 8 := by
  obtain ⟨x, hx, -⟩ := h
  exact t.slot_lt hx

theorem Topology.Leaf.endpoint {q : Place} (h : t.Leaf q) (hknown : ∀ m, t.slot q ≠ some (.other m)) :
    ∃ m, t.slot q = some (.endpoint m) := by
  obtain ⟨m | _ | m, hx, hleaf⟩ := h
  · exact ⟨m, hx⟩
  · cases hleaf
  · exact absurd hx (hknown m)

/-- The list has endpoints only, each once, and of the functions that are no bridges those in `S`. -/
structure Yields (t : Topology) (L : List Place) (S : Place → Prop) : Prop where
  nodup : L.Nodup
  endpoint : ∀ q ∈ L, ∃ m, t.slot q = some (.endpoint m)
  mem_iff : ∀ q, t.Leaf q → (q ∈ L ↔ S q)

section Yields

variable {S S' : Place → Prop} {q : Place}

theorem yields_nil (hS : ∀ q, ¬ S q) : Yields t [] S := ⟨List.nodup_nil, by simp, fun q _ => by simp [hS q]⟩

theorem Yields.congr (h : Yields t L S) (hS : ∀ q, t.Leaf q → (S q ↔ S' q)) : Yields t L S' :=
  { h with mem_iff := fun q hleaf => (h.mem_iff q hleaf).trans (hS q hleaf) }

/-- The iterator looks at one more place. -/
theorem Yields.pass (h : Yields t L S) (hnew : ¬ S q) (hknown : ∀ m, t.slot q ≠ some (.other m))
    (hS : ∀ q', S' q' ↔ S q' ∨ q' = q) : Yields t (L ++ (t.endpointAt q).toList) S' := by
  refine ⟨List.nodup_append.mpr ⟨h.nodup, by cases t.endpointAt q <;> simp, ?_⟩, fun q' hq' => ?_, fun q' hleaf => ?_⟩
  · rintro q' hq' _ hat rfl
    obtain ⟨rfl, m, hm⟩ := Topology.mem_endpointAt.mp hat
    exact hnew ((h.mem_iff _ ⟨_, hm, rfl⟩).mp hq')
  · rcases List.mem_append.mp hq' with hq' | hat
    · exact h.endpoint q' hq'
    · obtain ⟨rfl, hm⟩ := Topology.mem_endpointAt.mp hat
      exact hm
  · rw [List.mem_append, h.mem_iff q' hleaf, Topology.mem_endpointAt, hS]
    refine or_congr_right ⟨And.left, ?_⟩
    rintro rfl
    exact ⟨rfl, hleaf.endpoint hknown⟩

end Yields

/-! ### On the walk -/

/-- What has been yielded when the walk is at function `f`. -/
def Listing (t : Topology) (V : List Nat) (p : List (Nat × Nat)) (f : Nat) (L : List Place) : Prop :=
  Yields t L fun q => t.Clear q ∧ Past V p f q

theorem Listing.start : Listing t [] [(0, 0)] 0 [] := yields_nil fun _ hq => not_past_start hq.2

theorem Listing.pass (h : Listing t V ((b, k) :: p) f L) (hclear : t.Clear ⟨b, k, f⟩) (hpath : b ∉ p.map Prod.fst)
    (hvisited : b = 0 ∨ b ∈ V) (hknown : ∀ m, t.slot ⟨b, k, f⟩ ≠ some (.other m)) :
    Listing t V ((b, k) :: p) (f + 1) (L ++ (t.endpointAt ⟨b, k, f⟩).toList) := by
  refine Yields.pass h (fun hS => ?_) hknown fun q => ?_
  · have hbefore := hS.2.2.1 rfl
    simp [Place.Before] at hbefore
  · rw [past_succ hvisited hpath, and_or_left]
    refine or_congr_right (and_iff_right_of_imp ?_)
    rintro rfl
    exact hclear

theorem Listing.leave (h : Listing t V ((b, k) :: p) (f + 1) L) (hleft : t.NoneLeft b k f) :
    Listing t V ((b, k) :: p) 8 L := by
  refine Yields.congr h fun q hleaf => and_congr_right fun hclear => past_leave hleaf.lt.2 fun hbus hdevice => ?_
  by_contra hlt
  obtain ⟨bus, device, function⟩ := q
  obtain rfl : bus = b := hbus
  obtain rfl : device = k := hdevice
  obtain ⟨x, hx, -⟩ := hleaf
  exact hleft function x (Nat.lt_of_succ_le (Nat.not_lt.mp hlt)) hx hclear

theorem Listing.carry (h : Listing t V p 8 L) (hcarried : Carried p p') : Listing t V p' 0 L := by
  induction hcarried with
  | done => exact h
  | next _ => exact Yields.congr h fun q hleaf => and_congr_right' (past_next hleaf.lt.2)
  | @pop e p p' hdevice _ ih =>
    obtain ⟨b, k⟩ := e
    obtain rfl : k = maxDevice := hdevice
    exact ih (Yields.congr h fun q hleaf => and_congr_right' (past_pop hleaf.lt))

theorem Listing.visit (h : Listing t V ((b, k) :: p) 8 L) (hnew : c ∉ V) (hpos : c ≠ 0) :
    Listing t (c :: V) ((c, 0) :: (b, k) :: p) 0 L :=
  Yields.congr h fun _ hleaf => and_congr_right' (past_visit hleaf.lt.2 hnew hpos).symm

end Sparreal.Pcie
