import Sparreal.Pcie.Listing

/-!
# The bus with the last number

Once the last number is given out, the iterator is at the start of the bus behind the bridge that got it. A bridge it
meets on this bus is passed over like any other function, and hides no function after it (`Exposed`). With this bus
the enumeration ends, whatever is left on the buses above (`Spent.ends`).
-/

namespace Sparreal.Pcie

open Forest

variable {t : Topology} {s s' : PciIterator} {V : List Nat} {p : List (Nat × Nat)} {L M : List Place} {z k f : Nat}

/-! ### Enumerations that end -/

/-- The enumeration comes to its end, and what it yields has the property. -/
def Ends (t : Topology) (s : PciIterator) (L : List Place) (P : List Place → Prop) : Prop :=
  ∃ turns s' L', Machine.run (fun x (_ : Unit) => PciIterator.collect t x) (s, L) turns = some (s', L') ∧
    s'.isFinish = true ∧ P L'

variable {P : List Place → Prop}

theorem Ends.of_finish (hfin : s.isFinish = true) (h : P L) : Ends t s L P := ⟨[], s, L, rfl, hfin, h⟩

theorem Ends.of_step (hstep : s.step t = some s') (h : Ends t s' (L ++ (s.item t).toList) P) : Ends t s L P := by
  obtain ⟨turns, u, L', hrun, hu⟩ := h
  refine ⟨() :: turns, u, L', Machine.run_cons.mpr ⟨_, ?_, hrun⟩, hu⟩
  rw [PciIterator.collect, hstep]
  rfl

/-- The enumeration comes to its end, or it panics and `B` is why. -/
def EndsOr (t : Topology) (s : PciIterator) (L : List Place) (P : List Place → Prop) (B : Prop) : Prop :=
  Ends t s L P ∨ B ∧ ∃ turns, s.run t turns = none

variable {B : Prop}

theorem EndsOr.of_step (hstep : s.step t = some s') (h : EndsOr t s' (L ++ (s.item t).toList) P B) :
    EndsOr t s L P B := by
  refine h.imp (.of_step hstep) fun ⟨hB, turns, hnone⟩ => ⟨hB, () :: turns, ?_⟩
  show (s.step t).bind _ = none
  rw [hstep]
  exact hnone

theorem EndsOr.of_none (hstep : s.step t = none) (hB : B) : EndsOr t s L P B := by
  refine .inr ⟨hB, [()], ?_⟩
  show (s.step t).bind _ = none
  rw [hstep]
  rfl

/-- What is at the functions before this one says that the device has more. -/
def Topology.Exposed (t : Topology) (q : Place) : Prop :=
  ∀ g < q.function, ∀ x, t.slot { q with function := g } = some x → x.hasMultipleFunctions = true

theorem Topology.exposed_succ (h : t.Exposed ⟨z, k, f⟩)
    (hslot : ∀ x, t.slot ⟨z, k, f⟩ = some x → x.hasMultipleFunctions = true) : t.Exposed ⟨z, k, f + 1⟩ :=
  Nat.forall_lt_succ_right.mpr ⟨h, hslot⟩

theorem Topology.Clear.exposed {q : Place} (h : t.Clear q) : t.Exposed q := fun g hg x hx => (h g hg x hx).1

/-! ### What the bus yields -/

/-- What has been yielded of bus `z` when its scan is at function `f` of device `k`. -/
def Gathers (t : Topology) (z k f : Nat) (M : List Place) : Prop :=
  Yields t M fun q => q.bus = z ∧ t.Exposed q ∧ q.Before k f

theorem gathers_nil : Gathers t z 0 0 [] := yields_nil fun q hq => by simp [Place.Before] at hq

theorem Gathers.pass (h : Gathers t z k f M) (hexposed : t.Exposed ⟨z, k, f⟩)
    (hknown : ∀ m, t.slot ⟨z, k, f⟩ ≠ some (.other m)) :
    Gathers t z k (f + 1) (M ++ (t.endpointAt ⟨z, k, f⟩).toList) := by
  refine Yields.pass h (fun hS => by simp [Place.Before] at hS) hknown fun q => ⟨?_, ?_⟩
  · rintro ⟨hbus, hq, hbefore⟩
    exact ((Place.before_succ hbus).mp hbefore).imp_left fun hbefore => ⟨hbus, hq, hbefore⟩
  · rintro (⟨hbus, hq, hbefore⟩ | rfl)
    · exact ⟨hbus, hq, (Place.before_succ hbus).mpr (.inl hbefore)⟩
    · exact ⟨rfl, hexposed, (Place.before_succ rfl).mpr (.inr rfl)⟩

/-- Nothing after function `f` of the device is looked at. -/
def Topology.NoneExposed (t : Topology) (z k f : Nat) : Prop :=
  ∀ g x, f < g → t.slot ⟨z, k, g⟩ = some x → ¬ t.Exposed ⟨z, k, g⟩

theorem Gathers.leave (h : Gathers t z k (f + 1) M) (hleft : t.NoneExposed z k f) : Gathers t z (k + 1) 0 M := by
  refine Yields.congr h fun q hleaf => and_congr_right fun hbus => and_congr_right fun hexposed => ?_
  obtain ⟨x, hx, -⟩ := hleaf
  obtain ⟨bus, device, function⟩ := q
  obtain rfl : bus = z := hbus
  have hnot : device = k → function ≤ f := by
    rintro rfl
    by_contra hlt
    exact hleft function x (Nat.not_le.mp hlt) hx hexposed
  simp only [Place.Before]
  omega

/-! ### The iterator on the bus -/

/-- The iterator is at device `k` of bus `z`, which has the last number. The walk is where it was when it came to the
bus. -/
structure Spent (t : Topology) (s : PciIterator) (V : List Nat) (z k : Nat) (p : List (Nat × Nat)) : Prop where
  walk : Walk t s.regs V ((z, 0) :: p) 0
  stack : s.stack = t.entries s.regs ((z, k) :: p)
  spent : V.length = s.busMax
  exposed : t.Exposed ⟨z, k, s.function⟩
  multiple : 0 < s.function → s.isMultipleFunction = true
  function_le : s.function ≤ maxFunction
  device_le : k ≤ maxDevice
  alive : s.isFinish = false

theorem Walk.subordinate_start {regs : Registers} (h : Walk t regs V ((z, 0) :: p) 0) :
    (t.bridgeOf regs z).subordinateBusNumber t regs = V.length := by
  rw [h.labels.subordinate_bridgeOf (h.visited _ List.mem_cons_self)]
  by_cases h0 : z = 0
  · subst h0
    have hnil : V = [] := by
      by_contra hV
      obtain ⟨r, hrV, hr⟩ := h.exists_root hV
      exact h.not_hangs_start hrV hr
    subst hnil
    exact (h.labels.fresh 0 List.not_mem_nil).2
  · exact h.isOpen (z, 0) List.mem_cons_self h0

theorem Spent.finishes (h : Spent t s V z k p) (hlast : k = maxDevice) :
    (PciIterator.carry t (s.stack.length + 1) { s with function := 0 }).isFinish = true := by
  -- the flag is set from the first bus left on, until there is none
  let I (u : PciIterator) : Prop := u.regs = s.regs ∧ u.busMax = s.busMax ∧
    (u.stack = s.stack ∨ ∃ p₁, u.stack = t.entries s.regs p₁ ∧ Descends t p₁ ∧ (∀ e ∈ p₁, e ∈ p) ∧
      (p₁ ≠ [] → u.isFinish = true))
  refine PciIterator.carry_rule (s := { s with function := 0 }) (I := I) (Q := fun u => u.isFinish = true) ?_ ?_ ?_
    (Nat.lt_succ_self _) ⟨rfl, rfl, .inl rfl⟩
  · rintro u parent stack ⟨hregs, hmax, hu⟩ hstack -
    refine ⟨hregs, hmax, .inr ?_⟩
    rcases hu with hu | ⟨p₁, hu, hpath, hmem, -⟩
    · rw [hu, h.stack] at hstack
      obtain ⟨rfl, rfl⟩ := List.cons.inj hstack
      refine ⟨p, rfl, h.walk.path.tail, fun _ he => he, fun _ => ?_⟩
      rw [decide_eq_true_iff, hregs, hmax, ← h.spent]
      exact h.walk.subordinate_start
    · rw [hu] at hstack
      cases p₁ with
      | nil => cases hstack
      | cons e p₁ =>
        obtain ⟨rfl, rfl⟩ := List.cons.inj hstack
        refine ⟨p₁, rfl, hpath.tail, fun e he => hmem e (List.mem_cons_of_mem _ he), fun hne => ?_⟩
        rw [decide_eq_true_iff, hregs, hmax, ← h.spent]
        exact h.walk.subordinate_eq (List.mem_cons_of_mem _ (hmem e List.mem_cons_self)) hpath hne
  · rintro u parent stack ⟨-, -, hu⟩ hstack hdevice
    rcases hu with hu | ⟨p₁, hu, -, -, hfin⟩
    · rw [hu, h.stack] at hstack
      obtain ⟨rfl, -⟩ := List.cons.inj hstack
      exact absurd hlast hdevice
    · refine hfin ?_
      rintro rfl
      rw [hu] at hstack
      cases hstack
  · exact fun _ _ => rfl

inductive SpentTurn (t : Topology) (s s' : PciIterator) (V : List Nat) (z k : Nat) (p : List (Nat × Nat)) : Prop
  | function : Spent t s' V z k p → s'.function = s.function + 1 → SpentTurn t s s' V z k p
  | device : t.NoneExposed z k s.function → Spent t s' V z (k + 1) p → s'.function = 0 → SpentTurn t s s' V z k p
  | done : t.NoneExposed z k s.function → k = maxDevice → s'.isFinish = true → SpentTurn t s s' V z k p

theorem Spent.next_none (h : Spent t s V z k p) {m : Bool} (hmore : m = true → t.Exposed ⟨z, k, s.function + 1⟩)
    (hleft : m = false → t.NoneExposed z k s.function) :
    SpentTurn t s (PciIterator.next t { s with isMultipleFunction := m } none) V z k p := by
  rw [PciIterator.next_none_eq]
  split
  · next hnext =>
    have hlt : s.function < maxFunction := Nat.lt_of_le_of_ne h.function_le hnext.2
    exact .function { h with exposed := hmore hnext.1, multiple := fun _ => hnext.1, function_le := hlt } rfl
  · next hlast =>
    have hnone : t.NoneExposed z k s.function := by
      cases hm : m with
      | false => exact hleft hm
      | true =>
        intro g x hg hx
        rw [t.slot_after_last (by by_contra hne; exact hlast ⟨hm, hne⟩) hg] at hx
        cases hx
    have hs : Spent t { s with isMultipleFunction := m, function := 0 } V z k p := by
      refine { h with exposed := Topology.clear_zero.exposed, multiple := ?_, function_le := Nat.zero_le _ }
      exact fun hpos => absurd hpos (Nat.lt_irrefl 0)
    by_cases hk : k = maxDevice
    · exact .done hnone hk (hs.finishes hk)
    · refine .device hnone ?_ ?_
      · rw [PciIterator.carry_of_ne (s := { s with isMultipleFunction := m, function := 0 }) _ h.stack hk]
        exact { hs with
          stack := rfl, exposed := Topology.clear_zero.exposed, device_le := Nat.lt_of_le_of_ne h.device_le hk }
      · rw [PciIterator.carry_of_ne (s := { s with isMultipleFunction := m, function := 0 }) _ h.stack hk]

theorem Spent.turn (h : Spent t s V z k p) :
    ((∀ m, t.slot ⟨z, k, s.function⟩ ≠ some (.other m)) ∧ ∃ s', s.step t = some s' ∧ SpentTurn t s s' V z k p) ∨
      s.step t = none ∧ ∃ m, t.slot ⟨z, k, s.function⟩ = some (.other m) := by
  have hz := h.walk.visited _ List.mem_cons_self
  obtain ⟨-, hheader⟩ := h.walk.here_eq hz k
  rw [PciIterator.step_eq h.alive h.stack, hheader]
  -- a function that is there leads on by what it says, whatever it is
  have hpresent : ∀ {x : PciFunction}, t.slot ⟨z, k, s.function⟩ = some x → SpentTurn t s
      (PciIterator.next t { s with isMultipleFunction := x.hasMultipleFunctions } none) V z k p := by
    intro x hslot
    refine h.next_none (fun hm => Topology.exposed_succ h.exposed fun y hy => ?_) fun hm g y hg hy hexposed => ?_
    · obtain rfl := Option.some.inj (hslot.symm.trans hy)
      exact hm
    · exact Bool.false_ne_true (hm.symm.trans (hexposed s.function hg x hslot))
  rcases hslot : t.slot ⟨z, k, s.function⟩ with _ | (m | ⟨m, c⟩ | m)
  · refine .inl ⟨by simp, _, rfl, h.next_none (m := s.isMultipleFunction) (fun _ => ?_) fun hsingle => ?_⟩
    · exact Topology.exposed_succ h.exposed (by simp [hslot])
    · intro g x _ hx
      rw [PciIterator.function_eq_zero h.multiple hsingle] at hslot
      rw [t.slot_of_none hslot] at hx
      cases hx
  · exact .inl ⟨by simp, _, rfl, hpresent hslot⟩
  · exact .inl ⟨by simp, _, if_pos (h.walk.subordinate_start.trans h.spent), hpresent hslot⟩
  · exact .inr ⟨rfl, m, rfl⟩

/-- The enumeration yields what is left on the bus, and ends. -/
theorem Spent.ends (h : Spent t s V z k p) (hM : Gathers t z k s.function M) :
    EndsOr t s (L ++ M) (fun L' => ∃ M', Gathers t z (maxDevice + 1) 0 M' ∧ L' = L ++ M')
      (∃ q m, q.bus = z ∧ t.slot q = some (.other m) ∧ t.Exposed q) := by
  generalize hn : 10 * (maxDevice - k) + (8 - s.function) = n
  induction n using Nat.strongRecOn generalizing s k M with
  | ind n ih =>
    rcases h.turn with ⟨hknown, s', hstep, hturn⟩ | ⟨hstep, m, hslot⟩
    swap
    · exact .of_none hstep ⟨_, m, rfl, hslot, h.exposed⟩
    refine .of_step hstep ?_
    rw [h.walk.item_eq (h.walk.visited _ List.mem_cons_self) h.alive h.stack, List.append_assoc]
    have hpass := hM.pass h.exposed hknown
    have hle := h.function_le
    simp only [maxFunction] at hle
    cases hturn with
    | function hs' hfunction => exact ih _ (by omega) hs' (hfunction ▸ hpass) rfl
    | device hleft hs' hzero =>
      have hdevice := hs'.device_le
      exact ih _ (by omega) hs' (hzero ▸ hpass.leave hleft) rfl
    | done hleft hlast hfin => exact .inl (.of_finish hfin ⟨_, hlast ▸ hpass.leave hleft, rfl⟩)

end Sparreal.Pcie
