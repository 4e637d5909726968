import Mathlib.Data.List.Perm.Basic
import Sparreal.Pcie.Enumerate

/-!
# Bus numbers as routes

While the numbers given out label the bridges by intervals (`Labelled`), a number finds its bus: on every bus exactly
one bridge claims it, the one on the way there (`busOf_number`). An entry of the iterator's stack then reads and
writes the registers of the bridge it was made for. The numbers given out so far keep finding their buses while a
new bridge is numbered and the open ones are raised one after the other (`Agree.busOf_eq`), so `foldr_bump` can say
what the loop over the stack does to the registers.
-/

namespace Sparreal.Pcie

open Forest

variable {t : Topology} {regs regs' : Registers} {V : List Nat} {b c d n : Nat}

/-- The bridges of `V` have their numbers, the last one first. -/
def Labelled (t : Topology) (regs : Registers) (V : List Nat) : Prop :=
  t.forest.Labels (fun c => (regs c).secondary) (fun c => (regs c).subordinate) V

namespace Topology

theorem mem_children : c ∈ t.children b ↔ t.forest.Hangs c b := by
  simp only [children, List.mem_filter, List.mem_range'_1, decide_eq_true_eq, Hangs, Node]
  refine and_congr_left fun _ => and_congr_right fun _ => ?_
  rw [Nat.add_comm, Nat.lt_succ_iff]
  rfl

theorem nodup_children : (t.children b).Nodup := List.Nodup.filter _ List.nodup_range'

theorem filter_claims {a : Nat} (h : Labelled t regs V) (hd : d ∈ V) (ha : t.forest.Hangs a b)
    (hda : t.forest.Under d a) : (t.children b).filter (regs.claims (regs d).secondary) = [a] := by
  apply List.perm_singleton.mp
  apply (List.perm_ext_iff_of_nodup (nodup_children.filter _) (List.nodup_singleton a)).mpr
  intro x
  rw [List.mem_filter, mem_children, List.mem_singleton]
  have hclaims : t.forest.Node x → (regs.claims (regs d).secondary x = true ↔ t.forest.Under d x) := by
    intro hx
    rw [← h.covers d hd x hx, Registers.claims, Bool.and_eq_true, decide_eq_true_eq, decide_eq_true_eq]
  constructor
  · rintro ⟨hx, hdx⟩
    exact hx.unique ha ((hclaims hx.1).mp hdx) hda
  · rintro rfl
    exact ⟨ha, (hclaims ha.1).mpr hda⟩

theorem forward_eq (h : Labelled t regs V) (hd : d ∈ V) {fuel : Nat} (hdb : t.forest.Under d b) (hne : d ≠ b)
    (hfuel : d - b ≤ fuel) : t.forward regs fuel b (regs d).secondary = some d := by
  induction fuel generalizing b with
  | zero => exact absurd (Nat.le_antisymm (Nat.sub_eq_zero_iff_le.mp (Nat.le_zero.mp hfuel)) hdb.le) hne
  | succ fuel ih =>
    obtain ⟨a, hab, hda⟩ := hdb.exists_child hne
    rw [forward, filter_claims h hd hab hda, t.pick_single, Option.bind_some]
    by_cases heq : d = a
    · simp [heq]
    · have hmem : a ∈ V := h.mem_of_under hd hda (Nat.ne_of_gt hab.1.1)
      simp only [if_neg fun hsec => heq (h.first_inj hmem hd hsec).symm]
      exact ih hda heq (by have := hab.lt; omega)

theorem forward_eq_some {fuel : Nat} (h : t.forward regs fuel b n = some c) :
    t.forest.Node c ∧ (regs c).secondary = n := by
  induction fuel generalizing b with
  | zero => cases h
  | succ fuel ih =>
    obtain ⟨x, hpick, hx⟩ := Option.bind_eq_some_iff.mp h
    split at hx
    · next hsec =>
      obtain rfl := Option.some.inj hx
      exact ⟨(mem_children.mp (List.mem_of_mem_filter (t.pick_mem hpick))).1, hsec⟩
    · exact ih hx

theorem busOf_eq_some (h : t.busOf regs n = some b) (hn : n ≠ 0) : t.forest.Node b ∧ (regs b).secondary = n := by
  rw [busOf, if_neg hn] at h
  exact forward_eq_some h

/-- What is behind the bus with number `n` has no part in the routes of the numbers up to `n`. -/
theorem busOf_update {a k : Nat} (hc : t.forest.Hangs c a) (ha : a ≠ 0) (hsec : (regs a).secondary = n) (hk : k ≤ n)
    (v : BusNumber) : t.busOf (Function.update regs c v) k = t.busOf regs k := by
  have hforward : ∀ fuel b, b ≠ a → t.forward (Function.update regs c v) fuel b k = t.forward regs fuel b k := by
    intro fuel
    induction fuel with
    | zero => exact fun _ _ => rfl
    | succ fuel ih =>
      intro b hb
      have hne : ∀ x ∈ t.children b, x ≠ c := by
        rintro x hx rfl
        exact hb ((mem_children.mp hx).2.symm.trans hc.2)
      have hclaims : (t.children b).filter (Registers.claims (Function.update regs c v) k) =
          (t.children b).filter (regs.claims k) := by
        apply List.filter_congr
        intro x hx
        rw [Registers.claims, Registers.claims, Function.update_of_ne (hne x hx)]
      rw [forward, forward, hclaims]
      cases hpick : t.pick ((t.children b).filter (regs.claims k)) with
      | none => rfl
      | some x =>
        obtain ⟨hx, hclaim⟩ := List.mem_filter.mp (t.pick_mem hpick)
        rw [Option.bind_some, Option.bind_some, Function.update_of_ne (hne x hx)]
        by_cases hlast : (regs x).secondary = k
        · rw [if_pos hlast, if_pos hlast]
        · rw [if_neg hlast, if_neg hlast]
          apply ih
          rintro rfl
          -- the bus with number `n` takes no number below its own
          have hle : (regs x).secondary ≤ k := of_decide_eq_true (Bool.and_eq_true_iff.mp hclaim).1
          omega
  rw [busOf, busOf, hforward t.size 0 ha.symm]

end Topology

section

variable (h : Labelled t regs V)

include h

theorem Labelled.le_size (hb : b = 0 ∨ b ∈ V) : b ≤ t.size := by
  rcases hb with rfl | hb
  · exact Nat.zero_le _
  · exact (h.node b hb).2

theorem Labelled.zero_notMem : 0 ∉ V := fun hmem => absurd (h.node 0 hmem).1 (by simp)

theorem Labelled.bus_mem (hc : c ∈ V) : (t.place c).bus = 0 ∨ (t.place c).bus ∈ V :=
  h.closed c hc

theorem Labelled.number_eq : regs.number b = (regs b).secondary := by
  unfold Registers.number
  split
  · next hb => exact hb ▸ (h.fresh 0 h.zero_notMem).1.symm
  · rfl

theorem Labelled.busOf_number (hb : b = 0 ∨ b ∈ V) : t.busOf regs (regs.number b) = some b := by
  rcases hb with rfl | hb
  · rfl
  · have hnode := h.node b hb
    have hpos := h.first_pos hb
    rw [h.number_eq, Topology.busOf, if_neg (Nat.ne_of_gt hpos)]
    exact Topology.forward_eq h hb hnode.under_zero (Nat.ne_of_gt hnode.1) hnode.2

end

/-- The two route the numbers up to `n` alike. -/
def Agree (regs regs' : Registers) (n : Nat) : Prop :=
  ∀ k x, 1 ≤ k → k ≤ n → regs'.claims k x = regs.claims k x ∧ ((regs' x).secondary = k ↔ (regs x).secondary = k)

theorem Agree.refl (regs : Registers) (n : Nat) : Agree regs regs n := fun _ _ _ _ => ⟨rfl, Iff.rfl⟩

theorem Agree.busOf_eq (h : Agree regs regs' n) {k : Nat} (hk : k ≤ n) : t.busOf regs' k = t.busOf regs k := by
  unfold Topology.busOf
  split
  · rfl
  · next hpos =>
    have hpos : 1 ≤ k := Nat.pos_of_ne_zero hpos
    have hforward : ∀ fuel b, t.forward regs' fuel b k = t.forward regs fuel b k := by
      intro fuel
      induction fuel with
      | zero => exact fun _ => rfl
      | succ fuel ih =>
        intro b
        have hclaims : regs'.claims k = regs.claims k := funext fun x => (h k x hpos hk).1
        simp only [Topology.forward, hclaims, ih, (h k _ hpos hk).2]
    exact hforward t.size 0

/-- The next number takes no access to a number given out. -/
theorem Labelled.agree_update (h : Labelled t regs V) (hnew : c ∉ V) (n : Nat) :
    Agree regs (Function.update regs c ⟨n, V.length + 1, V.length + 1⟩) V.length := by
  intro k x hpos hk
  by_cases hx : x = c
  · subst hx
    obtain ⟨hsecondary, hsubordinate⟩ := h.fresh x hnew
    simp only [Registers.claims, Function.update_self, hsecondary, hsubordinate]
    refine ⟨?_, by omega⟩
    rw [decide_eq_false (by omega : ¬ V.length + 1 ≤ k), decide_eq_false (by omega : ¬ k ≤ 0), Bool.false_and,
      Bool.and_false]
  · simp only [Registers.claims, Function.update_of_ne hx, true_and]

/-! ### The entries of the stack -/

def Topology.addressOf (t : Topology) (regs : Registers) (c : Nat) : PciAddress :=
  ⟨regs.number (t.place c).bus, (t.place c).device, (t.place c).function⟩

/-- What the iterator keeps of the bridge that leads to a bus. -/
def Topology.bridgeOf (t : Topology) (regs : Registers) (b : Nat) : PciPciBridge :=
  if b = 0 then .root else .device (t.addressOf regs b)

section

variable (h : Labelled t regs V)

include h

theorem Labelled.header_addressOf (hagree : Agree regs regs' V.length) (hc : c ∈ V) :
    ∃ m, t.header regs' (t.addressOf regs c) = some (.bridge m c) := by
  have hnode := h.node c hc
  obtain ⟨m, hm⟩ := t.slot_place hnode.1 hnode.2
  refine ⟨m, ?_⟩
  have hle : regs.number (t.place c).bus ≤ V.length := h.number_eq ▸ h.first_le _
  rw [Topology.header, Topology.addressOf, hagree.busOf_eq hle, h.busOf_number (h.bus_mem hc)]
  exact hm

theorem Labelled.update_bridgeOf (hagree : Agree regs regs' V.length) (hb : b ∈ V) (f : BusNumber → BusNumber) :
    (t.bridgeOf regs b).updateBusNumber t regs' f = Function.update regs' b (f (regs' b)) := by
  obtain ⟨m, hm⟩ := h.header_addressOf hagree hb
  have hb0 : b ≠ 0 := fun h0 => h.zero_notMem (h0 ▸ hb)
  simp [Topology.bridgeOf, hb0, PciPciBridge.updateBusNumber, Topology.writeBusNumber, Topology.readBusNumber, hm]

theorem Labelled.read_addressOf (hb : b ∈ V) : t.readBusNumber regs (t.addressOf regs b) = regs b := by
  obtain ⟨m, hm⟩ := h.header_addressOf (Agree.refl regs _) hb
  simp [Topology.readBusNumber, hm]

theorem Labelled.secondary_bridgeOf (hb : b = 0 ∨ b ∈ V) :
    (t.bridgeOf regs b).secondaryBusNumber t regs = regs.number b := by
  by_cases h0 : b = 0
  · simp [Topology.bridgeOf, Registers.number, h0, PciPciBridge.secondaryBusNumber]
  · simp [Topology.bridgeOf, Registers.number, h0, PciPciBridge.secondaryBusNumber,
      h.read_addressOf (hb.resolve_left h0)]

theorem Labelled.subordinate_bridgeOf (hb : b = 0 ∨ b ∈ V) :
    (t.bridgeOf regs b).subordinateBusNumber t regs = (regs b).subordinate := by
  by_cases h0 : b = 0
  · subst h0
    exact (h.fresh 0 h.zero_notMem).2.symm
  · simp [Topology.bridgeOf, h0, PciPciBridge.subordinateBusNumber, h.read_addressOf (hb.resolve_left h0)]

end

/-- Room for one more bus in the bridges of `B`. -/
def Registers.raise (regs : Registers) (B : List Nat) : Registers := fun x =>
  if x ≠ 0 ∧ x ∈ B then { regs x with subordinate := (regs x).subordinate + 1 } else regs x

variable {B : List Nat}

theorem Registers.raise_secondary : (regs.raise B c).secondary = (regs c).secondary := by
  unfold raise
  split <;> rfl

theorem Registers.raise_cons_zero : regs.raise (0 :: B) = regs.raise B := by
  funext x
  by_cases hx : x = 0
  · simp [raise, hx]
  · simp [raise, hx]

theorem Registers.raise_cons (hb : b ≠ 0) (hnew : b ∉ B) : regs.raise (b :: B) =
    Function.update (regs.raise B) b { regs b with subordinate := (regs b).subordinate + 1 } := by
  funext x
  by_cases hx : x = b
  · subst hx
    simp [raise, hb]
  · simp [raise, hx]

theorem Agree.raise (h : Agree regs regs' n) (hB : ∀ b ∈ B, b ≠ 0 → (regs' b).subordinate = n) :
    Agree regs (regs'.raise B) n := by
  intro k x hpos hk
  obtain ⟨hclaims, hsec⟩ := h k x hpos hk
  rw [Registers.raise_secondary]
  refine ⟨?_, hsec⟩
  rw [← hclaims, Registers.claims, Registers.claims, Registers.raise_secondary]
  unfold Registers.raise
  split
  · next hx =>
    have := hB x hx.2 hx.1
    simp only [this, hk, Nat.le_succ_of_le hk]
  · rfl

/-- The loop over the stack, from the root up, when the open buses are those of `p`. -/
theorem Labelled.foldr_bump (h : Labelled t regs V) (hlt : V.length < 255) (hagree : Agree regs regs' V.length)
    {p : List (Nat × Nat)} (hmem : ∀ e ∈ p, e.1 = 0 ∨ e.1 ∈ V) (hnodup : (p.map Prod.fst).Nodup)
    (hopen : ∀ e ∈ p, e.1 ≠ 0 → (regs' e.1).subordinate = V.length) :
    (p.map fun e => Bridge.mk (t.bridgeOf regs e.1) e.2).foldr (Bridge.bump t) regs' =
      regs'.raise (p.map Prod.fst) := by
  induction p with
  | nil =>
    funext x
    simp [Registers.raise]
  | cons e p ih =>
    obtain ⟨hnot, hnodup⟩ := List.nodup_cons.mp hnodup
    obtain ⟨he, hmem⟩ := List.forall_mem_cons.mp hmem
    obtain ⟨hlast, hopen⟩ := List.forall_mem_cons.mp hopen
    rw [List.map_cons, List.foldr_cons, ih hmem hnodup hopen]
    by_cases h0 : e.1 = 0
    · rw [List.map_cons, h0, Registers.raise_cons_zero]
      simp [Bridge.bump, Topology.bridgeOf, PciPciBridge.updateBusNumber]
    · have hsame : regs'.raise (p.map Prod.fst) e.1 = regs' e.1 := if_neg fun hin => hnot hin.2
      have hagree' : Agree regs (regs'.raise (p.map Prod.fst)) V.length := by
        apply hagree.raise
        intro b hb
        obtain ⟨e, he, rfl⟩ := List.mem_map.mp hb
        exact hopen e he
      rw [Bridge.bump, h.update_bridgeOf hagree' (he.resolve_left h0), List.map_cons, Registers.raise_cons h0 hnot,
        hsame, hlast h0, Nat.mod_eq_of_lt (by omega)]

end Sparreal.Pcie
