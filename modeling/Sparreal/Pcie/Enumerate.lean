import Mathlib.Logic.Function.Basic
import Sparreal.Lib.Forest
import Sparreal.Lib.Machine

/-!
# PCI enumeration

The iterator of `pcie/src/root.rs`: it looks at every function of every device of a bus, and gives a bridge it meets
the next bus number, goes down to the bus behind it, and comes back when that bus is done. All it keeps of a bridge
is the bridge's address. The bus numbers are in the bridges' own registers, and the same registers decide which
bridge answers at an address, so the hardware is modelled with the iterator: a topology, which is fixed, and the
registers, which the iterator writes.
-/

namespace Sparreal.Pcie

/-! ### The hardware -/

/-- A function of a device, by its header type. `below` is the bus a bridge leads to. -/
inductive PciFunction
  | endpoint (multiple : Bool)
  | bridge (multiple : Bool) (below : Nat)
  /-- A CardBus bridge, or a header type that is not known. -/
  | other (multiple : Bool)
  deriving DecidableEq

def PciFunction.hasMultipleFunctions : PciFunction → Bool
  | endpoint m | bridge m _ | other m => m

def PciFunction.isBridge : PciFunction → Bool
  | bridge _ _ => true
  | endpoint _ | other _ => false

def PciFunction.leadsTo : PciFunction → Option Nat
  | bridge _ below => some below
  | endpoint _ | other _ => none

/-- Where a function sits. The bus is the physical one, whatever its number. -/
structure Place where
  bus : Nat
  device : Nat
  function : Nat
  deriving DecidableEq

/-- What is plugged in where. Bus `0` is the root bus, and bus `c` is the one behind bridge `c`. A device that has any
function has function `0`. When bridges on one bus have overlapping numbers, the hardware decides which of those that
claim an access takes it (`pick`), if any does. -/
structure Topology where
  size : Nat
  place : Nat → Place
  slot : Place → Option PciFunction
  place_lt : ∀ {c}, 1 ≤ c → c ≤ size → (place c).bus < c
  slot_place : ∀ {c}, 1 ≤ c → c ≤ size → ∃ m, slot (place c) = some (.bridge m c)
  bridge_place : ∀ {p m c}, slot p = some (.bridge m c) → 1 ≤ c ∧ c ≤ size ∧ place c = p
  slot_lt : ∀ {p x}, slot p = some x → p.device < 32 ∧ p.function < 8
  function_zero : ∀ {p x}, slot p = some x → ∃ y, slot { p with function := 0 } = some y
  pick : List Nat → Option Nat
  pick_single : ∀ c, pick [c] = some c
  pick_mem : ∀ {l c}, pick l = some c → c ∈ l

namespace Topology

/-- The bridges at `places`, which lead to bus `1` and so on, are among the functions, and all can be plugged in so. -/
def Plugged (places : List Place) (functions : List (Place × PciFunction)) : Prop :=
  (∀ i < places.length, ∀ p ∈ places[i]?, p.bus ≤ i ∧ ∃ m : Bool, functions.lookup p = some (.bridge m (i + 1))) ∧
  ∀ e ∈ functions, e.1.device < 32 ∧ e.1.function < 8 ∧ (functions.lookup { e.1 with function := 0 }).isSome = true ∧
    ∀ c ∈ e.2.leadsTo, 1 ≤ c ∧ places[c - 1]? = some e.1

instance (places : List Place) (functions : List (Place × PciFunction)) : Decidable (Plugged places functions) :=
  inferInstanceAs (Decidable (_ ∧ _))

variable {functions : List (Place × PciFunction)}

theorem mem_of_lookup {q : Place} {x : PciFunction} (h : functions.lookup q = some x) : (q, x) ∈ functions := by
  obtain ⟨before, after, rfl, -⟩ := List.lookup_eq_some_iff.mp h
  simp

/-- The topology with these functions, where the first of several bridges is picked. -/
def ofList (places : List Place) (functions : List (Place × PciFunction)) (h : Plugged places functions) : Topology where
  size := places.length
  place c := places[c - 1]?.getD ⟨0, 0, 0⟩
  slot q := functions.lookup q
  place_lt := by
    intro c hpos hle
    have hlt : c - 1 < places.length := by omega
    have hbus := (h.1 (c - 1) hlt _ (List.getElem?_eq_getElem hlt)).1
    rw [List.getElem?_eq_getElem hlt, Option.getD_some]
    omega
  slot_place := by
    intro c hpos hle
    have hlt : c - 1 < places.length := by omega
    obtain ⟨m, hm⟩ := (h.1 (c - 1) hlt _ (List.getElem?_eq_getElem hlt)).2
    rw [List.getElem?_eq_getElem hlt, Option.getD_some, hm, Nat.sub_add_cancel hpos]
    exact ⟨m, rfl⟩
  bridge_place := by
    intro p m c hp
    obtain ⟨hpos, hplace⟩ := (h.2 _ (mem_of_lookup hp)).2.2.2 c rfl
    have hlt := (List.getElem?_eq_some_iff.mp hplace).1
    exact ⟨hpos, by omega, by rw [hplace, Option.getD_some]⟩
  slot_lt hp := ⟨(h.2 _ (mem_of_lookup hp)).1, (h.2 _ (mem_of_lookup hp)).2.1⟩
  function_zero hp := Option.isSome_iff_exists.mp (h.2 _ (mem_of_lookup hp)).2.2.1
  pick := List.head?
  pick_single _ := rfl
  pick_mem := List.mem_of_head?

end Topology

structure BusNumber where
  primary : Nat
  secondary : Nat
  subordinate : Nat
  deriving DecidableEq

abbrev Registers := Nat → BusNumber

def Registers.reset : Registers := fun _ => ⟨0, 0, 0⟩

/-- A bridge takes the accesses to the buses from its secondary to its subordinate number. -/
def Registers.claims (regs : Registers) (n c : Nat) : Bool := (regs c).secondary ≤ n && n ≤ (regs c).subordinate

structure PciAddress where
  bus : Nat
  device : Nat
  function : Nat

namespace Topology

variable (t : Topology) (regs : Registers)

/-- The bridges as the nodes of a forest, each hanging from the bus it sits on. -/
def forest : Forest where
  size := t.size
  parent c := (t.place c).bus
  parent_lt := t.place_lt

def children (b : Nat) : List Nat := (List.range' 1 t.size).filter fun c => (t.place c).bus = b

/-- An access to bus number `n` that has come to bus `b`. A bridge that claims the number passes it on to the bus
behind it. -/
def forward : Nat → Nat → Nat → Option Nat
  | 0, _, _ => none
  | fuel + 1, b, n =>
    (t.pick ((t.children b).filter (regs.claims n))).bind fun c =>
      if (regs c).secondary = n then some c else forward fuel c n

def busOf (n : Nat) : Option Nat := if n = 0 then some 0 else t.forward regs t.size 0 n

/-- The function that answers at an address; where none does, the vendor reads `0xffff`. -/
def header (a : PciAddress) : Option PciFunction :=
  (t.busOf regs a.bus).bind fun b => t.slot ⟨b, a.device, a.function⟩

/-- Read register `0x18`. -/
def readBusNumber (a : PciAddress) : BusNumber :=
  match t.header regs a with
  | some (.bridge _ c) => regs c
  | _ => ⟨0xff, 0xff, 0xff⟩

/-- Write register `0x18`. -/
def writeBusNumber (a : PciAddress) (v : BusNumber) : Registers :=
  match t.header regs a with
  | some (.bridge _ c) => Function.update regs c v
  | _ => regs

end Topology

/-! ### The iterator -/

inductive PciPciBridge
  | root
  | device (address : PciAddress)

namespace PciPciBridge

variable (t : Topology) (regs : Registers)

def secondaryBusNumber : PciPciBridge → Nat
  | root => 0
  | device a => (t.readBusNumber regs a).secondary

def subordinateBusNumber : PciPciBridge → Nat
  | root => 0
  | device a => (t.readBusNumber regs a).subordinate

def updateBusNumber (f : BusNumber → BusNumber) : PciPciBridge → Registers
  | root => regs
  | device a => t.writeBusNumber regs a (f (t.readBusNumber regs a))

end PciPciBridge

inductive PciConfigSpace
  | pciPciBridge (bridge : PciPciBridge)
  | endpoint

structure Bridge where
  bridge : PciPciBridge
  device : Nat

def Bridge.root (busStart : Nat) : Bridge := ⟨.root, busStart⟩

/-- Make room in an open bridge for one more bus. -/
def Bridge.bump (t : Topology) (parent : Bridge) (regs : Registers) : Registers :=
  parent.bridge.updateBusNumber t regs fun bus => { bus with subordinate := (bus.subordinate + 1) % 256 }

def maxDevice : Nat := 31

def maxFunction : Nat := 7

/-- The iterator, with the registers its controller reaches. The top of the stack is the head of the list. -/
structure PciIterator where
  regs : Registers
  stack : List Bridge
  busMax : Nat
  function : Nat
  isMultipleFunction : Bool
  isFinish : Bool

def enumerateByController (regs : Registers) (range : Option (Nat × Nat)) : PciIterator :=
  let range := range.getD (0, 0x100)
  { regs
    stack := [Bridge.root (range.1 % 256)]
    busMax := (range.2 - 1) % 256
    function := 0
    isMultipleFunction := false
    isFinish := false }

namespace PciIterator

variable (t : Topology)

/-- The address the iterator is at, `none` where `unwrap` panics. -/
def address (s : PciIterator) : Option PciAddress :=
  s.stack.head?.map fun parent => ⟨parent.bridge.secondaryBusNumber t s.regs, parent.device, s.function⟩

/-- Look at the current address, and number the bridge that is there. `none` is a panic. -/
def getCurrentValid (s : PciIterator) : Option (Option PciConfigSpace × PciIterator) := do
  let address ← s.address t
  match t.header s.regs address with
  | none => some (none, s)
  | some x =>
    let s := { s with isMultipleFunction := x.hasMultipleFunctions }
    match x with
    | .endpoint _ => some (some .endpoint, s)
    | .bridge _ _ =>
      match s.stack with
      | [] => none
      | parent :: _ =>
        if parent.bridge.subordinateBusNumber t s.regs = s.busMax then some (none, s)
        else
          let secondaryBus := (parent.bridge.subordinateBusNumber t s.regs + 1) % 256
          let bridge := PciPciBridge.device address
          some (some (.pciPciBridge bridge), { s with
            regs := bridge.updateBusNumber t s.regs fun bus =>
              { bus with primary := address.bus, secondary := secondaryBus, subordinate := secondaryBus } })
    -- `todo!()`
    | .other _ => none

/-- Go to the next function; `true` is a carry. -/
def isNextFunctionMax (s : PciIterator) : Bool × PciIterator :=
  if s.isMultipleFunction then
    if s.function = maxFunction then (true, { s with function := 0 })
    else (false, { s with function := s.function + 1 })
  else (true, { s with function := 0 })

/-- Go to the next device; `true` is a carry, into the bus above. -/
def nextDeviceNotOk (s : PciIterator) : Bool × PciIterator :=
  match s.stack with
  | parent :: stack =>
    if parent.device = maxDevice then
      (true, { s with
        stack
        isFinish := parent.bridge.subordinateBusNumber t s.regs = s.busMax
        function := 0 })
    else (false, { s with stack := { parent with device := parent.device + 1 } :: stack })
  | [] => (false, { s with isFinish := true })

/-- `while self.next_device_not_ok() {}`. A turn that carries pops an entry, so the loop takes at most one turn more
than the stack has entries. -/
def carry : Nat → PciIterator → PciIterator
  | 0, s => s
  | turns + 1, s =>
    match s.nextDeviceNotOk t with
    | (true, s) => carry turns s
    | (false, s) => s

def next (s : PciIterator) : Option PciPciBridge → PciIterator
  | some bridge =>
    -- the entry at the bottom of the stack comes first
    { s with
      regs := s.stack.foldr (Bridge.bump t) s.regs
      stack := ⟨bridge, 0⟩ :: s.stack
      function := 0 }
  | none =>
    match s.isNextFunctionMax with
    | (true, s) => s.carry t (s.stack.length + 1)
    | (false, s) => s

/-- One turn of the loop of `Iterator::next`, which is left after an endpoint and entered again by the next call. -/
def step (s : PciIterator) : Option PciIterator :=
  if s.isFinish then some s
  else do
    let (value, s) ← s.getCurrentValid t
    match value with
    | some (.pciPciBridge bridge) => some (s.next t (some bridge))
    | some .endpoint | none => some (s.next t none)

def run (s : PciIterator) (turns : List Unit) : Option PciIterator := Machine.run (fun s _ => s.step t) s turns

end PciIterator

/-! ### The specification -/

def Registers.number (regs : Registers) (b : Nat) : Nat := if b = 0 then 0 else (regs b).secondary

/-- The numbers a bridge passes on. -/
def Registers.window (regs : Registers) (c : Nat) : Set Nat := Set.Icc (regs c).secondary (regs c).subordinate

/-- The bus numbers agree with the topology. -/
structure Consistent (t : Topology) (regs : Registers) : Prop where
  nonzero : ∀ c, t.forest.Node c → (regs c).secondary ≠ 0
  distinct : ∀ c d, t.forest.Node c → t.forest.Node d → (regs c).secondary = (regs d).secondary → c = d
  primary : ∀ c, t.forest.Node c → (regs c).primary = regs.number (t.place c).bus
  nested : ∀ c d, t.forest.Node c → t.forest.Node d → t.forest.Under d c → regs.window d ⊆ regs.window c
  apart : ∀ c d, t.forest.Node c → t.forest.Node d → ¬ t.forest.Under d c → ¬ t.forest.Under c d →
    Disjoint (regs.window d) (regs.window c)

/-- The enumeration of the range comes to its end, and the numbers it leaves behind are consistent. -/
def Numbered (t : Topology) (range : Option (Nat × Nat)) : Prop :=
  ∃ turns s, (enumerateByController .reset range).run t turns = some s ∧ s.isFinish = true ∧ Consistent t s.regs

end Sparreal.Pcie
