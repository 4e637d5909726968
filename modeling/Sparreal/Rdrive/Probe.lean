import Sparreal.Lib.Attempts
import Mathlib.Data.List.Sort

/-!
# Probing the devices of the device tree (`rdrive`)

The registered drivers are gone through by priority, and every node of the tree that matches one is passed to its
`on_probe`. A driver is left out once its name is among the probed names; the name is added when an `on_probe`
returns `Ok`.

A node is given by its place in `all_nodes`. `answer` stands for the `on_probe` functions: it gives the result of the
next call from all calls made so far, so it can be any. `calls` is the history of these calls.
-/

namespace Sparreal.Rdrive

inductive Status where
  | okay
  | disabled
  deriving DecidableEq, Repr

/-- A node of the tree, as the matching reads it. -/
structure Node where
  status : Option Status
  compatibles : List String
  deriving DecidableEq, Repr

inductive ProbeLevel where
  | preKernel
  | postKernel
  deriving DecidableEq, Repr

/-- `ProbeKind`; an `on_probe` function is given by a number. -/
inductive ProbeKind where
  | fdt (compatibles : List String) (onProbe : Nat)
  | pci (onProbe : Nat)
  deriving DecidableEq, Repr

structure DriverRegister where
  name : String
  level : ProbeLevel
  priority : Nat
  probeKinds : List ProbeKind
  deriving DecidableEq, Repr

/-- `OnProbeError`; a `KError` is given by its text. -/
inductive OnProbeError where
  | notMatch
  | kError (message : String)
  | other (message : String)
  | fdt (message : String)
  deriving DecidableEq, Repr

/-- `Result<(), OnProbeError>`. -/
abbrev ProbeResult := Except OnProbeError Unit

/-- `ProbeError`, as far as probing nodes returns it. -/
inductive ProbeError where
  | onProbe (error : OnProbeError)
  deriving DecidableEq, Repr

/-- `ProbeFdtInfo`; the register stands for its name. -/
structure ProbeFdtInfo where
  register : DriverRegister
  node : Nat
  onProbe : Nat
  deriving DecidableEq, Repr

namespace ProbeFdtInfo

def name (info : ProbeFdtInfo) : String := info.register.name

end ProbeFdtInfo

/-- `System`, as probing changes it, and the calls of `on_probe`. -/
structure System where
  probedNames : List String
  calls : List (ProbeFdtInfo × ProbeResult)
  deriving DecidableEq

/-- The `on_probe` functions. -/
abbrev Answer := List (ProbeFdtInfo × ProbeResult) → ProbeFdtInfo → ProbeResult

namespace System

def new : System := ⟨[], []⟩

def getFdtMatchNodes (fdt : List Node) (register : DriverRegister) : List ProbeFdtInfo :=
  fdt.zipIdx.flatMap fun (node, index) =>
    if node.status = some .disabled then []
    else
      register.probeKinds.flatMap fun
        | .fdt compatibles onProbe =>
          (node.compatibles.filter fun compatible => compatibles.contains compatible).map fun _ =>
            ⟨register, index, onProbe⟩
        | .pci _ => []

/-- The loop of `System::probe_register`. -/
def probeNodes (answer : Answer) : List ProbeFdtInfo → System → List ProbeResult × System
  | [], s => ([], s)
  | info :: rest, s =>
    if s.probedNames.contains info.name then probeNodes answer rest s
    else
      let res := answer s.calls info
      let probedNames := if res.isOk then info.name :: s.probedNames else s.probedNames
      let (out, s) := probeNodes answer rest ⟨probedNames, s.calls ++ [(info, res)]⟩
      (res :: out, s)

def probeRegister (answer : Answer) (fdt : List Node) (register : DriverRegister) (s : System) :
    List ProbeResult × System :=
  probeNodes answer (getFdtMatchNodes fdt register) s

end System

/-- The inner loop of `probe_system`. -/
def checkResults (stopIfFail : Bool) : List ProbeResult → Except ProbeError Unit
  | [] => .ok ()
  | .ok _ :: res => checkResults stopIfFail res
  | .error .notMatch :: res => checkResults stopIfFail res
  | .error e :: res => if stopIfFail then .error (.onProbe e) else checkResults stopIfFail res

def probeSystem (answer : Answer) (fdt : List Node) (stopIfFail : Bool) :
    List DriverRegister → System → Except ProbeError Unit × System
  | [], s => (.ok (), s)
  | one :: registers, s =>
    let (res, s) := s.probeRegister answer fdt one
    match checkResults stopIfFail res with
    | .ok () => probeSystem answer fdt stopIfFail registers s
    | .error e => (.error e, s)

/-- `Manager::unregistered`: the registers by priority, and in their order where it is the same. -/
def unregistered (registers : List DriverRegister) : List DriverRegister :=
  registers.insertionSort fun a b => a.priority ≤ b.priority

def probePreKernel (answer : Answer) (fdt : List Node) (registers : List DriverRegister) (s : System) :
    Except ProbeError Unit × System :=
  probeSystem answer fdt true ((unregistered registers).filter fun one => one.level = .preKernel) s

/-- `probe_all`, up to the devices on PCI. -/
def probeAll (answer : Answer) (fdt : List Node) (registers : List DriverRegister) (stopIfFail : Bool) (s : System) :
    Except ProbeError Unit × System :=
  probeSystem answer fdt stopIfFail (unregistered registers) s

end Sparreal.Rdrive
