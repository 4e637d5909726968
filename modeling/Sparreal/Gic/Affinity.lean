import Sparreal.Lib.Bank
import Mathlib.Data.BitVec
import Mathlib.Data.List.Nodup
import Mathlib.Tactic.IntervalCases

/-!
# Affinities in the GICv3 driver

Two places of `gic/src/version/v3` where a processor is named by its affinity.

`set_interrupt_route` and `get_interrupt_route`: the registers `IROUTER` are declared as 987, and there are 988 shared
interrupts. The route of the last one is neither written nor read (`routed_iff`).

`current_rd` looks for the redistributor of the running processor with 24 bits of `MPIDR_EL1`, without the affinity at
level 3, which `GICR_TYPER` has (`currentRd_iff`).
-/

namespace Sparreal.Gic

structure Affinity where
  aff0 : BitVec 8
  aff1 : BitVec 8
  aff2 : BitVec 8
  aff3 : BitVec 8
  deriving DecidableEq, Repr

/-! ### Routing -/

/-- The array `IROUTER`. -/
abbrev Routers := Bank 987 64

/-- The value that `set_interrupt_route` writes. -/
def routeValue : Option Affinity → BitVec 64
  | some aff => (aff.aff0.setWidth 64 ||| aff.aff1.setWidth 64 <<< 8 ||| aff.aff2.setWidth 64 <<< 16 |||
      aff.aff3.setWidth 64 <<< 32) &&& ~~~(1#64 <<< 31)
  | none => 1#64 <<< 31

/-- The target that `get_interrupt_route` finds in a register. -/
def routeTarget (value : BitVec 64) : Option Affinity :=
  if value &&& (1#64 <<< 31) ≠ 0 then none
  else some
    { aff0 := (value &&& 0xFF).setWidth 8
      aff1 := (value >>> 8 &&& 0xFF).setWidth 8
      aff2 := (value >>> 16 &&& 0xFF).setWidth 8
      aff3 := (value >>> 32 &&& 0xFF).setWidth 8 }

/-- `SPI_RANGE.contains`. -/
def isSpi (intid : Nat) : Bool := 32 ≤ intid && intid < 1020

def setInterruptRoute (intid : Nat) (aff : Option Affinity) (routers : Routers) : Routers :=
  if isSpi intid then (routers.store (fun _ => routeValue aff) (intid - 32)).getD routers else routers

def getInterruptRoute (intid : Nat) (routers : Routers) : Option Affinity :=
  if isSpi intid then (routers.read (intid - 32)).bind routeTarget else none

/-- `set_target_cpu`; a private interrupt is a panic. -/
def setTargetCpu (id : Nat) (aff : Option Affinity) (routers : Routers) : Option Routers :=
  if id < 32 then none else some (setInterruptRoute id aff routers)

/-- `get_target_cpu`; a private interrupt is a panic. -/
def targetCpu (id : Nat) (routers : Routers) : Option (Option Affinity) :=
  if id < 32 then none else some (getInterruptRoute id routers)

/-- The route of `id` is set, and no other. -/
def Routed (id : Nat) (aff : Option Affinity) (routers : Routers) : Prop :=
  ∃ routers', setTargetCpu id aff routers = some routers' ∧ targetCpu id routers' = some aff ∧
    ∀ other, isSpi other = true → other ≠ id → targetCpu other routers' = targetCpu other routers

theorem routeTarget_routeValue (aff : Option Affinity) : routeTarget (routeValue aff) = aff := by
  cases aff with
  | none => decide
  | some aff =>
    have hmode : ¬ routeValue (some aff) &&& (1#64 <<< 31) ≠ 0 := by simp [routeValue, BitVec.and_assoc]
    rw [routeTarget, if_neg hmode]
    congr 1
    obtain ⟨aff0, aff1, aff2, aff3⟩ := aff
    congr 1 <;> apply BitVec.eq_of_getLsbD_eq <;> intro i hi <;> interval_cases i <;> simp [routeValue]

/-- The last interrupt has no register. -/
theorem getInterruptRoute_last (routers : Routers) : getInterruptRoute 1019 routers = none := by
  rw [getInterruptRoute, if_pos (by decide), Bank.read, dif_neg (by decide), Option.bind_none]

theorem setInterruptRoute_last (aff : Option Affinity) (routers : Routers) :
    setInterruptRoute 1019 aff routers = routers := by
  rw [setInterruptRoute, if_pos (by decide), Bank.store, dif_neg (by decide), Option.getD_none]

theorem getInterruptRoute_set {id other : Nat} (hid : 32 ≤ id ∧ id < 1019) (hother : isSpi other = true)
    (aff : Option Affinity) (routers : Routers) :
    getInterruptRoute other (setInterruptRoute id aff routers) =
      if other = id then aff else getInterruptRoute other routers := by
  have hspi : isSpi id = true := by simp [isSpi]; omega
  have hlow : 32 ≤ other := by simp [isSpi] at hother; omega
  rw [setInterruptRoute, if_pos hspi, Bank.store, dif_pos (by omega), Option.getD_some]
  unfold getInterruptRoute
  rw [if_pos hother, if_pos hother]
  split_ifs with heq
  · subst heq
    rw [Bank.read_eq _ (by omega), Option.bind_some, Function.update_self, routeTarget_routeValue]
  · unfold Bank.read
    split_ifs with h
    · rw [Function.update_of_ne (by simp [Fin.ext_iff]; omega)]
    · rfl

/-- An interrupt is routed as it should be, unless it is the last one and has a target. -/
theorem routed_iff {id : Nat} (hspi : isSpi id = true) (aff : Option Affinity) (routers : Routers) :
    Routed id aff routers ↔ id ≠ 1019 ∨ aff = none := by
  have hrange : ∀ other, isSpi other = true → 32 ≤ other ∧ other < 1020 := by simp [isSpi]
  have hget : ∀ other, isSpi other = true → ∀ routers', targetCpu other routers' =
      some (getInterruptRoute other routers') := fun other h _ => if_neg (by have := hrange other h; omega)
  have hset : setTargetCpu id aff routers = some (setInterruptRoute id aff routers) :=
    if_neg (by have := hrange id hspi; omega)
  simp only [Routed, hset, Option.some_inj, exists_eq_left', hget id hspi]
  by_cases hlast : id = 1019
  · subst hlast
    rw [setInterruptRoute_last, getInterruptRoute_last]
    exact ⟨fun h => .inr h.1.symm, fun h => ⟨(h.resolve_left fun hne => hne rfl).symm, fun _ _ _ => rfl⟩⟩
  · have hid : 32 ≤ id ∧ id < 1019 := by have := hrange id hspi; omega
    refine ⟨fun _ => .inl hlast, fun _ => ⟨?_, fun other hother hne => ?_⟩⟩
    · rw [getInterruptRoute_set hid hspi, if_pos rfl]
    · rw [hget other hother, hget other hother, getInterruptRoute_set hid hother, if_neg hne]

/-- Over registers that have another route. -/
theorem routed_levels : Routed 32 (some ⟨1, 2, 3, 4⟩) (fun _ => 0x500060708) :=
  (routed_iff (by decide) (some ⟨1, 2, 3, 4⟩) _).mpr (.inl (by decide))

def firstCpu : Affinity := ⟨0, 0, 0, 0⟩

/-- The target of the last interrupt is lost. -/
theorem setTargetCpu_ignored :
    setTargetCpu 1019 (some firstCpu) (fun _ => 0) = some (fun _ => 0) ∧ targetCpu 1019 (fun _ => 0) = some none := by
  refine ⟨?_, ?_⟩
  · rw [setTargetCpu, if_neg (by decide), setInterruptRoute_last]
  · rw [targetCpu, if_neg (by decide), getInterruptRoute_last]

/-! ### The redistributor of a processor -/

/-- `GICR_TYPER::Affinity`. -/
def typerAffinity (typer : BitVec 64) : BitVec 32 := typer.extractLsb' 32 32

/-- `GICR_TYPER::Last`. -/
def typerLast (typer : BitVec 64) : Bool := typer.getLsbD 4

/-- The frames that a `RedistributorIter` goes through, by their `TYPER`. -/
def redistributors : List (BitVec 64) → List (BitVec 64)
  | [] => []
  | typer :: frames => typer :: if typerLast typer then [] else redistributors frames

/-- `current_rd`, as the number of the frame; `none` is the panic. -/
def currentRd (mpidr : BitVec 64) (frames : List (BitVec 64)) : Option Nat :=
  let want := (mpidr &&& 0xFFFFFF).setWidth 32
  (redistributors frames).findIdx? fun typer => typerAffinity typer == want

/-- `MPIDR_EL1::Aff3`. -/
def mpidrAff3 (mpidr : BitVec 64) : BitVec 8 := mpidr.extractLsb' 32 8

/-- The four levels of `MPIDR_EL1`, as `GICR_TYPER` has them. -/
def mpidrAffinity (mpidr : BitVec 64) : BitVec 32 :=
  (mpidr &&& 0xFFFFFF).setWidth 32 ||| (mpidrAff3 mpidr).setWidth 32 <<< 24

theorem mpidrAffinity_eq_iff (mpidr : BitVec 64) :
    mpidrAffinity mpidr = (mpidr &&& 0xFFFFFF).setWidth 32 ↔ mpidrAff3 mpidr = 0 := by
  constructor
  · intro h
    apply BitVec.eq_of_getLsbD_eq
    intro i hi
    have hbit := congrArg (fun word => word.getLsbD (24 + i)) h
    interval_cases i <;> simpa [mpidrAffinity] using hbit
  · intro h
    simp [mpidrAffinity, h]

theorem redistributors_get {frames : List (BitVec 64)} {k : Nat} {typer : BitVec 64} :
    (redistributors frames)[k]? = some typer ↔
      frames[k]? = some typer ∧ ∀ i < k, ∀ t, frames[i]? = some t → typerLast t = false := by
  induction frames generalizing k with
  | nil => simp [redistributors]
  | cons head frames ih =>
    cases k with
    | zero => simp [redistributors]
    | succ k =>
      rw [redistributors, List.getElem?_cons_succ, List.getElem?_cons_succ]
      cases hlast : typerLast head with
      | true =>
        simp only [if_true, List.getElem?_nil, reduceCtorEq, false_iff, not_and]
        intro _ hnone
        exact absurd hlast (by simp [hnone 0 (Nat.succ_pos k) head rfl])
      | false =>
        simp only [Bool.false_eq_true, if_false, ih]
        refine and_congr_right fun _ => ⟨fun h i hi t ht => ?_, fun h i hi t ht => h (i + 1) (by omega) t ht⟩
        cases i with
        | zero => exact Option.some.inj ht ▸ hlast
        | succ i => exact h i (by omega) t ht

/-- The frame of the processor is found if its affinity at level 3 is zero and no frame before it is the last one. -/
theorem currentRd_iff {mpidr : BitVec 64} {frames : List (BitVec 64)} {k : Nat} {typer : BitVec 64}
    (hdistinct : (frames.map typerAffinity).Nodup) (hk : frames[k]? = some typer)
    (haff : typerAffinity typer = mpidrAffinity mpidr) :
    currentRd mpidr frames = some k ↔
      mpidrAff3 mpidr = 0 ∧ ∀ i < k, ∀ t, frames[i]? = some t → typerLast t = false := by
  rw [currentRd, List.findIdx?_eq_some_iff_getElem, ← mpidrAffinity_eq_iff]
  constructor
  · rintro ⟨hlt, hfound, -⟩
    obtain ⟨hget, hlast⟩ := redistributors_get.mp (List.getElem?_eq_getElem hlt)
    rw [← Option.some.inj (hk.symm.trans hget), haff] at hfound
    exact ⟨eq_of_beq hfound, hlast⟩
  · rintro ⟨hwant, hlast⟩
    obtain ⟨hlt, hget⟩ := List.getElem?_eq_some_iff.mp (redistributors_get.mpr ⟨hk, hlast⟩)
    refine ⟨hlt, by rw [hget, haff, hwant, beq_self_eq_true], fun j hj hfound => ?_⟩
    obtain ⟨hother, -⟩ := redistributors_get.mp (List.getElem?_eq_getElem (hj.trans hlt))
    have hsame : (frames.map typerAffinity)[j]? = (frames.map typerAffinity)[k]? := by
      rw [List.getElem?_map, List.getElem?_map, hother, hk, Option.map_some, Option.map_some, eq_of_beq hfound, haff,
        hwant]
    have hlen : j < (frames.map typerAffinity).length := by
      rw [List.length_map]
      exact (List.getElem?_eq_some_iff.mp hother).1
    exact absurd ((List.getElem?_inj hlen hdistinct).mp hsame) (by omega)

/-- The second of two processors, with affinity 0.0.0.1. -/
theorem currentRd_second : currentRd 0x80000001 [0x0, 0x100000010] = some 1 := by
  refine (currentRd_iff (by decide) rfl (by decide)).mpr ⟨by decide, fun i hi t ht => ?_⟩
  obtain rfl := Nat.lt_one_iff.mp hi
  obtain rfl := Option.some.inj ht
  decide

/-- Two processors that differ at level 3: the second one finds the frame of the first. -/
theorem currentRd_other :
    ([0x100000000, 0x100000100000010].map typerAffinity).Nodup ∧
      typerAffinity 0x100000100000010 = mpidrAffinity 0x180000001 ∧ typerLast 0x100000100000010 = true ∧
      currentRd 0x180000001 [0x100000000, 0x100000100000010] = some 0 := by
  decide

end Sparreal.Gic
