import Sparreal.Lib.Machine

/-!
# Cells that are initialised once

`StaticCell` of `kernutil/src/staticcell.rs`: one call of `init` and any number of calls of `deref`, step by step.
`init` sets the flag before it writes the value, so a `deref` between the two finds the flag set and nothing written
(`deref_exact_iff`).
-/

namespace Sparreal.Sync.StaticCell

/-- Where the call of `init` is. -/
inductive Init
  | called | exchanged | written | panicked
  deriving DecidableEq, Repr

/-- The cell with the calls on it. -/
structure State (T : Type) where
  init : Bool
  /-- `none` is what is not written. -/
  value : Option T
  writer : Init
  /-- The number of calls of `deref` that have found the flag set and have not read the value. -/
  loaded : Nat
  /-- What `deref` has returned. -/
  returned : List (Option T)
  deriving DecidableEq

variable {T : Type}

def uninit : State T := ⟨false, none, .called, 0, []⟩

/-- The two steps of `init`, and the two of a `deref`. -/
inductive Event
  | exchange | write | load | read
  deriving DecidableEq, Repr

/-- A step, where `init` is called with `val`. A `deref` that finds the flag clear panics. -/
def step (val : T) (s : State T) : Event → Option (State T)
  | .exchange =>
    if s.writer = .called then
      some (if s.init then { s with writer := .panicked } else { s with init := true, writer := .exchanged })
    else none
  | .write => if s.writer = .exchanged then some { s with value := some val, writer := .written } else none
  | .load => some (if s.init then { s with loaded := s.loaded + 1 } else s)
  | .read =>
    if 0 < s.loaded then some { s with loaded := s.loaded - 1, returned := s.value :: s.returned } else none

def Exact (val : T) (s : State T) : Prop := ∀ value ∈ s.returned, value = some val

/-- A `deref` reads between the two steps of `init`. -/
def Between (s : State T) (e : Event) : Prop := e = .read ∧ 0 < s.loaded ∧ s.writer = .exchanged

/-- The states in which no `deref` has read too early. -/
inductive Inv (val : T) : State T → Prop
  | before : Inv val uninit
  | between (loaded : Nat) : Inv val ⟨true, none, .exchanged, loaded, []⟩
  | after {loaded : Nat} {returned : List (Option T)} (exact : ∀ value ∈ returned, value = some val) :
    Inv val ⟨true, some val, .written, loaded, returned⟩

variable {val : T} {s s' : State T} {e : Event}

theorem Inv.step (h : Inv val s) (hnot : ¬ Between s e) (hstep : step val s e = some s') : Inv val s' := by
  cases h with
  | before =>
    cases e with
    | exchange => exact Option.some.inj hstep ▸ .between 0
    | load => exact Option.some.inj hstep ▸ .before
    | write => cases hstep
    | read => cases hstep
  | between loaded =>
    cases e with
    | exchange => cases hstep
    | write => exact Option.some.inj hstep ▸ .after fun _ hvalue => absurd hvalue List.not_mem_nil
    | load => exact Option.some.inj hstep ▸ .between (loaded + 1)
    | read => exact absurd ⟨rfl, (Option.ite_none_right_eq_some.mp hstep).1, rfl⟩ hnot
  | after exact =>
    cases e with
    | exchange => cases hstep
    | write => cases hstep
    | load => exact Option.some.inj hstep ▸ .after exact
    | read =>
      obtain ⟨-, ⟨⟩⟩ := Option.ite_none_right_eq_some.mp hstep
      exact .after (List.forall_mem_cons.mpr ⟨rfl, exact⟩)

/-- Every `deref` that returns does so with the value given to `init`, as long as none reads between its two steps. -/
theorem deref_exact_iff (val : T) (es : List Event) :
    (∀ es' s, es' <+: es → Machine.run (step val) uninit es' = some s → Exact val s) ↔
      ∀ es' e s, es' ++ [e] <+: es → Machine.run (step val) uninit es' = some s → ¬ Between s e := by
  refine Machine.safe_iff_no_hazard_of_step (I := Inv val) (fun h => ?_) Inv.step ?_ .before
  · cases h with
    | after exact => exact exact
    | _ => exact fun _ hvalue => absurd hvalue List.not_mem_nil
  · rintro s _ h ⟨rfl, hloaded, hexchanged⟩
    cases h with
    | between loaded => exact ⟨_, if_pos hloaded, fun h => by simpa using h none List.mem_cons_self⟩
    | _ => cases hexchanged

/-- A `deref` finds the flag set and reads what is not written. -/
theorem deref_uninit :
    (Machine.run (step 7) uninit [.exchange, .load, .read]).map State.returned = some [none] := by
  decide

end Sparreal.Sync.StaticCell
