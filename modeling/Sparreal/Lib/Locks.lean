import Sparreal.Lib.Exec
import Mathlib.Order.Basic

/-!
# Code that takes locks

Code of one CPU works on data behind locks. The locks are not reentrant: code that comes to a lock its CPU holds
already never gets it, which is the fault `reentered`. `withLock` holds a lock around a computation; the rules below
run it, if the lock is free (`withLock_ok`, `withLock_error`) and if it is held (`withLock_of_mem`). `Rises` says that
a measure of the data never falls, whichever locks are held and however the code ends.
-/

namespace Locks

/-- How code stops: at a lock of its own CPU, or for another reason. -/
inductive Fault (L : Type) where
  | reentered (l : L)
  | stuck
  deriving DecidableEq, Repr

/-- A CPU with the locks it holds, the last first. -/
structure Cpu (L σ : Type) where
  held : List L
  data : σ

/-- Code that takes locks of type `L` and works on the data `σ`. -/
abbrev Run (L σ α : Type) : Type := Exec (Fault L) (Cpu L σ) α

variable {L σ α : Type}

def read (f : σ → α) : Run L σ α := Exec.gets fun s => f s.data

def write (f : σ → σ) : Run L σ Unit := Exec.modify fun s => { s with data := f s.data }

/-- Change the data and return something. -/
def update (f : σ → α × σ) : Run L σ α := fun s => (.ok (f s.data).1, { s with data := (f s.data).2 })

/-! ### Measures that never fall -/

section Rises

variable {β P : Type} [Preorder P] {m : σ → P}

def Rises (m : σ → P) (x : Run L σ α) : Prop := Exec.Moves (fun s s' => m s.data ≤ m s'.data) x

theorem rises_pure (a : α) : Rises m (pure a : Run L σ α) := fun _ => le_rfl

theorem Rises.bind {x : Run L σ α} {f : α → Run L σ β} (hx : Rises m x) (hf : ∀ a, Rises m (f a)) :
    Rises m (x >>= f) := by
  refine Exec.Moves.bind ?_ hx hf
  intro s t u hst htu
  exact hst.trans htu

end Rises

/-! ### Locks -/

variable [DecidableEq L]

def lock (l : L) : Run L σ Unit := fun s =>
  if l ∈ s.held then (.error (.reentered l), s) else (.ok (), { s with held := l :: s.held })

def unlock (l : L) : Run L σ Unit := Exec.modify fun s => { s with held := s.held.erase l }

/-- Hold a lock around a computation. -/
def withLock (l : L) (body : Run L σ α) : Run L σ α := do
  lock l
  let a ← body
  unlock l
  return a

variable {l : L} {s : Cpu L σ} {body : Run L σ α}

theorem lock_of_mem (h : l ∈ s.held) : lock l s = (.error (.reentered l), s) := if_pos h

theorem lock_of_not_mem (h : l ∉ s.held) : lock l s = (.ok (), ⟨l :: s.held, s.data⟩) := if_neg h

theorem unlock_apply (s : Cpu L σ) : unlock l s = (.ok (), ⟨s.held.erase l, s.data⟩) := rfl

theorem withLock_of_mem (h : l ∈ s.held) : withLock l body s = (.error (.reentered l), s) := by
  rw [withLock, Exec.bind_apply, lock_of_mem h]

section

variable (h : l ∉ s.held)

include h

/-- What a body with balanced locks does, `withLock` does. -/
theorem withLock_ok {a : α} {data : σ} (hbody : body ⟨l :: s.held, s.data⟩ = (.ok a, ⟨l :: s.held, data⟩)) :
    withLock l body s = (.ok a, ⟨s.held, data⟩) := by
  rw [withLock, Exec.bind_apply_ok (lock_of_not_mem h), Exec.bind_apply_ok hbody, Exec.bind_apply_ok (unlock_apply _),
    List.erase_cons_head]
  rfl

theorem withLock_error {e : Fault L} {s' : Cpu L σ} (hbody : body ⟨l :: s.held, s.data⟩ = (.error e, s')) :
    withLock l body s = (.error e, s') := by
  rw [withLock, Exec.bind_apply_ok (lock_of_not_mem h), Exec.bind_apply, hbody]

theorem withLock_pure (a : α) : withLock l (pure a) s = (.ok a, s) := withLock_ok h rfl

theorem withLock_read (f : σ → α) : withLock l (read f) s = (.ok (f s.data), s) :=
  withLock_ok h rfl

theorem withLock_write (f : σ → σ) : withLock l (write f) s = (.ok (), ⟨s.held, f s.data⟩) :=
  withLock_ok h rfl

theorem withLock_update (f : σ → α × σ) : withLock l (update f) s = (.ok (f s.data).1, ⟨s.held, (f s.data).2⟩) :=
  withLock_ok h rfl

end

theorem rises_lock {P : Type} [Preorder P] {m : σ → P} (l : L) : Rises m (lock l : Run L σ Unit) := by
  intro s
  unfold lock
  split
  · exact le_rfl
  · exact le_rfl

theorem Rises.withLock {P : Type} [Preorder P] {m : σ → P} (hbody : Rises m body) (l : L) :
    Rises m (withLock l body) := by
  refine (rises_lock l).bind fun _ => hbody.bind fun a => ?_
  exact Rises.bind (fun _ => le_rfl) fun _ => rises_pure a

end Locks
