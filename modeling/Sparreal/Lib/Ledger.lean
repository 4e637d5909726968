import Mathlib.Data.List.Count
import Mathlib.Tactic.Common

/-!
# Histories of a resource manager

A ledger is the call history of something that hands out resources and takes them back, newest call
first. A resource is live between a grant and its release. In a `Sound` ledger nothing is granted
twice without a release in between and nothing is released that is not live, so the grants and the
releases of every resource can be counted against each other (`Sound.granted_eq`).
-/

/-- One call: a granted request, a refused request, or a release. -/
inductive LedgerEvent (α : Type) where
  | grant (a : α)
  | refuse
  | release (a : α)
  deriving DecidableEq, Repr

/-- A call history, newest call first. -/
abbrev Ledger (α : Type) : Type := List (LedgerEvent α)

namespace Ledger

variable {α : Type}

/-- `a` was granted and not released since. -/
def Live : Ledger α → α → Prop
  | [], _ => False
  | .grant b :: log, a => a = b ∨ Live log a
  | .refuse :: log, a => Live log a
  | .release b :: log, a => a ≠ b ∧ Live log a

instance decidableLive [DecidableEq α] : (log : Ledger α) → (a : α) → Decidable (Live log a)
  | [], _ => inferInstanceAs (Decidable False)
  | .grant b :: log, a => @instDecidableOr _ _ (inferInstanceAs (Decidable (a = b))) (decidableLive log a)
  | .refuse :: log, a => decidableLive log a
  | .release b :: log, a =>
    @instDecidableAnd _ _ (inferInstanceAs (Decidable (a ≠ b))) (decidableLive log a)

@[simp] theorem live_nil (a : α) : Live [] a ↔ False := Iff.rfl

@[simp] theorem live_grant (b : α) (log : Ledger α) (a : α) :
    Live (.grant b :: log) a ↔ a = b ∨ Live log a := Iff.rfl

@[simp] theorem live_refuse (log : Ledger α) (a : α) : Live (.refuse :: log) a ↔ Live log a :=
  Iff.rfl

@[simp] theorem live_release (b : α) (log : Ledger α) (a : α) :
    Live (.release b :: log) a ↔ a ≠ b ∧ Live log a := Iff.rfl

/-- Every grant was of a resource that was not live, every release of one that was. -/
def Sound : Ledger α → Prop
  | [] => True
  | .grant a :: log => ¬ Live log a ∧ Sound log
  | .refuse :: log => Sound log
  | .release a :: log => Live log a ∧ Sound log

def granted [DecidableEq α] (log : Ledger α) (a : α) : Nat := log.count (.grant a)

def released [DecidableEq α] (log : Ledger α) (a : α) : Nat := log.count (.release a)

theorem Sound.granted_eq [DecidableEq α] {log : Ledger α} (h : Sound log) (a : α) :
    granted log a = released log a + if Live log a then 1 else 0 := by
  unfold granted released
  induction log with
  | nil => simp
  | cons event log ih =>
    cases event with
    | grant b =>
      have hcount := ih h.2
      by_cases hab : a = b
      · subst hab
        rw [if_neg h.1] at hcount
        simp [hcount]
      · simp [hcount, hab, Ne.symm hab]
    | refuse => simp [ih h]
    | release b =>
      have hcount := ih h.2
      by_cases hab : a = b
      · subst hab
        rw [if_pos h.1] at hcount
        simp [hcount]
      · simp [hcount, hab, Ne.symm hab]

/-! ### Holding resources

What is live, as a list: `Holds` says that the live resources are the elements of a list, pairwise apart by a
relation that no resource has to itself. -/

/-- The ledger is sound, and its live resources are those of the list. -/
structure Holds (R : α → α → Prop) (log : Ledger α) (l : List α) : Prop where
  sound : log.Sound
  live : ∀ a, log.Live a ↔ a ∈ l
  apart : l.Pairwise R

namespace Holds

variable {R : α → α → Prop} {log : Ledger α} {l l' : List α} {a : α}

theorem nil : Holds R ([] : Ledger α) [] := ⟨trivial, fun _ => by simp, List.Pairwise.nil⟩

theorem perm (hsymm : ∀ {a b}, R a b → R b a) (hl : l.Perm l') (h : Holds R log l) : Holds R log l' :=
  ⟨h.sound, fun a => (h.live a).trans hl.mem_iff, h.apart.perm hl hsymm⟩

theorem refuse (h : Holds R log l) : Holds R (.refuse :: log) l := ⟨h.sound, h.live, h.apart⟩

theorem grant (hirrefl : ∀ a ∈ l, ¬ R a a) (h : Holds R log l) (hnew : ∀ b ∈ l, R a b) :
    Holds R (.grant a :: log) (a :: l) := by
  refine ⟨⟨fun hlive => ?_, h.sound⟩, fun b => ?_, List.pairwise_cons.mpr ⟨hnew, h.apart⟩⟩
  · have hmem := (h.live a).mp hlive
    exact hirrefl a hmem (hnew a hmem)
  · rw [live_grant, h.live, List.mem_cons]

theorem release (hirrefl : ∀ b ∈ l, ¬ R b b) (h : Holds R log (a :: l)) : Holds R (.release a :: log) l := by
  obtain ⟨hnew, hapart⟩ := List.pairwise_cons.mp h.apart
  refine ⟨⟨(h.live a).mpr (List.mem_cons_self ..), h.sound⟩, fun b => ?_, hapart⟩
  rw [live_release, h.live, List.mem_cons]
  constructor
  · rintro ⟨hne, heq | hmem⟩
    · exact absurd heq hne
    · exact hmem
  · intro hmem
    refine ⟨?_, .inr hmem⟩
    rintro rfl
    exact hirrefl b hmem (hnew b hmem)

theorem granted_eq_released [DecidableEq α] (h : Holds R log []) (a : α) : log.granted a = log.released a := by
  rw [h.sound.granted_eq a, if_neg (by rw [h.live]; exact List.not_mem_nil), Nat.add_zero]

end Holds

/-! ### Keeping some of the resources

Where something else may hold resources of the same manager, or not all are released, the live resources are more
than those of the list. -/

def Grants (R : α → α → Prop) : Ledger α → Prop
  | [] => True
  | .grant a :: log => (∀ b, Live log b → R a b) ∧ Grants R log
  | .refuse :: log => Grants R log
  | .release _ :: log => Grants R log

section Grants

variable {R : α → α → Prop} {log log' : Ledger α} {a b : α}

theorem of_suffix {P : Ledger α → Prop} (htail : ∀ {event log}, P (event :: log) → P log) (h : P log')
    (hsuffix : log <:+ log') : P log := by
  obtain ⟨calls, rfl⟩ := hsuffix
  induction calls with
  | nil => exact h
  | cons event calls ih => exact ih (htail h)

theorem Grants.of_suffix (h : Grants R log') (hsuffix : log <:+ log') : Grants R log := by
  refine Ledger.of_suffix (fun {event log} h => ?_) h hsuffix
  cases event with
  | grant a => exact h.2
  | refuse => exact h
  | release a => exact h

theorem Grants.apart_or_eq (hsymm : ∀ {a b}, R a b → R b a) (h : Grants R log) (ha : Live log a)
    (hb : Live log b) : R a b ∨ a = b := by
  induction log with
  | nil => exact ha.elim
  | cons event log ih =>
    cases event with
    | grant c =>
      rcases ha with rfl | ha
      · rcases hb with rfl | hb
        · exact .inr rfl
        · exact .inl (h.1 b hb)
      · rcases hb with rfl | hb
        · exact .inl (hsymm (h.1 a ha))
        · exact ih h.2 ha hb
    | refuse => exact ih h ha hb
    | release c => exact ih h ha.2 hb.2

end Grants

/-- The resources of the list are live and apart. -/
structure Includes (R : α → α → Prop) (log : Ledger α) (l : List α) : Prop where
  live : ∀ a ∈ l, log.Live a
  apart : l.Pairwise R

namespace Includes

variable {R : α → α → Prop} {log : Ledger α} {l l' : List α} {a : α}

theorem perm (hsymm : ∀ {a b}, R a b → R b a) (hl : l.Perm l') (h : Includes R log l) : Includes R log l' :=
  ⟨fun a ha => h.live a (hl.mem_iff.mpr ha), h.apart.perm hl hsymm⟩

theorem grant (h : Includes R log l) (hgrants : Grants R (.grant a :: log)) :
    Includes R (.grant a :: log) (a :: l) := by
  refine ⟨fun b hb => ?_, List.pairwise_cons.mpr ⟨fun b hb => hgrants.1 b (h.live b hb), h.apart⟩⟩
  rcases List.mem_cons.mp hb with rfl | hb
  · exact .inl rfl
  · exact .inr (h.live b hb)

theorem release (hne : ∀ {a b}, R a b → a ≠ b) (h : Includes R log (a :: l)) : Includes R (.release a :: log) l := by
  obtain ⟨hnew, hapart⟩ := List.pairwise_cons.mp h.apart
  exact ⟨fun b hb => ⟨(hne (hnew b hb)).symm, h.live b (List.mem_cons_of_mem _ hb)⟩, hapart⟩

end Includes

end Ledger
