import Mathlib.Data.List.Basic
import Mathlib.Tactic.Common

/-!
# Machines that take steps

A machine is a step function: it takes an event in a state, or cannot. `run` takes a list of events one after
the other; `run_append` cuts a run in two, and `run_keeps` is the invariant rule.
-/

namespace Machine

variable {σ ε : Type} {step : σ → ε → Option σ}

def run (step : σ → ε → Option σ) : σ → List ε → Option σ
  | s, [] => some s
  | s, e :: es => (step s e).bind fun s' => run step s' es

variable {s t : σ} {e : ε} {es es' : List ε}

theorem run_cons :
    run step s (e :: es) = some t ↔ ∃ s', step s e = some s' ∧ run step s' es = some t :=
  Option.bind_eq_some_iff

theorem run_append :
    run step s (es ++ es') = some t ↔ ∃ s', run step s es = some s' ∧ run step s' es' = some t := by
  induction es generalizing s with
  | nil => simp [run]
  | cons e es ih =>
    rw [List.cons_append, run_cons]
    simp only [ih, run_cons]
    exact ⟨fun ⟨s₁, h₁, s₂, h₂, h⟩ => ⟨s₂, ⟨s₁, h₁, h₂⟩, h⟩,
      fun ⟨s₂, ⟨s₁, h₁, h₂⟩, h⟩ => ⟨s₁, h₁, s₂, h₂, h⟩⟩

variable {I : σ → Prop}

theorem run_keeps_of {P : ε → Prop} (hstep : ∀ {s e s'}, P e → I s → step s e = some s' → I s')
    (hes : ∀ e ∈ es, P e) (hrun : run step s es = some t) (hs : I s) : I t := by
  induction es generalizing s with
  | nil => exact Option.some.inj hrun ▸ hs
  | cons e es ih =>
    obtain ⟨s', hone, hrest⟩ := run_cons.mp hrun
    obtain ⟨he, hes⟩ := List.forall_mem_cons.mp hes
    exact ih hes hrest (hstep he hs hone)

theorem run_keeps (hstep : ∀ {s e s'}, I s → step s e = some s' → I s') (hrun : run step s es = some t)
    (hs : I s) : I t :=
  run_keeps_of (P := fun _ => True) (fun _ => hstep) (fun _ _ => trivial) hrun hs

theorem prefix_concat {α : Type} {front l : List α} {a b : α} (h : front ++ [a] <+: l ++ [b]) :
    front ++ [a] <+: l ∨ front = l ∧ a = b := by
  rcases List.prefix_concat_iff.mp h with heq | hpre
  · obtain ⟨hfront, hlast⟩ := List.append_inj' heq rfl
    exact .inr ⟨hfront, List.singleton_inj.mp hlast⟩
  · exact .inl hpre

section Steps

variable {A B : σ → ε → Prop}

theorem steps_nil : ∀ es' e u, es' ++ [e] <+: [] → run step s es' = some u → A u e :=
  fun _ _ _ hpre => absurd (List.prefix_nil.mp hpre) (by simp)

theorem steps_cons : (∀ es' e' u, es' ++ [e'] <+: e :: es → run step s es' = some u → A u e') ↔
    A s e ∧ ∀ s', step s e = some s' → ∀ es' e' u, es' ++ [e'] <+: es → run step s' es' = some u → A u e' := by
  constructor
  · intro h
    refine ⟨h [] e s (List.prefix_append [e] es) rfl, fun s' hone es' e' u hpre hu => ?_⟩
    exact h (e :: es') e' u (List.cons_prefix_cons.mpr ⟨rfl, hpre⟩) (run_cons.mpr ⟨s', hone, hu⟩)
  · intro ⟨hs, hrest⟩ es' e' u hpre hu
    cases es' with
    | nil =>
      obtain ⟨rfl, -⟩ := List.cons_prefix_cons.mp hpre
      exact Option.some.inj hu ▸ hs
    | cons e₁ es' =>
      obtain ⟨rfl, htail⟩ := List.cons_prefix_cons.mp hpre
      obtain ⟨s', hone, hu'⟩ := run_cons.mp hu
      exact hrest s' hone es' e' u htail hu'

/-- Where every step that is allowed can be taken and keeps what holds, a run of such steps can be taken. -/
theorem run_returns_while (hstep : ∀ {s e}, I s → A s e → ∃ s', step s e = some s' ∧ I s')
    (hes : ∀ es' e u, es' ++ [e] <+: es → run step s es' = some u → A u e) (hs : I s) :
    ∃ t, run step s es = some t ∧ I t := by
  induction es generalizing s with
  | nil => exact ⟨s, rfl, hs⟩
  | cons e es ih =>
    obtain ⟨hallowed, hes⟩ := steps_cons.mp hes
    obtain ⟨s', hone, hs'⟩ := hstep hs hallowed
    obtain ⟨t, hrun, ht⟩ := ih (hes s' hone) hs'
    exact ⟨t, run_cons.mpr ⟨s', hone, hrun⟩, ht⟩

/-- What one thing at every step says, another says too, if the two are the same where the invariant holds, and such
steps keep it. -/
theorem steps_iff (hiff : ∀ {s e}, I s → (A s e ↔ B s e))
    (hkeep : ∀ {s e s'}, I s → B s e → step s e = some s' → I s') (hs : I s) :
    (∀ es' e u, es' ++ [e] <+: es → run step s es' = some u → A u e) ↔
      ∀ es' e u, es' ++ [e] <+: es → run step s es' = some u → B u e := by
  induction es generalizing s with
  | nil => exact iff_of_true steps_nil steps_nil
  | cons e es ih =>
    rw [steps_cons, steps_cons, hiff hs]
    exact and_congr_right fun hB => forall_congr' fun s' => forall_congr' fun hone => ih (hkeep hs hB hone)

end Steps

theorem run_returns {P : ε → Prop} (hstep : ∀ {s e}, P e → I s → ∃ s', step s e = some s' ∧ I s')
    (hes : ∀ e ∈ es, P e) (hs : I s) : ∃ t, run step s es = some t ∧ I t := by
  refine run_returns_while (A := fun _ e => P e) (fun hI he => hstep he hI) (fun es' e u hpre _ => ?_) hs
  exact hes e (hpre.subset (List.mem_append_right _ (List.mem_singleton_self e)))

/-- What holds of every state on the way through the events, as far as they can be taken. -/
def Always (step : σ → ε → Option σ) (Q : σ → Prop) : σ → List ε → Prop
  | s, [] => Q s
  | s, e :: es => Q s ∧ ∀ s', step s e = some s' → Always step Q s' es

theorem always_iff {Q : σ → Prop} :
    Always step Q s es ↔ ∀ es' u, es' <+: es → run step s es' = some u → Q u := by
  induction es generalizing s with
  | nil =>
    constructor
    · intro h es' u hpre hu
      obtain rfl := List.prefix_nil.mp hpre
      exact Option.some.inj hu ▸ h
    · intro h
      exact h [] s List.prefix_rfl rfl
  | cons e es ih =>
    constructor
    · intro ⟨hs, hrest⟩ es' u hpre hu
      cases es' with
      | nil => exact Option.some.inj hu ▸ hs
      | cons e' es' =>
        obtain ⟨rfl, htail⟩ := List.cons_prefix_cons.mp hpre
        obtain ⟨s', hone, hu'⟩ := run_cons.mp hu
        exact ih.mp (hrest s' hone) es' u htail hu'
    · intro h
      refine ⟨h [] s (List.nil_prefix) rfl, fun s' hone => ih.mpr fun es' u hpre hu => ?_⟩
      exact h (e :: es') u (List.cons_prefix_cons.mpr ⟨rfl, hpre⟩) (run_cons.mpr ⟨s', hone, hu⟩)

theorem always_append {Q : σ → Prop} :
    Always step Q s (es ++ es') ↔ Always step Q s es ∧ ∀ u, run step s es = some u → Always step Q u es' := by
  induction es generalizing s with
  | nil =>
    have hhead : Always step Q s es' → Q s := fun h => by
      cases es' with
      | nil => exact h
      | cons e es' => exact h.1
    simp only [List.nil_append, Always, run, Option.some.injEq, forall_eq']
    exact ⟨fun h => ⟨hhead h, h⟩, And.right⟩
  | cons e es ih =>
    simp only [List.cons_append, Always, ih, run_cons]
    constructor
    · intro ⟨hs, hrest⟩
      refine ⟨⟨hs, fun s' hone => (hrest s' hone).1⟩, fun u hu => ?_⟩
      obtain ⟨s', hone, hu⟩ := hu
      exact (hrest s' hone).2 u hu
    · intro ⟨⟨hs, hfront⟩, hback⟩
      exact ⟨hs, fun s' hone => ⟨hfront s' hone, fun u hu => hback u ⟨s', hone, hu⟩⟩⟩

theorem run_back {P : σ → Prop} (hback : ∀ {s e s'}, step s e = some s' → P s' → P s)
    (hrun : run step s es = some t) (ht : P t) : P s := by
  induction es generalizing s with
  | nil => exact Option.some.inj hrun ▸ ht
  | cons e es ih =>
    obtain ⟨s', hone, hrest⟩ := run_cons.mp hrun
    exact hback hone (ih hrest)

/-- A run stays safe just as long as it takes no hazardous step, if such a step does harm at once and every other
keeps the invariant or is the last. `P` is what is assumed of the state that is reached. -/
theorem safe_iff_no_hazard {P I Safe : σ → Prop} {Hazard : σ → ε → Prop}
    (hback : ∀ {s e s'}, step s e = some s' → P s' → P s) (hsafe : ∀ {s}, I s → Safe s)
    (hkeep : ∀ {s e s'}, I s → ¬ Hazard s e → step s e = some s' → P s' → I s' ∨ Safe s' ∧ ∀ e, step s' e = none)
    (hfail : ∀ {s e s'}, I s → Hazard s e → step s e = some s' → P s' → ¬ Safe s')
    (hrun : run step s es = some t) (hok : P t) (hstart : P s → I s) :
    (∀ es' u, es' <+: es → run step s es' = some u → Safe u) ↔
      ∀ es' e u, es' ++ [e] <+: es → run step s es' = some u → ¬ Hazard u e := by
  have hs : I s := hstart (run_back hback hrun hok)
  clear hstart
  rw [← always_iff]
  induction es generalizing s with
  | nil => exact iff_of_true (hsafe hs) steps_nil
  | cons e es ih =>
    obtain ⟨s', hone, hrest⟩ := run_cons.mp hrun
    have hok' : P s' := run_back hback hrest hok
    simp only [steps_cons, Always, hone, Option.some.injEq, forall_eq']
    by_cases hhazard : Hazard s e
    · refine iff_of_false (fun h => ?_) fun h => h.1 hhazard
      exact hfail hs hhazard hone hok' (always_iff.mp h.2 [] s' List.nil_prefix rfl)
    · refine and_congr (iff_of_true (hsafe hs) hhazard) ?_
      rcases hkeep hs hhazard hone hok' with hs' | ⟨hsafe', hlast⟩
      · exact ih hrest hs'
      · cases es with
        | nil => exact iff_of_true hsafe' steps_nil
        | cons e' es => simp [run, hlast] at hrest

/-- So it does where a hazardous step can always be taken, whether or not the run can be taken to its end. -/
theorem safe_iff_no_hazard_of_step {I Safe : σ → Prop} {Hazard : σ → ε → Prop} (hsafe : ∀ {s}, I s → Safe s)
    (hkeep : ∀ {s e s'}, I s → ¬ Hazard s e → step s e = some s' → I s')
    (hfail : ∀ {s e}, I s → Hazard s e → ∃ s', step s e = some s' ∧ ¬ Safe s') (hs : I s) :
    (∀ es' u, es' <+: es → run step s es' = some u → Safe u) ↔
      ∀ es' e u, es' ++ [e] <+: es → run step s es' = some u → ¬ Hazard u e := by
  rw [← always_iff]
  induction es generalizing s with
  | nil => exact iff_of_true (hsafe hs) steps_nil
  | cons e es ih =>
    rw [steps_cons, Always]
    by_cases hhazard : Hazard s e
    · obtain ⟨s', hone, hnot⟩ := hfail hs hhazard
      refine iff_of_false (fun h => ?_) fun h => h.1 hhazard
      exact hnot (always_iff.mp (h.2 s' hone) [] s' List.nil_prefix rfl)
    · refine and_congr (iff_of_true (hsafe hs) hhazard) ?_
      exact forall_congr' fun s' => forall_congr' fun hone => ih (hkeep hs hhazard hone)

end Machine
