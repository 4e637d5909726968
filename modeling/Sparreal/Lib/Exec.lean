import Mathlib.Logic.Relation
import Mathlib.Tactic.Common

/-!
# Fallible computations over a state

`Exec ε σ α` runs on a state and either returns a value or stops with a fault; the state it had
reached survives the fault. The rules below take a run apart: `bind_eq_ok` and `bind_eq_error` split
a sequence into the runs of its parts, `loop_elim` is the induction principle of a bounded `while`
loop (its motive sees every way a run can end; `loop_ok_elim` is for runs that return), and `loop_cases` and
`loop_returns` are the total-correctness rules with an invariant and a variant. `Iterates` is one iteration of a
loop that goes on, and `body_ok_of_loop_ok` says that the body of a loop that returns does.
`Triple` has rules for sequences and for loops over lists. `repeatUntil` is a loop left by a `return` in its body and
`collect` drains an iterator; `repeatUntil_returns` and `collect_eq` are their total-correctness rules.
-/

/-- A computation over the state `σ` that returns an `α` or stops with a fault `ε`. -/
def Exec (ε σ α : Type) : Type := σ → Except ε α × σ

namespace Exec

variable {ε σ α β : Type}

instance : Monad (Exec ε σ) where
  pure a := fun s => (.ok a, s)
  bind x f := fun s =>
    match x s with
    | (.ok a, s') => f a s'
    | (.error e, s') => (.error e, s')

def throw (e : ε) : Exec ε σ α := fun s => (.error e, s)

/-- A pure computation that may fault. -/
def ofExcept (x : Except ε α) : Exec ε σ α := fun s => (x, s)

def gets (f : σ → α) : Exec ε σ α := fun s => (.ok (f s), s)

def modify (f : σ → σ) : Exec ε σ Unit := fun s => (.ok (), f s)

@[simp] theorem pure_apply (a : α) (s : σ) : (pure a : Exec ε σ α) s = (.ok a, s) := rfl

@[simp] theorem throw_apply (e : ε) (s : σ) : (throw e : Exec ε σ α) s = (.error e, s) := rfl

@[simp] theorem ofExcept_apply (x : Except ε α) (s : σ) : ofExcept x s = (x, s) := rfl

@[simp] theorem gets_apply (f : σ → α) (s : σ) : (gets f : Exec ε σ α) s = (.ok (f s), s) := rfl

@[simp] theorem modify_apply (f : σ → σ) (s : σ) :
    (modify f : Exec ε σ Unit) s = (.ok (), f s) := rfl

theorem bind_apply (x : Exec ε σ α) (f : α → Exec ε σ β) (s : σ) :
    (x >>= f) s =
      match x s with
      | (.ok a, s') => f a s'
      | (.error e, s') => (.error e, s') := rfl

variable {s s' : σ} {b : β} {I : σ → Prop} {f : α → Exec ε σ β} {x : Exec ε σ α}

theorem bind_eq_ok {s'' : σ} : (x >>= f) s = (.ok b, s'') ↔ ∃ a s', x s = (.ok a, s') ∧ f a s' = (.ok b, s'') := by
  rw [bind_apply]
  rcases h : x s with ⟨_ | a, s'⟩
  · simp
  · simp

theorem bind_eq_error {s'' : σ} {e : ε} :
    (x >>= f) s = (.error e, s'') ↔
      x s = (.error e, s'') ∨ ∃ a s', x s = (.ok a, s') ∧ f a s' = (.error e, s'') := by
  rw [bind_apply]
  rcases h : x s with ⟨_ | a, s'⟩
  · simp
  · simp

theorem bind_apply_ok {a : α} (h : x s = (.ok a, s')) : (x >>= f) s = f a s' := by
  rw [bind_apply, h]

theorem ofExcept_bind_eq_ok {x : Except ε α} :
    (ofExcept x >>= f) s = (.ok b, s') ↔ ∃ a, x = .ok a ∧ f a s = (.ok b, s') := by
  rw [bind_apply, ofExcept_apply]
  cases x <;> simp

theorem ofExcept_bind_eq_error {x : Except ε α} {e : ε} :
    (ofExcept x >>= f) s = (.error e, s') ↔
      x = .error e ∧ s = s' ∨ ∃ a, x = .ok a ∧ f a s = (.error e, s') := by
  rw [bind_apply, ofExcept_apply]
  cases x <;> simp

theorem ofExcept_ok_bind (a : α) (f : α → Exec ε σ β) : (ofExcept (.ok a) >>= f) = f a := rfl

theorem forM_cons (f : α → Exec ε σ Unit) (a : α) (l : List α) :
    (a :: l).forM f = (f a >>= fun _ => l.forM f) := rfl

/-! ### Invariants -/

/-- What holds before a run holds after it, if it returns. -/
def Keeps (I : σ → Prop) (x : Exec ε σ α) : Prop := ∀ ⦃s a s'⦄, I s → x s = (.ok a, s') → I s'

theorem keeps_pure (I : σ → Prop) (a : α) : Keeps I (pure a : Exec ε σ α) := by
  intro s a' s' hs h
  obtain rfl : s = s' := congrArg Prod.snd h
  exact hs

theorem keeps_throw (I : σ → Prop) (e : ε) : Keeps I (throw e : Exec ε σ α) := by
  intro s a s' _ h
  simp at h

theorem Keeps.bind (hx : Keeps I x) (hf : ∀ a, Keeps I (f a)) : Keeps I (x >>= f) := by
  intro s b s'' hs h
  obtain ⟨a, s', ha, hb⟩ := bind_eq_ok.mp h
  exact hf a (hx hs ha) hb

theorem keeps_forM {f : α → Exec ε σ Unit} {l : List α} (hf : ∀ a ∈ l, Keeps I (f a)) :
    Keeps I (l.forM f) := by
  induction l with
  | nil => exact keeps_pure I _
  | cons a l ih =>
    exact (hf a List.mem_cons_self).bind fun _ => ih fun b hb => hf b (List.mem_cons_of_mem a hb)

/-- Every run takes the state to a related one, however it ends. -/
def Moves (R : σ → σ → Prop) (x : Exec ε σ α) : Prop := ∀ s, R s (x s).2

theorem Moves.of_run {R : σ → σ → Prop} (hx : Moves R x) {r : Except ε α} (hrun : x s = (r, s')) : R s s' := by
  have hs := hx s
  rwa [hrun] at hs

theorem Moves.bind {R : σ → σ → Prop} (htrans : ∀ s t u, R s t → R t u → R s u) (hx : Moves R x)
    (hf : ∀ a, Moves R (f a)) : Moves R (x >>= f) := by
  intro s
  have hs := hx s
  rw [bind_apply]
  rcases hrun : x s with ⟨e | a, s'⟩
  · rwa [hrun] at hs
  · rw [hrun] at hs
    exact htrans _ _ _ hs (hf a s')

theorem moves_forM {R : σ → σ → Prop} (hrefl : ∀ s, R s s) (htrans : ∀ s t u, R s t → R t u → R s u)
    {f : α → Exec ε σ Unit} (hf : ∀ a, Moves R (f a)) (l : List α) : Moves R (l.forM f) := by
  induction l with
  | nil => exact hrefl
  | cons a l ih => exact Moves.bind htrans (hf a) fun _ => ih

/-! ### Pre- and postconditions -/

/-- From `P`, a run that returns ends in `Q`, and one that stops ends in `E`. -/
def Triple (P : σ → Prop) (x : Exec ε σ α) (Q : α → σ → Prop) (E : ε → σ → Prop) : Prop :=
  ∀ ⦃s⦄, P s → (∀ a s', x s = (.ok a, s') → Q a s') ∧ ∀ e s', x s = (.error e, s') → E e s'

section Triple

variable {P : σ → Prop} {Q : α → σ → Prop} {R : β → σ → Prop} {E : ε → σ → Prop} {x : Exec ε σ α}
  {f : α → Exec ε σ β}

theorem Triple.bind (hx : Triple P x Q E) (hf : ∀ a, Triple (Q a) (f a) R E) : Triple P (x >>= f) R E := by
  intro s hs
  refine ⟨fun b s'' hrun => ?_, fun e s'' hrun => ?_⟩
  · obtain ⟨a, s', ha, hb⟩ := bind_eq_ok.mp hrun
    exact (hf a ((hx hs).1 a s' ha)).1 b s'' hb
  · rcases bind_eq_error.mp hrun with he | ⟨a, s', ha, he⟩
    · exact (hx hs).2 e s'' he
    · exact (hf a ((hx hs).1 a s' ha)).2 e s'' he

theorem Triple.gets {g : σ → α} (hf : ∀ a, Triple (fun s => P s ∧ g s = a) (f a) R E) :
    Triple P (Exec.gets g >>= f) R E := fun s hs => hf (g s) ⟨hs, rfl⟩

/-- A loop over a list, with an invariant that depends on what is left of it. -/
theorem Triple.forM {I : List α → σ → Prop} {f : α → Exec ε σ Unit}
    (hf : ∀ a l, Triple (I (a :: l)) (f a) (fun _ => I l) E) (l : List α) :
    Triple (I l) (l.forM f) (fun _ => I []) E := by
  induction l with
  | nil =>
    intro s hs
    refine ⟨fun a s' hrun => ?_, fun e s' hrun => by cases (Prod.mk.inj hrun).1⟩
    obtain ⟨-, rfl⟩ := Prod.mk.inj hrun
    exact hs
  | cons a l ih =>
    rw [forM_cons]
    exact (hf a l).bind fun _ => ih

end Triple

/-! ### Bounded loops -/

/-- `while cond b { b = body b }`, stopping with `out` when `fuel` iterations were not enough. -/
def loop (out : ε) (cond : β → Bool) (body : β → Exec ε σ β) : Nat → β → Exec ε σ β
  | 0, b => if cond b then throw out else pure b
  | fuel + 1, b => if cond b then body b >>= loop out cond body fuel else pure b

variable {out : ε} {cond : β → Bool} {body : β → Exec ε σ β} {fuel : Nat}

/-- Induction over the iterations of a loop, for every way the run can end. -/
theorem loop_elim {motive : β → σ → Except ε β → σ → Prop} (done : ∀ b s, cond b = false → motive b s (.ok b) s)
    (exhausted : ∀ b s, cond b = true → motive b s (.error out) s)
    (stop : ∀ b s e s', cond b = true → body b s = (.error e, s') → motive b s (.error e) s')
    (step : ∀ b s b' s' r s'', cond b = true → body b s = (.ok b', s') → motive b' s' r s'' → motive b s r s'')
    {r : Except ε β} (h : loop out cond body fuel b s = (r, s')) : motive b s r s' := by
  induction fuel generalizing b s with
  | zero =>
    cases hc : cond b with
    | false =>
      obtain ⟨rfl, rfl⟩ : Except.ok b = r ∧ s = s' := by simpa [loop, hc] using h
      exact done b s hc
    | true =>
      obtain ⟨rfl, rfl⟩ : Except.error out = r ∧ s = s' := by simpa [loop, hc] using h
      exact exhausted b s hc
  | succ fuel ih =>
    cases hc : cond b with
    | false =>
      obtain ⟨rfl, rfl⟩ : Except.ok b = r ∧ s = s' := by simpa [loop, hc] using h
      exact done b s hc
    | true =>
      rw [loop, if_pos hc, bind_apply] at h
      rcases hb : body b s with ⟨e | b', s₁⟩
      · rw [hb] at h
        obtain ⟨rfl, rfl⟩ : Except.error e = r ∧ s₁ = s' := by simpa using h
        exact stop b s e s₁ hc hb
      · rw [hb] at h
        exact step b s b' s₁ r s' hc hb (ih h)

@[elab_as_elim]
theorem loop_ok_elim {motive : β → σ → Prop} {b' : β} (h : loop out cond body fuel b s = (.ok b', s'))
    (done : cond b' = false → motive b' s')
    (step : ∀ b s b₁ s₁, cond b = true → body b s = (.ok b₁, s₁) → motive b₁ s₁ → motive b s) : motive b s := by
  refine loop_elim (motive := fun b s r s'' => r = .ok b' → s'' = s' → motive b s) ?_ ?_ ?_ ?_ h rfl rfl
  · intro b s hcond hb hs
    obtain rfl := Except.ok.inj hb
    exact hs ▸ done hcond
  · intro _ _ _ hr
    simp at hr
  · intro _ _ _ _ _ _ hr
    simp at hr
  · intro b s b₁ s₁ r s'' hcond hbody ih hr hs
    exact step b s b₁ s₁ hcond hbody (ih hr hs)

/-- A loop whose body keeps an invariant and decreases a variant, or stops with a fault, does one of the
two. -/
theorem loop_cases {I : β → σ → Prop} {E : ε → σ → Prop} (variant : β → Nat)
    (hpos : ∀ b s, I b s → cond b = true → 0 < variant b)
    (hstep : ∀ b s, I b s → cond b = true →
      (∃ b' s', body b s = (.ok b', s') ∧ I b' s' ∧ variant b' < variant b) ∨
        ∃ e s', body b s = (.error e, s') ∧ E e s')
    (fuel : Nat) (b : β) (s : σ) (hfuel : variant b ≤ fuel) (hI : I b s) :
    (∃ b' s', loop out cond body fuel b s = (.ok b', s')) ∨ ∃ e s', loop out cond body fuel b s = (.error e, s') ∧ E e s' := by
  induction fuel generalizing b s with
  | zero =>
    cases hc : cond b with
    | false => exact .inl ⟨b, s, by simp [loop, hc]⟩
    | true =>
      have := hpos b s hI hc
      omega
  | succ fuel ih =>
    cases hc : cond b with
    | false => exact .inl ⟨b, s, by simp [loop, hc]⟩
    | true =>
      rw [loop, if_pos hc]
      rcases hstep b s hI hc with ⟨b', s', hb, hI', hlt⟩ | ⟨e, s', hb, hE⟩
      · rw [bind_apply_ok hb]
        exact ih b' s' (by omega) hI'
      · exact .inr ⟨e, s', by rw [bind_apply, hb], hE⟩

theorem loop_returns {I : β → σ → Prop} (variant : β → Nat)
    (hstep : ∀ b s, I b s → cond b = true →
      ∃ b' s', body b s = (.ok b', s') ∧ I b' s' ∧ variant b' < variant b)
    (fuel : Nat) (b : β) (s : σ) (hfuel : variant b ≤ fuel) (hI : I b s) :
    ∃ b' s', loop out cond body fuel b s = (.ok b', s') := by
  have hpos (b s) (hI : I b s) (hc : cond b = true) : 0 < variant b := by
    obtain ⟨_, _, _, _, hlt⟩ := hstep b s hI hc
    exact Nat.zero_lt_of_lt hlt
  rcases loop_cases (E := fun _ _ => False) variant hpos (fun b s hI hc => .inl (hstep b s hI hc)) fuel b s
    hfuel hI with h | ⟨_, _, _, hfalse⟩
  · exact h
  · exact hfalse.elim

def Iterates (cond : β → Bool) (body : β → Exec ε σ β) (x y : β × σ) : Prop :=
  cond x.1 = true ∧ body x.1 x.2 = (.ok y.1, y.2)

/-- `loop { .. }`: repeat `body` until it returns a value; `none` is `continue`. -/
def repeatUntil (out : ε) (body : Exec ε σ (Option β)) : Nat → Exec ε σ β
  | 0 => throw out
  | fuel + 1 => do
    match ← body with
    | some b => pure b
    | none => repeatUntil out body fuel

/-- A loop whose body keeps an invariant and decreases a variant as long as it continues returns. -/
theorem repeatUntil_returns {out : ε} {body : Exec ε σ (Option β)} {Q : β → σ → Prop} (variant : σ → Nat)
    (hstep : ∀ s, I s → (∃ b s', body s = (.ok (some b), s') ∧ Q b s') ∨
      ∃ s', body s = (.ok none, s') ∧ I s' ∧ variant s' < variant s)
    (hfuel : variant s < fuel) (hI : I s) : ∃ b s', repeatUntil out body fuel s = (.ok b, s') ∧ Q b s' := by
  induction fuel generalizing s with
  | zero => exact absurd hfuel (Nat.not_lt_zero _)
  | succ fuel ih =>
    rcases hstep s hI with ⟨b, s', hbody, hQ⟩ | ⟨s', hbody, hI', hlt⟩
    · exact ⟨b, s', bind_apply_ok hbody, hQ⟩
    · obtain ⟨b, s'', hloop, hQ⟩ := ih (by omega) hI'
      exact ⟨b, s'', (bind_apply_ok hbody).trans hloop, hQ⟩

/-- The values of an iterator, up to the first `none`. -/
def collect (out : ε) (next : Exec ε σ (Option α)) : Nat → Exec ε σ (List α)
  | 0 => throw out
  | fuel + 1 => do
    match ← next with
    | none => pure []
    | some a => do
      let values ← collect out next fuel
      pure (a :: values)

theorem collect_eq {out : ε} {next : Exec ε σ (Option α)} (remaining : σ → List α) (variant : σ → Nat)
    (hnext : ∀ s, I s → (remaining s = [] ∧ ∃ s', next s = (.ok none, s')) ∨
      ∃ a s', next s = (.ok (some a), s') ∧ I s' ∧ remaining s = a :: remaining s' ∧ variant s' < variant s)
    (hfuel : variant s < fuel) (hI : I s) : ∃ s', collect out next fuel s = (.ok (remaining s), s') := by
  induction fuel generalizing s with
  | zero => exact absurd hfuel (Nat.not_lt_zero _)
  | succ fuel ih =>
    rcases hnext s hI with ⟨hnil, s', hnext⟩ | ⟨a, s', hnext, hI', hcons, hlt⟩
    · rw [hnil]
      exact ⟨s', bind_apply_ok hnext⟩
    · obtain ⟨s'', hcollect⟩ := ih (by omega) hI'
      rw [hcons]
      exact ⟨s'', (bind_apply_ok hnext).trans (bind_apply_ok hcollect)⟩

end Exec
