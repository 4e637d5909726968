import Mathlib.Data.List.Basic
import Mathlib.Data.List.Pairwise

/-!
# Attempts that are given up once a key has succeeded

Entries are tried one after another, whatever the outcomes; an entry whose key has succeeded before is passed over.
`answer` gives the outcome of the next attempt from what has been tried so far, so results for every `answer` are
results for every sequence of outcomes. The log of the attempts extends (`attempts_eq_append`), no key is tried after it
has succeeded (`OncePerKey`), and each entry is tried or its key has succeeded (`attempts_reaches`).
-/

namespace Attempts

variable {α κ ω : Type} [DecidableEq κ] (key : α → κ) (ok : ω → Bool)

def Succeeded (log : List (α × ω)) (k : κ) : Prop := ∃ c ∈ log, ok c.2 = true ∧ key c.1 = k

instance (log : List (α × ω)) (k : κ) : Decidable (Succeeded key ok log k) :=
  inferInstanceAs (Decidable (∃ c ∈ log, ok c.2 = true ∧ key c.1 = k))

variable (answer : List (α × ω) → α → ω)

def attempt (log : List (α × ω)) (e : α) : List (α × ω) :=
  if Succeeded key ok log (key e) then log else log ++ [(e, answer log e)]

def attempts (log : List (α × ω)) (entries : List α) : List (α × ω) := entries.foldl (attempt key ok answer) log

def OncePerKey (log : List (α × ω)) : Prop := log.Pairwise fun a b => ok a.2 = true → key a.1 ≠ key b.1

variable {key ok answer} {log : List (α × ω)} {e : α} {entries : List α}

omit [DecidableEq κ] in
theorem Succeeded.append {k : κ} (h : Succeeded key ok log k) (more : List (α × ω)) :
    Succeeded key ok (log ++ more) k := by
  obtain ⟨c, hc, hok⟩ := h
  exact ⟨c, List.mem_append_left _ hc, hok⟩

omit [DecidableEq κ] in
theorem succeeded_append_singleton {c : α × ω} {k : κ} :
    Succeeded key ok (log ++ [c]) k ↔ Succeeded key ok log k ∨ ok c.2 = true ∧ key c.1 = k := by
  constructor
  · rintro ⟨c', hc', hok⟩
    rcases List.mem_append.mp hc' with hc' | hc'
    · exact .inl ⟨c', hc', hok⟩
    · obtain rfl := List.mem_singleton.mp hc'
      exact .inr hok
  · rintro (h | hok)
    · exact h.append [c]
    · exact ⟨c, by simp, hok⟩

theorem attempts_cons (log : List (α × ω)) (e : α) (entries : List α) :
    attempts key ok answer log (e :: entries) =
      attempts key ok answer (attempt key ok answer log e) entries := rfl

theorem attempts_append (log : List (α × ω)) (entries entries' : List α) :
    attempts key ok answer log (entries ++ entries') =
      attempts key ok answer (attempts key ok answer log entries) entries' :=
  List.foldl_append

theorem attempts_eq_append (key : α → κ) (ok : ω → Bool) (answer : List (α × ω) → α → ω) (log : List (α × ω))
    (entries : List α) :
    ∃ new, attempts key ok answer log entries = log ++ new ∧
      ∀ c ∈ new, c.1 ∈ entries ∧ ∃ log', c.2 = answer log' c.1 := by
  induction entries generalizing log with
  | nil => exact ⟨[], by simp [attempts], by simp⟩
  | cons e entries ih =>
    obtain ⟨new, hnew, hmem⟩ := ih (attempt key ok answer log e)
    have hlater : ∀ c ∈ new, c.1 ∈ e :: entries ∧ ∃ log', c.2 = answer log' c.1 := by
      intro c hc
      exact ⟨List.mem_cons_of_mem _ (hmem c hc).1, (hmem c hc).2⟩
    rw [attempts_cons, hnew, attempt]
    split
    · exact ⟨new, rfl, hlater⟩
    · refine ⟨(e, answer log e) :: new, by simp, fun c hc => ?_⟩
      rcases List.mem_cons.mp hc with rfl | hc
      · exact ⟨List.mem_cons_self, log, rfl⟩
      · exact hlater c hc

/-- Each entry is tried, unless its key has succeeded. -/
theorem attempts_reaches (key : α → κ) (ok : ω → Bool) (answer : List (α × ω) → α → ω) (log : List (α × ω))
    (he : e ∈ entries) :
    Succeeded key ok (attempts key ok answer log entries) (key e) ∨
      ∃ c ∈ (attempts key ok answer log entries).drop log.length, c.1 = e := by
  obtain ⟨before, after, rfl⟩ := List.append_of_mem he
  rw [attempts_append, attempts_cons, attempt]
  obtain ⟨new, hnew, -⟩ := attempts_eq_append key ok answer log before
  rw [hnew]
  split
  case isTrue hdone =>
    obtain ⟨more, hmore, -⟩ := attempts_eq_append key ok answer (log ++ new) after
    rw [hmore]
    exact .inl (hdone.append more)
  case isFalse =>
    obtain ⟨more, hmore, -⟩ := attempts_eq_append key ok answer (log ++ new ++ [(e, answer (log ++ new) e)]) after
    refine .inr ⟨(e, answer (log ++ new) e), ?_, rfl⟩
    rw [hmore, List.append_assoc, List.append_assoc, List.drop_left]
    simp

theorem OncePerKey.attempts (h : OncePerKey key ok log) (entries : List α) :
    OncePerKey key ok (attempts key ok answer log entries) := by
  induction entries generalizing log with
  | nil => exact h
  | cons e entries ih =>
    rw [attempts_cons]
    apply ih
    rw [attempt]
    split
    case isTrue => exact h
    case isFalse hnot =>
      refine List.pairwise_append.mpr ⟨h, List.pairwise_singleton _ _, fun a ha b hb hok heq => ?_⟩
      obtain rfl := List.mem_singleton.mp hb
      exact hnot ⟨a, ha, hok, heq⟩

omit [DecidableEq κ] in
theorem OncePerKey.fails {c c' : α × ω} (h : OncePerKey key ok log) (hc : c ∈ log) (hc' : c' ∈ log) (hne : c ≠ c')
    (hkey : key c.1 = key c'.1) : ok c.2 = false ∨ ok c'.2 = false := by
  have hsymm : Std.Symm fun a b : α × ω => key a.1 = key b.1 → ok a.2 = false ∨ ok b.2 = false :=
    ⟨fun a b hab heq => (hab heq.symm).symm⟩
  have hboth : log.Pairwise fun a b => key a.1 = key b.1 → ok a.2 = false ∨ ok b.2 = false :=
    h.imp fun {a b} hab heq => .inl (Bool.eq_false_iff.mpr fun hok => hab hok heq)
  exact hboth.forall hc hc' hne hkey

end Attempts
