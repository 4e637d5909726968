import Sparreal.Sync.IrqSpinlock
import Mathlib.Data.List.Basic

/-!
# Contention for a spinlock

`IrqSpinlock::lock` tries a hundred times and panics. Here the rounds of its loop are steps, so that the CPUs can take
them in any order and the holder can be between any two of them. A waiting CPU panics exactly if it makes a hundred
attempts in a row and finds the lock held at each of them (`waited_out_iff`), however soon the holder lets go of it
after that.
-/

namespace Sparreal.Sync

/-- Where a CPU is with the lock: in `lock` after some attempts that failed, or with the guard. -/
inductive Phase where
  | idle
  | trying (failed : Nat)
  | holding
  | panicked
  deriving DecidableEq, Repr

/-- The CPUs and where each is with the lock. -/
structure Contention where
  cpus : Cpus
  phase : CpuId → Phase

namespace Contention

def start (irq : CpuId → Bool) : Contention := ⟨.start irq, fun _ => .idle⟩

/-- The next step of a CPU: it calls `lock`, it makes the next attempt there, it drops the guard. -/
inductive Event where
  | call (cpu : CpuId)
  | attempt (cpu : CpuId)
  | release (cpu : CpuId)
  deriving DecidableEq, Repr

/-- The CPU that takes the step. -/
def Event.cpu : Event → CpuId
  | .call cpu => cpu
  | .attempt cpu => cpu
  | .release cpu => cpu

/-- The loop of `lock` after some attempts that failed; behind its last round is the panic. -/
def afterFailed (failed : Nat) : Phase := if failed < 100 then .trying failed else .panicked

theorem afterFailed_eq_trying {k n : Nat} : afterFailed k = .trying n ↔ k = n ∧ k < 100 := by
  rw [afterFailed]
  split_ifs with h <;> simp [h]

theorem afterFailed_eq_panicked {k : Nat} : afterFailed k = .panicked ↔ 100 ≤ k := by
  rw [afterFailed]
  split_ifs with h <;> simp <;> omega

def step (l : LockId) (s : Contention) : Event → Option Contention
  | .call cpu =>
    if s.phase cpu = .idle then some { s with phase := Function.update s.phase cpu (afterFailed 0) } else none
  | .attempt cpu =>
    match s.phase cpu with
    | .trying failed =>
      match s.cpus.tryLock cpu l with
      | (true, cpus) => some ⟨cpus, Function.update s.phase cpu .holding⟩
      | (false, cpus) => some ⟨cpus, Function.update s.phase cpu (afterFailed (failed + 1))⟩
    | _ => none
  | .release cpu =>
    if s.phase cpu = .holding then
      (s.cpus.step (.drop cpu 0)).map fun cpus => ⟨cpus, Function.update s.phase cpu .idle⟩
    else none

/-- What one step can do. -/
inductive Takes (l : LockId) (s : Contention) : Event → Contention → Prop where
  | called {cpu : CpuId} (hphase : s.phase cpu = .idle) :
      Takes l s (.call cpu) { s with phase := Function.update s.phase cpu (.trying 0) }
  | taken {cpu : CpuId} {failed : Nat} (hphase : s.phase cpu = .trying failed) (hfree : s.cpus.locked l = false) :
      Takes l s (.attempt cpu) ⟨s.cpus.taken cpu l, Function.update s.phase cpu .holding⟩
  | missed {cpu : CpuId} {failed : Nat} (hphase : s.phase cpu = .trying failed) (hheld : s.cpus.locked l = true) :
      Takes l s (.attempt cpu) { s with phase := Function.update s.phase cpu (afterFailed (failed + 1)) }
  | released {cpu : CpuId} {cpus : Cpus} (hphase : s.phase cpu = .holding) :
      Takes l s (.release cpu) ⟨cpus, Function.update s.phase cpu .idle⟩

variable {l : LockId} {s s' : Contention} {e : Event}

theorem takes_of_step (h : s.step l e = some s') : Takes l s e s' := by
  cases e with
  | call cpu =>
    obtain ⟨hphase, ⟨⟩⟩ := Option.ite_none_right_eq_some.mp h
    exact .called hphase
  | attempt cpu =>
    simp only [step] at h
    split at h
    · next failed hphase =>
      cases hlocked : s.cpus.locked l with
      | true =>
        rw [Cpus.tryLock_of_locked hlocked] at h
        exact Option.some.inj h ▸ .missed hphase hlocked
      | false =>
        rw [Cpus.tryLock_of_free hlocked] at h
        exact Option.some.inj h ▸ .taken hphase hlocked
    · cases h
  | release cpu =>
    obtain ⟨hphase, hmap⟩ := Option.ite_none_right_eq_some.mp h
    obtain ⟨cpus, -, rfl⟩ := Option.map_eq_some_iff.mp hmap
    exact .released hphase

theorem Takes.phase_other {cpu : CpuId} (h : Takes l s e s') (hne : e.cpu ≠ cpu) : s'.phase cpu = s.phase cpu := by
  cases h with
  | called | taken | missed | released => exact Function.update_of_ne hne.symm _ _

/-! ### Attempts in a row -/

variable {irq : CpuId → Bool} {es : List Event} {cpu : CpuId}

/-- In the part `mid` of a run the CPU makes `n` attempts and no other step, and finds the lock held at each. -/
def Misses (l : LockId) (irq : CpuId → Bool) (cpu : CpuId) (n : Nat) (pre mid : List Event) : Prop :=
  mid.filter (·.cpu = cpu) = List.replicate n (.attempt cpu) ∧
    ∀ front u, front ++ [.attempt cpu] <+: mid → Machine.run (step l) (start irq) (pre ++ front) = some u →
      u.cpus.locked l = true

/-- Somewhere in the run the CPU makes a hundred attempts in a row and finds the lock held at each. -/
def Exhausted (l : LockId) (irq : CpuId → Bool) (cpu : CpuId) (es : List Event) : Prop :=
  ∃ pre mid, pre ++ mid <+: es ∧ Misses l irq cpu 100 pre mid

variable {pre mid : List Event}

theorem misses_nil : Misses l irq cpu 0 pre [] :=
  ⟨rfl, fun front _ hfront => absurd (List.prefix_nil.mp hfront) (by simp)⟩

theorem Misses.other {n : Nat} (h : Misses l irq cpu n pre mid) (hne : e.cpu ≠ cpu) :
    Misses l irq cpu n pre (mid ++ [e]) := by
  refine ⟨?_, fun front u hfront hu => ?_⟩
  · rw [List.filter_append, h.1]
    simp [hne]
  · rcases Machine.prefix_concat hfront with hfront | ⟨-, rfl⟩
    · exact h.2 front u hfront hu
    · exact absurd rfl hne

theorem Misses.again {n : Nat} (h : Misses l irq cpu n pre mid)
    (hrun : Machine.run (step l) (start irq) (pre ++ mid) = some s) (hheld : s.cpus.locked l = true) :
    Misses l irq cpu (n + 1) pre (mid ++ [.attempt cpu]) := by
  refine ⟨?_, fun front u hfront hu => ?_⟩
  · rw [List.filter_append, h.1, List.replicate_succ']
    simp [Event.cpu]
  · rcases Machine.prefix_concat hfront with hfront | ⟨rfl, -⟩
    · exact h.2 front u hfront hu
    · exact Option.some.inj (hrun.symm.trans hu) ▸ hheld

theorem Misses.front {n : Nat} (h : Misses l irq cpu n pre (mid ++ [e])) :
    e.cpu ≠ cpu ∧ Misses l irq cpu n pre mid ∨
      e = .attempt cpu ∧ ∃ m, n = m + 1 ∧ Misses l irq cpu m pre mid ∧
        ∀ u, Machine.run (step l) (start irq) (pre ++ mid) = some u → u.cpus.locked l = true := by
  obtain ⟨hfilter, hheld⟩ := h
  have hmid : ∀ front u, front ++ [.attempt cpu] <+: mid →
      Machine.run (step l) (start irq) (pre ++ front) = some u → u.cpus.locked l = true :=
    fun front u hfront => hheld front u (hfront.trans (List.prefix_append ..))
  rw [List.filter_append] at hfilter
  by_cases hcpu : e.cpu = cpu
  · rw [List.filter_singleton, decide_eq_true hcpu, cond_true] at hfilter
    cases n with
    | zero => simp at hfilter
    | succ m =>
      rw [List.replicate_succ'] at hfilter
      obtain ⟨hfront, hlast⟩ := List.append_inj' hfilter rfl
      obtain rfl := List.singleton_inj.mp hlast
      exact .inr ⟨rfl, m, rfl, ⟨hfront, hmid⟩, fun u hu => hheld mid u List.prefix_rfl hu⟩
  · rw [List.filter_singleton, decide_eq_false hcpu, cond_false, List.append_nil] at hfilter
    exact .inl ⟨hcpu, hfilter, hmid⟩

theorem misses_of_trying (hrun : Machine.run (step l) (start irq) es = some s) :
    (∀ n, s.phase cpu = .trying n → n < 100 ∧ ∃ pre mid, es = pre ++ mid ∧ Misses l irq cpu n pre mid) ∧
      (s.phase cpu = .panicked → Exhausted l irq cpu es) := by
  induction es using List.reverseRecOn generalizing s with
  | nil =>
    obtain rfl := Option.some.inj hrun
    exact ⟨nofun, nofun⟩
  | append_singleton es e ih =>
    obtain ⟨s₁, hrun₁, hlast⟩ := Machine.run_append.mp hrun
    obtain ⟨s₂, hstep, hnil⟩ := Machine.run_cons.mp hlast
    obtain rfl := Option.some.inj hnil
    obtain ⟨htrying, hpanicked⟩ := ih hrun₁
    have htakes := takes_of_step hstep
    by_cases hcpu : e.cpu = cpu
    · subst hcpu
      cases htakes with
      | @called cpu hphase =>
        simp only [Event.cpu, Function.update_self]
        refine ⟨fun n hn => ?_, nofun⟩
        obtain rfl := Phase.trying.inj hn
        exact ⟨by decide, es ++ [.call cpu], [], (List.append_nil _).symm, misses_nil⟩
      | taken | released =>
        simp only [Event.cpu, Function.update_self]
        exact ⟨nofun, nofun⟩
      | @missed cpu failed hphase hheld =>
        simp only [Event.cpu, Function.update_self]
        obtain ⟨hlt, pre, mid, rfl, hmid⟩ := htrying failed hphase
        have hagain : Misses l irq cpu (failed + 1) pre (mid ++ [.attempt cpu]) := hmid.again hrun₁ hheld
        refine ⟨fun n hn => ?_, fun hn => ?_⟩
        · obtain ⟨rfl, hlt⟩ := afterFailed_eq_trying.mp hn
          exact ⟨hlt, pre, mid ++ [.attempt cpu], List.append_assoc .., hagain⟩
        · have hlast := afterFailed_eq_panicked.mp hn
          obtain rfl : failed = 99 := by omega
          exact ⟨pre, mid ++ [.attempt cpu], ⟨[], by rw [List.append_nil, List.append_assoc]⟩, hagain⟩
    · rw [htakes.phase_other hcpu]
      refine ⟨fun n hn => ?_, fun hn => ?_⟩
      · obtain ⟨hlt, pre, mid, rfl, hmid⟩ := htrying n hn
        exact ⟨hlt, pre, mid ++ [e], List.append_assoc .., hmid.other hcpu⟩
      · obtain ⟨pre, mid, hpre, hmid⟩ := hpanicked hn
        exact ⟨pre, mid, hpre.trans (List.prefix_append ..), hmid⟩

theorem phase_of_misses {n : Nat} {u : Contention} (hpre : Machine.run (step l) (start irq) pre = some u)
    (hmid : Machine.run (step l) u mid = some s) (h : Misses l irq cpu n pre mid) :
    n = 0 ∧ s.phase cpu = u.phase cpu ∨ ∃ k, u.phase cpu = .trying k ∧ s.phase cpu = afterFailed (k + n) := by
  induction mid using List.reverseRecOn generalizing s n with
  | nil =>
    obtain rfl := Option.some.inj hmid
    have hzero := congrArg List.length h.1
    rw [List.filter_nil, List.length_nil, List.length_replicate] at hzero
    exact .inl ⟨hzero.symm, rfl⟩
  | append_singleton mid e ih =>
    obtain ⟨s₁, hmid₁, hlast⟩ := Machine.run_append.mp hmid
    obtain ⟨s₂, hstep, hnil⟩ := Machine.run_cons.mp hlast
    obtain rfl := Option.some.inj hnil
    have htakes := takes_of_step hstep
    rcases h.front with ⟨hcpu, hfront⟩ | ⟨rfl, m, rfl, hfront, hheld⟩
    · rw [htakes.phase_other hcpu]
      exact ih hmid₁ hfront
    · have hlocked := hheld s₁ (Machine.run_append.mpr ⟨u, hpre, hmid₁⟩)
      cases htakes with
      | taken _ hfree => exact absurd (hlocked.symm.trans hfree) (by simp)
      | @missed _ failed hphase =>
        simp only [Function.update_self]
        rcases ih hmid₁ hfront with ⟨rfl, hsame⟩ | ⟨k, hk, hafter⟩
        · exact .inr ⟨failed, hsame.symm.trans hphase, rfl⟩
        · obtain ⟨rfl, -⟩ := afterFailed_eq_trying.mp (hafter.symm.trans hphase)
          exact .inr ⟨k, hk, rfl⟩

/-- A CPU in `lock` never panics, and has the guard after an attempt that finds the lock free. -/
def WaitedOut (l : LockId) (irq : CpuId → Bool) (cpu : CpuId) (es : List Event) : Prop :=
  (∀ es' s, es' <+: es → Machine.run (step l) (start irq) es' = some s → s.phase cpu ≠ .panicked) ∧
    ∀ es' s s', es' ++ [.attempt cpu] <+: es → Machine.run (step l) (start irq) es' = some s →
      s.step l (.attempt cpu) = some s' → s.cpus.locked l = false →
      s'.phase cpu = .holding ∧ ∃ g ∈ s'.cpus.guards cpu, g.lock = l

theorem guard_of_free (h : s.step l (.attempt cpu) = some s') (hfree : s.cpus.locked l = false) :
    s'.phase cpu = .holding ∧ ∃ g ∈ s'.cpus.guards cpu, g.lock = l := by
  cases takes_of_step h with
  | missed _ hheld => exact absurd (hheld.symm.trans hfree) (by simp)
  | taken hphase =>
    refine ⟨Function.update_self .., ⟨l, ⟨s.cpus.irq cpu⟩⟩, ?_, rfl⟩
    simp [Cpus.taken]

/-- Whatever the schedule, a CPU waits the contention out exactly if it never makes a hundred attempts in a row that
find the lock held. -/
theorem waited_out_iff (l : LockId) (irq : CpuId → Bool) (cpu : CpuId) {es : List Event} {s : Contention}
    (hrun : Machine.run (step l) (start irq) es = some s) :
    WaitedOut l irq cpu es ↔ ¬ Exhausted l irq cpu es := by
  constructor
  · intro hwaited ⟨pre, mid, hpre, hmiss⟩
    obtain ⟨rest, rfl⟩ := hpre
    obtain ⟨s₁, hrun₁, -⟩ := Machine.run_append.mp hrun
    obtain ⟨u, hu, hmid⟩ := Machine.run_append.mp hrun₁
    have hpanicked : s₁.phase cpu = .panicked := by
      rcases phase_of_misses hu hmid hmiss with ⟨hzero, -⟩ | ⟨k, -, hafter⟩
      · exact absurd hzero (by decide)
      · exact hafter.trans (afterFailed_eq_panicked.mpr (Nat.le_add_left 100 k))
    exact hwaited.1 (pre ++ mid) s₁ (List.prefix_append ..) hrun₁ hpanicked
  · intro hnot
    refine ⟨fun es' s' hpre hrun' hpanicked => hnot ?_, fun _ _ _ _ _ hstep hfree => guard_of_free hstep hfree⟩
    obtain ⟨pre, mid, hmid, hmiss⟩ := (misses_of_trying hrun').2 hpanicked
    exact ⟨pre, mid, hmid.trans hpre, hmiss⟩

theorem not_exhausted_of_length (h : es.length < 100) : ¬ Exhausted l irq cpu es := by
  rintro ⟨pre, mid, hpre, hfilter, -⟩
  have hmid := List.length_filter_le (fun e : Event => decide (e.cpu = cpu)) mid
  rw [hfilter, List.length_replicate] at hmid
  have hle := hpre.length_le
  rw [List.length_append] at hle
  omega

/-- Another CPU has the lock for the time of one attempt. -/
theorem waited_out_once :
    ∃ s, Machine.run (step 0) (start fun _ => true)
        [.call 0, .attempt 0, .call 1, .attempt 1, .release 0, .attempt 1] = some s ∧
      s.phase 1 = .holding ∧
      WaitedOut 0 (fun _ => true) 1 [.call 0, .attempt 0, .call 1, .attempt 1, .release 0, .attempt 1] := by
  have hrun := Option.some_get (show (Machine.run (step 0) (start fun _ => true)
    [.call 0, .attempt 0, .call 1, .attempt 1, .release 0, .attempt 1]).isSome by decide +kernel)
  refine ⟨_, hrun.symm, by decide +kernel, (waited_out_iff 0 _ 1 hrun.symm).mpr ?_⟩
  exact not_exhausted_of_length (by decide)

/-- The holder releases the lock when another CPU has made a hundred attempts. -/
theorem lock_timeout : ∃ s,
    Machine.run (step 0) (start fun _ => true)
        ([.call 0, .attempt 0, .call 1] ++ List.replicate 100 (.attempt 1) ++ [.release 0]) = some s ∧
      s.cpus.locked 0 = false ∧ s.phase 0 = .idle ∧ s.phase 1 = .panicked := by
  have hrun := Option.some_get (show (Machine.run (step 0) (start fun _ => true)
    ([.call 0, .attempt 0, .call 1] ++ List.replicate 100 (.attempt 1) ++ [.release 0])).isSome by decide +kernel)
  exact ⟨_, hrun.symm, by decide +kernel, by decide +kernel, by decide +kernel⟩

end Contention

end Sparreal.Sync
