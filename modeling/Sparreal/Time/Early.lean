import Sparreal.Time.Clock
import Sparreal.Time.TimerRuns
import Mathlib.Algebra.Order.Field.Rat
import Mathlib.Tactic.NormNum

/-!
# Timers that fire early

`one_shot_after` of `os/time/timer.rs` converts the delay to ticks, which rounds down, and adds the ticks to the
tick counter. `handle_irq` takes a timer out when the counter has reached that sum, so the time that has passed is
at least the rounded delay and may be no more. Hence a timer is never early exactly if its delay is a whole number of
ticks (`neverEarly_iff`).

The timers are those of the machine of `Timers`, with a tick counter that does not go back and interrupts at any time.
-/

namespace Sparreal.Time

def Duration.seconds (d : Duration) : ℚ := d.asNanos / nanosPerSec

def oneShotAfter (freq now now' : Nat) (delay : Duration) : Event :=
  .scheduleAfter now now' (durationToTicks freq delay)

namespace Timers

variable {freq : Nat} {s s' : Timers} {e : Event} {es : List Event} {h : TimerHandle}

/-- After some history `one_shot_after` reads the tick `now` and returns `Ok`, and later on `handle_irq` reads the
tick `t` and returns the callback. -/
def FiresAt (freq now : Nat) (delay : Duration) (t : Nat) : Prop :=
  ∃ es s now' s₁ handle deadline es' s₂ t' s₃,
    Machine.run (forwardStep freq) boot es = some s ∧
      s.forwardStep freq (oneShotAfter freq now now' delay) = some s₁ ∧
      s₁.Scheduled s.serial handle deadline ∧
      Machine.run (forwardStep freq) s₁ es' = some s₂ ∧
      s₂.forwardStep freq (.irq t t') = some s₃ ∧
      intoCallback s.serial ∈ (s₂.current.handleIrq freq t t').result

/-- Whenever the callback is taken out to be run, the delay has passed since the timer was scheduled. -/
def NeverEarly (freq now : Nat) (delay : Duration) : Prop :=
  ∀ t, FiresAt freq now delay t → delay.seconds ≤ ((t : ℚ) - now) / freq

/-! ### The deadline of a timer -/

theorem takes_of_forwardStep (h : s.forwardStep freq e = some s') : Takes freq s e s' :=
  takes_of_step (step_of_forwardStep h).2

theorem dated_run (hs : s.Dated) (hrun : Machine.run (forwardStep freq) s es = some s') : s'.Dated :=
  Machine.run_keeps (fun hs h => hs.takes (takes_of_forwardStep h)) hrun hs

theorem deadline_of_scheduleAfter {now now' delay d : Nat} (hs : s.Dated)
    (hstep : s.step freq (.scheduleAfter now now' delay) = some s') (hn : s'.Scheduled s.serial h d) :
    now + delay < u64Range ∧ d = now + delay := by
  have hnot : ¬ s.Scheduled s.serial h d := fun hold => lt_irrefl _ (hs.numbered hold)
  simp only [step] at hstep
  split at hstep
  · obtain rfl := Option.some.inj hstep
    exact absurd hn hnot
  · obtain ⟨out, hout, rfl⟩ := Option.map_eq_some_iff.mp hstep
    rcases TimerManager.scheduleAfter_cases hout with ⟨-, rfl⟩ | ⟨hlt, o, -, rfl⟩
    · exact absurd hn hnot
    · rcases List.mem_append.mp hn with hold | hnew
      · exact absurd hold hnot
      · obtain ⟨-, -, hd⟩ := Action.scheduled.inj (List.mem_singleton.mp hnew)
        exact ⟨hlt, hd⟩

/-- What `handle_irq` returns has its deadline behind it. -/
theorem Dated.deadline_le (hs : s.Dated) {n : Serial} {d t t' : Nat} (hn : s.Scheduled n h d)
    (hmem : intoCallback n ∈ (s.current.handleIrq freq t t').result) : d ≤ t := by
  rw [(TimerManager.handleIrq_spec freq t t' hs.consistent).1] at hmem
  obtain ⟨⟨key, cb⟩, hentry, rfl⟩ := List.mem_map.mp hmem
  obtain ⟨hentry, hle⟩ := List.mem_filter.mp hentry
  obtain ⟨m, h', hcb, hm⟩ := hs.dated (SortedMap.get_eq_some_iff.mpr hentry)
  obtain rfl := intoCallback_injective hcb
  rw [hs.deadline hn hm]
  exact of_decide_eq_true hle

theorem ticks_le_of_firesAt {now t : Nat} {delay : Duration} (h : FiresAt freq now delay t) :
    now + durationToTicks freq delay < u64Range ∧ now + durationToTicks freq delay ≤ t := by
  obtain ⟨es, s, now', s₁, handle, d, es', s₂, t', s₃, hrun, hcall, hn, hrun', -, hmem⟩ := h
  have hs := dated_run dated_boot hrun
  have hs₁ := hs.takes (takes_of_forwardStep hcall)
  have hn₂ : s₂.Scheduled s.serial handle d := by
    refine Machine.run_keeps (I := fun u => u.Scheduled s.serial handle d) ?_ hrun' hn
    intro s e s' hn h
    exact scheduled_takes hn (takes_of_forwardStep h)
  obtain ⟨hlt, rfl⟩ := deadline_of_scheduleAfter hs (step_of_forwardStep hcall).2 hn
  exact ⟨hlt, (dated_run hs₁ hrun').deadline_le hn₂ hmem⟩

theorem firesAt_deadline {now : Nat} {delay : Duration} (hlt : now + durationToTicks freq delay < u64Range) :
    FiresAt freq now delay (now + durationToTicks freq delay) := by
  let s : Timers := { boot with manager := some .new, ready := true }
  let deadline := now + durationToTicks freq delay
  obtain ⟨out, hout, -, -⟩ :=
    TimerManager.scheduleAtInternal_of_free (m := .new) freq now deadline s.serial rfl
  have hcall : s.forwardStep freq (oneShotAfter freq now now delay) = some (s.schedule now deadline out) := by
    have hforward : (s.tick :: (oneShotAfter freq now now delay).readings).Pairwise (· ≤ ·) := by
      simp [oneShotAfter, Event.readings, s, boot]
    rw [forwardStep, if_pos hforward]
    show ((TimerManager.new : TimerManager Serial).scheduleAfter freq now now (durationToTicks freq delay)
      s.serial).map _ = _
    rw [TimerManager.scheduleAfter, if_pos hlt, hout]
    rfl
  have hs : (s.schedule now deadline out).Dated :=
    (show s.Dated from dated_boot.fewer dated_boot.consistent (fun h => h) rfl Iff.rfl).scheduled hout
  have hirq : (s.schedule now deadline out).forwardStep freq (.irq deadline deadline) ≠ none := by
    have hforward : ((s.schedule now deadline out).tick :: (Event.irq deadline deadline).readings).Pairwise
        (· ≤ ·) := by
      simp [schedule, leave, Event.readings, deadline]
    rw [forwardStep, if_pos hforward]
    exact Option.some_ne_none _
  obtain ⟨s₃, hs₃⟩ := Option.ne_none_iff_exists'.mp hirq
  refine ⟨[.create, .publish], s, now, _, out.result, deadline, [], _, deadline, s₃, rfl, hcall, ?_, rfl, hs₃, ?_⟩
  · exact List.mem_append_right _ (List.mem_singleton_self _)
  · rw [(TimerManager.handleIrq_spec freq _ deadline hs.consistent).1]
    have hentry : (⟨deadline, out.result.id⟩, intoCallback s.serial) ∈ out.manager.timers.entries := by
      rw [(TimerManager.scheduleAtInternal_some hout).2.1, SortedMap.mem_insert]
      exact .inl rfl
    exact List.mem_map.mpr ⟨_, List.mem_filter.mpr ⟨hentry, decide_eq_true (le_refl deadline)⟩, rfl⟩

theorem seconds_le_iff {freq n : Nat} (hpos : 1 ≤ freq) (delay : Duration) :
    delay.seconds ≤ (n : ℚ) / freq ↔ delay.asNanos * freq ≤ n * nanosPerSec := by
  have hfreq : (0 : ℚ) < freq := Nat.cast_pos.mpr hpos
  rw [Duration.seconds, div_le_div_iff₀ (Nat.cast_pos.mpr (by decide)) hfreq]
  exact_mod_cast Iff.rfl

/-- A timer is never early exactly if its delay is a whole number of ticks, or it cannot be scheduled. -/
theorem neverEarly_iff {freq now : Nat} (hpos : 1 ≤ freq) (hlt : freq < 2 ^ 64) (delay : Duration) :
    NeverEarly freq now delay ↔
      (now + durationToTicks freq delay < 2 ^ 64 →
        durationToTicks freq delay * nanosPerSec = delay.asNanos * freq) := by
  constructor
  · intro hnever hok
    have hearly := hnever _ (firesAt_deadline hok)
    rw [Nat.cast_add, add_sub_cancel_left, seconds_le_iff hpos] at hearly
    refine le_antisymm ?_ hearly
    exact (Nat.mul_le_mul_right _ (durationToTicks_le hlt delay)).trans (Scale.convert_mul_le _ _ _)
  · intro hexact t hfires
    obtain ⟨hok, hle⟩ := ticks_le_of_firesAt hfires
    have hcast : ((t : ℚ) - now) = ((t - now : ℕ) : ℚ) := (Nat.cast_sub (by omega)).symm
    rw [hcast, seconds_le_iff hpos, ← hexact hok]
    exact Nat.mul_le_mul_right _ (by omega)

theorem neverEarly_two_seconds :
    FiresAt 1000 5 ⟨2, 0, by decide, by decide⟩ 2005 ∧ NeverEarly 1000 5 ⟨2, 0, by decide, by decide⟩ :=
  ⟨firesAt_deadline (show 5 + durationToTicks 1000 ⟨2, 0, by decide, by decide⟩ < 2 ^ 64 by decide),
    (neverEarly_iff (by decide) (by decide) _).mpr fun _ => by decide⟩

/-- At 62.5 megahertz a timer for a millisecond and a nanosecond is armed for a millisecond, and its callback is
returned then. -/
theorem fires_a_nanosecond_early : ∃ s,
    Machine.run (forwardStep 62500000) boot
        [.create, .publish, oneShotAfter 62500000 0 0 ⟨0, 1000001, by decide, by decide⟩] = some s ∧
      s.programmed.map Programming.expiry = some 62500 ∧
      (s.current.handleIrq 62500000 62500 62500).result = [intoCallback 0] ∧
      ((62500 : ℚ) - 0) / 62500000 < Duration.seconds ⟨0, 1000001, by decide, by decide⟩ := by
  have hrun := Option.some_get (show (Machine.run (forwardStep 62500000) boot
    [.create, .publish, oneShotAfter 62500000 0 0 ⟨0, 1000001, by decide, by decide⟩]).isSome by decide +kernel)
  refine ⟨_, hrun.symm, by decide +kernel, by decide +kernel, ?_⟩
  norm_num [Duration.seconds, Duration.asNanos]

end Timers

end Sparreal.Time
