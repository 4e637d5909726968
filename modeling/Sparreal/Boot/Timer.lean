import Sparreal.Time.Clock

/-!
# The clock of the boot code

`ticks_to_duration` and `duration_to_ticks` of `someboot/src/timer.rs`. They convert in one step, with the product in
128 bits, and cast the result to 64 bits. So they agree with the functions of the kernel as long as the exact result
fits into 64 bits, and beyond that only where the cast, by chance, leaves the largest `usize` (`clocks_agree_iff`).
-/

namespace Sparreal.Boot

open Time

/-- The product of two `u128`. One that does not fit is a panic with overflow checks and wraps without. -/
def mulU128 (overflowChecks : Bool) (a b : Nat) : Option Nat :=
  if a * b < 2 ^ 128 then some (a * b)
  else if overflowChecks then none
  else some (a * b % 2 ^ 128)

def ticksToDuration (freq ticks : Nat) : Duration :=
  if freq = 0 then .zero
  else
    let nanos := ticks * nanosPerSec / freq
    .fromNanos (nanos % u64Range) (Nat.mod_lt _ (by decide))

def durationToTicks (overflowChecks : Bool) (freq : Nat) (duration : Duration) : Option Nat :=
  if freq = 0 then some 0
  else do
    let product ← mulU128 overflowChecks duration.asNanos freq
    let ticks := product / nanosPerSec
    return ticks % u64Range

def ClocksAgree (overflowChecks : Bool) (freq ticks : Nat) (duration : Duration) : Prop :=
  Time.ticksToDuration freq ticks = some (ticksToDuration freq ticks) ∧
    durationToTicks overflowChecks freq duration = some (Time.durationToTicks freq duration)

/-- The ticks of the boot clock are the largest `usize` although the exact number is larger: the cast leaves
that number, of the exact number or, without overflow checks, of one that has wrapped before. -/
def MaxByChance (overflowChecks : Bool) (freq : Nat) (duration : Duration) : Prop :=
  let product := duration.asNanos * freq
  product < 2 ^ 128 ∧ product / nanosPerSec % 2 ^ 64 = 2 ^ 64 - 1 ∨
    overflowChecks = false ∧ 2 ^ 128 ≤ product ∧ product % 2 ^ 128 / nanosPerSec % 2 ^ 64 = 2 ^ 64 - 1

theorem ticks_agree_iff {freq ticks : Nat} (hpos : 1 ≤ freq) (ht : ticks < 2 ^ 64) :
    Time.ticksToDuration freq ticks = some (ticksToDuration freq ticks) ↔
      ticks * nanosPerSec / freq < 2 ^ 64 := by
  obtain ⟨d, hd, hnanos⟩ := asNanos_ticksToDuration hpos ht
  have hboot : (ticksToDuration freq ticks).asNanos = ticks * nanosPerSec / freq % u64Range := by
    rw [ticksToDuration, if_neg (by omega)]
    exact Duration.asNanos_fromNanos _
  rw [hd, Option.some_inj, ← Duration.asNanos_injective.eq_iff, hnanos, hboot]
  constructor
  · intro heq
    exact heq.trans_lt (Nat.mod_lt _ (by decide))
  · intro hlt
    exact (Nat.mod_eq_of_lt hlt).symm

theorem durations_agree_iff {freq : Nat} (hpos : 1 ≤ freq) (hlt : freq < 2 ^ 64) (overflowChecks : Bool)
    (duration : Duration) :
    durationToTicks overflowChecks freq duration = some (Time.durationToTicks freq duration) ↔
      duration.asNanos * freq / nanosPerSec < 2 ^ 64 ∨ MaxByChance overflowChecks freq duration := by
  have hkernel : Time.durationToTicks freq duration = min (duration.asNanos * freq / nanosPerSec) (2 ^ 64 - 1) :=
    durationToTicks_eq hlt duration
  rw [durationToTicks, if_neg (by omega), hkernel, mulU128, MaxByChance]
  generalize duration.asNanos * freq = product
  simp only [nanosPerSec, u64Range]
  by_cases hfits : product < 2 ^ 128
  · rw [if_pos hfits]
    simp only [Option.pure_def, Option.bind_eq_bind, Option.bind_some, Option.some_inj]
    omega
  · rw [if_neg hfits]
    cases overflowChecks with
    | true =>
      simp only [↓reduceIte, Option.bind_eq_bind, Option.bind_none, reduceCtorEq, false_iff, false_and, or_false]
      omega
    | false =>
      simp only [Bool.false_eq_true, ↓reduceIte, Option.pure_def, Option.bind_eq_bind, Option.bind_some,
        Option.some_inj, true_and]
      omega

/-- The clock of the boot code agrees with the clock of the kernel on a number of ticks and a duration exactly if
their exact conversions fit into 64 bits, or the ticks are the largest `usize` by chance. -/
theorem clocks_agree_iff {freq ticks : Nat} (hpos : 1 ≤ freq) (hlt : freq < 2 ^ 64) (ht : ticks < 2 ^ 64)
    (overflowChecks : Bool) (duration : Duration) :
    ClocksAgree overflowChecks freq ticks duration ↔
      ticks * nanosPerSec / freq < 2 ^ 64 ∧
        (duration.asNanos * freq / nanosPerSec < 2 ^ 64 ∨ MaxByChance overflowChecks freq duration) :=
  and_congr (ticks_agree_iff hpos ht) (durations_agree_iff hpos hlt overflowChecks duration)

theorem clocks_agree_second : ClocksAgree true 1000000000 1000000000 ⟨1, 0, by decide, by decide⟩ :=
  (clocks_agree_iff (by decide) (by decide) (by decide) true _).mpr ⟨by decide, .inl (by decide)⟩

/-- At one tick a second, 585 years of ticks in nanoseconds do not fit into 64 bits. At one gigahertz the ticks of
585 years do not: the kernel stops at the largest `usize`, the boot code begins again. -/
theorem clocks_disagree :
    (Time.ticksToDuration 1 18446744074).map Duration.secs = some 18446744074 ∧
      (ticksToDuration 1 18446744074).secs = 0 ∧
      Time.durationToTicks 1000000000 ⟨18446744074, 0, by decide, by decide⟩ = 18446744073709551615 ∧
      durationToTicks true 1000000000 ⟨18446744074, 0, by decide, by decide⟩ = some 290448384 ∧
      ¬ ClocksAgree true 1 18446744074 .zero := by
  refine ⟨by decide +kernel, by decide +kernel, by decide +kernel, by decide +kernel, fun hagree => ?_⟩
  exact absurd hagree.1 (by decide +kernel)

end Sparreal.Boot
