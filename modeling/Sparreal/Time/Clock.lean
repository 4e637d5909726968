import Sparreal.Lib.Scale
import Sparreal.Time.Timer

/-!
# Ticks and durations

`ticks_to_duration` and `duration_to_ticks` of `os/time/mod.rs`. Both split a number of seconds from the rest, so
that nothing overflows; together the two parts are one conversion that rounds down (`asNanos_ticksToDuration`,
`durationToTicks_eq`), which for ticks ends at the largest `usize`.
-/

namespace Sparreal.Time

abbrev nanosPerSec : Nat := 1000000000

structure Duration where
  secs : Nat
  subsecNanos : Nat
  secs_lt : secs < u64Range
  subsecNanos_lt : subsecNanos < nanosPerSec
  deriving DecidableEq, Repr

namespace Duration

def asNanos (d : Duration) : Nat := d.secs * nanosPerSec + d.subsecNanos

theorem asNanos_injective : Function.Injective asNanos := by
  intro ⟨s, n, hs, hn⟩ ⟨s', n', hs', hn'⟩ h
  have heq : s * nanosPerSec + n = s' * nanosPerSec + n' := h
  simp only [nanosPerSec] at hn hn' heq
  obtain ⟨rfl, rfl⟩ : s = s' ∧ n = n' := by omega
  rfl

/-- The derived order compares the seconds, then the nanoseconds. -/
def order (d : Duration) : Nat ×ₗ Nat := toLex (d.secs, d.subsecNanos)

theorem order_injective : Function.Injective order := by
  intro ⟨s, n, hs, hn⟩ ⟨s', n', hs', hn'⟩ h
  obtain ⟨rfl, rfl⟩ := Prod.mk.inj (toLex_inj.mp h)
  rfl

instance : LinearOrder Duration := LinearOrder.lift' order order_injective

theorem le_iff {d d' : Duration} : d ≤ d' ↔ d.asNanos ≤ d'.asNanos := by
  have hlex : d ≤ d' ↔ d.secs < d'.secs ∨ d.secs = d'.secs ∧ d.subsecNanos ≤ d'.subsecNanos :=
    Prod.Lex.toLex_le_toLex
  have hd := d.subsecNanos_lt
  have hd' := d'.subsecNanos_lt
  rw [hlex, asNanos, asNanos]
  simp only [nanosPerSec] at hd hd' ⊢
  omega

def zero : Duration := ⟨0, 0, by decide, by decide⟩

/-- `Duration::new`: whole seconds among the nanoseconds are carried over. -/
def new (secs nanos : Nat) : Option Duration :=
  if h : secs + nanos / nanosPerSec < u64Range then
    some ⟨secs + nanos / nanosPerSec, nanos % nanosPerSec, h, Nat.mod_lt _ (by decide)⟩
  else none

def fromNanos (nanos : Nat) (h : nanos < u64Range) : Duration :=
  ⟨nanos / nanosPerSec, nanos % nanosPerSec, (Nat.div_le_self _ _).trans_lt h, Nat.mod_lt _ (by decide)⟩

theorem asNanos_of_new {secs nanos : Nat} {d : Duration} (h : new secs nanos = some d) :
    d.asNanos = secs * nanosPerSec + nanos := by
  rw [new] at h
  split_ifs at h
  obtain rfl := Option.some.inj h
  show (secs + nanos / nanosPerSec) * nanosPerSec + nanos % nanosPerSec = _
  rw [Nat.add_mul, Nat.add_assoc, Nat.div_add_mod']

theorem asNanos_fromNanos {nanos : Nat} (h : nanos < u64Range) : (fromNanos nanos h).asNanos = nanos :=
  Nat.div_add_mod' nanos nanosPerSec

end Duration

/-- `ticks_to_duration`; there is no value where it divides by zero or `Duration::new` overflows. -/
def ticksToDuration (freq ticks : Nat) : Option Duration :=
  if freq = 0 then none
  else
    let secs := ticks / freq
    let nanos := ticks % freq * nanosPerSec / freq
    Duration.new (secs % u64Range) (nanos % 2 ^ 32)

def saturatingMul (a b : Nat) : Nat := min (a * b) (u64Range - 1)

def saturatingAdd (a b : Nat) : Nat := min (a + b) (u64Range - 1)

theorem saturatingAdd_min (a b : Nat) : saturatingAdd (min a (u64Range - 1)) b = min (a + b) (u64Range - 1) := by
  rw [saturatingAdd]
  omega

def durationToTicks (freq : Nat) (dur : Duration) : Nat :=
  let secsTicks := saturatingMul dur.secs freq
  let nanosTicks := dur.subsecNanos * freq / nanosPerSec
  saturatingAdd secsTicks (nanosTicks % u64Range)

section

variable {freq : Nat} (hpos : 1 ≤ freq)

include hpos

theorem asNanos_ticksToDuration {ticks : Nat} (ht : ticks < u64Range) :
    ∃ d, ticksToDuration freq ticks = some d ∧ d.asNanos = Scale.convert nanosPerSec freq ticks := by
  have hsecs : ticks / freq < u64Range := (Nat.div_le_self _ _).trans_lt ht
  have hnanos : ticks % freq * nanosPerSec / freq < nanosPerSec :=
    Scale.convert_lt (Nat.mod_lt _ hpos) (by decide)
  have hnew : ∃ d, Duration.new (ticks / freq) (ticks % freq * nanosPerSec / freq) = some d :=
    ⟨_, dif_pos (by rw [Nat.div_eq_of_lt hnanos]; exact hsecs)⟩
  obtain ⟨d, hd⟩ := hnew
  refine ⟨d, ?_, ?_⟩
  · rw [ticksToDuration, if_neg (by omega)]
    simp only
    rw [Nat.mod_eq_of_lt hsecs, Nat.mod_eq_of_lt (hnanos.trans (by decide))]
    exact hd
  · rw [Duration.asNanos_of_new hd]
    conv_rhs => rw [← Nat.div_add_mod' ticks freq, Scale.convert_group hpos]
    rfl

end

/-- The two parts of the ticks are the duration in ticks, or the largest `usize`. -/
theorem durationToTicks_eq {freq : Nat} (hlt : freq < u64Range) (dur : Duration) :
    durationToTicks freq dur = min (Scale.convert freq nanosPerSec dur.asNanos) (u64Range - 1) := by
  have hnanos : dur.subsecNanos * freq / nanosPerSec < u64Range := by
    rcases Nat.eq_zero_or_pos freq with rfl | hpos
    · simp
    · exact (Scale.convert_lt dur.subsecNanos_lt hpos).trans hlt
  rw [Duration.asNanos, Scale.convert_group (by decide)]
  simp only [durationToTicks, Nat.mod_eq_of_lt hnanos]
  exact saturatingAdd_min _ _

theorem durationToTicks_le {freq : Nat} (hlt : freq < u64Range) (dur : Duration) :
    durationToTicks freq dur ≤ Scale.convert freq nanosPerSec dur.asNanos :=
  (durationToTicks_eq hlt dur).trans_le (min_le_left _ _)

theorem durationToTicks_lt {freq : Nat} (hlt : freq < u64Range) (dur : Duration) :
    durationToTicks freq dur < u64Range := by
  rw [durationToTicks_eq hlt]
  exact (min_le_right _ _).trans_lt (by decide)

/-- For every frequency the conversions are monotone, ticks lose at most one nanosecond's worth of ticks, rounded
up, on the way to a duration and back, and no duration gains on the way to ticks and back. -/
theorem conversions_near_inverse {freq : Nat} (hpos : 1 ≤ freq) (hlt : freq < 2 ^ 64) :
    (∀ t t', t ≤ t' → t' < 2 ^ 64 → ∃ d d', ticksToDuration freq t = some d ∧
      ticksToDuration freq t' = some d' ∧ d ≤ d') ∧
    (∀ d d' : Duration, d ≤ d' → durationToTicks freq d ≤ durationToTicks freq d') ∧
    (∀ t < 2 ^ 64, (freq + nanosPerSec - 1) / nanosPerSec ≤ t → ∃ d, ticksToDuration freq t = some d ∧
      t - (freq + nanosPerSec - 1) / nanosPerSec ≤ durationToTicks freq d ∧ durationToTicks freq d ≤ t) ∧
    ∀ d, ∃ d', ticksToDuration freq (durationToTicks freq d) = some d' ∧ d' ≤ d := by
  refine ⟨?_, ?_, ?_, ?_⟩
  · intro t t' hle ht'
    obtain ⟨d, hd, hnanos⟩ := asNanos_ticksToDuration hpos (hle.trans_lt ht')
    obtain ⟨d', hd', hnanos'⟩ := asNanos_ticksToDuration hpos ht'
    refine ⟨d, d', hd, hd', ?_⟩
    rw [Duration.le_iff, hnanos, hnanos']
    exact Scale.convert_mono hle
  · intro d d' hle
    rw [durationToTicks_eq hlt, durationToTicks_eq hlt]
    exact min_le_min_right _ (Scale.convert_mono (Duration.le_iff.mp hle))
  · intro t ht _
    obtain ⟨d, hd, hnanos⟩ := asNanos_ticksToDuration hpos ht
    have hback : durationToTicks freq d = Scale.convert freq nanosPerSec d.asNanos := by
      rw [durationToTicks_eq hlt, hnanos]
      exact min_eq_left ((Scale.back_le (by decide) t).trans (Nat.le_pred_of_lt ht))
    refine ⟨d, hd, ?_, ?_⟩
    · rw [hback, hnanos]
      exact Scale.le_back_add (by decide) hpos t
    · rw [hback, hnanos]
      exact Scale.back_le (by decide) t
  · intro d
    obtain ⟨d', hd', hnanos⟩ := asNanos_ticksToDuration hpos (durationToTicks_lt hlt d)
    refine ⟨d', hd', ?_⟩
    rw [Duration.le_iff, hnanos]
    calc Scale.convert nanosPerSec freq (durationToTicks freq d)
      _ ≤ Scale.convert nanosPerSec freq (Scale.convert freq nanosPerSec d.asNanos) :=
        Scale.convert_mono (durationToTicks_le hlt d)
      _ ≤ d.asNanos := Scale.back_le hpos _

/-- At three ticks in a nanosecond ten ticks come back as nine. -/
theorem conversions_near_inverse_three_per_nano :
    (∃ d, ticksToDuration 3000000000 10 = some d ∧ 7 ≤ durationToTicks 3000000000 d) ∧
      (ticksToDuration 3000000000 10).map (durationToTicks 3000000000) = some 9 := by
  have hpos : 1 ≤ 3000000000 := by decide
  obtain ⟨-, -, hback, -⟩ := conversions_near_inverse hpos (by decide)
  obtain ⟨d, hd, hge, -⟩ := hback 10 (by decide) (by decide)
  exact ⟨⟨d, hd, hge⟩, by decide⟩

end Sparreal.Time
