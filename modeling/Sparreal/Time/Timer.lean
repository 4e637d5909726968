import Sparreal.Lib.SortedMap
import Mathlib.Data.Prod.Lex
import Mathlib.Data.Finset.Card
import Mathlib.Data.Nat.ModEq
import Mathlib.Algebra.Order.Ring.Nat

/-!
# The timer manager

`TimerManager` of `os/time/timer.rs`. The pending timers are in two maps: `timers` holds the callbacks in the
order of deadline and id, `index` gives the deadline of an id. The manager is `Consistent` when the keys of
`timers` are the pairs of `index`; every function keeps that.

A function that reads the tick counter gets the values it reads as arguments, in the order of the reads.
What it programs into the hardware timer is part of its `Outcome`.
-/

namespace Sparreal.Time

/-- The values of `u64` and `usize`. -/
abbrev u64Range : Nat := 2 ^ 64

inductive TimerError where
  | notReady
  | overflow
  deriving DecidableEq, Repr

abbrev TimerId := Nat

structure TimerHandle where
  id : TimerId
  deriving DecidableEq, Repr

structure TimerKey where
  deadline : Nat
  id : TimerId
  deriving DecidableEq, Repr

namespace TimerKey

/-- The derived order of `TimerKey` compares the deadlines, then the ids. -/
def order (k : TimerKey) : Nat ×ₗ Nat := toLex (k.deadline, k.id)

theorem order_injective : Function.Injective order := by
  rintro ⟨d, i⟩ ⟨d', i'⟩ h
  obtain ⟨rfl, rfl⟩ := Prod.mk.inj (toLex_inj.mp h)
  rfl

instance : LinearOrder TimerKey := LinearOrder.lift' order order_injective

theorem lt_iff {k k' : TimerKey} :
    k < k' ↔ k.deadline < k'.deadline ∨ k.deadline = k'.deadline ∧ k.id < k'.id := Prod.Lex.toLex_lt_toLex

theorem deadline_le {k k' : TimerKey} (h : k ≤ k') : k.deadline ≤ k'.deadline := by
  rcases h.lt_or_eq with h | rfl
  · rcases lt_iff.mp h with h | h
    · exact h.le
    · exact h.1.le
  · exact le_rfl

end TimerKey

/-- `TimerCallback`: the closure `into_callback` builds, with what `opt` holds. -/
structure TimerCallback (F : Type) where
  opt : Option F
  deriving DecidableEq, Repr

def intoCallback {F : Type} (f : F) : TimerCallback F := ⟨some f⟩

theorem intoCallback_injective {F : Type} : Function.Injective (intoCallback (F := F)) := fun _ _ h =>
  Option.some.inj (TimerCallback.mk.inj h)

/-- A call of the closure: what it runs, and the closure after it. -/
def TimerCallback.call {F : Type} (cb : TimerCallback F) : Option F × TimerCallback F := (cb.opt, ⟨none⟩)

structure TimeListEntry where
  handle : TimerHandle
  deadline : Nat
  remaining : Nat
  deriving DecidableEq, Repr

/-- What `arm_hardware_timer` programs: `systick_set_interval`, at the tick it read before, and
`systick_irq_enable` or `systick_irq_disable`. -/
structure Programming where
  tick : Nat
  interval : Nat
  irqEnabled : Bool
  deriving DecidableEq, Repr

def Programming.expiry (p : Programming) : Nat := p.tick + p.interval

structure TimerManager (F : Type) where
  nextId : TimerId
  timers : SortedMap TimerKey (TimerCallback F)
  index : SortedMap TimerId Nat

/-- What a function of the manager returns, leaves and programs. -/
structure Outcome (F R : Type) where
  result : R
  manager : TimerManager F
  programmed : Option Programming

namespace TimerManager

variable {F : Type}

def new : TimerManager F := ⟨1, .empty, .empty⟩

/-- The delay below which the hardware timer is not programmed, about 100 microseconds. -/
def minDelay (freq : Nat) : Nat := max (freq / 10000) 1

def armHardwareTimer (freq now : Nat) (m : TimerManager F) : Programming :=
  match m.timers.firstKey with
  | some key => ⟨now, max (key.deadline - now) (minDelay freq), true⟩
  | none => ⟨now, u64Range - 1, false⟩

/-- The loop of `next_timer_id`, `fuel` rounds of it. -/
def nextTimerIdLoop : Nat → TimerManager F → Option (TimerId × TimerManager F)
  | 0, _ => none
  | fuel + 1, m =>
    let id := m.nextId
    let m' := { m with nextId := (m.nextId + 1) % u64Range }
    if m'.index.contains id then nextTimerIdLoop fuel m' else some (id, m')

/-- `next_timer_id`. Among one id more than the index holds there is a free one, unless the index holds all
of them; then the loop does not end. -/
def nextTimerId (m : TimerManager F) : Option (TimerId × TimerManager F) :=
  nextTimerIdLoop (m.index.size + 1) m

def scheduleAtInternal (freq now deadline : Nat) (callback : F) (m : TimerManager F) :
    Option (Outcome F TimerHandle) := do
  let (id, m) ← m.nextTimerId
  let isEarliest := m.timers.firstKey.all fun k => deadline < k.deadline
  let m := { m with
    timers := m.timers.insert ⟨deadline, id⟩ (intoCallback callback)
    index := m.index.insert id deadline }
  return ⟨⟨id⟩, m, if isEarliest then some (m.armHardwareTimer freq now) else none⟩

def scheduleAfter (freq now now' delay : Nat) (callback : F) (m : TimerManager F) :
    Option (Outcome F (Except TimerError TimerHandle)) :=
  if now + delay < u64Range then do
    let out ← m.scheduleAtInternal freq now' (now + delay) callback
    return ⟨.ok out.result, out.manager, out.programmed⟩
  else some ⟨.error .overflow, m, none⟩

def scheduleAt (freq now deadline : Nat) (callback : F) (m : TimerManager F) : Option (Outcome F TimerHandle) :=
  m.scheduleAtInternal freq now deadline callback

def cancel (freq now : Nat) (handle : TimerHandle) (m : TimerManager F) : Outcome F Bool :=
  match m.index.remove handle.id with
  | (some deadline, index) =>
    let key : TimerKey := ⟨deadline, handle.id⟩
    let wasFirst := m.timers.firstKey.any fun k => k = key
    let m := { m with timers := (m.timers.remove key).2, index := index }
    ⟨true, m, if wasFirst then some (m.armHardwareTimer freq now) else none⟩
  | (none, index) => ⟨false, { m with index := index }, none⟩

/-- The loop of `handle_irq`, `fuel` rounds of it. -/
def collectExpired (now : Nat) : Nat → List (TimerCallback F) → TimerManager F →
    List (TimerCallback F) × TimerManager F
  | 0, expired, m => (expired, m)
  | fuel + 1, expired, m =>
    match m.timers.firstKey with
    | none => (expired, m)
    | some key =>
      if now < key.deadline then (expired, m)
      else
        let (cb, timers) := m.timers.remove key
        collectExpired now fuel (expired ++ cb.toList)
          { m with timers := timers, index := (m.index.remove key.id).2 }

/-- `handle_irq`. A round of the loop takes a timer out. -/
def handleIrq (freq now now' : Nat) (m : TimerManager F) : Outcome F (List (TimerCallback F)) :=
  let (expired, m) := collectExpired now m.timers.size [] m
  ⟨expired, m, some (m.armHardwareTimer freq now')⟩

def snapshot (now : Nat) (m : TimerManager F) : List TimeListEntry :=
  m.timers.entries.map fun e => ⟨⟨e.1.id⟩, e.1.deadline, e.1.deadline - now⟩

/-! ### Consistency -/

/-- The keys of `timers` are the pairs of `index`. -/
def Consistent (m : TimerManager F) : Prop :=
  ∀ deadline id, m.timers.contains ⟨deadline, id⟩ = true ↔ m.index.get id = some deadline

theorem consistent_new : (new : TimerManager F).Consistent := fun _ _ => ⟨nofun, nofun⟩

variable {m m' : TimerManager F}

theorem Consistent.insert {deadline id : Nat} {cb : TimerCallback F} (hm : m.Consistent)
    (hfree : m.index.get id = none) (htimers : m'.timers = m.timers.insert ⟨deadline, id⟩ cb)
    (hindex : m'.index = m.index.insert id deadline) : m'.Consistent := by
  intro d i
  rw [SortedMap.contains, htimers, hindex, SortedMap.get_insert, SortedMap.get_insert]
  by_cases hi : i = id
  · subst hi
    have hnone : m.timers.get ⟨d, i⟩ = none := by
      by_contra hsome
      rw [(hm d i).mp (Option.isSome_iff_ne_none.mpr hsome)] at hfree
      exact absurd hfree nofun
    by_cases hd : d = deadline
    · simp [hd]
    · simpa [hd, hnone] using fun h => hd h.symm
  · simpa [hi, SortedMap.contains] using hm d i

theorem Consistent.remove {deadline id : Nat} (hm : m.Consistent) (hget : m.index.get id = some deadline)
    (htimers : m'.timers = (m.timers.remove ⟨deadline, id⟩).2) (hindex : m'.index = (m.index.remove id).2) :
    m'.Consistent := by
  intro d i
  rw [SortedMap.contains, htimers, hindex, SortedMap.get_remove, SortedMap.get_remove]
  by_cases hi : i = id
  · subst hi
    by_cases hd : d = deadline
    · simp [hd]
    · have hnone : m.timers.get ⟨d, i⟩ = none := by
        by_contra hsome
        have hget' := (hm d i).mp (Option.isSome_iff_ne_none.mpr hsome)
        exact hd (Option.some.inj (hget'.symm.trans hget))
      simp [hd, hnone]
  · simpa [hi, SortedMap.contains] using hm d i

variable {m : TimerManager F}

theorem Consistent.index_first (hm : m.Consistent) {key : TimerKey} (h : m.timers.firstKey = some key) :
    m.index.get key.id = some key.deadline :=
  (hm key.deadline key.id).mp (SortedMap.contains_iff.mpr (SortedMap.get_of_firstKey h))

/-! ### Ids -/

theorem nextTimerIdLoop_some {fuel id : Nat} (h : nextTimerIdLoop fuel m = some (id, m')) :
    m.index.get id = none ∧ m'.timers = m.timers ∧ m'.index = m.index := by
  induction fuel generalizing m with
  | zero => cases h
  | succ fuel ih =>
    simp only [nextTimerIdLoop] at h
    split at h
    · have hloop := ih h
      exact hloop
    · next hfree =>
      obtain ⟨rfl, rfl⟩ := Prod.mk.inj (Option.some.inj h)
      exact ⟨by simpa [SortedMap.contains] using hfree, rfl, rfl⟩

theorem nextTimerId_of_free (h : m.index.get m.nextId = none) :
    m.nextTimerId = some (m.nextId, { m with nextId := (m.nextId + 1) % u64Range }) := by
  simp [nextTimerId, nextTimerIdLoop, SortedMap.contains, h]

theorem nextTimerIdLoop_none {fuel : Nat} (hlt : m.nextId < u64Range) (h : nextTimerIdLoop fuel m = none) {i : Nat}
    (hi : i < fuel) : m.index.contains ((m.nextId + i) % u64Range) = true := by
  induction fuel generalizing m i with
  | zero => omega
  | succ fuel ih =>
    simp only [nextTimerIdLoop] at h
    split at h
    · next htaken =>
      cases i with
      | zero => rwa [Nat.add_zero, Nat.mod_eq_of_lt hlt]
      | succ i =>
        have hrest := ih (Nat.mod_lt _ (by decide)) h (show i < fuel by omega)
        rwa [Nat.mod_add_mod, Nat.add_assoc, Nat.add_comm 1] at hrest
    · cases h

theorem nextTimerId_returns (hlt : m.nextId < u64Range) (hsize : m.index.size < u64Range) :
    ∃ r, m.nextTimerId = some r := by
  by_contra hnone
  have hall : ∀ i < m.index.size + 1, m.index.contains ((m.nextId + i) % u64Range) = true := fun i hi =>
    nextTimerIdLoop_none hlt (Option.eq_none_iff_forall_ne_some.mpr fun r hr => hnone ⟨r, hr⟩) hi
  -- the ids tried are different, and all of them are keys of the index
  have hinj : Set.InjOn (fun i => (m.nextId + i) % u64Range) (Finset.range (m.index.size + 1)) := by
    intro i hi j hj hij
    have hmod : i % u64Range = j % u64Range := Nat.ModEq.add_left_cancel' m.nextId hij
    have hi := Finset.mem_range.mp (Finset.mem_coe.mp hi)
    have hj := Finset.mem_range.mp (Finset.mem_coe.mp hj)
    rwa [Nat.mod_eq_of_lt (by omega), Nat.mod_eq_of_lt (by omega)] at hmod
  have hmaps : Set.MapsTo (fun i => (m.nextId + i) % u64Range) (Finset.range (m.index.size + 1))
      (m.index.entries.map Prod.fst).toFinset := by
    intro i hi
    obtain ⟨v, hv⟩ := SortedMap.contains_iff.mp (hall i (Finset.mem_range.mp hi))
    exact List.mem_toFinset.mpr (List.mem_map_of_mem (SortedMap.get_eq_some_iff.mp hv))
  have hcard := Finset.card_le_card_of_injOn _ hmaps hinj
  have hle := List.toFinset_card_le (m.index.entries.map Prod.fst)
  rw [List.length_map] at hle
  rw [Finset.card_range] at hcard
  exact absurd (hcard.trans hle) (Nat.not_succ_le_self _)

/-! ### One call -/

section Calls

variable {freq now now' : Nat} {m : TimerManager F}

theorem scheduleAtInternal_some {deadline : Nat} {f : F} {out : Outcome F TimerHandle}
    (h : m.scheduleAtInternal freq now deadline f = some out) :
    m.index.get out.result.id = none ∧
      out.manager.timers = m.timers.insert ⟨deadline, out.result.id⟩ (intoCallback f) ∧
      out.manager.index = m.index.insert out.result.id deadline ∧
      out.programmed = if m.timers.firstKey.all fun k => deadline < k.deadline
        then some (out.manager.armHardwareTimer freq now) else none := by
  obtain ⟨⟨id, m'⟩, hid, hrest⟩ := Option.bind_eq_some_iff.mp h
  obtain rfl := Option.some.inj hrest
  obtain ⟨hfree, htimers, hindex⟩ := nextTimerIdLoop_some hid
  exact ⟨hfree, by rw [htimers], by rw [hindex], by rw [htimers]⟩

theorem scheduleAtInternal_of_free (freq now deadline : Nat) (f : F) (h : m.index.get m.nextId = none) :
    ∃ out, m.scheduleAtInternal freq now deadline f = some out ∧ out.result = ⟨m.nextId⟩ ∧
      out.manager.nextId = (m.nextId + 1) % u64Range := by
  refine ⟨_, by rw [scheduleAtInternal, nextTimerId_of_free h]; rfl, rfl, rfl⟩

theorem scheduleAfter_cases {delay : Nat} {f : F} {out : Outcome F (Except TimerError TimerHandle)}
    (h : m.scheduleAfter freq now now' delay f = some out) :
    (u64Range ≤ now + delay ∧ out = ⟨.error .overflow, m, none⟩) ∨
      now + delay < u64Range ∧ ∃ o, m.scheduleAtInternal freq now' (now + delay) f = some o ∧
        out = ⟨.ok o.result, o.manager, o.programmed⟩ := by
  rw [scheduleAfter] at h
  split_ifs at h with hlt
  · obtain ⟨o, ho, hout⟩ := Option.bind_eq_some_iff.mp h
    exact .inr ⟨hlt, o, ho, (Option.some.inj hout).symm⟩
  · exact .inl ⟨Nat.le_of_not_lt hlt, (Option.some.inj h).symm⟩

theorem cancel_of_none (freq now : Nat) {handle : TimerHandle} (h : m.index.get handle.id = none) :
    (m.cancel freq now handle).result = false ∧ (m.cancel freq now handle).programmed = none ∧
      (m.cancel freq now handle).manager = { m with index := (m.index.remove handle.id).2 } := by
  rw [cancel, SortedMap.remove, h]
  exact ⟨rfl, rfl, rfl⟩

theorem cancel_of_some (freq now : Nat) {handle : TimerHandle} {deadline : Nat}
    (h : m.index.get handle.id = some deadline) :
    (m.cancel freq now handle).result = true ∧
      (m.cancel freq now handle).manager =
        { m with
          timers := (m.timers.remove ⟨deadline, handle.id⟩).2, index := (m.index.remove handle.id).2 } ∧
      (m.cancel freq now handle).programmed = if m.timers.firstKey = some ⟨deadline, handle.id⟩
        then some ((m.cancel freq now handle).manager.armHardwareTimer freq now) else none := by
  have hfirst : (m.timers.firstKey.any fun k => k = ⟨deadline, handle.id⟩) =
      decide (m.timers.firstKey = some ⟨deadline, handle.id⟩) := by
    cases m.timers.firstKey <;> simp
  rw [cancel, SortedMap.remove, h]
  simp only [hfirst, decide_eq_true_eq, and_self]

/-- The timers at or before `now` are taken out from the front, in their order; the others stay. -/
theorem collectExpired_spec {fuel : Nat} (expired : List (TimerCallback F)) (hfuel : m.timers.size ≤ fuel)
    (hm : m.Consistent) :
    (collectExpired now fuel expired m).1 =
        expired ++ (m.timers.entries.filter (·.1.deadline ≤ now)).map Prod.snd ∧
      (collectExpired now fuel expired m).2.timers.entries = m.timers.entries.filter (now < ·.1.deadline) ∧
      (collectExpired now fuel expired m).2.nextId = m.nextId ∧
      (collectExpired now fuel expired m).2.Consistent := by
  induction fuel generalizing m expired with
  | zero =>
    have hnil : m.timers.entries = [] := List.length_eq_zero_iff.mp (Nat.le_zero.mp hfuel)
    rw [hnil]
    exact ⟨by simp [collectExpired], by simp [collectExpired, hnil], rfl, hm⟩
  | succ fuel ih =>
    rw [collectExpired]
    cases hfirst : m.timers.firstKey with
    | none =>
      have hnil := SortedMap.firstKey_eq_none.mp hfirst
      exact ⟨by simp [hnil], by simp [hnil], rfl, hm⟩
    | some key =>
      obtain ⟨cb, rest, hentries⟩ := SortedMap.firstKey_eq_some.mp hfirst
      have hleast : ∀ e ∈ m.timers.entries, key.deadline ≤ e.1.deadline := fun e he =>
        TimerKey.deadline_le (SortedMap.firstKey_le hfirst (SortedMap.get_eq_some_iff.mpr he))
      simp only
      split_ifs with hlate
      · -- the first deadline is in the future, and so are the others
        have hall : ∀ e ∈ m.timers.entries, now < e.1.deadline := fun e he => hlate.trans_le (hleast e he)
        refine ⟨?_, ?_, rfl, hm⟩
        · rw [List.filter_eq_nil_iff.mpr fun e he => by simpa using hall e he]
          simp
        · exact (List.filter_eq_self.mpr fun e he => decide_eq_true (hall e he)).symm
      · obtain ⟨hcb, hrest⟩ := SortedMap.remove_first hentries
        have hsize : m.timers.size = rest.length + 1 := congrArg List.length hentries
        have hm' : Consistent ⟨m.nextId, (m.timers.remove key).2, (m.index.remove key.id).2⟩ :=
          hm.remove (hm.index_first hfirst) rfl rfl
        have hloop := ih (expired ++ (m.timers.remove key).1.toList)
          (show (m.timers.remove key).2.size ≤ fuel by rw [SortedMap.size, hrest]; omega) hm'
        rw [hcb] at hloop ⊢
        obtain ⟨hresult, hleft, hnext, hcons⟩ := hloop
        refine ⟨?_, ?_, hnext, hcons⟩
        · rw [hresult, hrest, hentries, List.filter_cons_of_pos (by simpa using hlate)]
          simp
        · rw [hleft, hrest, hentries, List.filter_cons_of_neg (by simpa using hlate)]

theorem handleIrq_spec (freq now now' : Nat) (hm : m.Consistent) :
    (m.handleIrq freq now now').result = (m.timers.entries.filter (·.1.deadline ≤ now)).map Prod.snd ∧
      (m.handleIrq freq now now').manager.timers.entries = m.timers.entries.filter (now < ·.1.deadline) ∧
      (m.handleIrq freq now now').manager.nextId = m.nextId ∧
      (m.handleIrq freq now now').manager.Consistent :=
  collectExpired_spec [] le_rfl hm

end Calls

end TimerManager

end Sparreal.Time
