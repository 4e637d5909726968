import Sparreal.Time.TimerRuns

/-!
# What the timers do

Over every run of the machine: `handle_irq` returns the callbacks that are due and no others, in order; each
callback runs at most once, not before its deadline, and not after its timer was cancelled; the hardware timer
is armed for the first deadline.
-/

namespace Sparreal.Time.Timers

variable {freq : Nat} {s s' : Timers} {e : Event} {es : List Event}

/-- In every reachable state the keys of `timers` are the pairs of `index` and the timers in the maps are the
pending ones. `handle_irq` returns the callbacks whose deadline has come, in the order of their deadlines and,
where these are equal, of the schedule calls; the other timers stay. -/
theorem handleIrq_returns_due (hrun : Machine.run (step freq) boot es = some s) (hlt : s.serial < u64Range) :
    (∀ deadline id, s.current.timers.contains ⟨deadline, id⟩ = true ↔ s.current.index.get id = some deadline) ∧
      (∀ key cb, s.current.timers.get key = some cb ↔
        ∃ n, cb = intoCallback n ∧ s.Pending n ⟨key.id⟩ key.deadline) ∧
      ∀ now now', ∃ due : List (Serial × Nat),
        (s.current.handleIrq freq now now').result = (due.map fun p => intoCallback p.1) ∧
          (∀ n d, (n, d) ∈ due ↔ (∃ h, s.Pending n h d) ∧ d ≤ now) ∧
          (due.Pairwise fun a b => a.2 < b.2 ∨ a.2 = b.2 ∧ a.1 < b.1) ∧
          ∀ key cb, (s.current.handleIrq freq now now').manager.timers.get key = some cb ↔
            s.current.timers.get key = some cb ∧ now < key.deadline := by
  have hs := tracked_run hrun hlt
  refine ⟨hs.consistent, fun _ _ => hs.timers, fun now now' => ⟨s.due now, ?_, ?_, ?_, ?_⟩⟩
  · exact hs.handleIrq_result freq now now'
  · intro n d
    exact hs.mem_due
  · exact hs.due_sorted now
  · intro key cb
    obtain ⟨-, hleft, -, -⟩ := TimerManager.handleIrq_spec freq now now' hs.consistent
    rw [SortedMap.get_eq_some_iff, SortedMap.get_eq_some_iff, hleft, List.mem_filter, decide_eq_true_eq]

/-- Three timers, the last two due at the same tick. -/
theorem handleIrq_returns_due_twice : ∃ s,
    Machine.run (step 1000) boot
        [.create, .publish, .scheduleAt 0 5, .scheduleAt 0 3, .scheduleAfter 1 1 2] = some s ∧
      (s.current.handleIrq 1000 3 3).result = [intoCallback 1, intoCallback 2] ∧
      ∀ key cb, s.current.timers.get key = some cb ↔
        ∃ n, cb = intoCallback n ∧ s.Pending n ⟨key.id⟩ key.deadline := by
  have hrun := Option.some_get (show (Machine.run (step 1000) boot
    [.create, .publish, .scheduleAt 0 5, .scheduleAt 0 3, .scheduleAfter 1 1 2]).isSome by decide +kernel)
  exact ⟨_, hrun.symm, by decide +kernel, (handleIrq_returns_due hrun.symm (by decide +kernel)).2.1⟩

/-! With a tick counter that does not go back no callback is early. -/

/-- A callback is returned, and called, at its deadline or later. -/
structure Timely (s : Timers) : Prop where
  returned : ∀ {n}, .returned n ∈ s.log → ∃ h d, s.Scheduled n h d ∧ d ≤ s.tick
  ran : ∀ {n t}, .ran n t ∈ s.log → ∃ h d, s.Scheduled n h d ∧ d ≤ t

theorem tick_takes (h : Takes freq s e s') : s'.tick = e.readings.getLastD s.tick := by
  cases h with
  | idle _ _ _ _ _ _ htick => exact htick
  | scheduled _ hnow => exact hnow.symm
  | cancelled | irq | call => rfl

theorem tick_le (h : Takes freq s e s') (hle : (s.tick :: e.readings).Pairwise (· ≤ ·)) : s.tick ≤ s'.tick := by
  rw [tick_takes h]
  cases hr : e.readings.getLast? with
  | none => simp [List.getLastD_eq_getLast?, hr]
  | some t =>
    rw [List.getLastD_eq_getLast?, hr, Option.getD_some]
    exact (List.pairwise_cons.mp hle).1 t (List.mem_of_getLast? hr)

theorem Tracked.returned_of_next (hs : s.Tracked) {i : Nat} {n : Serial} {rest : List (TimerCallback Serial)}
    (hnext : s.handlers[i]? = some (intoCallback n :: rest)) : .returned n ∈ s.log := by
  have hmem : intoCallback n ∈ s.handlers.flatten :=
    (perm_flatten_set hnext).mem_iff.mpr (List.mem_cons_self ..)
  have hpos : 0 < s.uncalled n := List.count_pos_iff.mpr hmem
  have hcalls := hs.calls n
  exact List.count_pos_iff.mp (by omega)

theorem Timely.takes (ht : s.Timely) (hs : s.Tracked) (h : Takes freq s e s')
    (hle : (s.tick :: e.readings).Pairwise (· ≤ ·)) : s'.Timely := by
  have htick := tick_le h hle
  -- what was logged before stays so
  have hret : ∀ {n}, .returned n ∈ s.log → ∃ h d, s'.Scheduled n h d ∧ d ≤ s'.tick := by
    intro n hret
    obtain ⟨handle, d, hn, hd⟩ := ht.returned hret
    exact ⟨handle, d, scheduled_takes hn h, hd.trans htick⟩
  have hran : ∀ {n t}, .ran n t ∈ s.log → ∃ h d, s'.Scheduled n h d ∧ d ≤ t := by
    intro n t hran
    obtain ⟨handle, d, hn, hd⟩ := ht.ran hran
    exact ⟨handle, d, scheduled_takes hn h, hd⟩
  cases h with
  | idle _ _ _ _ _ hlog =>
    exact ⟨fun h => hret (by simpa [hlog] using h), fun h => hran (by simpa [hlog] using h)⟩
  | scheduled =>
    exact ⟨fun h => hret (by simpa [schedule] using h), fun h => hran (by simpa [schedule] using h)⟩
  | cancelled =>
    exact ⟨fun h => hret (by simpa using h), fun h => hran (by simpa using h)⟩
  | @irq now now' =>
    refine ⟨fun {n} h => ?_, fun h => hran (by simpa using h)⟩
    rcases List.mem_append.mp h with h | h
    · exact hret h
    · obtain ⟨m, hm, heq⟩ := List.mem_map.mp h
      obtain rfl := Action.returned.inj heq
      rw [hs.handleIrq_result] at hm
      obtain ⟨cb, hcb, hopt⟩ := List.mem_filterMap.mp hm
      obtain ⟨⟨k, d⟩, hp, rfl⟩ := List.mem_map.mp hcb
      obtain rfl : k = m := Option.some.inj hopt
      obtain ⟨⟨h', hpending⟩, hd⟩ := hs.mem_due.mp hp
      have hnow : now ≤ now' := by simp [Event.readings] at hle; omega
      exact ⟨h', d, List.mem_append_left _ hpending.1, hd.trans hnow⟩
  | @call now i cb rest hnext =>
    refine ⟨fun h => hret (by simpa using h), fun {n t} h => ?_⟩
    rcases List.mem_append.mp h with h | h
    · exact hran h
    · obtain ⟨m, hm, heq⟩ := List.mem_map.mp h
      obtain ⟨rfl, rfl⟩ := Action.ran.inj heq
      obtain ⟨opt⟩ := cb
      obtain rfl : opt = some m := Option.mem_toList.mp hm
      exact hret (hs.returned_of_next hnext)

theorem tracked_and_timely (hrun : Machine.run (forwardStep freq) boot es = some s)
    (hlt : s.serial < u64Range) : s.Tracked ∧ s.Timely := by
  refine Machine.run_keeps (I := fun s => s.serial < u64Range → s.Tracked ∧ s.Timely) ?_ hrun
    (fun _ => ⟨tracked_boot, nofun, nofun⟩) hlt
  intro s e s' hs hstep hlt'
  obtain ⟨hle, hstep⟩ := step_of_forwardStep hstep
  have htakes := takes_of_step hstep
  obtain ⟨htracked, htimely⟩ := hs ((serial_le htakes).trans_lt hlt')
  exact ⟨htracked.takes htakes hlt', htimely.takes htracked htakes hle⟩

/-- A callback runs at most once and at its deadline or later. `cancel` answers true exactly for a timer that
is scheduled, not returned and not cancelled, and then its callback never runs. -/
theorem timers_one_shot (hrun : Machine.run (forwardStep freq) boot es = some s) (hlt : s.serial < u64Range) :
    (∀ n, s.runs n ≤ 1) ∧
      (∀ n t, .ran n t ∈ s.log → (∃ h d, s.Scheduled n h d) ∧ ∀ h d, s.Scheduled n h d → d ≤ t) ∧
      (∀ now handle, (s.current.cancel freq now handle).result = true ↔
        ∃ n d, s.Scheduled n handle d ∧ .returned n ∉ s.log ∧ .cancelled handle true ∉ s.log) ∧
      ∀ n h d, s.Scheduled n h d → .cancelled h true ∈ s.log → s.runs n = 0 := by
  obtain ⟨hs, ht⟩ := tracked_and_timely hrun hlt
  refine ⟨fun n => ?_, fun n t hran => ?_, fun now handle => ?_, fun n h d hn hcan => ?_⟩
  · have hcalls := hs.calls n
    have honce := hs.once n
    omega
  · obtain ⟨h, d, hn, hd⟩ := ht.ran hran
    exact ⟨⟨h, d, hn⟩, fun h' d' hn' => hs.deadline hn hn' ▸ hd⟩
  · constructor
    · intro hresult
      cases hget : s.current.index.get handle.id with
      | none =>
        rw [(TimerManager.cancel_of_none freq now hget).1] at hresult
        cases hresult
      | some d =>
        obtain ⟨n, hn⟩ := hs.pending_of_index hget
        exact ⟨n, d, hn⟩
    · rintro ⟨n, d, hn⟩
      exact (TimerManager.cancel_of_some freq now (hs.index_of_pending hn)).1
  · have hret : .returned n ∉ s.log := by
      intro hret
      obtain ⟨h', d', hn', hcan'⟩ := hs.returned hret
      exact hcan' ((hs.numbered hn').2.trans (hs.numbered hn).2.symm ▸ hcan)
    have hcalls := hs.calls n
    rw [List.count_eq_zero.mpr hret] at hcalls
    omega

/-- The first of two timers is cancelled, the second runs. -/
theorem timers_one_shot_cancelled : ∃ s,
    Machine.run (forwardStep 1000) boot
        [.create, .publish, .scheduleAt 0 3, .scheduleAt 0 4, .cancel 1 ⟨1⟩, .irq 5 5, .call 6 0] = some s ∧
      s.log = [.scheduled 0 ⟨1⟩ 3, .scheduled 1 ⟨2⟩ 4, .cancelled ⟨1⟩ true, .returned 1, .ran 1 6] ∧
      (∀ n, s.runs n ≤ 1) ∧ s.runs 0 = 0 := by
  have hrun := Option.some_get (show (Machine.run (forwardStep 1000) boot
    [.create, .publish, .scheduleAt 0 3, .scheduleAt 0 4, .cancel 1 ⟨1⟩, .irq 5 5, .call 6 0]).isSome
    by decide +kernel)
  obtain ⟨honce, -, -, hnever⟩ := timers_one_shot hrun.symm (by decide +kernel)
  refine ⟨_, hrun.symm, by decide +kernel, honce, hnever 0 ⟨1⟩ 3 ?_ (by decide +kernel)⟩
  rw [Scheduled]
  decide +kernel

/-! ### The hardware timer -/

/-- What the hardware timer was programmed to last is right for the pending timers. -/
structure Armed (freq : Nat) (m : TimerManager Serial) (programmed : Option Programming) : Prop where
  pending : ∀ {key cb}, m.timers.get key = some cb → ∃ p, programmed = some p ∧ p.irqEnabled = true ∧
    p.expiry ≤ max key.deadline (p.tick + TimerManager.minDelay freq)
  idle : m.timers.entries = [] → ∀ {p}, programmed = some p → p.irqEnabled = false

theorem armed_armHardwareTimer (freq now : Nat) (m : TimerManager Serial) :
    Armed freq m (some (m.armHardwareTimer freq now)) := by
  rw [TimerManager.armHardwareTimer]
  cases hfirst : m.timers.firstKey with
  | none =>
    have hnil := SortedMap.firstKey_eq_none.mp hfirst
    refine ⟨fun hget => ?_, fun _ p hp => ?_⟩
    · rw [SortedMap.get_eq_some_iff, hnil] at hget
      cases hget
    · obtain rfl := Option.some.inj hp
      rfl
  | some key₀ =>
    refine ⟨fun {key cb} hget => ⟨_, rfl, rfl, ?_⟩, fun hnil => ?_⟩
    · have hle := TimerKey.deadline_le (SortedMap.firstKey_le hfirst hget)
      simp only [Programming.expiry]
      omega
    · rw [SortedMap.firstKey_eq_none.mpr hnil] at hfirst
      cases hfirst

theorem Armed.takes (hs : Armed freq s.current s.programmed) (hcons : s.current.Consistent)
    (h : Takes freq s e s') : Armed freq s'.current s'.programmed := by
  cases h with
  | idle _ hcurrent hprogrammed => exact hcurrent ▸ hprogrammed ▸ hs
  | @scheduled _ now deadline out hout =>
    obtain ⟨-, htimers, -, hprogrammed⟩ := TimerManager.scheduleAtInternal_some hout
    show Armed freq out.manager (out.programmed <|> s.programmed)
    rw [hprogrammed]
    split_ifs with hearliest
    · exact armed_armHardwareTimer freq now out.manager
    · -- the first deadline is at or before the new one, and the hardware is armed for it
      obtain ⟨key₀, hfirst, hle⟩ : ∃ key₀,
          s.current.timers.firstKey = some key₀ ∧ key₀.deadline ≤ deadline := by
        cases hfirst : s.current.timers.firstKey with
        | none => simp [hfirst] at hearliest
        | some key₀ => exact ⟨key₀, rfl, by simpa [hfirst] using hearliest⟩
      obtain ⟨cb₀, hget₀⟩ := SortedMap.get_of_firstKey hfirst
      refine ⟨fun {key cb} hget => ?_, fun hnil => ?_⟩
      · rw [htimers, SortedMap.get_insert] at hget
        split_ifs at hget with hkey
        · obtain ⟨p, hp, hirq, hexpiry⟩ := hs.pending hget₀
          exact ⟨p, hp, hirq, hexpiry.trans (max_le_max_right _ (hkey ▸ hle))⟩
        · exact hs.pending hget
      · have hget : out.manager.timers.get ⟨deadline, out.result.id⟩ = some (intoCallback s.serial) := by
          rw [htimers, SortedMap.get_insert_self]
        rw [SortedMap.get_eq_some_iff, hnil] at hget
        cases hget
  | @cancelled now d h hsome =>
    obtain ⟨-, hleft, hprogrammed⟩ := TimerManager.cancel_of_some freq now hsome
    show Armed freq (s.current.cancel freq now h).manager
      ((s.current.cancel freq now h).programmed <|> s.programmed)
    rw [hprogrammed]
    split_ifs with hfirst
    · exact armed_armHardwareTimer freq now _
    · rw [hleft]
      refine ⟨fun {key cb} hget => ?_, fun hnil => ?_⟩
      · simp only [SortedMap.get_remove] at hget
        split_ifs at hget
        exact hs.pending hget
      · -- the first timer is another one, so it is still there
        obtain ⟨cb, hcb⟩ := SortedMap.contains_iff.mp ((hcons d h.id).mpr hsome)
        cases hkey : s.current.timers.firstKey with
        | none =>
          rw [SortedMap.get_eq_some_iff, SortedMap.firstKey_eq_none.mp hkey] at hcb
          cases hcb
        | some key₀ =>
          obtain ⟨cb₀, hcb₀⟩ := SortedMap.get_of_firstKey hkey
          have hmem : (key₀, cb₀) ∈ (s.current.timers.remove ⟨d, h.id⟩).2.entries :=
            SortedMap.mem_remove.mpr ⟨fun heq => hfirst (heq ▸ hkey), SortedMap.get_eq_some_iff.mp hcb₀⟩
          rw [hnil] at hmem
          cases hmem
  | irq => exact armed_armHardwareTimer freq _ _
  | call => exact hs

/-- After every run, whatever the tick counter reads: if a timer is pending, the interrupt is enabled and
comes at the timer's deadline, or the least delay after the programming; if timers were programmed and none is
pending, the interrupt is disabled. -/
theorem hardware_armed (hrun : Machine.run (step freq) boot es = some s) :
    (∀ key cb, s.current.timers.get key = some cb → ∃ p, s.programmed = some p ∧ p.irqEnabled = true ∧
        p.expiry ≤ max key.deadline (p.tick + max (freq / 10000) 1)) ∧
      (s.current.timers.entries = [] → ∀ p, s.programmed = some p → p.irqEnabled = false) := by
  have hs : s.current.Consistent ∧ Armed freq s.current s.programmed := by
    refine Machine.run_keeps (I := fun s => s.current.Consistent ∧ Armed freq s.current s.programmed) ?_ hrun
      ⟨TimerManager.consistent_new, nofun, fun _ => nofun⟩
    intro s e s' hs hstep
    have htakes := takes_of_step hstep
    exact ⟨consistent_takes htakes hs.1, hs.2.takes hs.1 htakes⟩
  exact ⟨fun _ _ => hs.2.pending, fun hnil _ => hs.2.idle hnil⟩

theorem hardware_armed_next : ∃ s,
    Machine.run (step 1000) boot [.create, .publish, .scheduleAt 0 300, .scheduleAt 0 400, .cancel 1 ⟨1⟩] = some s ∧
      s.programmed = some ⟨1, 399, true⟩ ∧
      ∃ p, s.programmed = some p ∧ p.irqEnabled = true ∧ p.expiry ≤ max 400 (p.tick + max (1000 / 10000) 1) := by
  have hrun := Option.some_get (show (Machine.run (step 1000) boot
    [.create, .publish, .scheduleAt 0 300, .scheduleAt 0 400, .cancel 1 ⟨1⟩]).isSome by decide +kernel)
  exact ⟨_, hrun.symm, by decide +kernel,
    (hardware_armed hrun.symm).1 ⟨400, 2⟩ (intoCallback 1) (by decide +kernel)⟩

end Sparreal.Time.Timers
