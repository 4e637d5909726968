import Sparreal.Pcie.Walk

/-!
# The turns of the iterator

What one turn of the iterator does by what answers at the current address (`step_eq`), the rule for its loop over the
devices (`carry_rule`), and the moves of the walk as the iterator makes them: it passes a function
(`Standing.next_none`) or goes down behind a bridge (`Standing.next_some`). `Scanning` is what holds between turns, and
`Carried` says where the loop over the devices leads on the open buses.
-/

namespace Sparreal.Pcie

open Forest

variable {t : Topology} {s s' : PciIterator} {V : List Nat} {p : List (Nat × Nat)} {b c k f : Nat}
  {stack : List Bridge}

namespace PciIterator

/-! ### One turn -/

/-- The address below an entry of the stack. -/
def here (t : Topology) (s : PciIterator) (parent : Bridge) : PciAddress :=
  ⟨parent.bridge.secondaryBusNumber t s.regs, parent.device, s.function⟩

/-- What a turn does, by what answers at the current address. -/
theorem step_eq {parent : Bridge} (hfin : s.isFinish = false) (hstack : s.stack = parent :: stack) : s.step t =
      match t.header s.regs (s.here t parent) with
      | none => some (s.next t none)
      | some (.endpoint m) => some (PciIterator.next t { s with isMultipleFunction := m } none)
      | some (.bridge m _) =>
        if parent.bridge.subordinateBusNumber t s.regs = s.busMax then
          some (PciIterator.next t { s with isMultipleFunction := m } none)
        else
          let n := (parent.bridge.subordinateBusNumber t s.regs + 1) % 256
          some (PciIterator.next t { s with
            isMultipleFunction := m
            regs := t.writeBusNumber s.regs (s.here t parent) ⟨(s.here t parent).bus, n, n⟩ }
            (some (.device (s.here t parent))))
      | some (.other _) => none := by
  have haddress : s.address t = some (s.here t parent) := by rw [address, hstack]; rfl
  rw [step, if_neg (by simp [hfin]), getCurrentValid, haddress]
  rcases hheader : t.header s.regs (s.here t parent) with _ | (m | ⟨m, c⟩ | m)
  · simp [hheader]
  · simp [hheader, PciFunction.hasMultipleFunctions]
  · simp only [Option.bind_eq_bind, Option.bind_some, hheader, hstack, PciFunction.hasMultipleFunctions,
      PciPciBridge.updateBusNumber]
    split <;> rfl
  · simp [hheader]

theorem step_of_finish (hfin : s.isFinish = true) : s.step t = some s := by rw [step, if_pos hfin]

theorem step_of_nil (hfin : s.isFinish = false) (hstack : s.stack = []) : s.step t = none := by
  simp [step, hfin, getCurrentValid, address, hstack]

theorem next_none_eq : s.next t none =
    if s.isMultipleFunction = true ∧ s.function ≠ maxFunction then { s with function := s.function + 1 }
    else PciIterator.carry t (s.stack.length + 1) { s with function := 0 } := by
  unfold next isNextFunctionMax
  by_cases hmultiple : s.isMultipleFunction = true
  · by_cases hfunction : s.function = maxFunction
    · simp [hmultiple, hfunction]
    · simp [hmultiple, hfunction]
  · simp [hmultiple]

theorem function_eq_zero (hmultiple : 0 < s.function → s.isMultipleFunction = true)
    (hsingle : s.isMultipleFunction = false) : s.function = 0 := by
  by_contra hne
  exact Bool.false_ne_true (hsingle.symm.trans (hmultiple (Nat.pos_of_ne_zero hne)))

section Carry

variable {parent : Bridge} {stack : List Bridge} (turns : Nat)

theorem carry_of_nil (hstack : s.stack = []) : s.carry t (turns + 1) = { s with isFinish := true } := by
  simp only [carry, nextDeviceNotOk, hstack]

theorem carry_of_last (hstack : s.stack = parent :: stack) (hdevice : parent.device = maxDevice) :
    s.carry t (turns + 1) = PciIterator.carry t turns { s with
      stack
      isFinish := parent.bridge.subordinateBusNumber t s.regs = s.busMax
      function := 0 } := by
  simp only [carry, nextDeviceNotOk, hstack, if_pos hdevice]

theorem carry_of_ne (hstack : s.stack = parent :: stack) (hdevice : parent.device ≠ maxDevice) :
    s.carry t (turns + 1) = { s with stack := { parent with device := parent.device + 1 } :: stack } := by
  simp only [carry, nextDeviceNotOk, hstack, if_neg hdevice]

end Carry

/-- The rule for the loop over the devices: what popping an entry keeps holds when the loop stops. -/
theorem carry_rule {I Q : PciIterator → Prop}
    (hpop : ∀ {s : PciIterator} {parent stack}, I s → s.stack = parent :: stack → parent.device = maxDevice →
      I { s with
        stack
        isFinish := parent.bridge.subordinateBusNumber t s.regs = s.busMax
        function := 0 })
    (hnext : ∀ {s : PciIterator} {parent stack}, I s → s.stack = parent :: stack → parent.device ≠ maxDevice →
      Q { s with stack := { parent with device := parent.device + 1 } :: stack })
    (hend : ∀ {s : PciIterator}, I s → s.stack = [] → Q { s with isFinish := true })
    {turns : Nat} (hlt : s.stack.length < turns) (h : I s) : Q (s.carry t turns) := by
  induction turns generalizing s with
  | zero => exact absurd hlt (Nat.not_lt_zero _)
  | succ turns ih =>
    cases hstack : s.stack with
    | nil =>
      rw [carry_of_nil turns hstack]
      exact hend h hstack
    | cons parent stack =>
      by_cases hdevice : parent.device = maxDevice
      · rw [carry_of_last turns hstack hdevice]
        refine ih ?_ (hpop h hstack hdevice)
        rw [hstack, List.length_cons] at hlt
        exact Nat.lt_of_succ_lt_succ hlt
      · rw [carry_of_ne turns hstack hdevice]
        exact hnext h hstack hdevice

end PciIterator

/-! ### Along the walk -/

/-- The entries of the stack for the open buses. -/
def Topology.entries (t : Topology) (regs : Registers) (p : List (Nat × Nat)) : List Bridge :=
  p.map fun e => ⟨t.bridgeOf regs e.1, e.2⟩

/-- The iterator is on a walk whose bus on top has been scanned up to function `f`. -/
structure Standing (t : Topology) (s : PciIterator) (V : List Nat) (p : List (Nat × Nat)) (f : Nat) : Prop where
  walk : Walk t s.regs V p f
  stack : s.stack = t.entries s.regs p
  finish : s.isFinish = true → p = [] ∨ V.length = s.busMax
  byte : s.busMax ≤ 255

/-- The iterator is between two turns. -/
structure Scanning (t : Topology) (s : PciIterator) (V : List Nat) (p : List (Nat × Nat)) : Prop
    extends Standing t s V p s.function where
  clear : ∀ e ∈ p.head?, t.Clear ⟨e.1, e.2, s.function⟩
  multiple : 0 < s.function → s.isMultipleFunction = true
  function_le : s.function ≤ maxFunction
  alive : s.isFinish = false → p ≠ []

/-- How much there is left to look at on the open buses. -/
def weight : List (Nat × Nat) → Nat
  | [] => 0
  | e :: p => 1 + 20 * (maxDevice - e.2) + weight p

theorem Topology.clear_zero : t.Clear ⟨b, k, 0⟩ := fun _ hlt => absurd hlt (Nat.not_lt_zero _)

theorem Topology.clear_succ (h : t.Clear ⟨b, k, f⟩) (hslot : ∀ x, t.slot ⟨b, k, f⟩ = some x →
    x.hasMultipleFunctions = true ∧ x.isBridge = false) : t.Clear ⟨b, k, f + 1⟩ :=
  Nat.forall_lt_succ_right.mpr ⟨h, hslot⟩

theorem Descends.nil_of_root (h : Descends t ((0, k) :: p)) : p = [] := by
  cases p with
  | nil => rfl
  | cons e p => exact absurd h.1.1.1 (Nat.not_lt_zero _)

theorem Standing.pop {e : Nat × Nat} {fin : Bool} (h : Standing t s V (e :: p) 8)
    (hstack : t.entries s.regs p = stack) (hdevice : e.2 = maxDevice)
    (hfin : fin = true → (t.bridgeOf s.regs e.1).subordinateBusNumber t s.regs = s.busMax) :
    Standing t { s with stack, isFinish := fin, function := 0 } V p 8 := by
  obtain ⟨b, k⟩ := e
  obtain rfl : k = maxDevice := hdevice
  refine ⟨h.walk.pop, hstack.symm, fun hf => ?_, h.byte⟩
  by_cases h0 : b = 0
  · subst h0
    exact Or.inl h.walk.path.nil_of_root
  · have hlast := h.walk.isOpen (b, maxDevice) List.mem_cons_self h0
    rw [← hfin hf, h.walk.labels.subordinate_bridgeOf (h.walk.visited _ List.mem_cons_self)]
    exact Or.inr hlast.symm

/-- At the first function of a device the iterator has nothing to remember. -/
theorem Standing.scanning (h : Standing t s V p 0) (hzero : s.function = 0) (halive : s.isFinish = false → p ≠ []) :
    Scanning t s V p := by
  refine ⟨hzero.symm ▸ h, fun e _ => ?_, fun hpos => ?_, ?_, halive⟩
  · rw [hzero]
    exact Topology.clear_zero
  · exact absurd hzero (Nat.ne_of_gt hpos)
  · exact hzero ▸ Nat.zero_le _

/-- Where the loop over the devices leads: the next device of the bus on top, or of the nearest one under it that
has one, or no bus any more. -/
inductive Carried : List (Nat × Nat) → List (Nat × Nat) → Prop
  | done : Carried [] []
  | next {e : Nat × Nat} {p : List (Nat × Nat)} : e.2 ≠ maxDevice → Carried (e :: p) ((e.1, e.2 + 1) :: p)
  | pop {e : Nat × Nat} {p p' : List (Nat × Nat)} : e.2 = maxDevice → Carried p p' → Carried (e :: p) p'

variable {p' : List (Nat × Nat)}

theorem Carried.weight_le (h : Carried p p') (hdevice : ∀ e ∈ p, e.2 ≤ maxDevice) :
    p' = [] ∨ weight p' + 20 ≤ weight p := by
  induction h with
  | done => exact .inl rfl
  | @next e p hne =>
    have hle : e.2 ≤ maxDevice := hdevice e List.mem_cons_self
    right
    simp only [weight]
    omega
  | pop _ _ ih =>
    refine (ih fun e he => hdevice e (List.mem_cons_of_mem _ he)).imp_right fun hle => hle.trans ?_
    simp [weight]

/-- What the flag says after the loop: no bus is left, or a bus was left with all numbers given out. -/
def Flagged (s s' : PciIterator) (V : List Nat) (p p' : List (Nat × Nat)) : Prop :=
  s'.busMax = s.busMax ∧ (s'.isFinish = true ↔ p' = [] ∨ V.length = s.busMax ∧ p'.length < p.length)

theorem Walk.subordinate_eq {regs : Registers} {e : Nat × Nat} (h : Walk t regs V p' f) (he : e ∈ p')
    (hpath : Descends t (e :: p)) (hp : p ≠ []) : (t.bridgeOf regs e.1).subordinateBusNumber t regs = V.length := by
  have h0 : e.1 ≠ 0 := by
    obtain ⟨e', p, rfl⟩ := List.exists_cons_of_ne_nil hp
    exact Nat.ne_of_gt hpath.1.1.1
  rw [h.labels.subordinate_bridgeOf (h.visited e he)]
  exact h.isOpen e he h0

theorem Standing.carry (h : Standing t s V p 8) (hzero : s.function = 0) (hfin : s.isFinish = false) :
    ∃ p', Scanning t (s.carry t (s.stack.length + 1)) V p' ∧ (s.carry t (s.stack.length + 1)).function = 0 ∧
      Carried p p' ∧ Flagged s (s.carry t (s.stack.length + 1)) V p p' := by
  -- how far the loop has come: what is left of `p`, and the flag of the entry popped last
  let I (u : PciIterator) : Prop := u.function = 0 ∧ u.busMax = s.busMax ∧ ∃ p₁, Standing t u V p₁ 8 ∧
    (∀ p', Carried p₁ p' → Carried p p') ∧
    (p₁ = p ∧ u.isFinish = false ∨
      p₁.length < p.length ∧ (p₁ ≠ [] → (u.isFinish = true ↔ V.length = s.busMax)))
  let Q (u : PciIterator) : Prop := ∃ p', Scanning t u V p' ∧ u.function = 0 ∧ Carried p p' ∧ Flagged s u V p p'
  refine PciIterator.carry_rule (I := I) (Q := Q) ?_ ?_ ?_ (Nat.lt_succ_self _)
    ⟨hzero, rfl, p, h, fun _ h => h, .inl ⟨rfl, hfin⟩⟩
  · rintro u parent stack ⟨-, hmax, p₁, hp₁, hcarried, hflag⟩ hstack hdevice
    refine ⟨rfl, hmax, ?_⟩
    rw [hp₁.stack] at hstack
    cases p₁ with
    | nil => cases hstack
    | cons e p₁ =>
      obtain ⟨rfl, hrest⟩ := List.cons.inj hstack
      refine ⟨p₁, hp₁.pop hrest hdevice of_decide_eq_true, fun p' hp' => hcarried p' (.pop hdevice hp'), .inr ⟨?_, ?_⟩⟩
      · rcases hflag with ⟨rfl, -⟩ | ⟨hlt, -⟩
        · exact Nat.lt_succ_self _
        · exact Nat.lt_trans (Nat.lt_succ_self _) hlt
      · intro hne
        rw [decide_eq_true_iff, hp₁.walk.subordinate_eq List.mem_cons_self hp₁.walk.path hne, hmax]
  · rintro u parent stack ⟨hf, hmax, p₁, hp₁, hcarried, hflag⟩ hstack hdevice
    rw [hp₁.stack] at hstack
    cases p₁ with
    | nil => cases hstack
    | cons e p₁ =>
      obtain ⟨rfl, rfl⟩ := List.cons.inj hstack
      obtain ⟨b, k⟩ := e
      have hne : k ≠ maxDevice := hdevice
      refine ⟨(b, k + 1) :: p₁, Standing.scanning ?_ hf fun _ => List.cons_ne_nil _ _, hf, hcarried _ (.next hne),
        hmax, ?_⟩
      · refine ⟨hp₁.walk.nextDevice hne, rfl, fun hfin => Or.inr ?_, hp₁.byte⟩
        exact (hp₁.finish hfin).resolve_left (List.cons_ne_nil _ _)
      · rcases hflag with ⟨rfl, hflag⟩ | ⟨hlt, hflag⟩
        · simp [hflag]
        · have hlt : p₁.length + 1 < p.length := hlt
          simp [hflag, hlt]
  · rintro u ⟨hf, hmax, p₁, hp₁, hcarried, -⟩ hstack
    obtain rfl : p₁ = [] := List.map_eq_nil_iff.mp (hp₁.stack.symm.trans hstack)
    refine ⟨[], Standing.scanning ?_ hf fun hfin => absurd hfin (by simp), hf, hcarried _ .done, hmax, by simp⟩
    exact ⟨{ hp₁.walk with }, hp₁.stack, fun _ => Or.inl rfl, hp₁.byte⟩

/-- Where passing what is at the current address leads: the next function, if the device says that it has more, or the
next device. -/
inductive PassedTo (s s' : PciIterator) (V : List Nat) (b k : Nat) (p : List (Nat × Nat)) : List (Nat × Nat) → Prop
  | function : s.isMultipleFunction = true → s.function < maxFunction → s'.function = s.function + 1 →
    s'.busMax = s.busMax → s'.isFinish = s.isFinish → PassedTo s s' V b k p ((b, k) :: p)
  | device {p' : List (Nat × Nat)} : (s.isMultipleFunction = true → s.function = maxFunction) → s'.function = 0 →
    Carried ((b, k) :: p) p' → Flagged s s' V ((b, k) :: p) p' → PassedTo s s' V b k p p'

/-- Pass what is at the current address. `hsingle` is for a device that says it has no more functions. -/
theorem Standing.next_none (h : Standing t s V ((b, k) :: p) s.function) (hfin : s.isFinish = false)
    (hle : s.function ≤ maxFunction)
    (hslot : ∀ m c, t.slot ⟨b, k, s.function⟩ ≠ some (.bridge m c))
    (hclear : s.isMultipleFunction = true → t.Clear ⟨b, k, s.function + 1⟩)
    (hsingle : s.isMultipleFunction = false → ∀ c, t.forest.Hangs c b → (t.place c).device = k →
      s.function ≤ (t.place c).function → ¬ t.Scanned c) :
    ∃ p', Scanning t (s.next t none) V p' ∧ PassedTo s (s.next t none) V b k p p' := by
  rw [PciIterator.next_none_eq]
  split
  · next hmore =>
    have hlt : s.function < maxFunction := Nat.lt_of_le_of_ne hle hmore.2
    refine ⟨(b, k) :: p, ⟨⟨h.walk.skip hslot, h.stack, h.finish, h.byte⟩, ?_, ?_, hlt, ?_⟩, ?_⟩
    · intro e he
      obtain rfl : (b, k) = e := Option.some.inj he
      exact hclear hmore.1
    · exact fun _ => hmore.1
    · exact fun _ => List.cons_ne_nil _ _
    · exact .function hmore.1 hlt rfl rfl rfl
  · next hlast =>
    have hseven : s.isMultipleFunction = true → s.function = maxFunction := by
      intro hmultiple
      by_contra hne
      exact hlast ⟨hmultiple, hne⟩
    have hwalk : Walk t s.regs V ((b, k) :: p) 8 := by
      cases hmultiple : s.isMultipleFunction with
      | false => exact h.walk.leave (hsingle hmultiple)
      | true =>
        have heq : s.function = 7 := hseven hmultiple
        rw [heq] at h hslot
        exact h.walk.skip hslot
    obtain ⟨p', hp', hzero, hcarried, hflagged⟩ := Standing.carry (s := { s with function := 0 })
      ⟨hwalk, h.stack, h.finish, h.byte⟩ rfl hfin
    exact ⟨p', hp', .device hseven hzero hcarried hflagged⟩

theorem Topology.entries_congr {regs regs' : Registers}
    (h : ∀ e ∈ p, e.1 ≠ 0 → regs'.number (t.place e.1).bus = regs.number (t.place e.1).bus) :
    t.entries regs' p = t.entries regs p := by
  refine List.map_congr_left fun e he => ?_
  by_cases h0 : e.1 = 0
  · simp only [bridgeOf, if_pos h0]
  · simp only [bridgeOf, if_neg h0, addressOf, h e he h0]

theorem Walk.here_eq (h : Walk t s.regs V p' f) (hb : b = 0 ∨ b ∈ V) (k : Nat) :
    s.here t ⟨t.bridgeOf s.regs b, k⟩ = ⟨s.regs.number b, k, s.function⟩ ∧
      t.header s.regs (s.here t ⟨t.bridgeOf s.regs b, k⟩) = t.slot ⟨b, k, s.function⟩ := by
  have hhere : s.here t ⟨t.bridgeOf s.regs b, k⟩ = ⟨s.regs.number b, k, s.function⟩ := by
    rw [PciIterator.here, h.labels.secondary_bridgeOf hb]
  refine ⟨hhere, ?_⟩
  rw [hhere, Topology.header, h.labels.busOf_number hb]
  rfl

theorem Standing.here_eq {parent : Bridge} (h : Standing t s V ((b, k) :: p) f) (hstack : s.stack = parent :: stack) :
    s.here t parent = ⟨s.regs.number b, k, s.function⟩ ∧
      t.header s.regs (s.here t parent) = t.slot ⟨b, k, s.function⟩ ∧
      parent.bridge.subordinateBusNumber t s.regs = (s.regs b).subordinate := by
  rw [h.stack] at hstack
  obtain ⟨rfl, -⟩ := List.cons.inj hstack
  have hb := h.walk.visited (b, k) List.mem_cons_self
  obtain ⟨hhere, hheader⟩ := h.walk.here_eq hb k
  exact ⟨hhere, hheader, h.walk.labels.subordinate_bridgeOf hb⟩

/-- Go down to the bus behind the bridge at the current address. -/
theorem Standing.next_some {m : Bool} {a : PciAddress} (h : Standing t s V ((b, k) :: p) s.function)
    (ha : a = ⟨s.regs.number b, k, s.function⟩) (hslot : t.slot ⟨b, k, s.function⟩ = some (.bridge m c))
    (hclear : t.Clear ⟨b, k, s.function⟩) (hroot : b = 0 → V = []) (hfin : s.isFinish = false)
    {n : Nat} (hn : n = V.length + 1) (hlt : n ≤ 255) :
    Scanning t (PciIterator.next t { s with
      isMultipleFunction := m
      regs := t.writeBusNumber s.regs a ⟨a.bus, n, n⟩ } (some (.device a))) (c :: V) ((c, 0) :: (b, k) :: p) := by
  obtain ⟨hplace, hc, hnew⟩ := h.walk.fresh hslot
  have hself := h.walk.notMem_path hc.1 hnew
  have hbus : (t.place c).bus = b := hc.2
  have hvisited := h.walk.visited
  subst ha hn
  have hheader : t.header s.regs ⟨s.regs.number b, k, s.function⟩ = some (.bridge m c) := by
    rw [Topology.header, h.walk.labels.busOf_number (hvisited (b, k) List.mem_cons_self)]
    exact hslot
  have hwrite : ∀ v, t.writeBusNumber s.regs ⟨s.regs.number b, k, s.function⟩ v = Function.update s.regs c v := by
    intro v
    rw [Topology.writeBusNumber, hheader]
  have hregs : s.stack.foldr (Bridge.bump t)
      (Function.update s.regs c ⟨s.regs.number b, V.length + 1, V.length + 1⟩) =
      s.regs.descend t ((b, k) :: p) (V.length + 1) c := by
    rw [h.stack, Registers.descend, hbus]
    refine h.walk.labels.foldr_bump (by omega) (h.walk.labels.agree_update hnew _) hvisited h.walk.path.nodup ?_
    intro e he h0
    have hec : e.1 ≠ c := fun heq => hself (heq ▸ List.mem_map_of_mem he)
    rw [Function.update_of_ne hec]
    exact h.walk.isOpen e he h0
  have hstack : ⟨.device ⟨s.regs.number b, k, s.function⟩, 0⟩ :: s.stack =
      t.entries (s.regs.descend t ((b, k) :: p) (V.length + 1) c) ((c, 0) :: (b, k) :: p) := by
    have hnumber : ∀ x, x = 0 ∨ x ∈ V →
        (s.regs.descend t ((b, k) :: p) (V.length + 1) c).number x = s.regs.number x := by
      intro x hx
      apply Registers.number_descend
      rintro rfl
      exact hx.elim (Nat.ne_of_gt hc.1.1) hnew
    have hrest : t.entries (s.regs.descend t ((b, k) :: p) (V.length + 1) c) ((b, k) :: p) = s.stack := by
      rw [h.stack]
      refine Topology.entries_congr fun e he h0 => ?_
      exact hnumber _ (h.walk.labels.bus_mem ((hvisited e he).resolve_left h0))
    rw [← hrest]
    have hbridge : t.bridgeOf (s.regs.descend t ((b, k) :: p) (V.length + 1) c) c =
        .device ⟨s.regs.number b, k, s.function⟩ := by
      rw [Topology.bridgeOf, if_neg (Nat.ne_of_gt hc.1.1), Topology.addressOf, hplace,
        hnumber b (hvisited (b, k) List.mem_cons_self)]
    simp only [Topology.entries, List.map_cons, hbridge]
  simp only [PciIterator.next, hwrite, hregs]
  refine Standing.scanning ⟨h.walk.push hslot hclear hroot, hstack, fun hf => ?_, h.byte⟩ rfl fun _ => ?_
  · exact absurd (hfin.symm.trans hf) Bool.false_ne_true
  · exact List.cons_ne_nil _ _

end Sparreal.Pcie
