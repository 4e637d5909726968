import Sparreal.Pcie.Scan

/-!
# The bus numbers of an enumeration

The iterator goes along a `Walk` (`Scanning`) as long as the root bus has shown it one bridge only. The root bridge
has no registers, its subordinate number reads `0` for good, and so every bridge on the root bus gets number `1`.
From the second one on two bridges claim that number, and where the iterator gets from there is up to the hardware.
But the numbers it reads on its way down still grow (`Chain`), so it never comes back to the root bus from below, and
the two keep their number (`Contested`). So an enumeration is always the one or the other (`scanning_or_contested`),
and at its end the numbers are consistent only if there was one bridge on the root bus and no bridge was passed over
with the rest of its device (`Consistent.visited`).
-/

namespace Sparreal.Pcie

open Forest

variable {t : Topology} {s s' : PciIterator} {V : List Nat} {p : List (Nat × Nat)} {b c k f : Nat}

/-! ### Two bridges with number one -/

def HasOne (regs : Registers) (c : Nat) : Prop := (regs c).secondary = 1 ∧ 1 ≤ (regs c).subordinate

def Twice (t : Topology) (regs : Registers) : Prop :=
  ∃ c d, t.forest.Hangs c 0 ∧ t.forest.Hangs d 0 ∧ c ≠ d ∧ HasOne regs c ∧ HasOne regs d

/-- The bridges the entries of a stack are for, and the number `n` of the bus on top. All of them have the numbers
up to `M`, and each number on the way up is greater than the one before. -/
inductive Chain (t : Topology) (regs : Registers) (M : Nat) : List Bridge → List Nat → Nat → Prop
  | root (k : Nat) : Chain t regs M [⟨.root, k⟩] [] 0
  | device {stack : List Bridge} {cs : List Nat} {n n' d f c : Nat} {m : Bool} (k : Nat) :
    Chain t regs M stack cs n → t.header regs ⟨n, d, f⟩ = some (.bridge m c) → (regs c).secondary = n' → n < n' →
    n' ≤ M → (regs c).subordinate = M → Chain t regs M (⟨.device ⟨n, d, f⟩, k⟩ :: stack) (c :: cs) n'

structure Contested (t : Topology) (s : PciIterator) : Prop where
  twice : Twice t s.regs
  chain : s.stack = [] ∨ ∃ M cs n, Chain t s.regs M s.stack cs n ∧ M ≤ s.busMax
  byte : s.busMax ≤ 255

variable {regs regs' : Registers} {M n : Nat} {cs : List Nat} {e : Bridge} {stack : List Bridge}

theorem Topology.header_eq {a : PciAddress} {m : Bool} (h : t.header regs a = some (.bridge m c)) :
    t.busOf regs a.bus = some (t.place c).bus ∧ t.forest.Hangs c (t.place c).bus := by
  obtain ⟨b, hb, hslot⟩ := Option.bind_eq_some_iff.mp h
  obtain ⟨hpos, hle, hplace⟩ := t.bridge_place hslot
  exact ⟨hb.trans (by rw [hplace]), ⟨hpos, hle⟩, rfl⟩

theorem Topology.header_congr {a : PciAddress} (h : t.busOf regs' a.bus = t.busOf regs a.bus) :
    t.header regs' a = t.header regs a := by
  rw [Topology.header, Topology.header, h]

theorem Chain.tail (h : Chain t regs M (e :: stack) cs n) : stack = [] ∨ ∃ cs' n', Chain t regs M stack cs' n' := by
  cases h with
  | root k => exact .inl rfl
  | device k hchain => exact .inr ⟨_, _, hchain⟩

theorem Chain.next (h : Chain t regs M (e :: stack) cs n) (k : Nat) :
    Chain t regs M ({ e with device := k } :: stack) cs n := by
  cases h with
  | root => exact .root k
  | device _ hchain hheader hsec hlt hle hsub => exact .device k hchain hheader hsec hlt hle hsub

theorem Chain.top (h : Chain t regs M (e :: stack) cs n) : e.bridge.secondaryBusNumber t regs = n ∧
    (e.bridge = .root ∧ stack = [] ∧ n = 0 ∨ e.bridge.subordinateBusNumber t regs = M ∧ n ≠ 0) := by
  cases h with
  | root k => exact ⟨rfl, .inl ⟨rfl, rfl, rfl⟩⟩
  | device k _ hheader hsec hlt _ hsub =>
    simp only [PciPciBridge.secondaryBusNumber, PciPciBridge.subordinateBusNumber, Topology.readBusNumber, hheader]
    exact ⟨hsec, .inr ⟨hsub, Nat.ne_of_gt (Nat.zero_lt_of_lt hlt)⟩⟩

theorem Chain.le (h : Chain t regs M stack cs n) : n ≤ M := by
  cases h with
  | root k => exact Nat.zero_le M
  | device _ _ _ _ _ hle => exact hle

theorem Chain.mem (h : Chain t regs M stack cs n) (hc : c ∈ cs) : c ≠ 0 ∧ (regs c).subordinate = M ∧
    (regs c).secondary ≤ n ∧ ∃ k < n, t.busOf regs k = some (t.place c).bus := by
  induction h with
  | root => exact absurd hc List.not_mem_nil
  | device _ _ hheader hsec hlt _ hsub ih =>
    rcases List.mem_cons.mp hc with rfl | hc
    · obtain ⟨hbus, hhangs⟩ := Topology.header_eq hheader
      exact ⟨Nat.ne_of_gt hhangs.1.1, hsub, hsec.le, _, hlt, hbus⟩
    · obtain ⟨hpos, hsub', hle', k, hk, hbus⟩ := ih hc
      exact ⟨hpos, hsub', hle'.trans hlt.le, k, hk.trans hlt, hbus⟩

theorem Chain.transfer {M' : Nat} (h : Chain t regs M stack cs n) (hroute : ∀ k < n, t.busOf regs' k = t.busOf regs k)
    (hsec : ∀ c ∈ cs, (regs' c).secondary = (regs c).secondary) (hsub : ∀ c ∈ cs, (regs' c).subordinate = M')
    (hM : M ≤ M') : Chain t regs' M' stack cs n := by
  induction h with
  | root k => exact .root k
  | @device _ _ _ _ _ _ _ m k _ hheader hc hlt hle _ ih =>
    obtain ⟨hsecc, hsec⟩ := List.forall_mem_cons.mp hsec
    obtain ⟨hsubc, hsub⟩ := List.forall_mem_cons.mp hsub
    have hprev := ih (fun k hk => hroute k (hk.trans hlt)) hsec hsub
    refine .device (m := m) k hprev ?_ (hsecc.trans hc) hlt (hle.trans hM) hsubc
    rw [← hheader]
    exact Topology.header_congr (hroute _ hlt)

/-- The loop over the stack. -/
theorem Chain.foldr_bump (h : Chain t regs M stack cs n) (hM : M < 255)
    (hroute : ∀ k < n, t.busOf regs' k = t.busOf regs k) (hsame : ∀ c ∈ cs, regs' c = regs c) :
    stack.foldr (Bridge.bump t) regs' = regs'.raise cs := by
  induction h with
  | root k =>
    funext x
    simp [Bridge.bump, PciPciBridge.updateBusNumber, Registers.raise]
  | @device stack cs n n' d f c m k hchain hheader hc hlt hle hsub ih =>
    obtain ⟨hsamec, hsame⟩ := List.forall_mem_cons.mp hsame
    have hpos : c ≠ 0 := Nat.ne_of_gt (Topology.header_eq hheader).2.1.1
    have hnew : c ∉ cs := fun hmem => by
      have hsec := (hchain.mem hmem).2.2.1
      omega
    have hagree : Agree regs' (regs'.raise cs) M := (Agree.refl _ _).raise fun x hx _ => by
      rw [hsame x hx, (hchain.mem hx).2.1]
    have hheader' : t.header (regs'.raise cs) ⟨n, d, f⟩ = some (.bridge m c) := by
      rw [← hheader]
      exact Topology.header_congr ((hagree.busOf_eq hchain.le).trans (hroute n hlt))
    have hread : regs'.raise cs c = regs' c := if_neg fun hin => hnew hin.2
    rw [List.foldr_cons, ih (fun k hk => hroute k (hk.trans hlt)) hsame, Registers.raise_cons hpos hnew]
    simp only [Bridge.bump, PciPciBridge.updateBusNumber, Topology.writeBusNumber, Topology.readBusNumber, hheader',
      hread, hsamec, hsub, Nat.mod_eq_of_lt (Nat.succ_lt_succ hM)]

theorem HasOne.update (h : HasOne regs c) (d : Nat) : HasOne (Function.update regs d ⟨0, 1, 1⟩) c := by
  by_cases hc : c = d
  · subst hc
    simp [HasOne]
  · simpa [HasOne, hc] using h

theorem HasOne.raise (h : HasOne regs c) (B : List Nat) : HasOne (regs.raise B) c := by
  refine ⟨Registers.raise_secondary.trans h.1, ?_⟩
  unfold Registers.raise
  split
  · exact Nat.le_succ_of_le h.2
  · exact h.2

theorem Twice.update (h : Twice t regs) (d : Nat) : Twice t (Function.update regs d ⟨0, 1, 1⟩) := by
  obtain ⟨x, y, hx, hy, hne, honex, honey⟩ := h
  exact ⟨x, y, hx, hy, hne, honex.update d, honey.update d⟩

theorem Topology.header_root : t.header regs ⟨0, k, f⟩ = t.slot ⟨0, k, f⟩ := rfl

theorem Contested.next_none (h : Contested t s) : Contested t (s.next t none) := by
  rw [PciIterator.next_none_eq]
  split
  · exact ⟨h.twice, h.chain, h.byte⟩
  · refine PciIterator.carry_rule (I := Contested t) (Q := Contested t) ?_ ?_ ?_ (Nat.lt_succ_self _)
      ⟨h.twice, h.chain, h.byte⟩
    · intro s parent stack hs hstack _
      refine ⟨hs.twice, ?_, hs.byte⟩
      obtain hnil | ⟨M, cs, n, hchain, hM⟩ := hs.chain
      · cases hstack.symm.trans hnil
      · rw [hstack] at hchain
        rcases hchain.tail with hnil | ⟨cs', n', htail⟩
        · exact .inl hnil
        · exact .inr ⟨M, cs', n', htail, hM⟩
    · intro s parent stack hs hstack _
      refine ⟨hs.twice, ?_, hs.byte⟩
      obtain hnil | ⟨M, cs, n, hchain, hM⟩ := hs.chain
      · cases hstack.symm.trans hnil
      · exact .inr ⟨M, cs, n, (hstack ▸ hchain).next _, hM⟩
    · exact fun hs _ => ⟨hs.twice, hs.chain, hs.byte⟩

section Root

variable {m : Bool} (hslot : t.slot ⟨0, k, s.function⟩ = some (.bridge m c)) (hstack : s.stack = [⟨.root, k⟩])

include hslot hstack

/-- A bridge on the root bus gets number `1`, whatever was numbered before. -/
theorem PciIterator.next_root :
    PciIterator.next t { s with
      isMultipleFunction := m
      regs := t.writeBusNumber s.regs ⟨0, k, s.function⟩ ⟨0, 1, 1⟩ } (some (.device ⟨0, k, s.function⟩)) = { s with
      isMultipleFunction := m
      regs := Function.update s.regs c ⟨0, 1, 1⟩
      stack := [⟨.device ⟨0, k, s.function⟩, 0⟩, ⟨.root, k⟩]
      function := 0 } := by
  have hregs : t.writeBusNumber s.regs ⟨0, k, s.function⟩ ⟨0, 1, 1⟩ = Function.update s.regs c ⟨0, 1, 1⟩ := by
    rw [Topology.writeBusNumber, Topology.header_root, hslot]
  simp only [PciIterator.next, hstack, hregs]
  rfl

theorem contested_next_root (htwice : Twice t (Function.update s.regs c ⟨0, 1, 1⟩)) (hroom : 0 < s.busMax)
    (hbyte : s.busMax ≤ 255) : Contested t (PciIterator.next t { s with
      isMultipleFunction := m
      regs := t.writeBusNumber s.regs ⟨0, k, s.function⟩ ⟨0, 1, 1⟩ } (some (.device ⟨0, k, s.function⟩))) := by
  rw [PciIterator.next_root hslot hstack]
  refine ⟨htwice, .inr ⟨1, [c], 1, .device (m := m) 0 (.root k) ?_ ?_ Nat.zero_lt_one le_rfl ?_, hroom⟩, hbyte⟩
  · exact Topology.header_root.trans hslot
  · simp
  · simp

end Root

/-- A bridge below the root bus gets the next number, and so do those above it. -/
theorem Contested.push {m : Bool} {a : PciAddress} (h : Contested t s) (hchain : Chain t s.regs M s.stack cs n)
    (ha : a.bus = n) (hn : n ≠ 0) (hheader : t.header s.regs a = some (.bridge m c)) (hM : M < s.busMax) :
    Contested t (PciIterator.next t { s with
      isMultipleFunction := m
      regs := t.writeBusNumber s.regs a ⟨n, M + 1, M + 1⟩ } (some (.device a))) := by
  obtain ⟨bus, d, f⟩ := a
  obtain rfl : bus = n := ha
  obtain ⟨hbus, hc⟩ := Topology.header_eq hheader
  obtain ⟨hnode, hsec⟩ := Topology.busOf_eq_some hbus hn
  have hpos : (t.place c).bus ≠ 0 := Nat.ne_of_gt hnode.1
  have hbyte := h.byte
  -- the bridge is not one of those above
  have hnew : c ∉ cs := fun hmem => by
    obtain ⟨-, -, -, k, hk, hroute⟩ := hchain.mem hmem
    by_cases hk0 : k = 0
    · subst hk0
      exact hpos (Option.some.inj hroute).symm
    · exact absurd ((Topology.busOf_eq_some hroute hk0).2.symm.trans hsec) (Nat.ne_of_lt hk)
  have hne : ∀ x ∈ cs, x ≠ c := fun x hx heq => hnew (heq ▸ hx)
  obtain ⟨regs', hregs⟩ : ∃ regs' : Registers, Function.update s.regs c ⟨bus, M + 1, M + 1⟩ = regs' := ⟨_, rfl⟩
  have hsame : ∀ x ≠ c, regs' x = s.regs x := fun x hx => by rw [← hregs, Function.update_of_ne hx]
  have hroute : ∀ k ≤ bus, t.busOf regs' k = t.busOf s.regs k := fun k hk => by
    rw [← hregs]
    exact Topology.busOf_update hc hpos hsec hk _
  have hwrite : t.writeBusNumber s.regs ⟨bus, d, f⟩ ⟨bus, M + 1, M + 1⟩ = regs' := by
    rw [Topology.writeBusNumber, hheader, ← hregs]
  have hbump : s.stack.foldr (Bridge.bump t) regs' = regs'.raise cs :=
    hchain.foldr_bump (by omega) (fun k hk => hroute k hk.le) fun x hx => hsame x (hne x hx)
  have hagree : Agree regs' (regs'.raise cs) M := (Agree.refl _ _).raise fun x hx _ => by
    rw [hsame x (hne x hx), (hchain.mem hx).2.1]
  have hroute' : ∀ k ≤ bus, t.busOf (regs'.raise cs) k = t.busOf s.regs k := fun k hk =>
    (hagree.busOf_eq (hk.trans hchain.le)).trans (hroute k hk)
  have hraised : ∀ x ∈ cs, (regs'.raise cs x).subordinate = M + 1 := fun x hx => by
    obtain ⟨hx0, hsub, -⟩ := hchain.mem hx
    rw [Registers.raise, if_pos ⟨hx0, hx⟩, hsame x (hne x hx), hsub]
  have hself : regs'.raise cs c = ⟨bus, M + 1, M + 1⟩ := by
    rw [Registers.raise, if_neg fun hin => hnew hin.2, ← hregs, Function.update_self]
  have hkept : ∀ x, t.forest.Hangs x 0 → HasOne s.regs x → HasOne (regs'.raise cs) x := fun x hx hone => by
    have hxc : x ≠ c := fun heq => hpos (heq ▸ hx.2)
    apply HasOne.raise
    rwa [HasOne, hsame x hxc]
  refine ⟨?_, .inr ⟨M + 1, c :: cs, M + 1, ?_, hM⟩, hbyte⟩
  · show Twice t (s.stack.foldr (Bridge.bump t) (t.writeBusNumber _ _ _))
    obtain ⟨x, y, hx, hy, hxy, honex, honey⟩ := h.twice
    rw [hwrite, hbump]
    exact ⟨x, y, hx, hy, hxy, hkept x hx honex, hkept y hy honey⟩
  · show Chain t (s.stack.foldr (Bridge.bump t) (t.writeBusNumber _ _ _)) _ _ _ _
    rw [hwrite, hbump]
    refine .device (m := m) 0
      (hchain.transfer (fun k hk => hroute' k hk.le) (fun x hx => ?_) hraised (Nat.le_succ M)) ?_ ?_ ?_ le_rfl ?_
    · rw [Registers.raise_secondary, hsame x (hne x hx)]
    · rw [← hheader]
      exact Topology.header_congr (hroute' bus le_rfl)
    · rw [hself]
    · exact Nat.lt_succ_of_le hchain.le
    · rw [hself]

theorem Contested.step (h : Contested t s) (hstep : s.step t = some s') : Contested t s' := by
  cases hfin : s.isFinish with
  | true =>
    rw [PciIterator.step_of_finish hfin] at hstep
    exact Option.some.inj hstep ▸ h
  | false =>
    rcases hstack : s.stack with _ | ⟨parent, stack⟩
    · rw [PciIterator.step_of_nil hfin hstack] at hstep
      cases hstep
    obtain hnil | ⟨M, cs, n, hchain, hM⟩ := h.chain
    · cases hstack.symm.trans hnil
    obtain ⟨hnumber, htop⟩ := (hstack ▸ hchain).top
    rw [PciIterator.step_eq hfin hstack] at hstep
    rcases hheader : t.header s.regs (s.here t parent) with _ | (m | ⟨m, c⟩ | m) <;> rw [hheader] at hstep
    · exact Option.some.inj hstep ▸ h.next_none
    · exact Option.some.inj hstep ▸ Contested.next_none ⟨h.twice, h.chain, h.byte⟩
    · dsimp only at hstep
      split at hstep
      · exact Option.some.inj hstep ▸ Contested.next_none ⟨h.twice, h.chain, h.byte⟩
      · next hroom =>
        rw [← Option.some.inj hstep]
        rcases htop with ⟨hroot, rfl, rfl⟩ | ⟨hsub, hn⟩
        · obtain ⟨bridge, k⟩ := parent
          obtain rfl : bridge = .root := hroot
          exact contested_next_root hheader hstack (Twice.update h.twice c) (Nat.pos_of_ne_zero (Ne.symm hroom)) h.byte
        · have hlt : M < s.busMax := Nat.lt_of_le_of_ne hM (hsub ▸ hroom)
          have hbyte := h.byte
          rw [hsub, Nat.mod_eq_of_lt (by omega), show (s.here t parent).bus = n from hnumber]
          exact h.push hchain hnumber hn hheader hlt
    · cases hstep

/-! ### The turns of an enumeration -/

/-- Bounds the turns that are left. -/
def measure (t : Topology) (s : PciIterator) (V : List Nat) (p : List (Nat × Nat)) : Nat :=
  1000 * (t.size - V.length) + (weight p + (8 - s.function))

/-- Nothing after function `f` of the device is looked at. -/
def Topology.NoneLeft (t : Topology) (b k f : Nat) : Prop :=
  ∀ g x, f < g → t.slot ⟨b, k, g⟩ = some x → ¬ t.Clear ⟨b, k, g⟩

theorem Topology.noneLeft_of_none (hzero : f = 0) (hslot : t.slot ⟨b, k, f⟩ = none) : t.NoneLeft b k f := by
  intro g x _ hx
  rw [t.slot_of_none (hzero ▸ hslot)] at hx
  cases hx

theorem Topology.noneLeft_of_last (hf : f = maxFunction) : t.NoneLeft b k f := by
  intro g x hg hx
  rw [t.slot_after_last hf hg] at hx
  cases hx

theorem Topology.noneLeft_of_single {x : PciFunction} (hslot : t.slot ⟨b, k, f⟩ = some x)
    (hsingle : x.hasMultipleFunctions = false) : t.NoneLeft b k f := by
  intro g y hlt _ hclear
  exact Bool.false_ne_true (hsingle.symm.trans (hclear f hlt x hslot).1)

theorem Topology.noneLeft_of_bridge {m : Bool} (hslot : t.slot ⟨b, k, f⟩ = some (.bridge m c)) :
    t.NoneLeft b k f := fun _ _ hlt _ hclear => hclear.not_bridge hlt hslot

theorem Topology.NoneLeft.not_scanned (h : t.NoneLeft b k f) (hslot : ∀ m c, t.slot ⟨b, k, f⟩ ≠ some (.bridge m c))
    (hc : t.forest.Hangs c b) (hdevice : (t.place c).device = k) (hle : f ≤ (t.place c).function) :
    ¬ t.Scanned c := by
  obtain ⟨m, hm⟩ := t.slot_place hc.1.1 hc.1.2
  rw [Topology.Scanned, Topology.place_eq hc hdevice]
  rw [Topology.place_eq hc hdevice] at hm
  refine h _ _ (Nat.lt_of_le_of_ne hle fun heq => ?_) hm
  exact hslot m c (heq ▸ hm)

/-- What a turn does to the position on the walk: it goes to the next function or the next device, or down to the
bus behind a bridge. -/
inductive Turn (t : Topology) (s s' : PciIterator) (V : List Nat) :
    List (Nat × Nat) → List Nat → List (Nat × Nat) → Prop
  | function {b k : Nat} {p : List (Nat × Nat)} : (∀ m c, t.slot ⟨b, k, s.function⟩ ≠ some (.bridge m c)) →
    s'.function = s.function + 1 → s'.busMax = s.busMax → s'.isFinish = false →
    Turn t s s' V ((b, k) :: p) V ((b, k) :: p)
  | device {b k : Nat} {p p' : List (Nat × Nat)} : (∀ m c, t.slot ⟨b, k, s.function⟩ ≠ some (.bridge m c)) →
    t.NoneLeft b k s.function → s'.function = 0 → Carried ((b, k) :: p) p' → Flagged s s' V ((b, k) :: p) p' →
    Turn t s s' V ((b, k) :: p) V p'
  | visit {b k c : Nat} {m : Bool} {p : List (Nat × Nat)} : t.slot ⟨b, k, s.function⟩ = some (.bridge m c) →
    s'.function = 0 → s'.busMax = s.busMax → s'.isFinish = false →
    Turn t s s' V ((b, k) :: p) (c :: V) ((c, 0) :: (b, k) :: p)

/-- The second bridge of the root bus is met, and gets the number of the first. -/
structure Contests (t : Topology) (s s' : PciIterator) (V : List Nat) (p : List (Nat × Nat)) (k c : Nat) : Prop where
  path : p = [(0, k)]
  visited : V ≠ []
  bridge : ∃ m, t.slot ⟨0, k, s.function⟩ = some (.bridge m c)
  contested : Contested t s'

def TurnsTo (t : Topology) (s : PciIterator) (V : List Nat) (p : List (Nat × Nat)) (s' : PciIterator) : Prop :=
  (∃ V' p', Scanning t s' V' p' ∧ Turn t s s' V p V' p') ∨ ∃ k c, Contests t s s' V p k c

theorem Scanning.pass (h : Scanning t s V ((b, k) :: p)) (hfin : s.isFinish = false) {m : Bool}
    (hslot : ∀ m c, t.slot ⟨b, k, s.function⟩ ≠ some (.bridge m c))
    (hclear : m = true → t.Clear ⟨b, k, s.function + 1⟩) (hleft : m = false → t.NoneLeft b k s.function) :
    TurnsTo t s V ((b, k) :: p) (PciIterator.next t { s with isMultipleFunction := m } none) := by
  have hsingle : m = false → ∀ c, t.forest.Hangs c b → (t.place c).device = k →
      s.function ≤ (t.place c).function → ¬ t.Scanned c := fun hm c => (hleft hm).not_scanned hslot
  obtain ⟨p', hp', hpassed⟩ := Standing.next_none (s := { s with isMultipleFunction := m })
    ⟨h.walk, h.stack, h.finish, h.byte⟩ hfin h.function_le hslot hclear hsingle
  refine .inl ⟨V, p', hp', ?_⟩
  cases hpassed with
  | function _ _ hfunction hmax hflag => exact .function hslot hfunction hmax (hflag.trans hfin)
  | device hlast hzero hcarried hflagged =>
    refine .device hslot ?_ hzero hcarried hflagged
    cases hm : m with
    | false => exact hleft hm
    | true => exact Topology.noneLeft_of_last (hlast hm)

theorem Walk.exists_root (h : Walk t regs V p f) (hV : V ≠ []) : ∃ r ∈ V, t.forest.Hangs r 0 := by
  obtain ⟨x, hx⟩ := List.exists_mem_of_ne_nil V hV
  have hnode := h.labels.node x hx
  obtain ⟨r, hr, hxr⟩ := hnode.under_zero.exists_child (Nat.ne_of_gt hnode.1)
  exact ⟨r, h.labels.mem_of_under hx hxr (Nat.ne_of_gt hr.1.1), hr⟩

theorem Scanning.visit (h : Scanning t s V ((b, k) :: p)) (hfin : s.isFinish = false) (hroom : V.length < s.busMax)
    {m : Bool} {a : PciAddress} (ha : a = ⟨s.regs.number b, k, s.function⟩)
    (hslot : t.slot ⟨b, k, s.function⟩ = some (.bridge m c)) {n : Nat} (hn : n = ((s.regs b).subordinate + 1) % 256) :
    (s.regs b).subordinate ≠ s.busMax ∧ TurnsTo t s V ((b, k) :: p) (PciIterator.next t { s with
      isMultipleFunction := m
      regs := t.writeBusNumber s.regs a ⟨a.bus, n, n⟩ } (some (.device a))) := by
  obtain ⟨hplace, hc, hnew⟩ := h.walk.fresh hslot
  have hclear : t.Clear ⟨b, k, s.function⟩ := h.clear (b, k) rfl
  have hbyte := h.byte
  have hzero := (h.walk.labels.fresh 0 h.walk.labels.zero_notMem).2
  by_cases hroot : b = 0 → V = []
  · have hsub : (s.regs b).subordinate = V.length := by
      by_cases h0 : b = 0
      · rw [h0, hroot h0]
        exact hzero
      · exact h.walk.isOpen (b, k) List.mem_cons_self h0
    rw [hsub] at hn ⊢
    rw [Nat.mod_eq_of_lt (by omega)] at hn
    exact ⟨by omega, Or.inl ⟨_, _, h.next_some ha hslot hclear hroot hfin hn (by omega), .visit hslot rfl rfl hfin⟩⟩
  · obtain ⟨rfl, hV⟩ := Classical.not_imp.mp hroot
    obtain rfl := h.walk.path.nil_of_root
    have hsub : (s.regs 0).subordinate = 0 := hzero
    rw [hsub] at hn ⊢
    refine ⟨by omega, Or.inr ⟨k, c, ?_⟩⟩
    subst hn ha
    obtain ⟨r, hrV, hr⟩ := h.walk.exists_root hV
    have hone := h.walk.first r hrV hr.2
    have hle : (s.regs r).secondary ≤ (s.regs r).subordinate := h.walk.labels.first_le_last hrV
    have hstack : s.stack = [⟨.root, k⟩] := h.stack
    refine ⟨rfl, hV, ⟨m, hslot⟩, contested_next_root hslot hstack ⟨r, c, hr, hc, ?_, ?_, ?_⟩ (by omega) hbyte⟩
    · exact fun heq => hnew (heq ▸ hrV)
    · exact HasOne.update ⟨hone, hone ▸ hle⟩ c
    · simp [HasOne]

/-- One turn of an enumeration that is under way, when there is a number for every bridge it may meet. It panics at a
function whose header type it has no branch for. -/
theorem Scanning.turn (h : Scanning t s V ((b, k) :: p)) (hfin : s.isFinish = false)
    (hroom : ∀ c, t.forest.Node c → c ∉ V → V.length < s.busMax) :
    ((∀ m, t.slot ⟨b, k, s.function⟩ ≠ some (.other m)) ∧ ∃ s', s.step t = some s' ∧ TurnsTo t s V ((b, k) :: p) s') ∨
      s.step t = none ∧ ∃ m, t.slot ⟨b, k, s.function⟩ = some (.other m) := by
  have hstack : s.stack = ⟨t.bridgeOf s.regs b, k⟩ :: t.entries s.regs p := h.stack
  obtain ⟨hhere, hheader, hsub⟩ := h.here_eq hstack
  have hclear : t.Clear ⟨b, k, s.function⟩ := h.clear (b, k) rfl
  rw [PciIterator.step_eq hfin hstack, hheader]
  rcases hslot : t.slot ⟨b, k, s.function⟩ with _ | (m | ⟨m, c⟩ | m)
  · refine .inl ⟨by simp, _, rfl, h.pass hfin (m := s.isMultipleFunction) (by simp [hslot]) (fun _ => ?_)
      fun hsingle => ?_⟩
    · exact Topology.clear_succ hclear (by simp [hslot])
    · -- the scan is at function `0`, and without it there is no device
      exact Topology.noneLeft_of_none (PciIterator.function_eq_zero h.multiple hsingle) hslot
  · refine .inl ⟨by simp, _, rfl, h.pass hfin (by simp [hslot]) (fun hm => ?_) fun hm =>
      Topology.noneLeft_of_single hslot hm⟩
    refine Topology.clear_succ hclear fun x hx => ?_
    obtain rfl := Option.some.inj (hslot.symm.trans hx)
    exact ⟨hm, rfl⟩
  · obtain ⟨-, hc, hnew⟩ := h.walk.fresh hslot
    obtain ⟨hne, hnext⟩ := h.visit hfin (hroom c hc.1 hnew) hhere hslot rfl
    rw [hsub]
    exact .inl ⟨by simp, _, if_neg hne, hnext⟩
  · exact .inr ⟨rfl, m, rfl⟩

theorem Turn.less {V' : List Nat} {p' : List (Nat × Nat)} (h : Turn t s s' V p V' p') (hs : Scanning t s V p)
    (hs' : Scanning t s' V' p') : s'.isFinish = true ∨ measure t s' V' p' < measure t s V p := by
  have hle : s.function ≤ 7 := hs.function_le
  have hle' : s'.function ≤ 7 := hs'.function_le
  cases h with
  | function _ hfunction _ _ =>
    right
    simp only [measure]
    omega
  | device _ _ hzero hcarried hflagged =>
    rcases hcarried.weight_le hs.walk.device_le with hnil | hless
    · exact .inl (hflagged.2.mpr (.inl hnil))
    · right
      simp only [measure]
      omega
  | @visit b k c m p _ hzero _ _ =>
    right
    have hlen : (c :: V).length ≤ t.size := hs'.walk.labels.length_le
    have hweight : weight ((c, 0) :: (b, k) :: p) = 621 + weight ((b, k) :: p) := rfl
    simp only [measure, hweight, hzero, List.length_cons] at hlen ⊢
    omega

theorem Turn.busMax_eq {V' : List Nat} {p' : List (Nat × Nat)} (h : Turn t s s' V p V' p') : s'.busMax = s.busMax := by
  cases h with
  | function _ _ hmax _ => exact hmax
  | device _ _ _ _ hflagged => exact hflagged.1
  | visit _ _ hmax _ => exact hmax

/-! ### Whole enumerations -/

theorem PciIterator.run_of_finish {turns : List Unit} (hrun : s.run t turns = some s') (hfin : s'.isFinish = true)
    (turns' : List Unit) : ∃ u, s.run t turns' = some u := by
  induction turns' generalizing s turns with
  | nil => exact ⟨s, rfl⟩
  | cons e turns' ih =>
    cases turns with
    | nil =>
      obtain rfl := Option.some.inj hrun
      obtain ⟨u, hu⟩ := ih hrun
      exact ⟨u, Machine.run_cons.mpr ⟨s, step_of_finish hfin, hu⟩⟩
    | cons e' turns =>
      obtain ⟨s₁, hone, hrest⟩ := Machine.run_cons.mp hrun
      obtain ⟨u, hu⟩ := ih hrest
      exact ⟨u, Machine.run_cons.mpr ⟨s₁, hone, hu⟩⟩

section Range

variable {range : Option (Nat × Nat)} {last : Nat}

variable (hrange : range.getD (0, 0x100) = (0, last))

include hrange

theorem busMax_start (hlast : last ≤ 256) : (enumerateByController .reset range).busMax = last - 1 := by
  simp only [enumerateByController, hrange]
  omega

theorem scanning_start (hlast : last ≤ 256) : Scanning t (enumerateByController .reset range) [] [(0, 0)] := by
  have hmax := busMax_start hrange hlast
  refine Standing.scanning ⟨?_, ?_, fun hfin => absurd hfin (by simp [enumerateByController]), ?_⟩ rfl fun _ => ?_
  · refine ⟨labels_nil, by simp, by simp, rfl, by simp, by simp, by simp, fun c _ => ?_⟩
    exact iff_of_false List.not_mem_nil fun hc => not_past_start hc.2
  · simp only [enumerateByController, hrange]
    rfl
  · omega
  · exact List.cons_ne_nil _ _

theorem scanning_or_contested (hlast : last ≤ 256) (hfit : t.size < last) {turns : List Unit}
    (hrun : (enumerateByController .reset range).run t turns = some s) :
    (t.size ≤ s.busMax ∧ ∃ V p, Scanning t s V p) ∨ Contested t s := by
  have hmax := busMax_start hrange hlast
  refine Machine.run_keeps (I := fun s => (t.size ≤ s.busMax ∧ ∃ V p, Scanning t s V p) ∨ Contested t s) ?_ hrun
    (.inl ⟨by omega, [], [(0, 0)], scanning_start hrange hlast⟩)
  rintro s _ s' (⟨hfit, V, p, hs⟩ | hs) hstep
  · cases hfin : s.isFinish with
    | true =>
      rw [PciIterator.step_of_finish hfin] at hstep
      exact Option.some.inj hstep ▸ .inl ⟨hfit, V, p, hs⟩
    | false =>
      have hroom : ∀ c, t.forest.Node c → c ∉ V → V.length < s.busMax := by
        intro c hc hnew
        have hlen : V.length < t.size := Nat.not_le.mp fun hle => hnew (hs.walk.labels.mem_of_length hle hc)
        omega
      obtain ⟨⟨b, k⟩, p, rfl⟩ := List.exists_cons_of_ne_nil (hs.alive hfin)
      rcases hs.turn hfin hroom with ⟨-, s₁, hone, hturns⟩ | ⟨hnone, -⟩
      · obtain rfl := Option.some.inj (hone.symm.trans hstep)
        rcases hturns with ⟨V', p', hs', hturn⟩ | ⟨k, c, hcontests⟩
        · exact .inl ⟨hturn.busMax_eq ▸ hfit, V', p', hs'⟩
        · exact .inr hcontests.contested
      · cases hnone.symm.trans hstep
  · exact .inr (hs.step hstep)

end Range

theorem Walk.consistent (h : Walk t s.regs V p f) (hall : ∀ c, t.forest.Node c → c ∈ V) : Consistent t s.regs where
  nonzero c hc := Nat.ne_of_gt (h.labels.first_pos (hall c hc))
  distinct c d hc hd := h.labels.first_inj (hall c hc) (hall d hd)
  primary c hc := h.primary c (hall c hc)
  nested c d hc hd := h.labels.nested (hall d hd) (hall c hc)
  apart c d hc hd := h.labels.apart (hall d hd) (hall c hc)

theorem Scanning.consistent (h : Scanning t s V p) (hfin : s.isFinish = true) (hfit : t.size ≤ s.busMax)
    (hall : ∀ c, t.forest.Node c → t.Scanned c) : Consistent t s.regs := by
  refine h.walk.consistent fun c hc => ?_
  rcases h.finish hfin with rfl | hlen
  · exact (h.walk.mem_iff_reached hc).mpr (Topology.reached_of_scanned hall hc.2)
  · exact h.walk.labels.mem_of_length (hlen ▸ hfit) hc

theorem Consistent.visited (h : Consistent t s.regs)
    (hs : (t.size ≤ s.busMax ∧ ∃ V p, Scanning t s V p) ∨ Contested t s) :
    (∀ c d, t.forest.Hangs c 0 → t.forest.Hangs d 0 → c = d) ∧ ∀ c, t.forest.Node c → t.Scanned c := by
  rcases hs with ⟨-, V, p, hs⟩ | hs
  · have hall : ∀ c, t.forest.Node c → c ∈ V := by
      intro c hc
      by_contra hnot
      exact h.nonzero c hc (hs.walk.labels.fresh c hnot).1
    refine ⟨fun c d hc hd => h.distinct c d hc.1 hd.1 ?_, fun c hc => hs.walk.scanned (hall c hc)⟩
    rw [hs.walk.first c (hall c hc.1) hc.2, hs.walk.first d (hall d hd.1) hd.2]
  · obtain ⟨c, d, hc, hd, hne, honec, honed⟩ := hs.twice
    exact absurd (h.distinct c d hc.1 hd.1 (honec.1.trans honed.1.symm)) hne

end Sparreal.Pcie
