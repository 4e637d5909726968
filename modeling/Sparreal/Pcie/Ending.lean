import Sparreal.Pcie.Reach

/-!
# How an enumeration ends

An enumeration ends in one of two ways: with the walk, when no bus is left; or at the end of the bus with the last
number. `Scanning.ends` follows an enumeration to its end by the turns of `Turn`, for topologies with one bridge to look
at on the root bus (`OneRoot`). With a second one two bridges claim the same numbers, and what the iterator sees then
is up to the hardware. Or it does not end at all: it panics at the first function it looks at whose header type it has
no branch for (`Blocked`).
-/

namespace Sparreal.Pcie

open Forest

variable {t : Topology} {s s' : PciIterator} {V : List Nat} {p : List (Nat × Nat)} {L : List Place} {c k z : Nat}

/-- The iterator looks at one bridge of the root bus at most. -/
def Topology.OneRoot (t : Topology) : Prop :=
  ∀ c d, t.forest.Hangs c 0 → t.forest.Hangs d 0 → t.Scanned c → t.Scanned d → c = d

/-- The ends of an enumeration that has `n` numbers to give. -/
inductive Outcome (t : Topology) (n : Nat) (L : List Place) : Prop
  | through {regs : Registers} {V : List Nat} {f : Nat} : V.length < n → Walk t regs V [] f → Listing t V [] 0 L →
    Outcome t n L
  | spent {regs : Registers} {V : List Nat} {z : Nat} {p : List (Nat × Nat)} {L₀ M : List Place} : V.length = n →
    Walk t regs V ((z, 0) :: p) 0 → Listing t V ((z, 0) :: p) 0 L₀ → Gathers t z (maxDevice + 1) 0 M → L = L₀ ++ M →
    Outcome t n L

/-- The iterator comes to a function it has no branch for. -/
def Topology.Blocked (t : Topology) (n : Nat) : Prop :=
  ∃ q m, q.bus ≤ t.size ∧ t.slot q = some (.other m) ∧ t.Reached q.bus ∧ t.LookedAt n q

theorem Ends.mono {P Q : List Place → Prop} (h : Ends t s L P) (himp : ∀ L, P L → Q L) : Ends t s L Q := by
  obtain ⟨turns, s', L', hrun, hfin, hP⟩ := h
  exact ⟨turns, s', L', hrun, hfin, himp L' hP⟩

theorem Contests.not_oneRoot (h : Contests t s s' V p k c) (hs : Scanning t s V p) : ¬ t.OneRoot := by
  intro hone
  obtain ⟨m, hslot⟩ := h.bridge
  have hw := h.path ▸ hs.walk
  obtain ⟨hplace, hc, hnew⟩ := hw.fresh hslot
  obtain ⟨r, hrV, hr⟩ := hw.exists_root h.visited
  have hscanned : t.Scanned c := by
    rw [Topology.Scanned, hplace]
    exact hs.clear (0, k) (h.path ▸ rfl)
  exact hnew (hone r c hr hc (hw.scanned hrV) hscanned ▸ hrV)

theorem Scanning.ends_of_full (h : Scanning t s V ((z, 0) :: p)) (hfin : s.isFinish = false) (hzero : s.function = 0)
    (hfull : V.length = s.busMax) (hL : Listing t V ((z, 0) :: p) 0 L) :
    EndsOr t s L (Outcome t s.busMax) (t.Blocked s.busMax) := by
  have hspent : Spent t s V z 0 p := by
    refine ⟨hzero ▸ h.walk, h.stack, hfull, ?_, h.multiple, h.function_le, Nat.zero_le _, hfin⟩
    exact (h.clear (z, 0) rfl).exposed
  have hstart : Gathers t z 0 s.function [] := by
    rw [hzero]
    exact gathers_nil
  have hends := hspent.ends (L := L) hstart
  rw [List.append_nil] at hends
  rcases hends with hends | ⟨⟨q, m, rfl, hslot, hexposed⟩, hpanics⟩
  · refine .inl (hends.mono ?_)
    rintro L' ⟨M, hM, hL'⟩
    exact .spent hfull hspent.walk hL hM hL'
  · have hreached := h.walk.reached (h.walk.visited _ List.mem_cons_self)
    have hlooked : t.LookedAt s.busMax q := .inr ⟨hexposed, hspent.walk.ncard_ahead_start.trans hfull⟩
    exact .inr ⟨⟨q, m, hspent.walk.start_le, hslot, hreached, hlooked⟩, hpanics⟩

/-- The whole enumeration, as long as there are numbers left. -/
theorem Scanning.ends (hone : t.OneRoot) (h : Scanning t s V p) (hfin : s.isFinish = false)
    (hL : Listing t V p s.function L) (hroom : V.length < s.busMax) :
    EndsOr t s L (Outcome t s.busMax) (t.Blocked s.busMax) := by
  generalize hmeasure : measure t s V p = n
  induction n using Nat.strongRecOn generalizing s V p L with
  | ind n ih =>
    obtain ⟨⟨b, k⟩, p, rfl⟩ := List.exists_cons_of_ne_nil (h.alive hfin)
    have hclear : t.Clear ⟨b, k, s.function⟩ := h.clear (b, k) rfl
    have hb := h.walk.visited (b, k) List.mem_cons_self
    rcases h.turn hfin fun _ _ _ => hroom with ⟨hknown, s', hstep, hturns⟩ | ⟨hstep, m, hslot⟩
    swap
    · refine .of_none hstep ⟨_, m, h.walk.labels.le_size hb, hslot, h.walk.reached hb, .inl ⟨hclear, ?_⟩⟩
      exact Nat.lt_of_le_of_lt h.walk.ncard_ahead_le hroom
    have hpath : b ∉ p.map Prod.fst := (List.nodup_cons.mp h.walk.path.nodup).1
    have hpass := hL.pass hclear hpath hb hknown
    refine .of_step hstep ?_
    rw [h.walk.item_eq hb hfin h.stack]
    rcases hturns with ⟨V', p', hs', hturn⟩ | ⟨k', c, hcontests⟩
    · have hless := hturn.less h hs'
      have hmax := hturn.busMax_eq
      rw [← hmax] at hroom ⊢
      cases hturn with
      | function hslot hfunction _ hflag =>
        exact ih _ (hmeasure ▸ hless.resolve_left (by simp [hflag])) hs' hflag (hfunction ▸ hpass) hroom rfl
      | device hslot hleft hzero hcarried hflagged =>
        have hcarry := (hpass.leave hleft).carry hcarried
        cases hflag : s'.isFinish with
        | true =>
          -- there are numbers left, so the flag says that no bus is
          rcases hflagged.2.mp hflag with rfl | ⟨hfull, -⟩
          · exact .inl (.of_finish hflag (.through hroom hs'.walk hcarry))
          · omega
        | false => exact ih _ (hmeasure ▸ hless.resolve_left (by simp [hflag])) hs' hflag (hzero ▸ hcarry) hroom rfl
      | visit hslot hzero _ hflag =>
        obtain ⟨-, hc, hnew⟩ := h.walk.fresh hslot
        have hnone : (t.endpointAt ⟨b, k, s.function⟩).toList = [] := by simp [Topology.endpointAt, hslot]
        rw [hnone, List.append_nil] at hpass ⊢
        have hvisit := (hpass.leave (Topology.noneLeft_of_bridge hslot)).visit hnew (Nat.ne_of_gt hc.1.1)
        rcases Nat.eq_or_lt_of_le (Nat.succ_le_of_lt hroom) with hfull | hroom'
        · exact hs'.ends_of_full hflag hzero hfull hvisit
        · exact ih _ (hmeasure ▸ hless.resolve_left (by simp [hflag])) hs' hflag (hzero ▸ hvisit) hroom' rfl
    · exact absurd hone (hcontests.not_oneRoot h)

theorem enumerateByController_ends {range : Option (Nat × Nat)} {n : Nat}
    (hrange : range.getD (0, 0x100) = (0, n + 1)) (hn : n ≤ 255) (hone : t.OneRoot) :
    EndsOr t (enumerateByController .reset range) [] (Outcome t n) (t.Blocked n) := by
  have hstart : Scanning t (enumerateByController .reset range) [] [(0, 0)] := scanning_start hrange (by omega)
  obtain rfl : (enumerateByController .reset range).busMax = n := busMax_start hrange (by omega)
  by_cases h0 : (enumerateByController .reset range).busMax = 0
  · exact hstart.ends_of_full rfl rfl h0.symm Listing.start
  · exact hstart.ends hone rfl Listing.start (Nat.pos_of_ne_zero h0)

end Sparreal.Pcie
