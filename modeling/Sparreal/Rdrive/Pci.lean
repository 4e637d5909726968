import Sparreal.Rdrive.Probe
import Sparreal.Lib.Machine

/-!
# Probing the endpoints on PCI (`rdrive`)

`PcieEnumterator` of `probe/pci/mod.rs`. Every endpoint that the enumeration yields is passed to the drivers in their
order, in a container from which a driver may take it, until one returns `Ok`. The vendor and device ids of the endpoint
are then remembered, and endpoints with these ids are passed over, also in later enumerations.

`answer` stands for the `on_probe` functions: it gives what the next call does, from everything that happened before.
`visits` is the history, one entry for each endpoint that was yielded. A driver cannot see whether the container still
holds the endpoint: reading it through an empty container, or taking from one, is a failed `unwrap`.
-/

namespace Sparreal.Rdrive

structure Id where
  vendor : Nat
  device : Nat
  deriving DecidableEq, Repr

/-- An endpoint, by its address and the ids it reads. -/
structure Endpoint where
  address : Nat
  vendor : Nat
  device : Nat
  deriving DecidableEq, Repr

def Endpoint.id (endpoint : Endpoint) : Id := ⟨endpoint.vendor, endpoint.device⟩

/-- What a call of `on_probe` does with the container, and what it returns. -/
structure Reply where
  reads : Bool
  takes : Bool
  result : ProbeResult
  deriving DecidableEq

/-- The call needs the endpoint to be there. -/
def Reply.uses (reply : Reply) : Bool := reply.reads || reply.takes

/-- A call of a driver's `on_probe`. -/
structure Offer where
  register : DriverRegister
  reply : Reply
  deriving DecidableEq

def Offer.accepted (offer : Offer) : Bool := offer.reply.result.isOk

/-- An endpoint that was yielded, and the calls made for it. -/
structure Visit where
  endpoint : Endpoint
  offers : List Offer
  deriving DecidableEq

/-- The `on_probe` functions. -/
abbrev PciAnswer := List Visit → Endpoint → List Offer → DriverRegister → Reply

/-- `PcieEnumterator`, and the history. -/
structure PcieEnumterator where
  probed : List Id
  visits : List Visit
  deriving DecidableEq

/-- The `on_probe` of the first `ProbeKind::Pci` of the driver. -/
def DriverRegister.pciProbe (register : DriverRegister) : Option Nat :=
  register.probeKinds.findSome? fun
    | .pci onProbe => some onProbe
    | .fdt _ _ => none

namespace PcieEnumterator

def new : PcieEnumterator := ⟨[], []⟩

variable (answer : PciAnswer)

/-- The loop of `probe_one`: whether a driver has accepted the endpoint, and the calls made. `full` says whether the
container holds the endpoint; `none` is a panic. -/
def offerTo (stopIfFail : Bool) (visits : List Visit) (endpoint : Endpoint) :
    List DriverRegister → Bool → List Offer → Option (Except ProbeError Bool × List Offer)
  | [], _, offers => some (.ok false, offers)
  | register :: registers, full, offers =>
    if register.pciProbe.isNone then offerTo stopIfFail visits endpoint registers full offers
    else
      let reply := answer visits endpoint offers register
      if !full && reply.uses then none
      else
        let full := full && !reply.takes
        let offers := offers ++ [⟨register, reply⟩]
        match reply.result with
        | .ok _ => some (.ok true, offers)
        | .error .notMatch => offerTo stopIfFail visits endpoint registers full offers
        | .error e =>
          if stopIfFail then some (.error (.onProbe e), offers)
          else offerTo stopIfFail visits endpoint registers full offers

def probeOne (registers : List DriverRegister) (stopIfFail : Bool) (s : PcieEnumterator) (endpoint : Endpoint) :
    Option (Except ProbeError Unit × PcieEnumterator) :=
  if endpoint.id ∈ s.probed then some (.ok (), { s with visits := s.visits ++ [⟨endpoint, []⟩] })
  else do
    let (res, offers) ← offerTo answer stopIfFail s.visits endpoint registers true []
    let visits := s.visits ++ [⟨endpoint, offers⟩]
    match res with
    | .ok true => some (.ok (), ⟨endpoint.id :: s.probed, visits⟩)
    | .ok false => some (.ok (), ⟨s.probed, visits⟩)
    | .error e => some (.error e, ⟨s.probed, visits⟩)

/-- `PcieEnumterator::probe`, over the endpoints that the enumeration yields. -/
def probe (registers : List DriverRegister) (stopIfFail : Bool) :
    List Endpoint → PcieEnumterator → Option (Except ProbeError Unit × PcieEnumterator)
  | [], s => some (.ok (), s)
  | endpoint :: endpoints, s => do
    let (res, s) ← probeOne answer registers stopIfFail s endpoint
    match res with
    | .ok _ => probe registers stopIfFail endpoints s
    | .error e => if stopIfFail then some (.error e, s) else probe registers stopIfFail endpoints s

end PcieEnumterator

/-! ### The specification -/

def pciDrivers (registers : List DriverRegister) : List DriverRegister :=
  registers.filter fun register => register.pciProbe.isSome

/-- The drivers are called in their order, until one accepts. -/
inductive Offered : List DriverRegister → List Offer → Prop
  | done : Offered [] []
  | accepted {offer : Offer} {drivers : List DriverRegister} (h : offer.accepted = true) :
    Offered (offer.register :: drivers) [offer]
  | passed {offer : Offer} {drivers : List DriverRegister} {offers : List Offer} (h : offer.accepted = false)
    (rest : Offered drivers offers) : Offered (offer.register :: drivers) (offer :: offers)

/-- A probe of the endpoint itself has succeeded. -/
def Claimed (visits : List Visit) (endpoint : Endpoint) : Prop :=
  ∃ v ∈ visits, v.endpoint = endpoint ∧ ∃ offer ∈ v.offers, offer.accepted = true

/-- Each endpoint that is not claimed is offered to the drivers, and those that are claimed are not offered again. -/
structure EveryOffered (drivers : List DriverRegister) (visits : List Visit) : Prop where
  offered : ∀ before v, before ++ [v] <+: visits → ¬ Claimed before v.endpoint → Offered drivers v.offers
  claimed : ∀ before v, before ++ [v] <+: visits → Claimed before v.endpoint → v.offers = []

/-- The calls for an endpoint, if no call panics. -/
def offersOf (answer : PciAnswer) (visits : List Visit) (endpoint : Endpoint) :
    List DriverRegister → List Offer → List Offer
  | [], _ => []
  | register :: registers, before =>
    if register.pciProbe.isNone then offersOf answer visits endpoint registers before
    else
      let offer : Offer := ⟨register, answer visits endpoint before register⟩
      if offer.accepted then [offer] else offer :: offersOf answer visits endpoint registers (before ++ [offer])

/-- No call uses the endpoint after an earlier call has taken it. -/
def Handed (offers : List Offer) : Prop := offers.Pairwise fun a b => a.reply.takes = true → b.reply.uses = false

instance (offers : List Offer) : Decidable (Handed offers) :=
  inferInstanceAs (Decidable (offers.Pairwise fun a b => a.reply.takes = true → b.reply.uses = false))

/-- The endpoint is not claimed, but another one with the same ids is. -/
def Shadowed (s : PcieEnumterator) (endpoint : Endpoint) : Prop :=
  (∃ e : Endpoint, e.id = endpoint.id ∧ Claimed s.visits e) ∧ ¬ Claimed s.visits endpoint

/-- No endpoint with its ids is claimed, and a driver uses the endpoint after an earlier one has taken it and failed. -/
def Robbed (answer : PciAnswer) (registers : List DriverRegister) (s : PcieEnumterator) (endpoint : Endpoint) : Prop :=
  (∀ e : Endpoint, e.id = endpoint.id → ¬ Claimed s.visits e) ∧ ¬ Handed (offersOf answer s.visits endpoint registers [])

/-! ### One endpoint -/

variable {drivers : List DriverRegister} {offers : List Offer}

section Endpoint

variable {answer : PciAnswer} {visits : List Visit} {endpoint : Endpoint}

theorem offered_offersOf (registers : List DriverRegister) (before : List Offer) :
    Offered (pciDrivers registers) (offersOf answer visits endpoint registers before) := by
  induction registers generalizing before with
  | nil => exact .done
  | cons register registers ih =>
    cases hpci : register.pciProbe with
    | none => simpa [pciDrivers, offersOf, hpci] using ih before
    | some onProbe =>
      simp only [pciDrivers, offersOf, hpci, Option.isNone_some, Option.isSome_some, List.filter_cons, if_true,
        Bool.false_eq_true, if_false]
      split
      · rename_i haccepted
        exact Offered.accepted haccepted
      · rename_i hpassed
        exact Offered.passed ((Bool.not_eq_true _).mp hpassed) (ih _)

theorem Offered.register_mem (h : Offered drivers offers) : ∀ offer ∈ offers, offer.register ∈ drivers := by
  induction h with
  | done => exact fun _ h => absurd h List.not_mem_nil
  | accepted => simp
  | passed _ _ ih =>
    refine List.forall_mem_cons.mpr ⟨List.mem_cons_self, ?_⟩
    exact fun offer h => List.mem_cons_of_mem _ (ih offer h)

theorem Offered.drivers_eq_nil (h : Offered drivers []) : drivers = [] := by
  cases h
  rfl

/-- The check of the container before a call. -/
theorem handed_append_singleton {offer : Offer} (h : Handed offers) :
    Handed (offers ++ [offer]) ↔ (!offers.all (!·.reply.takes) && offer.reply.uses) = false := by
  unfold Handed at h ⊢
  rw [List.pairwise_append]
  cases huses : offer.reply.uses with
  | false => simp [h, huses]
  | true => simp [h, huses]

theorem Handed.of_append {offers offers' : List Offer} (h : Handed (offers ++ offers')) : Handed offers :=
  (List.pairwise_append.mp h).1

theorem offerTo_eq (registers : List DriverRegister) {before : List Offer} (h : Handed before) :
    PcieEnumterator.offerTo answer false visits endpoint registers (before.all (!·.reply.takes)) before =
      if Handed (before ++ offersOf answer visits endpoint registers before) then
        some (.ok ((offersOf answer visits endpoint registers before).any Offer.accepted),
          before ++ offersOf answer visits endpoint registers before)
      else none := by
  induction registers generalizing before with
  | nil => simp [PcieEnumterator.offerTo, offersOf, h]
  | cons register registers ih =>
    cases hpci : register.pciProbe with
    | none => simpa [PcieEnumterator.offerTo, offersOf, hpci] using ih h
    | some onProbe =>
      simp only [PcieEnumterator.offerTo, offersOf, hpci, Option.isNone_some, Bool.false_eq_true, if_false]
      generalize hoffer : (⟨register, answer visits endpoint before register⟩ : Offer) = offer
      have hreply : answer visits endpoint before register = offer.reply := by rw [← hoffer]
      have hfull : (before.all (!·.reply.takes) && !offer.reply.takes) = (before ++ [offer]).all (!·.reply.takes) := by
        simp
      by_cases hnow : Handed (before ++ [offer])
      · have hthere := (handed_append_singleton h).mp hnow
        simp only [hreply, hthere, Bool.false_eq_true, if_false, hfull]
        cases hresult : offer.reply.result with
        | ok _ =>
          have haccepted : offer.accepted = true := by simp [Offer.accepted, hresult, Except.isOk, Except.toBool]
          simp [haccepted, hnow]
        | error e =>
          have hpassed : offer.accepted = false := by simp [Offer.accepted, hresult, Except.isOk, Except.toBool]
          have hgoes := ih hnow
          rw [List.append_assoc, List.singleton_append] at hgoes
          simp only [hpassed, Bool.false_eq_true, if_false, List.any_cons, Bool.false_or]
          cases e <;> exact hgoes
      · have hgone := Bool.of_not_eq_false (mt (handed_append_singleton h).mpr hnow)
        simp only [hreply, hgone, if_true]
        refine (if_neg fun hall => hnow ?_).symm
        split at hall
        · exact hall
        · rw [List.append_cons] at hall
          exact hall.of_append

end Endpoint

/-! ### Runs -/

section Run

variable {answer : PciAnswer} {registers : List DriverRegister} {s s' : PcieEnumterator} {endpoint : Endpoint}

def probeStep (answer : PciAnswer) (registers : List DriverRegister) (s : PcieEnumterator) (endpoint : Endpoint) :
    Option PcieEnumterator :=
  (s.probeOne answer registers false endpoint).map Prod.snd

theorem probe_eq (endpoints : List Endpoint) (s : PcieEnumterator) :
    PcieEnumterator.probe answer registers false endpoints s =
      (Machine.run (probeStep answer registers) s endpoints).map fun t => (.ok (), t) := by
  induction endpoints generalizing s with
  | nil => rfl
  | cons endpoint endpoints ih =>
    simp only [PcieEnumterator.probe, Machine.run, probeStep]
    cases s.probeOne answer registers false endpoint with
    | none => rfl
    | some r =>
      obtain ⟨_ | _, t⟩ := r
      · exact ih t
      · exact ih t

def afterOffers (s : PcieEnumterator) (endpoint : Endpoint) (offers : List Offer) : PcieEnumterator :=
  ⟨if offers.any Offer.accepted then endpoint.id :: s.probed else s.probed, s.visits ++ [⟨endpoint, offers⟩]⟩

/-- The calls for an endpoint: none if its ids are remembered. -/
def offersFor (answer : PciAnswer) (registers : List DriverRegister) (s : PcieEnumterator) (endpoint : Endpoint) :
    List Offer :=
  if endpoint.id ∈ s.probed then [] else offersOf answer s.visits endpoint registers []

theorem probeStep_eq_some : probeStep answer registers s endpoint = some s' ↔
    Handed (offersFor answer registers s endpoint) ∧
      afterOffers s endpoint (offersFor answer registers s endpoint) = s' := by
  unfold probeStep PcieEnumterator.probeOne offersFor
  split_ifs with hid
  · simp [Handed, afterOffers]
  · have hloop : PcieEnumterator.offerTo answer false s.visits endpoint registers true [] = _ :=
      offerTo_eq registers List.Pairwise.nil
    rw [hloop, List.nil_append]
    split_ifs with hhanded
    · cases hany : (offersOf answer s.visits endpoint registers []).any Offer.accepted <;>
        simp [hhanded, afterOffers, hany]
    · simp [hhanded]

theorem register_mem_of_offersFor {offer : Offer} (h : offer ∈ offersFor answer registers s endpoint) :
    offer.register ∈ pciDrivers registers := by
  unfold offersFor at h
  split_ifs at h
  · exact absurd h List.not_mem_nil
  · exact (offered_offersOf registers []).register_mem offer h

/-- The ids that are remembered are those of the claimed endpoints, and only drivers for PCI were called. -/
structure Recorded (drivers : List DriverRegister) (s : PcieEnumterator) : Prop where
  probed : ∀ id, id ∈ s.probed ↔ ∃ e : Endpoint, e.id = id ∧ Claimed s.visits e
  register_mem : ∀ v ∈ s.visits, ∀ offer ∈ v.offers, offer.register ∈ drivers

theorem Recorded.robbed_iff (hs : Recorded drivers s) :
    Robbed answer registers s endpoint ↔ ¬ Handed (offersFor answer registers s endpoint) := by
  have hprobed : (∀ e : Endpoint, e.id = endpoint.id → ¬ Claimed s.visits e) ↔ endpoint.id ∉ s.probed := by
    rw [hs.probed, not_exists]
    exact forall_congr' fun e => not_and.symm
  unfold Robbed offersFor
  rw [hprobed]
  split_ifs with hid <;> simp [hid, Handed]

theorem claimed_append {visits : List Visit} {v : Visit} {e : Endpoint} :
    Claimed (visits ++ [v]) e ↔ Claimed visits e ∨ v.endpoint = e ∧ v.offers.any Offer.accepted = true := by
  simp only [Claimed, List.mem_append, List.mem_singleton, or_and_right, exists_or, exists_eq_left, List.any_eq_true]

theorem Recorded.afterOffers (h : Recorded drivers s) (hoffers : ∀ offer ∈ offers, offer.register ∈ drivers) :
    Recorded drivers (afterOffers s endpoint offers) := by
  refine ⟨?_, ?_⟩
  · intro id
    simp only [Rdrive.afterOffers, claimed_append]
    cases hany : offers.any Offer.accepted with
    | false => simpa using h.probed id
    | true =>
      simp only [if_true, List.mem_cons, and_true, h.probed]
      constructor
      · rintro (rfl | ⟨e, hid, he⟩)
        · exact ⟨endpoint, rfl, .inr rfl⟩
        · exact ⟨e, hid, .inl he⟩
      · rintro ⟨e, hid, he | rfl⟩
        · exact .inr ⟨e, hid, he⟩
        · exact .inl hid.symm
  · refine List.forall_mem_append.mpr ⟨h.register_mem, fun v hv => ?_⟩
    obtain rfl := List.mem_singleton.mp hv
    exact hoffers

theorem probeStep_recorded (hs : Recorded (pciDrivers registers) s)
    (h : probeStep answer registers s endpoint = some s') : Recorded (pciDrivers registers) s' := by
  obtain ⟨-, rfl⟩ := probeStep_eq_some.mp h
  exact hs.afterOffers fun _ => register_mem_of_offersFor

theorem run_visits {endpoints : List Endpoint}
    (h : Machine.run (probeStep answer registers) s endpoints = some s') :
    s'.visits.map Visit.endpoint = s.visits.map Visit.endpoint ++ endpoints ∧ s.visits <+: s'.visits := by
  induction endpoints generalizing s with
  | nil =>
    obtain rfl := Option.some.inj h
    exact ⟨(List.append_nil _).symm, List.prefix_rfl⟩
  | cons endpoint endpoints ih =>
    obtain ⟨t, hstep, hrest⟩ := Machine.run_cons.mp h
    obtain ⟨-, rfl⟩ := probeStep_eq_some.mp hstep
    obtain ⟨hmap, hpre⟩ := ih hrest
    refine ⟨?_, (List.prefix_append _ _).trans hpre⟩
    rw [hmap]
    simp [afterOffers]

theorem everyOffered_nil (drivers : List DriverRegister) : EveryOffered drivers [] := by
  refine ⟨?_, ?_⟩
  all_goals
    intro before v hpre
    exact absurd (List.prefix_nil.mp hpre) (by simp)

theorem EveryOffered.append {visits : List Visit} {v : Visit} (h : EveryOffered drivers visits)
    (hoffered : ¬ Claimed visits v.endpoint → Offered drivers v.offers)
    (hclaimed : Claimed visits v.endpoint → v.offers = []) : EveryOffered drivers (visits ++ [v]) := by
  refine ⟨fun before w hpre => ?_, fun before w hpre => ?_⟩
  · rcases Machine.prefix_concat hpre with hpre | ⟨rfl, rfl⟩
    · exact h.offered before w hpre
    · exact hoffered
  · rcases Machine.prefix_concat hpre with hpre | ⟨rfl, rfl⟩
    · exact h.claimed before w hpre
    · exact hclaimed

theorem probeStep_offers (hs : Recorded (pciDrivers registers) s) (hvisits : EveryOffered (pciDrivers registers) s.visits)
    (hshadowed : ¬ Shadowed s endpoint) (hrobbed : ¬ Robbed answer registers s endpoint) :
    ∃ s', probeStep answer registers s endpoint = some s' ∧ EveryOffered (pciDrivers registers) s'.visits := by
  have hhanded := not_not.mp (mt hs.robbed_iff.mpr hrobbed)
  refine ⟨_, probeStep_eq_some.mpr ⟨hhanded, rfl⟩, hvisits.append (fun hnot => ?_) fun hclaimed => ?_⟩
  · show Offered _ (offersFor answer registers s endpoint)
    rw [offersFor, if_neg fun hid => hshadowed ⟨(hs.probed _).mp hid, hnot⟩]
    exact offered_offersOf registers []
  · exact if_pos ((hs.probed _).mpr ⟨endpoint, rfl, hclaimed⟩)

theorem not_shadowed_of_offered (hs : Recorded (pciDrivers registers) s)
    (hstep : probeStep answer registers s endpoint = some s')
    (hvisits : EveryOffered (pciDrivers registers) s'.visits) : ¬ Shadowed s endpoint := by
  rintro ⟨⟨e, hid, hother⟩, hclaimed⟩
  obtain ⟨-, rfl⟩ := probeStep_eq_some.mp hstep
  have hoffered := hvisits.offered s.visits ⟨endpoint, _⟩ List.prefix_rfl hclaimed
  -- nobody was called, so there is no driver; but a driver has accepted the other endpoint
  rw [offersFor, if_pos ((hs.probed _).mpr ⟨e, hid, hother⟩)] at hoffered
  obtain ⟨v, hv, -, offer, hoffer, -⟩ := hother
  have hmem := hs.register_mem v hv offer hoffer
  rw [hoffered.drivers_eq_nil] at hmem
  exact absurd hmem List.not_mem_nil

theorem recorded_start (drivers : List DriverRegister) : Recorded drivers .new := by
  refine ⟨?_, ?_⟩
  · intro id
    simp [PcieEnumterator.new, Claimed]
  · intro v hv
    exact absurd hv List.not_mem_nil

/-- For any endpoints, drivers and `on_probe` functions, where a failed probe does not stop the probing: no call panics,
each endpoint that is not claimed is offered to the drivers in their order until one accepts it, and a claimed one is not
offered again, exactly if no endpoint is yielded that is not claimed while another one with its ids is, and no driver
uses an endpoint that an earlier one has taken before it failed. -/
theorem everyOffered_iff (answer : PciAnswer) (registers : List DriverRegister) (endpoints : List Endpoint) :
    (∃ s, PcieEnumterator.probe answer registers false endpoints .new = some (.ok (), s) ∧
      s.visits.map Visit.endpoint = endpoints ∧ EveryOffered (pciDrivers registers) s.visits) ↔
    ∀ before endpoint s, before ++ [endpoint] <+: endpoints →
      PcieEnumterator.probe answer registers false before .new = some (.ok (), s) →
      ¬ Shadowed s endpoint ∧ ¬ Robbed answer registers s endpoint := by
  have hprobe : ∀ {endpoints s}, PcieEnumterator.probe answer registers false endpoints .new = some (.ok (), s) ↔
      Machine.run (probeStep answer registers) .new endpoints = some s := by
    intro endpoints s
    rw [probe_eq]
    simp
  simp only [hprobe]
  have hrecorded : ∀ {endpoints s}, Machine.run (probeStep answer registers) .new endpoints = some s →
      Recorded (pciDrivers registers) s :=
    fun hrun => Machine.run_keeps probeStep_recorded hrun (recorded_start _)
  constructor
  · rintro ⟨t, hrun, -, hvisits⟩ before endpoint s ⟨after, rfl⟩ hbefore
    rw [List.append_assoc, List.singleton_append] at hrun
    obtain ⟨s₁, hfirst, hrest⟩ := Machine.run_append.mp hrun
    obtain rfl : s = s₁ := Option.some.inj (hbefore.symm.trans hfirst)
    obtain ⟨s', hstep, hafter⟩ := Machine.run_cons.mp hrest
    have hpre := (run_visits hafter).2
    have hvisits' : EveryOffered (pciDrivers registers) s'.visits :=
      ⟨fun before v h => hvisits.offered before v (h.trans hpre), fun before v h => hvisits.claimed before v (h.trans hpre)⟩
    refine ⟨not_shadowed_of_offered (hrecorded hbefore) hstep hvisits', ?_⟩
    exact fun hrobbed => (hrecorded hbefore).robbed_iff.mp hrobbed (probeStep_eq_some.mp hstep).1
  · intro hsafe
    have hrun : ∃ t, Machine.run (probeStep answer registers) .new endpoints = some t ∧
        Recorded (pciDrivers registers) t ∧ EveryOffered (pciDrivers registers) t.visits := by
      refine Machine.run_returns_while (A := fun s endpoint => ¬ Shadowed s endpoint ∧ ¬ Robbed answer registers s endpoint)
        ?_ hsafe ⟨recorded_start _, everyOffered_nil _⟩
      rintro s endpoint ⟨hs, hoffered⟩ ⟨hshadowed, hrobbed⟩
      obtain ⟨s', hstep, hvisits⟩ := probeStep_offers hs hoffered hshadowed hrobbed
      exact ⟨s', hstep, probeStep_recorded hs hstep, hvisits⟩
    obtain ⟨t, hrun, -, hvisits⟩ := hrun
    exact ⟨t, hrun, (run_visits hrun).1, hvisits⟩

end Run

def pciDriver (name : String) : DriverRegister := ⟨name, .postKernel, 0, [.pci 0]⟩

/-- A driver that takes every endpoint and keeps it. -/
def keeps : PciAnswer := fun _ _ _ _ => ⟨true, true, .ok ()⟩

/-- The first driver takes the endpoint and fails, and the next one reads its ids. -/
def takesAndFails : PciAnswer := fun _ _ before _ =>
  if before = [] then ⟨true, true, .error (.other "no memory")⟩ else ⟨true, false, .error .notMatch⟩

/-- Of two endpoints with the same ids the second is not offered to anybody; and probing panics at a driver that reads
an endpoint the one before it has taken. -/
theorem not_everyOffered :
    (PcieEnumterator.probe keeps [pciDriver "nvme"] false [⟨0, 0x144d, 0xa808⟩, ⟨1, 0x144d, 0xa808⟩] .new =
        some (.ok (), ⟨[⟨0x144d, 0xa808⟩],
          [⟨⟨0, 0x144d, 0xa808⟩, [⟨pciDriver "nvme", ⟨true, true, .ok ()⟩⟩]⟩, ⟨⟨1, 0x144d, 0xa808⟩, []⟩]⟩) ∧
      ¬ EveryOffered [pciDriver "nvme"]
        [⟨⟨0, 0x144d, 0xa808⟩, [⟨pciDriver "nvme", ⟨true, true, .ok ()⟩⟩]⟩, ⟨⟨1, 0x144d, 0xa808⟩, []⟩]) ∧
    PcieEnumterator.probe takesAndFails [pciDriver "nvme", pciDriver "e1000"] false [⟨0, 0x144d, 0xa808⟩] .new = none := by
  refine ⟨⟨rfl, ?_⟩, rfl⟩
  intro h
  have hoffered := h.offered [⟨⟨0, 0x144d, 0xa808⟩, [⟨pciDriver "nvme", ⟨true, true, .ok ()⟩⟩]⟩]
    ⟨⟨1, 0x144d, 0xa808⟩, []⟩ List.prefix_rfl ?_
  · exact absurd hoffered.drivers_eq_nil (by simp)
  · rintro ⟨v, hv, heq, -⟩
    obtain rfl := List.mem_singleton.mp hv
    exact absurd heq (by decide)

end Sparreal.Rdrive
