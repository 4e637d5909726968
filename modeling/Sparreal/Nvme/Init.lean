import Sparreal.Nvme.Queue

/-!
# Bringing up an NVMe controller

`Nvme::init` of `nvme/src/nvme.rs`, up to `config_io_queue`. The controller is reset twice. After the first
identify command the driver is one slot into its queues; the second reset takes the controller back to the
first slot and leaves the driver where it is, so the controller fetches the first identify command again,
whose buffer is free by then (`init_synchronised_iff`).
-/

namespace Sparreal.Nvme

open PhaseRing

/-! ### The program -/

def reset : List Instr := [.writeCc { enable := false }, .waitReady false]

/-- `NvmeReg::setup_cc`, and `ready_for_read_controller_info` with sizes left at zero. -/
def setupCc (sqes cqes : Nat) : List Instr := [.writeCc ⟨true, sqes, cqes⟩, .waitReady true]

/-- `Nvme::get_identfy`, with the command it makes. -/
def getIdentfy (cmd : CommandSet) : List Instr := .allocate :: commandSync cmd

/-- What the run depends on: the counter of the identifiers, what the controller says of itself, and where
the buffers and the queues are. Queues are aligned to a page. -/
structure Surroundings where
  counter : UInt32
  sqesMin : Nat
  cqesMin : Nat
  identifyBuffer : Nat → UInt64
  ioQueue : Nat → UInt64 × UInt64
  sqAddr : Nat
  cqAddr : Nat
  sqAligned : 4096 ∣ sqAddr
  cqAligned : 4096 ∣ cqAddr

namespace Surroundings

/-- The identifiers `next_id` draws, one after the other. -/
def idFrom (counter : UInt32) : Nat → UInt32
  | 0 => (nextId counter).1
  | k + 1 => idFrom (nextId counter).2 k

def id (w : Surroundings) (k : Nat) : UInt32 := idFrom w.counter k

end Surroundings

variable (w : Surroundings)

def createIoQueue (i : Nat) : List Instr :=
  let qid := UInt32.ofNat (i + 1)
  [.allocate, .allocate] ++
    commandSync (.createIoCompletionQueue (w.id (2 * i + 3)) qid (UInt32.ofNat (2 ^ w.cqesMin)) (w.ioQueue i).2
      true false 0) ++
    commandSync (.createIoSubmissionQueue (w.id (2 * i + 4)) qid (UInt32.ofNat (2 ^ w.sqesMin)) (w.ioQueue i).1
      true 0 qid 0)

def configIoQueue (num : Nat) : List Instr :=
  commandSync (.setFeatures (w.id 2) (.numberOfQueues (UInt32.ofNat num - 1) (UInt32.ofNat num - 1))) ++
    (List.range num).flatMap (createIoQueue w)

/-- `reset` and `nvme_configure_admin_queue`, and the controller enabled again. -/
def setUp (sqes cqes : Nat) : List Instr := reset ++ [.configureAdminQueue] ++ setupCc sqes cqes

def identify (k : Nat) : CommandSet := .identifyController (w.id k) (w.identifyBuffer k)

def resetAndSetupControllerInfo : List Instr := setUp 0 0 ++ getIdentfy (identify w 0)

/-- What `init` does when it has identified the controller. -/
def afterIdentify (num : Nat) : List Instr :=
  setUp w.sqesMin w.cqesMin ++ (getIdentfy (identify w 1) ++ configIoQueue w num)

/-- `Nvme::init`, up to `config_io_queue`. -/
def init (num : Nat) : List Instr := resetAndSetupControllerInfo w ++ afterIdentify w num

/-- `Nvme::new_with_bar` has made the admin queue and calls `init`. -/
def start (num : Nat) (ctrl : Controller) : QueuePair where
  todo := init w num
  sq := .new 64 w.sqAddr
  cq := .new 64 w.cqAddr
  ctrl := ctrl
  submitted := 0
  fetched := []
  consumed := []

/-! ### Commands are waited for -/

theorem Paired.append {a b : List Instr} (ha : Paired a) (hb : Paired b) : Paired (a ++ b) := by
  induction ha with
  | nil => exact hb
  | call data _ ih => exact .call data ih
  | single hi _ ih => exact .single hi ih

theorem paired_flatMap {f : Nat → List Instr} (h : ∀ i, Paired (f i)) (l : List Nat) :
    Paired (l.flatMap f) := by
  induction l with
  | nil => exact .nil
  | cons i l ih => exact (h i).append ih

theorem paired_configIoQueue (num : Nat) : Paired (configIoQueue w num) := by
  refine .call _ (paired_flatMap (fun i => ?_) _)
  exact .single trivial (.single trivial (.call _ (.call _ .nil)))

theorem paired_getIdentfy {cmd : CommandSet} {todo : List Instr} (h : Paired todo) :
    Paired (getIdentfy cmd ++ todo) :=
  .single trivial (.call cmd h)

theorem paired_setUp {sqes cqes : Nat} {todo : List Instr} (h : Paired todo) :
    Paired (setUp sqes cqes ++ todo) :=
  .single trivial (.single trivial (.single trivial (.single trivial (.single trivial h))))

/-! ### Setting the controller up -/

structure Controller.Quiet (c : Controller) : Prop where
  head : c.sqHead = c.sqTail
  inflight : c.inflight = []

theorem Controller.Quiet.notice {c c' : Controller} (h : c.Quiet) (hnotice : c.notice = some c') :
    c'.Quiet := by
  rw [Controller.notice] at hnotice
  split_ifs at hnotice
  · exact Option.some.inj hnotice ▸ ⟨rfl, rfl⟩
  · exact Option.some.inj hnotice ▸ ⟨h.head, rfl⟩

theorem Controller.notice_disabled {c c' : Controller} (h : c.cc.enable = false)
    (hnotice : c.notice = some c') : c'.cc.enable = false ∧ c'.ready = false := by
  rw [Controller.notice, h] at hnotice
  split_ifs at hnotice with _ hfalse
  · cases hfalse
  · exact Option.some.inj hnotice ▸ ⟨h, rfl⟩

namespace QueuePair

/-- The controller knows the queues of the driver. -/
structure Knows (s : QueuePair) : Prop where
  sqSize : s.ctrl.adminSubmissionQueueSize + 1 = s.sq.len
  cqSize : s.ctrl.adminCompletionQueueSize + 1 = s.cq.len
  asq : s.ctrl.asq = s.sq.busAddr
  acq : s.ctrl.acq = s.cq.busAddr

/-- The controller is up and at the start of its queues. -/
structure Anew (s : QueuePair) : Prop extends s.Knows where
  ready : s.ctrl.ready = true
  enabled : s.ctrl.cc.enable = true
  sqHead : s.ctrl.sqHead = 0
  sqTail : s.ctrl.sqTail = 0
  cqTail : s.ctrl.cqTail = ⟨0, true⟩
  inflight : s.ctrl.inflight = []

/-- The sizes and the addresses of the admin queues are what the registers can hold. -/
structure Admin (s : QueuePair) : Prop where
  sqLen : s.sq.len = 64
  cqLen : s.cq.len = 64
  sqAligned : 4096 ∣ s.sq.busAddr
  cqAligned : 4096 ∣ s.cq.busAddr

/-- The driver is on its way through `setUp`. -/
inductive SettingUp (sqes cqes : Nat) (rest : List Instr) (s : QueuePair) : Prop
  | reset (quiet : s.ctrl.Quiet) (todo : s.todo = setUp sqes cqes ++ rest)
  | disabled (quiet : s.ctrl.Quiet) (enable : s.ctrl.cc.enable = false)
      (todo : s.todo = .waitReady false :: .configureAdminQueue :: (setupCc sqes cqes ++ rest))
  | down (quiet : s.ctrl.Quiet) (enable : s.ctrl.cc.enable = false) (ready : s.ctrl.ready = false)
      (todo : s.todo = .configureAdminQueue :: (setupCc sqes cqes ++ rest))
  | configured (quiet : s.ctrl.Quiet) (enable : s.ctrl.cc.enable = false) (ready : s.ctrl.ready = false)
      (knows : s.Knows) (todo : s.todo = setupCc sqes cqes ++ rest)
  | enabled (quiet : s.ctrl.Quiet) (enable : s.ctrl.cc.enable = true) (knows : s.Knows)
      (anew : s.ctrl.ready = true → s.Anew) (todo : s.todo = .waitReady true :: rest)

/-- The queues of the driver and the logs are as before. -/
structure Same (s s' : QueuePair) : Prop where
  sq : s'.sq = s.sq
  cq : s'.cq = s.cq
  submitted : s'.submitted = s.submitted
  fetched : s'.fetched = s.fetched
  consumed : s'.consumed = s.consumed

variable {s s' : QueuePair} {sqes cqes : Nat} {rest : List Instr}

theorem quiet_fetch (h : s.ctrl.Quiet) : s.step .fetch = none := by
  rw [step, Controller.fetch, if_neg fun hc => hc.2 h.head]
  rfl

theorem SettingUp.quiet (h : s.SettingUp sqes cqes rest) : s.ctrl.Quiet := by
  cases h <;> assumption

theorem SettingUp.driver (hadmin : s.Admin) (h : s.SettingUp sqes cqes rest)
    (hstep : s.step .driver = some s') : (s'.SettingUp sqes cqes rest ∨ s'.Anew ∧ s'.todo = rest) ∧ s.Same s' := by
  cases h with
  | reset quiet todo =>
    simp only [step, driverStep, todo, setUp, Nvme.reset, List.cons_append] at hstep
    obtain rfl := Option.some.inj hstep
    exact ⟨.inl (.disabled ⟨quiet.head, quiet.inflight⟩ rfl rfl), rfl, rfl, rfl, rfl, rfl⟩
  | disabled quiet enable todo =>
    simp only [step, driverStep, todo] at hstep
    split_ifs at hstep with hready
    obtain rfl := Option.some.inj hstep
    exact ⟨.inl (.down quiet enable hready rfl), rfl, rfl, rfl, rfl, rfl⟩
  | down quiet enable ready todo =>
    simp only [step, driverStep, todo] at hstep
    obtain rfl := Option.some.inj hstep
    have hsize : (64 - 1) % 2 ^ 12 + 1 = 64 := rfl
    refine ⟨.inl (.configured ⟨quiet.head, quiet.inflight⟩ enable ready ?_ rfl), rfl, rfl, rfl, rfl, rfl⟩
    exact ⟨hadmin.sqLen.symm ▸ hsize, hadmin.cqLen.symm ▸ hsize, Nat.div_mul_cancel hadmin.sqAligned,
      Nat.div_mul_cancel hadmin.cqAligned⟩
  | configured quiet enable ready knows todo =>
    simp only [step, driverStep, todo, setupCc, List.cons_append] at hstep
    obtain rfl := Option.some.inj hstep
    refine ⟨.inl (.enabled ⟨quiet.head, quiet.inflight⟩ rfl { knows with } ?_ rfl), rfl, rfl, rfl, rfl, rfl⟩
    exact fun h => absurd (ready.symm.trans h) Bool.false_ne_true
  | enabled quiet enable knows anew todo =>
    simp only [step, driverStep, todo] at hstep
    split_ifs at hstep with hready
    obtain rfl := Option.some.inj hstep
    exact ⟨.inr ⟨{ anew hready with }, rfl⟩, rfl, rfl, rfl, rfl, rfl⟩

theorem SettingUp.notice (h : s.SettingUp sqes cqes rest) (hstep : s.step .notice = some s') :
    s'.SettingUp sqes cqes rest ∧ s.Same s' := by
  obtain ⟨c, hc, rfl⟩ := Option.map_eq_some_iff.mp hstep
  have hquiet := h.quiet.notice hc
  refine ⟨?_, rfl, rfl, rfl, rfl, rfl⟩
  cases h with
  | reset quiet todo => exact .reset hquiet todo
  | disabled quiet enable todo => exact .disabled hquiet (Controller.notice_disabled enable hc).1 todo
  | down quiet enable ready todo =>
    obtain ⟨henable, hready⟩ := Controller.notice_disabled enable hc
    exact .down hquiet henable hready todo
  | configured quiet enable ready knows todo =>
    rw [Controller.notice, if_pos (ready.trans enable.symm)] at hc
    cases hc
  | enabled quiet enable knows anew todo =>
    simp only [Controller.notice, enable, ↓reduceIte] at hc
    split_ifs at hc
    obtain rfl := Option.some.inj hc
    exact .enabled ⟨rfl, rfl⟩ enable { knows with }
      (fun _ => ⟨{ knows with }, rfl, enable, rfl, rfl, rfl, rfl⟩) todo

variable {e : Event}

theorem SettingUp.step (hadmin : s.Admin) (h : s.SettingUp sqes cqes rest) (hstep : s.step e = some s') :
    (s'.SettingUp sqes cqes rest ∨ s'.Anew ∧ s'.todo = rest) ∧ s.Same s' := by
  cases e with
  | driver => exact h.driver hadmin hstep
  | notice => exact (h.notice hstep).imp_left .inl
  | fetch => cases (quiet_fetch h.quiet).symm.trans hstep
  | complete i code => cases (complete_eq_none h.quiet.inflight ..).symm.trans hstep
  | allocFails =>
    obtain ⟨⟨_, htodo⟩, -⟩ := allocFails_step hstep
    cases h with
    | reset _ todo | disabled _ _ todo | down _ _ _ todo | configured _ _ _ _ todo | enabled _ _ _ _ todo =>
      cases htodo.symm.trans todo

theorem Admin.step (h : s.Admin) (hstep : s.step e = some s') : s'.Admin := by
  obtain ⟨-, -, ⟨hlen, hbus⟩, hsq⟩ := goes_on hstep
  have hsq' : s'.sq.len = s.sq.len ∧ s'.sq.busAddr = s.sq.busAddr := by
    rcases hsq with ⟨hsq, -⟩ | ⟨data, hsq, -⟩
    · exact ⟨hsq ▸ rfl, hsq ▸ rfl⟩
    · exact ⟨hsq ▸ rfl, hsq ▸ rfl⟩
  exact ⟨hsq'.1.trans h.sqLen, hlen.trans h.cqLen, hsq'.2 ▸ h.sqAligned, hbus ▸ h.cqAligned⟩

/-! ### The stages of `init` -/

/-- Nothing waits in the completion queue of the driver. -/
structure Empty (s : QueuePair) : Prop where
  head_lt : s.cq.head < s.cq.len
  passed : Passed s.cq.len s.cq.marks s.cq.cursor

theorem Empty.spin (h : s.Empty) : s.cq.spinForComplete = none := spin_eq_none h.head_lt h.passed

theorem Empty.same (h : s.Empty) (hsame : s.Same s') : s'.Empty :=
  ⟨hsame.cq ▸ h.head_lt, hsame.cq ▸ h.passed⟩

theorem Logged.same {f c : Nat} (h : s.Logged f c) (hsame : s.Same s') : s'.Logged f c :=
  ⟨hsame.fetched.trans h.fetched, hsame.consumed.trans h.consumed⟩

variable {cmd : CommandSet}

/-- The first session: the driver is about to identify the controller, does so, or has given up. -/
inductive Identifying (cmd : CommandSet) (rest : List Instr) (s : QueuePair) : Prop
  | before (count : s.submitted = 0) (todo : s.todo = getIdentfy cmd ++ rest ∨ s.todo = commandSync cmd ++ rest)
  | waiting (count : s.submitted = 1) (todo : s.todo = .waitComplete :: rest)
  | stopped (count : s.submitted ≤ 1) (todo : s.todo = [])

/-- The second session, while nothing is fetched: the driver is one slot ahead of the controller. -/
inductive Ahead (cmd : CommandSet) (rest : List Instr) (s : QueuePair) : Prop
  | before (count : s.submitted = 1) (doorbell : s.ctrl.sqTail = 0)
      (todo : s.todo = getIdentfy cmd ++ rest ∨ s.todo = commandSync cmd ++ rest ∨ s.todo = [])
  | waiting (count : s.submitted = 2) (todo : s.todo = .waitComplete :: rest)

/-- The controller is up and has not fetched anything. -/
structure Unfetched (s : QueuePair) : Prop extends s.Knows where
  ready : s.ctrl.ready = true
  enabled : s.ctrl.cc.enable = true
  sqHead : s.ctrl.sqHead = 0
  inflight : s.ctrl.inflight = []

theorem Anew.inSync (h : s.Anew) (hadmin : s.Admin) (hfiled : s.Filed) (hcount : s.submitted = 0) (hempty : s.Empty)
    (hcursor : s.cq.cursor = ⟨0, false⟩) (hlogged : s.Logged 0 0) (hpaired : Paired s.todo) : s.InSync := by
  have htail : s.sq.tail = 0 := by rw [hfiled.holds.tail, hcount, Nat.zero_mod]
  refine .idle { h with
    doorbell := h.sqTail.trans htail.symm, tail_lt := ?_, head_lt := hempty.head_lt
    sq_lt := hfiled.len_lt, cq_lt := hadmin.cqLen ▸ by decide }
    ⟨?_, hempty.passed⟩ (h.sqHead.trans htail.symm) h.inflight hpaired (hcount ▸ hlogged)
  · rw [htail]
    exact hfiled.len_pos
  · rw [h.cqTail, hcursor]
    rfl

theorem controller_step (hdriver : e ≠ .driver) (halloc : e ≠ .allocFails) (hstep : s.step e = some s') :
    s'.todo = s.todo ∧ s'.submitted = s.submitted := by
  cases e with
  | driver => exact absurd rfl hdriver
  | allocFails => exact absurd rfl halloc
  | _ =>
    obtain ⟨r, -, rfl⟩ := Option.map_eq_some_iff.mp hstep
    exact ⟨rfl, rfl⟩

theorem Identifying.calls (h : s.Identifying cmd rest) : Calls s.todo.head?.toList := by
  cases h with
  | before _ todo =>
    rcases todo with todo | todo
    · rw [todo]
      exact fun i hi => .inl (List.mem_singleton.mp hi)
    · rw [todo]
      exact fun i hi => .inr (.inr ⟨cmd, List.mem_singleton.mp hi⟩)
  | waiting _ todo =>
    rw [todo]
    exact fun i hi => .inr (.inl (List.mem_singleton.mp hi))
  | stopped _ todo =>
    rw [todo]
    exact fun i hi => absurd hi List.not_mem_nil

theorem Identifying.step (h : s.Identifying cmd rest) (hstep : s.step e = some s') :
    s'.Identifying cmd rest ∨ s'.submitted = 1 ∧ s'.todo = rest := by
  by_cases hdriver : e = .driver
  · subst hdriver
    cases h with
    | before count todo =>
      rcases todo with todo | todo
      · obtain rfl := driver_allocate todo hstep
        exact .inl (.before count (.inr rfl))
      · obtain rfl := driver_submit todo hstep
        exact .inl (.waiting (congrArg (· + 1) count) rfl)
    | waiting count todo =>
      obtain ⟨r, -, rfl⟩ := driver_waitComplete todo hstep
      by_cases hsuccess : r.1.isSuccess
      · exact .inr ⟨count, if_pos hsuccess⟩
      · exact .inl (.stopped count.le (if_neg hsuccess))
    | stopped _ todo => cases (driver_nil todo).symm.trans hstep
  · by_cases halloc : e = .allocFails
    · subst halloc
      obtain ⟨⟨_, htodo⟩, rfl⟩ := allocFails_step hstep
      cases h with
      | before count => exact .inl (.stopped (count.le.trans (Nat.zero_le 1)) rfl)
      | waiting count => exact .inl (.stopped count.le rfl)
      | stopped count => exact .inl (.stopped count rfl)
    · obtain ⟨htodo, hcount⟩ := controller_step hdriver halloc hstep
      cases h with
      | before count todo => exact .inl (.before (hcount.trans count) (htodo ▸ todo))
      | waiting count todo => exact .inl (.waiting (hcount.trans count) (htodo.trans todo))
      | stopped count todo => exact .inl (.stopped (hcount.le.trans count) (htodo.trans todo))

theorem InSync.settingUp (h : s.InSync) (hcount : s.submitted = 1) (htodo : s.todo = setUp sqes cqes ++ rest) :
    s.SettingUp sqes cqes rest ∧ s.Empty ∧ s.Logged 1 1 := by
  obtain ⟨linked, drained, head, inflight, logged⟩ :=
    h.idle_of_todo fun _ hwait => Instr.noConfusion (List.cons.inj (htodo.symm.trans hwait)).1
  refine ⟨.reset ⟨head.trans linked.doorbell.symm, inflight⟩ htodo, ⟨linked.head_lt, drained.passed⟩, ?_⟩
  rwa [hcount] at logged

/-- The controller has fetched the first command twice. -/
def Refetched (s : QueuePair) : Prop := 2 ≤ s.fetched.count (some 0)

theorem Refetched.step (h : s.Refetched) (hstep : s.step e = some s') : s'.Refetched :=
  h.trans ((goes_on hstep).fetched.sublist.count_le _)

/-- The second session before the controller fetches. -/
structure Second (cmd : CommandSet) (rest : List Instr) (s : QueuePair) : Prop where
  ahead : s.Ahead cmd rest
  up : s.Unfetched
  empty : s.Empty
  logged : s.Logged 1 1

theorem Second.fetch (hadmin : s.Admin) (hfiled : s.Filed) (h : s.Second cmd rest)
    (hstep : s.step .fetch = some s') : s'.Refetched := by
  obtain ⟨hahead, hup, -, hlogged⟩ := h
  cases hahead with
  | before _ doorbell =>
    have hquiet : s.ctrl.Quiet := ⟨hup.sqHead.trans doorbell.symm, hup.inflight⟩
    cases (quiet_fetch hquiet).symm.trans hstep
  | waiting count =>
    obtain ⟨data, hslot⟩ := hfiled.holds.slot 0 (by omega) (by rw [count, hadmin.sqLen]; omega)
    rw [Nat.zero_mod] at hslot
    obtain ⟨r, hr, rfl⟩ := Option.map_eq_some_iff.mp hstep
    simp only [Controller.fetch, if_pos hup.asq, hup.sqHead, hslot] at hr
    split_ifs at hr
    obtain rfl := Option.some.inj hr
    show 2 ≤ List.count (some 0) (some 0 :: s.fetched)
    rw [hlogged.fetched]
    decide

theorem Second.driver (h : s.Second cmd rest) (hstep : s.step .driver = some s') : s'.Second cmd rest := by
  obtain ⟨hahead, hup, hempty, hlogged⟩ := h
  cases hahead with
  | before count doorbell todo =>
    rcases todo with todo | todo | todo
    · obtain rfl := driver_allocate todo hstep
      exact ⟨.before count doorbell (.inr (.inl rfl)), { hup with }, { hempty with }, { hlogged with }⟩
    · obtain rfl := driver_submit todo hstep
      exact ⟨.waiting (congrArg (· + 1) count) rfl, { hup with }, { hempty with }, { hlogged with }⟩
    · cases (driver_nil todo).symm.trans hstep
  | waiting _ todo =>
    obtain ⟨_, hspin, -⟩ := driver_waitComplete todo hstep
    cases hempty.spin.symm.trans hspin

theorem Second.step (hadmin : s.Admin) (hfiled : s.Filed) (h : s.Second cmd rest) (hstep : s.step e = some s') :
    s'.Second cmd rest ∨ s'.Refetched := by
  cases e with
  | driver => exact .inl (h.driver hstep)
  | fetch => exact .inr (h.fetch hadmin hfiled hstep)
  | complete i code => cases (complete_eq_none h.up.inflight ..).symm.trans hstep
  | notice =>
    obtain ⟨_, hnotice, -⟩ := Option.map_eq_some_iff.mp hstep
    rw [Controller.notice, if_pos (h.up.ready.trans h.up.enabled.symm)] at hnotice
    cases hnotice
  | allocFails =>
    obtain ⟨hahead, hup, hempty, hlogged⟩ := h
    obtain ⟨⟨_, htodo⟩, rfl⟩ := allocFails_step hstep
    cases hahead with
    | before count doorbell =>
      exact .inl ⟨.before count doorbell (.inr (.inr rfl)), { hup with }, { hempty with }, { hlogged with }⟩
    | waiting _ todo => cases htodo.symm.trans todo

/-- Where `init` is as long as no command was fetched twice. -/
inductive Stage (num : Nat) (s : QueuePair) : Prop
  | first (settingUp : s.SettingUp 0 0 (getIdentfy (identify w 0) ++ afterIdentify w num))
      (count : s.submitted = 0) (empty : s.Empty) (cursor : s.cq.cursor = ⟨0, false⟩) (logged : s.Logged 0 0)
  | session (inSync : s.InSync) (identifying : s.Identifying (identify w 0) (afterIdentify w num))
  | reset (settingUp : s.SettingUp w.sqesMin w.cqesMin (getIdentfy (identify w 1) ++ configIoQueue w num))
      (count : s.submitted = 1) (empty : s.Empty) (logged : s.Logged 1 1)
  | second (second : s.Second (identify w 1) (configIoQueue w num))

variable {w} {num : Nat}

theorem Stage.step (hadmin : s.Admin) (hfiled : s.Filed) (h : s.Stage w num) (hstep : s.step e = some s') :
    s'.Stage w num ∨ s'.Refetched := by
  cases h with
  | first settingUp count empty cursor logged =>
    obtain ⟨hnext, hsame⟩ := settingUp.step hadmin hstep
    have hcount := hsame.submitted.trans count
    have hcursor : s'.cq.cursor = ⟨0, false⟩ := hsame.cq ▸ cursor
    rcases hnext with hsetting | ⟨hanew, htodo⟩
    · exact .inl (.first hsetting hcount (empty.same hsame) hcursor (logged.same hsame))
    · refine .inl (.session (hanew.inSync (hadmin.step hstep) (hfiled.step hstep) hcount (empty.same hsame) hcursor
        (logged.same hsame) ?_) (.before hcount (.inl htodo)))
      rw [htodo]
      exact paired_getIdentfy (paired_setUp (paired_getIdentfy (paired_configIoQueue w num)))
  | session inSync identifying =>
    have hsync := inSync.step identifying.calls hstep
    rcases identifying.step hstep with hidentifying | ⟨hcount, htodo⟩
    · exact .inl (.session hsync hidentifying)
    · obtain ⟨hsetting, hempty, hlogged⟩ := hsync.settingUp hcount htodo
      exact .inl (.reset hsetting hcount hempty hlogged)
  | reset settingUp count empty logged =>
    obtain ⟨hnext, hsame⟩ := settingUp.step hadmin hstep
    have hcount := hsame.submitted.trans count
    rcases hnext with hsetting | ⟨hanew, htodo⟩
    · exact .inl (.reset hsetting hcount (empty.same hsame) (logged.same hsame))
    · exact .inl (.second ⟨.before hcount hanew.sqTail (.inl htodo), { hanew with }, empty.same hsame,
        logged.same hsame⟩)
  | second second => exact (second.step hadmin hfiled hstep).imp_left .second

theorem InSync.logged (h : s.InSync) : ∃ f c, s.Logged f c ∧ c ≤ f ∧ f ≤ s.submitted := by
  cases h with
  | idle _ _ _ _ _ logged => exact ⟨_, _, logged, le_rfl, le_rfl⟩
  | submitted n _ _ _ _ _ _ _ count logged => exact ⟨n, n, logged, le_rfl, by omega⟩
  | fetched n _ _ _ _ _ _ count logged | completed n _ _ _ _ _ _ _ _ count logged =>
    exact ⟨n + 1, n, logged, by omega, count.ge⟩

theorem Identifying.submitted_le (h : s.Identifying cmd rest) : s.submitted ≤ 1 := by
  cases h with
  | before count => exact count.le.trans (Nat.zero_le 1)
  | waiting count => exact count.le
  | stopped count => exact count

theorem Second.synchronised (h : s.Second cmd rest) : s.Synchronised := by
  obtain ⟨hahead, -, -, hlogged⟩ := h
  cases hahead with
  | before count => exact hlogged.synchronised count.ge fun n hn hge => absurd hn (by omega)
  | waiting count todo =>
    refine hlogged.synchronised (by omega) fun n hn hge => ?_
    rw [waitsFor_eq todo, show s.submitted - 1 = n by omega]

theorem Stage.synchronised (h : s.Stage w num) : s.Synchronised := by
  cases h with
  | first _ count _ _ logged => exact logged.synchronised (Nat.zero_le _) fun n hn _ => absurd hn (by omega)
  | session inSync => exact inSync.synchronised
  | reset _ count _ logged => exact logged.synchronised count.ge fun n hn hge => absurd hn (by omega)
  | second second => exact second.synchronised

theorem Stage.length_le (h : s.Stage w num) : s.fetched.length ≤ 1 ∧ s.consumed.length ≤ 1 := by
  have hlogged : ∃ f c, s.Logged f c ∧ c ≤ f ∧ f ≤ 1 := by
    cases h with
    | first _ _ _ _ logged => exact ⟨0, 0, logged, le_rfl, Nat.zero_le 1⟩
    | session inSync identifying =>
      obtain ⟨f, c, hlogged, hc, hf⟩ := inSync.logged
      exact ⟨f, c, hlogged, hc, hf.trans identifying.submitted_le⟩
    | reset _ _ _ logged => exact ⟨1, 1, logged, le_rfl, le_rfl⟩
    | second second => exact ⟨1, 1, second.logged, le_rfl, le_rfl⟩
  obtain ⟨f, c, hlogged, hc, hf⟩ := hlogged
  exact ⟨hlogged.length.1.le.trans hf, hlogged.length.2.le.trans (hc.trans hf)⟩

theorem Refetched.not_synchronised (h : s.Refetched) : ¬ s.Synchronised ∧ 2 ≤ s.fetched.length :=
  ⟨fun hsync => absurd (hsync.atMostOnce 0) (Nat.not_le.mpr h), h.trans (List.count_le_length)⟩

theorem stage_start (w : Surroundings) (num : Nat) {ctrl : Controller} (hquiet : ctrl.Quiet) :
    (start w num ctrl).Admin ∧ (start w num ctrl).Filed ∧ (start w num ctrl).Stage w num := by
  have hlen : 0 < 64 := by decide
  have hlt : 64 < 2 ^ 32 := by decide
  refine ⟨⟨rfl, rfl, w.sqAligned, w.cqAligned⟩, ⟨⟨rfl, fun n hn => absurd hn (Nat.not_lt_zero n)⟩, hlen, hlt⟩, ?_⟩
  exact .first (.reset hquiet rfl) rfl ⟨hlen, fun _ _ => rfl⟩ rfl ⟨rfl, rfl⟩

/-- Every run of `init` is at one of its stages or has gone wrong. -/
theorem stage_or_refetched {ctrl : Controller} (hquiet : ctrl.Quiet) {es : List Event}
    (hrun : Machine.run QueuePair.step (start w num ctrl) es = some s) : s.Stage w num ∨ s.Refetched := by
  obtain ⟨hadmin, hfiled, hstage⟩ := stage_start w num hquiet
  have hinv := Machine.run_keeps (I := fun s => s.Admin ∧ s.Filed ∧ (s.Stage w num ∨ s.Refetched))
    (fun hs hstep => ⟨hs.1.step hstep, hs.2.1.step hstep,
      hs.2.2.elim (fun h => h.step hs.1 hs.2.1 hstep) fun h => .inr (h.step hstep)⟩) hrun
    ⟨hadmin, hfiled, .inl hstage⟩
  exact hinv.2.2

end QueuePair

open QueuePair

variable {w} {num : Nat} {ctrl : Controller} {es : List Event} {s : QueuePair}

/-- The run of `init` is synchronised exactly until the controller fetches after the second reset. -/
theorem init_synchronised_iff (hquiet : ctrl.Quiet)
    (hrun : Machine.run QueuePair.step (start w num ctrl) es = some s) :
    s.Synchronised ↔ s.fetched.length ≤ 1 := by
  rcases stage_or_refetched hquiet hrun with h | h
  · exact iff_of_true h.synchronised h.length_le.1
  · exact iff_of_false h.not_synchronised.1 (Nat.not_le.mpr h.not_synchronised.2)

def powerOn : Controller := ⟨{ enable := false }, false, 0, 0, 0, 0, 0, 0, ⟨0, true⟩, 0, []⟩

/-- Some addresses, and a controller with entries of 64 and 16 bytes. -/
def somewhere : Surroundings :=
  ⟨0, 6, 4, fun k => UInt64.ofNat (0x4000 + 0x1000 * k), fun i => (UInt64.ofNat (0x6000 + 0x2000 * i),
    UInt64.ofNat (0x7000 + 0x2000 * i)), 0x1000, 0x2000, by decide, by decide⟩

/-- Set the controller up, from the state it is in. -/
def settingUp : List Event := [.driver, .notice, .driver, .driver, .driver, .notice, .driver]

def calling : List Event := [.driver, .fetch, .complete 0 0, .driver]

def firstIdentify : List Event := settingUp.eraseIdx 1 ++ .driver :: calling

/-- The rest of `init`: two fetches in place of one for the second identify command. -/
def afterFirst : List Event :=
  settingUp ++ [.driver, .driver, .fetch, .fetch, .complete 0 0, .complete 0 0, .driver] ++ calling ++
    [.driver, .driver] ++ calling ++ calling

/-- Until the first command is answered the two sides are synchronised. -/
theorem init_synchronised_first : ∃ s,
    Machine.run QueuePair.step (start somewhere 1 powerOn) firstIdentify = some s ∧
      s.consumed = [(0, some 0)] ∧ s.Synchronised := by
  have hlogs : (Machine.run QueuePair.step (start somewhere 1 powerOn) firstIdentify).map
      (fun s => (s.fetched, s.consumed)) = some ([some 0], [(0, some 0)]) := by decide +kernel
  obtain ⟨s, hs, hlogs⟩ := Option.map_eq_some_iff.mp hlogs
  obtain ⟨hfetched, hconsumed⟩ := Prod.mk.inj hlogs
  refine ⟨s, hs, hconsumed, (init_synchronised_iff ⟨rfl, rfl⟩ hs).mpr ?_⟩
  rw [hfetched]
  decide

/-- A run of `init` without any error in which the controller fetches the first command twice. -/
theorem init_refetches : ∃ s,
    Machine.run QueuePair.step (start somewhere 1 powerOn) (firstIdentify ++ afterFirst) = some s ∧
      s.todo = [] ∧ s.fetched = [some 4, some 3, some 2, some 1, some 0, some 0] := by
  have hlogs : (Machine.run QueuePair.step (start somewhere 1 powerOn) (firstIdentify ++ afterFirst)).map
      (fun s => (s.todo, s.fetched)) = some ([], [some 4, some 3, some 2, some 1, some 0, some 0]) := by
    decide +kernel
  obtain ⟨s, hs, hlogs⟩ := Option.map_eq_some_iff.mp hlogs
  exact ⟨s, hs, Prod.mk.inj hlogs⟩

end Sparreal.Nvme
