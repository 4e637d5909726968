import Sparreal.Rdrive.Probe

/-!
# Which nodes are probed

The probed names are the names of the drivers with a successful call, so the history of a probing call is a run of
`Attempts.attempts` with the driver's name as the key (`probeSystem_calls`). A node is passed over for good once *some*
node has been probed under the name of its driver. So every matching node is probed, whatever the `on_probe` functions
return, only if no two share a name (`probedOnce_iff`).
-/

namespace Sparreal.Rdrive

open Attempts

/-- The key under which a success is remembered. -/
abbrev nameOf : ProbeFdtInfo → String := ProbeFdtInfo.name

/-- The driver has `compatibles` that match the enabled node at `index`. -/
def Matches (fdt : List Node) (register : DriverRegister) (index : Nat) : Prop :=
  ∃ node, fdt[index]? = some node ∧ node.status ≠ some .disabled ∧
    ∃ compatibles onProbe, ProbeKind.fdt compatibles onProbe ∈ register.probeKinds ∧
      ∃ compatible ∈ node.compatibles, compatible ∈ compatibles

/-! ### The entries -/

theorem mem_getFdtMatchNodes {fdt : List Node} {register : DriverRegister} {info : ProbeFdtInfo}
    (h : info ∈ System.getFdtMatchNodes fdt register) :
    info.register = register ∧ Matches fdt register info.node := by
  obtain ⟨⟨node, index⟩, hnode, hinfo⟩ := List.mem_flatMap.mp h
  rw [List.mem_zipIdx_iff_getElem?] at hnode
  simp only at hinfo
  split at hinfo
  · simp at hinfo
  case isFalse henabled =>
    obtain ⟨kind, hkind, hinfo⟩ := List.mem_flatMap.mp hinfo
    cases kind with
    | pci => simp at hinfo
    | fdt compatibles onProbe =>
      obtain ⟨compatible, hcompatible, rfl⟩ := List.mem_map.mp hinfo
      obtain ⟨hmem, hcontains⟩ := List.mem_filter.mp hcompatible
      exact ⟨rfl, node, hnode, henabled, compatibles, onProbe, hkind, compatible, hmem, by simpa using hcontains⟩

variable {index : Nat}

theorem Matches.exists_info {fdt : List Node} {register : DriverRegister} (h : Matches fdt register index) :
    ∃ onProbe, (⟨register, index, onProbe⟩ : ProbeFdtInfo) ∈ System.getFdtMatchNodes fdt register := by
  obtain ⟨node, hnode, henabled, compatibles, onProbe, hkind, compatible, hmem, hcontains⟩ := h
  refine ⟨onProbe, List.mem_flatMap.mpr ⟨(node, index), List.mem_zipIdx_iff_getElem?.mpr hnode, ?_⟩⟩
  simp only [if_neg henabled]
  refine List.mem_flatMap.mpr ⟨.fdt compatibles onProbe, hkind, List.mem_map.mpr ⟨compatible, ?_, rfl⟩⟩
  exact List.mem_filter.mpr ⟨hmem, by simpa using hcontains⟩

/-! ### A probing call is a sequence of attempts -/

def System.Recorded (s : System) : Prop := ∀ n, n ∈ s.probedNames ↔ Succeeded nameOf Except.isOk s.calls n

theorem recorded_new : System.new.Recorded := by
  intro n
  simp [System.new, Succeeded]

section Calls

variable {answer : Answer} {fdt : List Node} {s s' : System}

theorem recorded_call (hs : s.Recorded) (info : ProbeFdtInfo) (res : ProbeResult) :
    (⟨if res.isOk then info.name :: s.probedNames else s.probedNames, s.calls ++ [(info, res)]⟩ :
      System).Recorded := by
  intro n
  rw [succeeded_append_singleton, ← hs n]
  cases hok : res.isOk with
  | false => simp
  | true => simp [or_comm, eq_comm]

/-- `probe_register` tries the entries, and returns the results of the calls it makes. -/
theorem probeNodes_calls {infos : List ProbeFdtInfo} (hs : s.Recorded) {out : List ProbeResult}
    (h : System.probeNodes answer infos s = (out, s')) :
    s'.Recorded ∧ s'.calls = attempts nameOf Except.isOk answer s.calls infos ∧
      ∃ new, s'.calls = s.calls ++ new ∧ out = new.map Prod.snd := by
  induction infos generalizing s out with
  | nil =>
    obtain ⟨rfl, rfl⟩ := Prod.mk.inj h
    exact ⟨hs, rfl, [], by simp, rfl⟩
  | cons info infos ih =>
    rw [System.probeNodes] at h
    rw [attempts_cons, attempt]
    by_cases hprobed : info.name ∈ s.probedNames
    · rw [if_pos (by simpa using hprobed)] at h
      rw [if_pos ((hs info.name).mp hprobed)]
      exact ih hs h
    · rw [if_neg (by simpa using hprobed)] at h
      rw [if_neg fun hdone => hprobed ((hs info.name).mpr hdone)]
      rcases hrest : System.probeNodes answer infos ⟨if (answer s.calls info).isOk then info.name :: s.probedNames
        else s.probedNames, s.calls ++ [(info, answer s.calls info)]⟩ with ⟨out', s''⟩
      simp only [hrest, Prod.mk.injEq] at h
      obtain ⟨rfl, rfl⟩ := h
      obtain ⟨hrecorded, hcalls, new, hnew, rfl⟩ := ih (recorded_call hs info _) hrest
      exact ⟨hrecorded, hcalls, (info, answer s.calls info) :: new, by simp [hnew], rfl⟩

theorem checkResults_error {stop : Bool} {res : List ProbeResult} {e : ProbeError}
    (h : checkResults stop res = .error e) : stop = true ∧ res ≠ [] := by
  induction res with
  | nil => simp [checkResults] at h
  | cons r res ih =>
    refine ⟨?_, by simp⟩
    cases stop with
    | true => rfl
    | false =>
      rcases r with e | _
      · cases e <;> exact (ih (by simpa [checkResults] using h)).1
      · exact (ih (by simpa [checkResults] using h)).1

/-- `probe_system` goes through the drivers up to one at which it stops. It stops only if it made a call. -/
theorem probeSystem_calls {registers : List DriverRegister} {stop : Bool} (hs : s.Recorded)
    {result : Except ProbeError Unit} (h : probeSystem answer fdt stop registers s = (result, s')) :
    s'.Recorded ∧ ∃ done rest, registers = done ++ rest ∧
      s'.calls = attempts nameOf Except.isOk answer s.calls (done.flatMap (System.getFdtMatchNodes fdt)) ∧
      (result = .ok () ∧ rest = [] ∨ s'.calls ≠ s.calls ∧ stop = true ∧ result ≠ .ok ()) := by
  induction registers generalizing s with
  | nil =>
    obtain ⟨rfl, rfl⟩ := Prod.mk.inj h
    exact ⟨hs, [], [], rfl, rfl, .inl ⟨rfl, rfl⟩⟩
  | cons one registers ih =>
    rw [probeSystem] at h
    rcases hone : s.probeRegister answer fdt one with ⟨res, s₁⟩
    obtain ⟨hs₁, hcalls₁, new, hnew, rfl⟩ := probeNodes_calls hs hone
    simp only [hone] at h
    cases hcheck : checkResults stop (new.map Prod.snd) with
    | error e =>
      simp only [hcheck, Prod.mk.injEq] at h
      obtain ⟨rfl, rfl⟩ := h
      obtain ⟨hstop, hmade⟩ := checkResults_error hcheck
      refine ⟨hs₁, [one], registers, rfl, by simpa using hcalls₁, .inr ⟨?_, hstop, by simp⟩⟩
      rw [hnew]
      simpa using hmade
    | ok _ =>
      simp only [hcheck] at h
      obtain ⟨hs', done, rest, rfl, hcalls, hend⟩ := ih hs₁ h
      refine ⟨hs', one :: done, rest, rfl, ?_, ?_⟩
      · rw [hcalls, hcalls₁, List.flatMap_cons, attempts_append]
      · refine hend.imp_right fun hmade => ⟨?_, hmade.2⟩
        -- the calls only grow, so those of the later drivers make the difference
        obtain ⟨more, hmore, -⟩ := attempts_eq_append nameOf Except.isOk answer s₁.calls
          (done.flatMap (System.getFdtMatchNodes fdt))
        have hlater := hmade.1
        rw [hcalls, hmore, ne_eq, List.append_right_eq_self] at hlater
        rw [hcalls, hmore, hnew, List.append_assoc, ne_eq, List.append_right_eq_self, List.append_eq_nil_iff]
        exact fun hnil => hlater hnil.2

end Calls

/-! ### Sequences of probing calls -/

/-- A call from outside. -/
inductive Request where
  | preKernel
  | all (stopIfFail : Bool)
  deriving DecidableEq, Repr

section Requests

variable (answer : Answer) (fdt : List Node) (registers : List DriverRegister)

/-- The drivers of the requested level, as they are gone through. -/
def requested : Request → List DriverRegister
  | .preKernel => (unregistered registers).filter fun one => one.level = .preKernel
  | .all _ => unregistered registers

def probe (s : System) : Request → Except ProbeError Unit × System
  | .preKernel => probePreKernel answer fdt registers s
  | .all stopIfFail => probeAll answer fdt registers stopIfFail s

def after (requests : List Request) : System :=
  requests.foldl (fun s request => (probe answer fdt registers s request).2) .new

end Requests

variable (answer : Answer) {fdt : List Node} {registers : List DriverRegister}

variable {d : DriverRegister} {request : Request}

theorem mem_requested (h : d ∈ requested registers request) : d ∈ registers := by
  have hsorted : ∀ {d}, d ∈ unregistered registers → d ∈ registers := (List.mem_insertionSort _).mp
  cases request with
  | preKernel => exact hsorted (List.mem_filter.mp h).1
  | all => exact hsorted h

variable {answer} {s s' : System} {result : Except ProbeError Unit}

/-- A call goes through the drivers up to one at which it stops. -/
theorem probe_calls (hs : s.Recorded) (h : probe answer fdt registers s request = (result, s')) :
    s'.Recorded ∧ ∃ done rest new, requested registers request = done ++ rest ∧
      s'.calls = attempts nameOf Except.isOk answer s.calls (done.flatMap (System.getFdtMatchNodes fdt)) ∧
      s'.calls = s.calls ++ new ∧
      (∀ c ∈ new, c.1 ∈ done.flatMap (System.getFdtMatchNodes fdt) ∧ ∃ log, c.2 = answer log c.1) ∧
      (result = .ok () ∧ rest = [] ∨ new ≠ [] ∧ request ≠ .all false ∧ result ≠ .ok ()) := by
  have hprobe : probeSystem answer fdt (request != .all false) (requested registers request) s = (result, s') := by
    rw [← h]
    cases request with
    | preKernel => rfl
    | all stop => cases stop <;> rfl
  obtain ⟨hrecorded, done, rest, hsplit, hcalls, hend⟩ := probeSystem_calls hs hprobe
  obtain ⟨new, hnew, hentries⟩ := attempts_eq_append nameOf Except.isOk answer s.calls
    (done.flatMap (System.getFdtMatchNodes fdt))
  refine ⟨hrecorded, done, rest, new, hsplit, hcalls, hcalls.trans hnew, hentries, hend.imp_right fun hmade => ?_⟩
  refine ⟨fun hnil => hmade.1 ?_, bne_iff_ne.mp hmade.2.1, hmade.2.2⟩
  rw [hcalls, hnew, hnil, List.append_nil]

/-- The invariant of the calls: names are recorded, and left alone after a success. -/
structure System.Sound (fdt : List Node) (registers : List DriverRegister) (s : System) : Prop where
  recorded : s.Recorded
  once : OncePerKey nameOf Except.isOk s.calls
  matching : ∀ c ∈ s.calls, Matches fdt c.1.register c.1.node ∧ c.1.register ∈ registers

theorem probe_sound (hs : s.Sound fdt registers) (h : probe answer fdt registers s request = (result, s')) :
    s'.Sound fdt registers := by
  obtain ⟨hrecorded, done, rest, new, hsplit, hcalls, hnew, hentries, -⟩ := probe_calls hs.recorded h
  refine ⟨hrecorded, hcalls ▸ hs.once.attempts _, fun c hc => ?_⟩
  rw [hnew] at hc
  rcases List.mem_append.mp hc with hc | hc
  · exact hs.matching c hc
  · obtain ⟨d, hd, hinfo⟩ := List.mem_flatMap.mp (hentries c hc).1
    obtain ⟨rfl, hmatches⟩ := mem_getFdtMatchNodes hinfo
    exact ⟨hmatches, mem_requested (hsplit ▸ List.mem_append_left _ hd)⟩

theorem after_sound (answer : Answer) (requests : List Request) : (after answer fdt registers requests).Sound fdt registers := by
  have hall : ∀ s : System, s.Sound fdt registers →
      (requests.foldl (fun s request => (probe answer fdt registers s request).2) s).Sound fdt registers := by
    induction requests with
    | nil => exact fun s hs => hs
    | cons request requests ih => exact fun s hs => ih _ (probe_sound hs rfl)
  exact hall .new ⟨recorded_new, List.Pairwise.nil, by simp [System.new]⟩

/-! ### Probed exactly once -/

def Passed (calls : List (ProbeFdtInfo × ProbeResult)) (d : DriverRegister) (index : Nat) : Prop :=
  ∃ c ∈ calls, c.1.register = d ∧ c.1.node = index

/-- The driver's `on_probe` succeeded on the node. -/
def Probed (calls : List (ProbeFdtInfo × ProbeResult)) (d : DriverRegister) (index : Nat) : Prop :=
  ∃ c ∈ calls, c.2.isOk = true ∧ c.1.register = d ∧ c.1.node = index

/-- Whatever the `on_probe` functions return and whichever calls came before, a call (of those that count) passes
every matching node to its driver that has not been probed by it, and none is passed again after a success. -/
structure ProbedOnce (fdt : List Node) (registers : List DriverRegister) (counts : Except ProbeError Unit → Prop) :
    Prop where
  passed : ∀ answer earlier request,
    counts (probe answer fdt registers (after answer fdt registers earlier) request).1 →
    ∀ d ∈ requested registers request, ∀ index, Matches fdt d index →
      Probed (after answer fdt registers earlier).calls d index ∨
        Passed ((probe answer fdt registers (after answer fdt registers earlier) request).2.calls.drop
          (after answer fdt registers earlier).calls.length) d index
  never : ∀ answer requests, (after answer fdt registers requests).calls.Pairwise fun a b =>
    a.2.isOk = true → ¬ (a.1.register = b.1.register ∧ a.1.node = b.1.node)

theorem never_again (answer : Answer) (requests : List Request) :
    (after answer fdt registers requests).calls.Pairwise fun a b =>
      a.2.isOk = true → ¬ (a.1.register = b.1.register ∧ a.1.node = b.1.node) :=
  (after_sound answer requests).once.imp fun hab hok hsame => hab hok (congrArg DriverRegister.name hsame.1)

theorem probed_or_passed (hs : s.Sound fdt registers) (hmatches : Matches fdt d index)
    (hd : d ∈ requested registers request) (h : probe answer fdt registers s request = (.ok (), s'))
    (hname : ∀ d' ∈ registers, ∀ index', Matches fdt d' index' → d'.name = d.name → d' = d ∧ index' = index) :
    Probed s.calls d index ∨ Passed (s'.calls.drop s.calls.length) d index := by
  have hs' := probe_sound hs h
  obtain ⟨-, done, rest, new, hsplit, hcalls, hnew, -, hend⟩ := probe_calls hs.recorded h
  obtain ⟨-, rfl⟩ := hend.resolve_right fun hstopped => hstopped.2.2 rfl
  obtain ⟨onProbe, hinfo⟩ := hmatches.exists_info
  rw [List.append_nil] at hsplit
  have hentry := List.mem_flatMap.mpr ⟨d, hsplit ▸ hd, hinfo⟩
  rcases attempts_reaches nameOf Except.isOk answer s.calls hentry with
    ⟨c, hc, hok, hkey⟩ | ⟨c, hc, hentry⟩
  · rw [← hcalls] at hc
    obtain ⟨hcmatches, hcregister⟩ := hs'.matching c hc
    have hsame := hname _ hcregister _ hcmatches hkey
    rw [hnew] at hc
    rcases List.mem_append.mp hc with hc | hc
    · exact .inl ⟨c, hc, hok, hsame⟩
    · exact .inr ⟨c, by rwa [hnew, List.drop_left], hsame⟩
  · rw [← hcalls] at hc
    exact .inr ⟨c, hc, by rw [hentry], by rw [hentry]⟩

/-- With drivers that fail, `probe_all(true)` comes to one driver only. -/
theorem one_register_of_fail (registers : List DriverRegister) {s s' : System} (hs : s.Recorded) (hnone : s.calls = [])
    {result : Except ProbeError Unit}
    (h : probeSystem (fun _ _ => .error (.other "")) fdt true registers s = (result, s')) :
    ∃ d, ∀ c ∈ s'.calls, c.1.register = d := by
  induction registers generalizing s with
  | nil =>
    obtain ⟨-, rfl⟩ := Prod.mk.inj h
    exact ⟨⟨"", .preKernel, 0, []⟩, by simp [hnone]⟩
  | cons one registers ih =>
    rw [probeSystem] at h
    rcases hone : s.probeRegister (fun _ _ => .error (.other "")) fdt one with ⟨res, s₁⟩
    obtain ⟨hs₁, hcalls₁, new, hnew, rfl⟩ := probeNodes_calls hs hone
    obtain ⟨new', hnew', hentries⟩ := attempts_eq_append nameOf Except.isOk
      (fun _ _ => .error (.other "") : Answer) s.calls (System.getFdtMatchNodes fdt one)
    obtain rfl : new = new' := List.append_cancel_left (hnew.symm.trans (hcalls₁.trans hnew'))
    simp only [hone] at h
    cases new with
    | nil =>
      simp only [List.map_nil, checkResults] at h
      exact ih hs₁ (by rw [hnew, hnone, List.append_nil]) h
    | cons c new =>
      obtain ⟨-, _, hfails⟩ := hentries c List.mem_cons_self
      simp only [List.map_cons, hfails, checkResults, if_true, Prod.mk.injEq] at h
      obtain ⟨-, rfl⟩ := h
      rw [hnew, hnone, List.nil_append]
      exact ⟨one, fun c hc => (mem_getFdtMatchNodes (hentries c hc).1).1⟩

theorem eq_of_passed (hs : s.Sound fdt registers) (hok : ∀ c ∈ s.calls, c.2.isOk = true) {d' : DriverRegister}
    {index index' : Nat} (h : Passed s.calls d index) (h' : Passed s.calls d' index') (hname : d.name = d'.name) :
    d = d' ∧ index = index' := by
  obtain ⟨c, hc, rfl, rfl⟩ := h
  obtain ⟨c', hc', rfl, rfl⟩ := h'
  by_cases hne : c = c'
  · exact ⟨by rw [hne], by rw [hne]⟩
  · rcases hs.once.fails hc hc' hne hname with hfail | hfail
    · simp [hok c hc] at hfail
    · simp [hok c' hc'] at hfail

def OnePerName (fdt : List Node) (registers : List DriverRegister) : Prop :=
  ∀ d ∈ registers, ∀ d' ∈ registers, ∀ index index', Matches fdt d index → Matches fdt d' index' →
    d.name = d'.name → d = d' ∧ index = index'

def OneMatch (fdt : List Node) (registers : List DriverRegister) : Prop :=
  ∀ d ∈ registers, ∀ d' ∈ registers, ∀ index index', Matches fdt d index → Matches fdt d' index' →
    d = d' ∧ index = index'

theorem ProbedOnce.mono {counts counts' : Except ProbeError Unit → Prop} (h : ProbedOnce fdt registers counts)
    (himp : ∀ result, counts' result → counts result) : ProbedOnce fdt registers counts' :=
  ⟨fun answer earlier request hresult => h.passed answer earlier request (himp _ hresult), h.never⟩

theorem mem_requested_all (hd : d ∈ registers) (stop : Bool) :
    d ∈ requested registers (.all stop) :=
  (List.mem_insertionSort _).mpr hd

theorem ProbedOnce.passed_first {counts : Except ProbeError Unit → Prop} (h : ProbedOnce fdt registers counts)
    (answer : Answer) (stop : Bool) (hresult : counts (probe answer fdt registers .new (.all stop)).1)
    (hd : d ∈ registers) (hmatches : Matches fdt d index) :
    Passed (probe answer fdt registers .new (.all stop)).2.calls d index := by
  rcases h.passed answer [] (.all stop) hresult d (mem_requested_all hd stop) index hmatches with hprobed | hpassed
  · obtain ⟨c, hc, -⟩ := hprobed
    simp [after, System.new] at hc
  · exact hpassed

theorem ProbedOnce.onePerName (h : ProbedOnce fdt registers fun result => result = .ok ()) :
    OnePerName fdt registers := by
  intro d hd d' hd' index index' hmatches hmatches' hname
  have hnew : System.new.Sound fdt registers := after_sound (fun _ _ => .ok ()) []
  rcases hprobe : probe (fun _ _ => .ok ()) fdt registers .new (.all false) with ⟨result, s⟩
  obtain ⟨-, done, rest, new, -, -, hcalls, hentries, hend⟩ := probe_calls hnew.recorded hprobe
  obtain ⟨rfl, -⟩ := hend.resolve_right fun hstopped => hstopped.2.1 rfl
  have hpassed : ∀ {d index}, d ∈ registers → Matches fdt d index → Passed s.calls d index := by
    intro d index hd hmatches
    have hfirst := h.passed_first _ false (congrArg Prod.fst hprobe) hd hmatches
    rwa [hprobe] at hfirst
  refine eq_of_passed (probe_sound hnew hprobe) (fun c hc => ?_) (hpassed hd hmatches) (hpassed hd' hmatches') hname
  obtain ⟨-, _, hok⟩ := hentries c (by simpa [hcalls, System.new] using hc)
  rw [hok]
  rfl

theorem ProbedOnce.oneMatch (h : ProbedOnce fdt registers fun _ => True) : OneMatch fdt registers := by
  intro d hd d' hd' index index' hmatches hmatches'
  have hone := (h.mono fun _ _ => trivial).onePerName
  obtain ⟨e, hregister⟩ := one_register_of_fail (unregistered registers) recorded_new rfl
    (rfl : probeSystem (fun _ _ => .error (.other "")) fdt true (unregistered registers) .new = _)
  obtain ⟨c, hc, hcd, -⟩ := h.passed_first (fun _ _ => .error (.other "")) true trivial hd hmatches
  obtain ⟨c', hc', hcd', -⟩ := h.passed_first (fun _ _ => .error (.other "")) true trivial hd' hmatches'
  have hsame : d = d' := by rw [← hcd, ← hcd', hregister c hc, hregister c' hc']
  exact hone d hd d' hd' index index' hmatches hmatches' (congrArg DriverRegister.name hsame)

theorem passed_of_oneMatch (hone : OneMatch fdt registers) (hs : s.Sound fdt registers)
    (h : probe answer fdt registers s request = (result, s')) {new : List (ProbeFdtInfo × ProbeResult)}
    (hnew : s'.calls = s.calls ++ new) (hmade : new ≠ []) (hd : d ∈ registers) (hmatches : Matches fdt d index) :
    Passed (s'.calls.drop s.calls.length) d index := by
  rw [hnew, List.drop_left]
  cases new with
  | nil => exact absurd rfl hmade
  | cons c new =>
    obtain ⟨hcmatches, hcregister⟩ := (probe_sound hs h).matching c (by rw [hnew]; simp)
    exact ⟨c, List.mem_cons_self, hone _ hcregister d hd _ index hcmatches hmatches⟩

/-- Every matching node is probed once, in every call that is not stopped, exactly if no two of them come under
one driver name; in every call, exactly if there are no two of them. -/
theorem probedOnce_iff (fdt : List Node) (registers : List DriverRegister) :
    (ProbedOnce fdt registers (fun result => result = .ok ()) ↔ OnePerName fdt registers) ∧
      (ProbedOnce fdt registers (fun _ => True) ↔ OneMatch fdt registers) := by
  refine ⟨⟨fun h => h.onePerName, fun hone => ?_⟩, ⟨fun h => h.oneMatch, fun hone => ?_⟩⟩
  · refine ⟨fun answer earlier request hresult d hd index hmatches => ?_, fun answer => never_again answer⟩
    refine probed_or_passed (after_sound answer earlier) hmatches hd (Prod.ext hresult rfl) ?_
    intro d' hd' index' hmatches' hname
    exact hone d' hd' d (mem_requested hd) index' index hmatches' hmatches hname
  · refine ⟨fun answer earlier request _ d hd index hmatches => ?_, fun answer => never_again answer⟩
    have hs : (after answer fdt registers earlier).Sound fdt registers := after_sound answer earlier
    rcases hprobe : probe answer fdt registers (after answer fdt registers earlier) request with ⟨result, s'⟩
    obtain ⟨-, done, rest, new, -, -, hnew, -, ⟨rfl, -⟩ | ⟨hmade, -⟩⟩ := probe_calls hs.recorded hprobe
    · refine probed_or_passed hs hmatches hd hprobe fun d' hd' index' hmatches' _ => ?_
      exact hone d' hd' d (mem_requested hd) index' index hmatches' hmatches
    · exact .inr (passed_of_oneMatch hone hs hprobe hnew hmade (mem_requested hd) hmatches)

/-- A driver for two serial ports. -/
def uartDriver : DriverRegister := ⟨"uart", .postKernel, 256, [.fdt ["arm,pl011"] 0]⟩

/-- A tree with two of them. -/
def twoPorts : List Node := [⟨none, ["arm,pl011"]⟩, ⟨none, ["arm,pl011"]⟩]

/-- The second port is never passed to the driver, in the first probing or after it. -/
theorem second_port_not_probed :
    Matches twoPorts uartDriver 0 ∧ Matches twoPorts uartDriver 1 ∧
      (probe (fun _ _ => .ok ()) twoPorts [uartDriver] .new (.all false)).1 = .ok () ∧
      (after (fun _ _ => .ok ()) twoPorts [uartDriver] [.all false, .all false]).calls =
        [(⟨uartDriver, 0, 0⟩, .ok ())] ∧
      ¬ ProbedOnce twoPorts [uartDriver] (fun result => result = .ok ()) := by
  have hport : ∀ {i}, twoPorts[i]? = some ⟨none, ["arm,pl011"]⟩ → Matches twoPorts uartDriver i := fun h =>
    ⟨_, h, by simp, ["arm,pl011"], 0, by simp [uartDriver], "arm,pl011", by simp, by simp⟩
  refine ⟨hport rfl, hport rfl, by decide +kernel, by decide +kernel, fun h => ?_⟩
  have hsame := h.onePerName uartDriver (by simp) uartDriver (by simp) 0 1 (hport rfl) (hport rfl) rfl
  simp at hsame

end Sparreal.Rdrive
