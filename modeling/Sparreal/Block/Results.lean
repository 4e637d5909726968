import Mathlib.Data.List.Nodup
import Mathlib.Data.List.Range
import Sparreal.Block.Future

/-!
# Results of block futures

However the queue answers, no poll of a `ReadFuture` or `WriteFuture` panics before it returns `Ready`, every block is
accepted once at most, requests are polled only between being accepted and being finished, and the output has one
entry for each block, in order, that says whether the request of the block was accepted and completed
(`blocks_faithful`). The maps of a future are what the calls so far say of each block (`Inv`).
-/

namespace Sparreal.Block

open Dma (DeviceDma DCommon Pool)

/-! ### Calls -/

def AcceptedAs (calls : List Call) (blkId : Nat) (reqId : RequestId) : Prop :=
  ∃ kind, Call.submit ⟨blkId, kind⟩ (.ok reqId) ∈ calls

def Accepted (calls : List Call) (blkId : Nat) : Prop := ∃ reqId, AcceptedAs calls blkId reqId

/-- A poll of the request of the block returned something other than `Retry`. -/
def Finished (calls : List Call) (blkId : Nat) : Prop :=
  ∃ reqId answer, Call.poll blkId reqId answer ∈ calls ∧ answer ≠ .error .retry

/-- A poll of the request of the block returned `Ok`. -/
def Completed (calls : List Call) (blkId : Nat) : Prop := ∃ reqId, Call.poll blkId reqId (.ok ()) ∈ calls

/-- No block is submitted again after it was accepted, and requests are polled only between being accepted and being
finished. -/
def Orderly : List Call → Prop
  | [] => True
  | .submit request _ :: calls => ¬ Accepted calls request.blockId ∧ Orderly calls
  | .poll blkId reqId _ :: calls => AcceptedAs calls blkId reqId ∧ ¬ Finished calls blkId ∧ Orderly calls

section Calls

variable {calls : List Call} {b b' : Nat} {reqId reqId' : RequestId} {kind : RequestKind} {request : Request}
  {e : BlkError} {answer : Except BlkError Unit} {submitted : Except BlkError RequestId}

@[simp] theorem not_acceptedAs_nil : ¬ AcceptedAs [] b reqId := by simp [AcceptedAs]

@[simp] theorem not_finished_nil : ¬ Finished [] b := by simp [Finished]

@[simp] theorem not_completed_nil : ¬ Completed [] b := by simp [Completed]

@[simp] theorem acceptedAs_accept : AcceptedAs (.submit ⟨b, kind⟩ (.ok reqId) :: calls) b' reqId' ↔
    (b' = b ∧ reqId' = reqId) ∨ AcceptedAs calls b' reqId' := by
  simp [AcceptedAs, exists_or]

@[simp] theorem acceptedAs_refuse :
    AcceptedAs (.submit request (.error e) :: calls) b' reqId' ↔ AcceptedAs calls b' reqId' := by
  simp [AcceptedAs]

@[simp] theorem acceptedAs_poll :
    AcceptedAs (.poll b reqId answer :: calls) b' reqId' ↔ AcceptedAs calls b' reqId' := by
  simp [AcceptedAs]

@[simp] theorem finished_submit : Finished (.submit request submitted :: calls) b' ↔ Finished calls b' := by
  simp [Finished]

@[simp] theorem finished_poll : Finished (.poll b reqId answer :: calls) b' ↔
    (b' = b ∧ answer ≠ .error .retry) ∨ Finished calls b' := by
  simp only [Finished, List.mem_cons, Call.poll.injEq, or_and_right, exists_or]
  refine or_congr_left ⟨?_, ?_⟩
  · rintro ⟨_, _, ⟨hb, -, rfl⟩, hanswer⟩
    exact ⟨hb, hanswer⟩
  · rintro ⟨hb, hanswer⟩
    exact ⟨_, _, ⟨hb, rfl, rfl⟩, hanswer⟩

@[simp] theorem completed_submit : Completed (.submit request submitted :: calls) b' ↔ Completed calls b' := by
  simp [Completed]

@[simp] theorem completed_poll : Completed (.poll b reqId answer :: calls) b' ↔
    (b' = b ∧ answer = .ok ()) ∨ Completed calls b' := by
  simp only [Completed, List.mem_cons, Call.poll.injEq, exists_or]
  refine or_congr_left ⟨?_, ?_⟩
  · rintro ⟨_, hb, -, hanswer⟩
    exact ⟨hb, hanswer.symm⟩
  · rintro ⟨hb, hanswer⟩
    exact ⟨_, hb, rfl, hanswer.symm⟩

theorem Completed.finished (h : Completed calls b) : Finished calls b := by
  obtain ⟨reqId, hpoll⟩ := h
  exact ⟨reqId, _, hpoll, by simp⟩

theorem Orderly.accepted (h : Orderly calls) (hb : Finished calls b) : Accepted calls b := by
  induction calls with
  | nil => exact absurd hb not_finished_nil
  | cons call calls ih =>
    rcases call with ⟨request, submitted⟩ | ⟨b', reqId, answer⟩
    · obtain ⟨reqId, kind, hmem⟩ := ih h.2 (finished_submit.mp hb)
      exact ⟨reqId, kind, List.mem_cons_of_mem _ hmem⟩
    · rcases finished_poll.mp hb with ⟨rfl, -⟩ | hb
      · exact ⟨reqId, acceptedAs_poll.mpr h.1⟩
      · obtain ⟨reqId', hmem⟩ := ih h.2.2 hb
        exact ⟨reqId', acceptedAs_poll.mpr hmem⟩

end Calls

variable {ι σ ω β γ ρ : Type}

/-- What is asked of a transfer: allocating does not panic as long as the pool is in order, which calls keep, and a
buffer that is kept can be taken. -/
structure Transfer.Sound (T : Transfer σ ω β γ ρ) (Ok : Pool σ → Prop) : Prop where
  alloc : ∀ {pool r pool'}, Ok pool → T.alloc pool = (r, pool') → r ≠ .error .panic ∧ Ok pool'
  release : ∀ {pool} buff, Ok pool → Ok (T.release buff pool)
  keep : ∀ b buff, ∃ x, T.take b (T.keep buff) = some x

namespace Future

variable {hw : IQueue ι} {T : Transfer σ ω β γ ρ} {f f' : Future ι σ ω γ ρ} {blk : ω} {b : Nat}
  {r : Except Halt Unit}

/-! ### The invariant -/

/-- The maps of the future are what its calls say. -/
structure Inv (T : Transfer σ ω β γ ρ) (f : Future ι σ ω γ ρ) : Prop where
  orderly : Orderly f.calls
  map : ∀ b reqId, f.map.get b = some reqId ↔ AcceptedAs f.calls b reqId
  requested : ∀ b, (∃ held, f.requested.get b = some held) ↔ ∃ reqId, f.map.get b = some reqId
  held : ∀ {b held}, f.requested.get b = some held → f.results.get b = none → ∃ x, T.take b held = some x
  finished : ∀ b, Finished f.calls b ↔
    (∃ result, f.results.get b = some result) ∧ ∃ reqId, f.map.get b = some reqId
  completed : ∀ b, (∃ data, f.results.get b = some (.ok data)) ↔ Completed f.calls b

theorem inv_start (T : Transfer σ ω β γ ρ) (q : CmdQueue ι σ) (blkLs : List ω) :
    Inv T { queue := q, blkLs := blkLs } := by
  constructor <;> simp [Orderly, SortedMap.get, SortedMap.empty]

section

variable (h : f.Inv T)

include h

theorem Inv.map_of_new (hnew : f.New b) : f.map.get b = none := by
  refine Option.eq_none_iff_forall_ne_some.mpr fun reqId hmap => ?_
  obtain ⟨held, hheld⟩ := (h.requested b).mpr ⟨reqId, hmap⟩
  cases hnew.2.symm.trans hheld

theorem Inv.not_accepted (hnew : f.New b) : ¬ Accepted f.calls b := by
  rintro ⟨reqId, haccepted⟩
  cases (h.map_of_new hnew).symm.trans ((h.map b reqId).mpr haccepted)

theorem Inv.not_finished (hnone : f.results.get b = none) : ¬ Finished f.calls b := by
  intro hfinished
  obtain ⟨⟨result, hresult⟩, -⟩ := (h.finished b).mp hfinished
  cases hnone.symm.trans hresult

variable {reqId : RequestId}

theorem Inv.results_eq_none (haccepted : AcceptedAs f.calls b reqId) (hfinished : ¬ Finished f.calls b) :
    f.results.get b = none := by
  refine Option.eq_none_iff_forall_ne_some.mpr fun result hresult => hfinished ?_
  exact (h.finished b).mpr ⟨⟨result, hresult⟩, reqId, (h.map b reqId).mpr haccepted⟩

theorem Inv.fail (hnew : f.New b) (e : BlkError) : (record b (.error e) f).Inv T := by
  have hmap := h.map_of_new hnew
  have hfinished := h.not_finished hnew.1
  refine ⟨h.orderly, h.map, h.requested, fun {b' held} hheld hnone => ?_, fun b' => ?_, fun b' => ?_⟩
  · exact h.held hheld (SortedMap.get_insert_eq_none.mp hnone).1
  · simp only [record, SortedMap.get_insert]
    by_cases hb : b' = b
    · subst hb
      simp [hfinished, hmap]
    · simp only [hb, if_false]
      exact h.finished b'
  · simp only [record, SortedMap.get_insert]
    by_cases hb : b' = b
    · subst hb
      simpa using fun hcompleted => hfinished (Completed.finished hcompleted)
    · simp only [hb, if_false]
      exact h.completed b'

theorem Inv.refuse (hnew : f.New b) (i : ι) (kind : RequestKind) (e : BlkError) :
    (f.called i (.submit ⟨b, kind⟩ (.error e))).Inv T := by
  refine ⟨⟨h.not_accepted hnew, h.orderly⟩, fun b' reqId => ?_, h.requested, h.held, fun b' => ?_, fun b' => ?_⟩
  · exact (h.map b' reqId).trans acceptedAs_refuse.symm
  · exact finished_submit.trans (h.finished b')
  · exact (h.completed b').trans completed_submit.symm

theorem Inv.accept (hnew : f.New b) (i : ι) (kind : RequestKind) (reqId : RequestId) {held : γ}
    (hheld : ∃ x, T.take b held = some x) :
    Inv T { f.called i (.submit ⟨b, kind⟩ (.ok reqId)) with
      map := f.map.insert b reqId
      requested := f.requested.insert b held } := by
  have hmap := h.map_of_new hnew
  have hfinished := h.not_finished hnew.1
  refine ⟨⟨h.not_accepted hnew, h.orderly⟩, fun b' reqId' => ?_, fun b' => ?_, fun {b' held'} hget hnone => ?_,
    fun b' => ?_, fun b' => (h.completed b').trans completed_submit.symm⟩
  · simp only [called, SortedMap.get_insert, acceptedAs_accept]
    by_cases hb : b' = b
    · subst hb
      have hnone : ¬ AcceptedAs f.calls b' reqId' := fun haccepted => h.not_accepted hnew ⟨_, haccepted⟩
      simp [hnone, eq_comm]
    · simp only [hb, if_false, false_and, false_or]
      exact h.map b' reqId'
  · simp only [SortedMap.get_insert]
    by_cases hb : b' = b
    · simp [hb]
    · simp only [hb, if_false]
      exact h.requested b'
  · simp only [SortedMap.get_insert] at hget
    split_ifs at hget with hb
    · exact hb ▸ Option.some.inj hget ▸ hheld
    · exact h.held hget hnone
  · simp only [called, SortedMap.get_insert, finished_submit]
    by_cases hb : b' = b
    · subst hb
      simp [hfinished, hnew.1]
    · simp only [hb, if_false]
      exact h.finished b'

theorem Inv.submitTurn (hkeep : ∀ b buff, ∃ x, T.take b (T.keep buff) = some x) (hturn : SubmitTurn hw T blk f r f') :
    f'.Inv T := by
  have hpool : ∀ pool, (f.withPool pool).Inv T := fun _ => { h with }
  cases hturn with
  | skip => exact h
  | @panic pool hnew halloc => exact hpool pool
  | @noBuffer e pool hnew halloc => exact (hpool pool).fail hnew _
  | @accepted buff pool reqId i hnew halloc hsubmit => exact (hpool pool).accept hnew i _ reqId (hkeep _ buff)
  | @retry buff pool i hnew halloc hsubmit => exact (hpool (T.release buff pool)).refuse hnew i _ _
  | @refused buff pool e i hnew halloc hsubmit he =>
    exact ((hpool (T.release buff pool)).refuse hnew i _ e).fail hnew e

theorem Inv.retry (hnone : f.results.get b = none) (hmap : f.map.get b = some reqId) (i : ι) :
    (f.called i (.poll b reqId (.error .retry))).Inv T := by
  refine ⟨⟨(h.map b reqId).mp hmap, h.not_finished hnone, h.orderly⟩, fun b' reqId' => ?_, h.requested, h.held,
    fun b' => ?_, fun b' => ?_⟩
  · exact (h.map b' reqId').trans acceptedAs_poll.symm
  · simp only [called, finished_poll, ne_eq, not_true, and_false, false_or]
    exact h.finished b'
  · simp only [called, completed_poll, reduceCtorEq, and_false, false_or]
    exact h.completed b'

theorem Inv.finish (hnone : f.results.get b = none) (hmap : f.map.get b = some reqId) (i : ι)
    {answer : Except BlkError Unit} (hanswer : answer ≠ .error .retry) {result : Except BlkError ρ}
    (hresult : (∃ data, result = .ok data) ↔ answer = .ok ()) {requested : SortedMap Nat γ}
    (hrequested : ∀ b', requested.get b' = f.requested.get b' ∨ b' = b ∧ ∃ left, requested.get b' = some left) :
    Inv T { f.called i (.poll b reqId answer) with
      requested := requested
      results := f.results.insert b result } := by
  refine ⟨⟨(h.map b reqId).mp hmap, h.not_finished hnone, h.orderly⟩, fun b' reqId' => ?_, fun b' => ?_,
    fun {b' held} hheld hnone' => ?_, fun b' => ?_, fun b' => ?_⟩
  · exact (h.map b' reqId').trans acceptedAs_poll.symm
  · rcases hrequested b' with hsame | ⟨rfl, hleft⟩
    · show (∃ held, requested.get b' = some held) ↔ _
      rw [hsame]
      exact h.requested b'
    · exact iff_of_true hleft ⟨reqId, hmap⟩
  · obtain ⟨hnone', hb⟩ := SortedMap.get_insert_eq_none.mp hnone'
    rcases hrequested b' with hsame | ⟨hb', -⟩
    · exact h.held (hsame ▸ hheld) hnone'
    · exact absurd hb' hb
  · simp only [called, finished_poll, SortedMap.get_insert]
    by_cases hb : b' = b
    · subst hb
      simp [hanswer, hmap]
    · simp only [hb, if_false, false_and, false_or]
      exact h.finished b'
  · simp only [called, completed_poll, SortedMap.get_insert]
    by_cases hb : b' = b
    · subst hb
      have hnot : ¬ Completed f.calls b' := fun hcompleted => h.not_finished hnone hcompleted.finished
      simpa [hnot] using hresult
    · simp only [hb, if_false, false_and, false_or]
      exact h.completed b'

theorem Inv.pollTurn (hrequested : ∃ held, f.requested.get b = some held) (hturn : PollTurn hw T b f r f') :
    f'.Inv T ∧ r ≠ .error .panic := by
  obtain ⟨held, hheld⟩ := hrequested
  cases hturn with
  | skip => exact ⟨h, by simp⟩
  | noRequest hnone hmap =>
    obtain ⟨reqId, hmap'⟩ := (h.requested b).mp ⟨held, hheld⟩
    cases hmap.symm.trans hmap'
  | noBuffer hnone hmap hpoll htake =>
    obtain ⟨x, hx⟩ := h.held hheld hnone
    rw [hheld, Option.bind_some, hx] at htake
    cases htake
  | @completed reqId i data left hnone hmap hpoll htake =>
    refine ⟨h.finish hnone hmap i (by simp) (by simp) fun b' => ?_, by simp⟩
    rw [SortedMap.get_insert]
    by_cases hb : b' = b
    · exact .inr ⟨hb, by simp [hb]⟩
    · exact .inl (if_neg hb)
  | @retry reqId i hnone hmap hpoll => exact ⟨h.retry hnone hmap i, by simp⟩
  | @failed reqId i e hnone hmap hpoll he =>
    exact ⟨h.finish hnone hmap i (by simpa using he) (by simp) fun b' => .inl rfl, by simp⟩

end

/-! ### The loops -/

/-- What holds between the turns of a poll. -/
structure Base (T : Transfer σ ω β γ ρ) (Ok : Pool σ → Prop) (blkLs : List ω) (f : Future ι σ ω γ ρ) : Prop
    extends f.Inv T where
  pool : Ok f.queue.pool
  blkLs : f.blkLs = blkLs

section Loops

variable {Ok : Pool σ → Prop} {blkLs : List ω} {K L E : Future ι σ ω γ ρ → Prop}

theorem Base.submitTurn (hT : T.Sound Ok) (h : Base T Ok blkLs f) (hturn : SubmitTurn hw T blk f r f') :
    Base T Ok blkLs f' ∧ r ≠ .error .panic := by
  have hinv := h.toInv.submitTurn hT.keep hturn
  have hblks := h.blkLs
  have hpool := h.pool
  cases hturn with
  | skip => exact ⟨h, by simp⟩
  | panic hnew halloc => exact absurd rfl (hT.alloc hpool halloc).1
  | noBuffer hnew halloc | accepted hnew halloc hsubmit => exact ⟨⟨hinv, (hT.alloc hpool halloc).2, hblks⟩, by simp⟩
  | retry hnew halloc hsubmit | refused hnew halloc hsubmit he =>
    exact ⟨⟨hinv, hT.release _ (hT.alloc hpool halloc).2, hblks⟩, by simp⟩

theorem SubmitTurn.new {b : Nat} (hturn : SubmitTurn hw T blk f (.ok ()) f') (hnew : f'.New b) :
    f.New b ∧ b ≠ T.blkId blk := by
  cases hturn with
  | skip hold => exact ⟨hnew, fun hb => hold (hb ▸ hnew)⟩
  | noBuffer hblk halloc | refused hblk halloc hsubmit he =>
    obtain ⟨hresult, hb⟩ := SortedMap.get_insert_eq_none.mp hnew.1
    exact ⟨⟨hresult, hnew.2⟩, hb⟩
  | accepted hblk halloc hsubmit =>
    obtain ⟨hrequest, hb⟩ := SortedMap.get_insert_eq_none.mp hnew.2
    exact ⟨⟨hnew.1, hrequest⟩, hb⟩

/-- The first loop: it ends with a result or a request for every block, or with `Pending`. -/
theorem submit_loop (hT : T.Sound Ok)
    (hsubmit : ∀ {blk f f'}, blk ∈ blkLs → Base T Ok blkLs f → K f → SubmitTurn hw T blk f (.ok ()) f' → K f')
    (hretry : ∀ {blk f f'}, blk ∈ blkLs → Base T Ok blkLs f → K f → SubmitTurn hw T blk f (.error .pending) f' → E f') :
    Exec.Triple (fun f => Base T Ok blkLs f ∧ K f) (blkLs.forM (submitBlock hw T))
      (fun _ f => Base T Ok blkLs f ∧ K f ∧ ∀ blk ∈ blkLs, ¬ f.New (T.blkId blk))
      fun e f => e = .pending ∧ Base T Ok blkLs f ∧ E f := by
  have hloop := Exec.Triple.forM (I := fun rest f => Base T Ok blkLs f ∧ K f ∧ rest ⊆ blkLs ∧
      ∀ blk ∈ blkLs, f.New (T.blkId blk) → blk ∈ rest) (E := fun e f => e = .pending ∧ Base T Ok blkLs f ∧ E f)
    (f := submitBlock hw T) ?_ blkLs
  · rintro f ⟨hbase, hk⟩
    obtain ⟨hok, herror⟩ := hloop ⟨hbase, hk, List.Subset.refl _, fun blk hblk _ => hblk⟩
    refine ⟨fun a f' hrun => ?_, herror⟩
    obtain ⟨hbase', hk', -, hdone⟩ := hok a f' hrun
    exact ⟨hbase', hk', fun blk hblk hnew => List.not_mem_nil (hdone blk hblk hnew)⟩
  · rintro blk rest f ⟨hbase, hk, hsub, hrest⟩
    obtain ⟨hblk, hsub⟩ := List.cons_subset.mp hsub
    refine ⟨fun _ f' hrun => ?_, fun e f' hrun => ?_⟩
    · have hturn := submitBlock_turn hrun
      refine ⟨(hbase.submitTurn hT hturn).1, hsubmit hblk hbase hk hturn, hsub, fun blk' hblk' hnew => ?_⟩
      obtain ⟨hnew, hne⟩ := hturn.new hnew
      exact (List.mem_cons.mp (hrest blk' hblk' hnew)).resolve_left fun he => hne (congrArg _ he)
    · have hturn := submitBlock_turn hrun
      obtain ⟨hbase', hpanic⟩ := hbase.submitTurn hT hturn
      cases e with
      | pending => exact ⟨rfl, hbase', hretry hblk hbase hk hturn⟩
      | panic => exact absurd rfl hpanic

theorem Base.pollTurn (h : Base T Ok blkLs f) (hrequested : ∃ held, f.requested.get b = some held)
    (hturn : PollTurn hw T b f r f') : Base T Ok blkLs f' ∧ r ≠ .error .panic := by
  obtain ⟨hinv, hpanic⟩ := h.toInv.pollTurn hrequested hturn
  have hblks := h.blkLs
  have hpool := h.pool
  refine ⟨?_, hpanic⟩
  cases hturn <;> exact ⟨hinv, hpool, hblks⟩

theorem PollTurn.same (hturn : PollTurn hw T b f (.ok ()) f') (hrequested : ∃ held, f.requested.get b = some held) :
    (∀ b', (∃ held, f'.requested.get b' = some held) ↔ ∃ held, f.requested.get b' = some held) ∧
      ∀ b', f'.results.get b' = none → f.results.get b' = none ∧ b' ≠ b := by
  cases hturn with
  | skip hresult =>
    refine ⟨fun _ => .rfl, fun b' hnone => ⟨hnone, ?_⟩⟩
    rintro rfl
    cases hnone.symm.trans hresult
  | completed hnone hmap hpoll htake =>
    refine ⟨fun b' => ?_, fun b' hnone' => SortedMap.get_insert_eq_none.mp hnone'⟩
    simp only [SortedMap.get_insert]
    by_cases hb : b' = b
    · subst hb
      simp [hrequested]
    · simp only [hb, if_false]
  | failed hnone hmap hpoll he => exact ⟨fun _ => .rfl, fun b' hnone' => SortedMap.get_insert_eq_none.mp hnone'⟩

theorem PollTurn.new {r : Except Halt Unit} (hturn : PollTurn hw T b f r f') {b' : Nat} (hnew : f'.New b') :
    f.New b' := by
  cases hturn with
  | completed hnone hmap hpoll htake =>
    exact ⟨(SortedMap.get_insert_eq_none.mp hnew.1).1, (SortedMap.get_insert_eq_none.mp hnew.2).1⟩
  | failed hnone hmap hpoll he => exact ⟨(SortedMap.get_insert_eq_none.mp hnew.1).1, hnew.2⟩
  | _ => exact hnew

/-- The second loop: it ends with a result for every block, or with `Pending`. -/
theorem poll_loop {keys : List Nat}
    (hpoll : ∀ {b f f'}, Base T Ok blkLs f → L f → PollTurn hw T b f (.ok ()) f' → L f')
    (hagain : ∀ {b f f'}, Base T Ok blkLs f → L f → PollTurn hw T b f (.error .pending) f' → E f') :
    Exec.Triple (fun f => (Base T Ok blkLs f ∧ L f ∧ ∀ blk ∈ blkLs, ¬ f.New (T.blkId blk)) ∧ f.requested.keys = keys)
      (keys.forM (pollBlock hw T))
      (fun _ f => Base T Ok blkLs f ∧ L f ∧ (∀ blk ∈ blkLs, ¬ f.New (T.blkId blk)) ∧
        ∀ b, (∃ held, f.requested.get b = some held) → f.results.get b ≠ none)
      fun e f => e = .pending ∧ Base T Ok blkLs f ∧ E f := by
  have hloop := Exec.Triple.forM (I := fun rest f => Base T Ok blkLs f ∧ L f ∧
      (∀ blk ∈ blkLs, ¬ f.New (T.blkId blk)) ∧ (∀ b ∈ rest, ∃ held, f.requested.get b = some held) ∧
      ∀ b, (∃ held, f.requested.get b = some held) → f.results.get b = none → b ∈ rest)
    (E := fun e f => e = .pending ∧ Base T Ok blkLs f ∧ E f) (f := pollBlock hw T) ?_ keys
  · rintro f ⟨⟨hbase, hl, hdone⟩, rfl⟩
    obtain ⟨hok, herror⟩ := hloop ⟨hbase, hl, hdone, fun b hb => SortedMap.mem_keys.mp hb,
      fun b hb _ => SortedMap.mem_keys.mpr hb⟩
    refine ⟨fun a f' hrun => ?_, herror⟩
    obtain ⟨hbase', hl', hdone', -, hresults⟩ := hok a f' hrun
    exact ⟨hbase', hl', hdone', fun b hb hnone => List.not_mem_nil (hresults b hb hnone)⟩
  · rintro b rest f ⟨hbase, hl, hdone, hrequested, hresults⟩
    have hb := hrequested b List.mem_cons_self
    refine ⟨fun _ f' hrun => ?_, fun e f' hrun => ?_⟩
    · have hturn := pollBlock_turn hrun
      obtain ⟨hsame, hleft⟩ := hturn.same hb
      refine ⟨(hbase.pollTurn hb hturn).1, hpoll hbase hl hturn, fun blk hblk hnew => ?_, fun b' hb' => ?_,
        fun b' hb' hnone => ?_⟩
      · exact hdone blk hblk (hturn.new hnew)
      · exact (hsame b').mpr (hrequested b' (List.mem_cons_of_mem b hb'))
      · obtain ⟨hnone, hne⟩ := hleft b' hnone
        exact (List.mem_cons.mp (hresults b' ((hsame b').mp hb') hnone)).resolve_left hne
    · have hturn := pollBlock_turn hrun
      obtain ⟨hbase', hpanic⟩ := hbase.pollTurn hb hturn
      cases e with
      | pending => exact ⟨rfl, hbase', hagain hbase hl hturn⟩
      | panic => exact absurd rfl hpanic

/-- A poll with an invariant for each loop returns `Pending`, or the results in the order of the blocks. -/
theorem poll_spec (hw : IQueue ι) (hT : T.Sound Ok) (hdistinct : (blkLs.map T.blkId).Nodup)
    (hsubmit : ∀ {blk f f'}, blk ∈ blkLs → Base T Ok blkLs f → K f → SubmitTurn hw T blk f (.ok ()) f' → K f')
    (hretry : ∀ {blk f f'}, blk ∈ blkLs → Base T Ok blkLs f → K f → SubmitTurn hw T blk f (.error .pending) f' → E f')
    (hmid : ∀ {f}, Base T Ok blkLs f → K f → (∀ blk ∈ blkLs, ¬ f.New (T.blkId blk)) → L f)
    (hpoll : ∀ {b f f'}, Base T Ok blkLs f → L f → PollTurn hw T b f (.ok ()) f' → L f')
    (hagain : ∀ {b f f'}, Base T Ok blkLs f → L f → PollTurn hw T b f (.error .pending) f' → E f') :
    Exec.Triple (fun f => Base T Ok blkLs f ∧ K f) (poll hw T)
      (fun out f' => ∃ f results, f' = { f with results := results } ∧ Base T Ok blkLs f ∧ L f ∧
        (∀ b, Accepted f.calls b → Finished f.calls b) ∧
        List.Forall₂ (fun blk result => f.results.get (T.blkId blk) = some result) blkLs out)
      fun e f => e = .pending ∧ Base T Ok blkLs f ∧ E f := by
  refine Exec.Triple.gets fun blks => ?_
  rintro f ⟨⟨hbase, hk⟩, hblks⟩
  obtain rfl : blkLs = blks := hbase.blkLs.symm.trans hblks
  refine ((submit_loop hT hsubmit hretry).bind fun _ => Exec.Triple.gets fun keys => ?_) ⟨hbase, hk⟩
  rintro f ⟨⟨hbase, hk, hdone⟩, hkeys⟩
  refine ((poll_loop hpoll hagain).bind fun _ => Exec.Triple.gets fun blks => ?_)
    ⟨⟨hbase, hmid hbase hk hdone, hdone⟩, hkeys⟩
  rintro f ⟨⟨hbase, hl, hdone, hfinished⟩, hblks⟩
  obtain rfl : blkLs = blks := hbase.blkLs.symm.trans hblks
  have hresults : ∀ blk ∈ blkLs, ∃ result, f.results.get (T.blkId blk) = some result := by
    refine fun blk hblk => Option.ne_none_iff_exists'.mp fun hnone => ?_
    exact hdone blk hblk ⟨hnone, Option.eq_none_iff_forall_ne_some.mpr fun held hheld => hfinished _ ⟨held, hheld⟩ hnone⟩
  have haccepted : ∀ b, Accepted f.calls b → Finished f.calls b := by
    rintro b ⟨reqId, haccepted⟩
    have hmap := (hbase.map b reqId).mpr haccepted
    have hresult := hfinished b ((hbase.requested b).mpr ⟨reqId, hmap⟩)
    exact (hbase.finished b).mpr ⟨Option.ne_none_iff_exists'.mp hresult, reqId, hmap⟩
  obtain ⟨out, results, hrun, hout⟩ := takeResults_eq hdistinct hresults
  refine ⟨fun out' f' hrun' => ?_, fun e f' hrun' => ?_⟩
  · obtain ⟨hout', rfl⟩ := Prod.mk.inj (hrun.symm.trans hrun')
    obtain rfl := Except.ok.inj hout'
    exact ⟨f, results, rfl, hbase, hl, haccepted, hout⟩
  · cases (Prod.mk.inj (hrun.symm.trans hrun')).1

theorem poll_base (hw : IQueue ι) (hT : T.Sound Ok) (hdistinct : (blkLs.map T.blkId).Nodup) :
    Exec.Triple (Base T Ok blkLs) (poll hw T)
      (fun out f' => ∃ f results, f' = { f with results := results } ∧ Base T Ok blkLs f ∧
        List.Forall₂ (fun blk result => f.results.get (T.blkId blk) = some result) blkLs out)
      fun e f => e = .pending ∧ Base T Ok blkLs f := by
  intro f hbase
  obtain ⟨hok, herror⟩ := poll_spec hw (K := fun _ => True) (L := fun _ => True) (E := fun _ => True) hT hdistinct
    (fun _ _ _ _ => trivial) (fun _ _ _ _ => trivial) (fun _ _ _ => trivial) (fun _ _ _ => trivial)
    (fun _ _ _ => trivial) ⟨hbase, trivial⟩
  refine ⟨fun out f' hrun => ?_, fun e f' hrun => ?_⟩
  · obtain ⟨f₁, results, hf', hbase', -, -, hout⟩ := hok out f' hrun
    exact ⟨f₁, results, hf', hbase', hout⟩
  · obtain ⟨he, hbase', -⟩ := herror e f' hrun
    exact ⟨he, hbase'⟩

end Loops

/-! ### What is returned -/

/-- Polls of a future for the given blocks, up to the one that returns `Ready`: none panics, the calls are in order, and
the output says for each block whether its request was accepted and completed. -/
structure Faithful (hw : IQueue ι) (T : Transfer σ ω β γ ρ) (start : Future ι σ ω γ ρ) (blkIds : List Nat) : Prop where
  noPanic : ∀ f, Waits hw T start f → (poll hw T f).1 ≠ .error .panic
  orderly : ∀ f, Waits hw T start f → Orderly (poll hw T f).2.calls
  results : ∀ f out f', Waits hw T start f → poll hw T f = (.ok out, f') →
    List.Forall₂ (fun b result => (∃ data, result = .ok data) ↔ Accepted f'.calls b ∧ Completed f'.calls b) blkIds out

section Runs

variable {Ok : Pool σ → Prop} {blkLs : List ω} {start : Future ι σ ω γ ρ}

theorem Base.waits (hT : T.Sound Ok) (hdistinct : (blkLs.map T.blkId).Nodup) (hstart : Base T Ok blkLs start)
    (hwaits : Waits hw T start f) : Base T Ok blkLs f := by
  induction hwaits with
  | refl => exact hstart
  | tail _ hpending ih => exact ((poll_base hw hT hdistinct ih).2 _ _ hpending).2

theorem Base.faithful (hT : T.Sound Ok) (hdistinct : (blkLs.map T.blkId).Nodup) (hstart : Base T Ok blkLs start) :
    Faithful hw T start (blkLs.map T.blkId) := by
  refine ⟨fun f hwaits hpanic => ?_, fun f hwaits => ?_, fun f out f' hwaits hready => ?_⟩
  · obtain ⟨-, herror⟩ := poll_base hw hT hdistinct (hstart.waits hT hdistinct hwaits)
    cases (herror .panic (poll hw T f).2 (Prod.ext hpanic rfl)).1
  · obtain ⟨hok, herror⟩ := poll_base hw hT hdistinct (hstart.waits hT hdistinct hwaits)
    rcases hrun : poll hw T f with ⟨e | out, f'⟩
    · exact (herror e f' hrun).2.orderly
    · obtain ⟨f₁, results, rfl, hbase, -⟩ := hok out f' hrun
      exact hbase.orderly
  · obtain ⟨hok, -⟩ := poll_base hw hT hdistinct (hstart.waits hT hdistinct hwaits)
    obtain ⟨f₁, results, rfl, hbase, hout⟩ := hok out f' hready
    refine List.forall₂_map_left_iff.mpr (hout.imp fun blk result hresult => ?_)
    have hcompleted := hbase.completed (T.blkId blk)
    rw [hresult] at hcompleted
    constructor
    · rintro ⟨data, rfl⟩
      have hdone := hcompleted.mp ⟨data, rfl⟩
      exact ⟨hbase.orderly.accepted hdone.finished, hdone⟩
    · rintro ⟨-, hdone⟩
      obtain ⟨data, hdata⟩ := hcompleted.mpr hdone
      exact ⟨data, Option.some.inj hdata⟩

end Runs

end Future

/-! ### The two futures -/

theorem ReadFuture.sound (d : DeviceDma σ) {config : Dma.DArrayConfig} (hsize : config.size < 2 ^ 64) :
    (transfer d).Sound fun pool => pool.config = config where
  alloc {pool r pool'} hconfig halloc := by
    exact ⟨Dma.alloc_ne_panic (hconfig ▸ hsize) halloc, (Dma.alloc_config halloc).trans hconfig⟩
  release buff hconfig := by
    simp only [transfer, Dma.DBuff.drop]
    split_ifs <;> exact hconfig
  keep b buff := ⟨_, rfl⟩

theorem WriteFuture.sound : (transfer (σ := σ)).Sound fun _ => True where
  alloc {pool r pool'} _ halloc := by
    obtain ⟨rfl, -⟩ := Prod.mk.inj halloc
    exact ⟨by simp, trivial⟩
  release _ _ := trivial
  keep b buff := ⟨_, rfl⟩

theorem CmdQueue.blkLs_readBlocks (q : CmdQueue ι σ) {blkId blkCount : Nat} (h : blkId + blkCount < 2 ^ 64) :
    (q.readBlocks blkId blkCount).blkLs = List.range' blkId blkCount := by
  simp only [readBlocks, Nat.mod_eq_of_lt h, Nat.add_sub_cancel_left]

theorem CmdQueue.blkLs_writeBlocks {hw : IQueue ι} {q : CmdQueue ι σ} {startBlkId : Nat} {data : List UInt8}
    {f : WriteFuture ι σ} (hwrite : q.writeBlocks hw startBlkId data = some f)
    (h : startBlkId + data.length / hw.blockSize q.interface ≤ 2 ^ 64) :
    ∃ blkLs, f = { queue := q, blkLs := blkLs } ∧
      blkLs.map Prod.fst = List.range' startBlkId (data.length / hw.blockSize q.interface) := by
  simp only [writeBlocks] at hwrite
  split_ifs at hwrite
  obtain rfl := Option.some.inj hwrite
  refine ⟨_, rfl, ?_⟩
  rw [List.range'_eq_map_range, List.map_map]
  refine List.map_congr_left fun i hi => Nat.mod_eq_of_lt ?_
  have hlt := List.mem_range.mp hi
  omega

/-- The futures of `read_blocks` and `write_blocks` return one faithful result for each block. -/
theorem blocks_faithful (hw : IQueue ι) (d : DeviceDma σ) (q : CmdQueue ι σ) (hsize : q.pool.config.size < 2 ^ 64) :
    (∀ blkId blkCount, blkId + blkCount < 2 ^ 64 →
      Future.Faithful hw (ReadFuture.transfer d) (q.readBlocks blkId blkCount) (List.range' blkId blkCount)) ∧
    ∀ startBlkId data f, q.writeBlocks hw startBlkId data = some f →
      startBlkId + data.length / hw.blockSize q.interface ≤ 2 ^ 64 →
      Future.Faithful hw WriteFuture.transfer f
        (List.range' startBlkId (data.length / hw.blockSize q.interface)) := by
  refine ⟨fun blkId blkCount hrange => ?_, fun startBlkId data f hwrite hrange => ?_⟩
  · have hblks := q.blkLs_readBlocks hrange
    have hids : (List.range' blkId blkCount).map (ReadFuture.transfer d).blkId = List.range' blkId blkCount :=
      List.map_id _
    have hbase : Future.Base (ReadFuture.transfer d) (fun pool => pool.config = q.pool.config)
        (List.range' blkId blkCount) (q.readBlocks blkId blkCount) := ⟨Future.inv_start _ _ _, rfl, hblks⟩
    have hfaithful : Future.Faithful hw _ _ _ :=
      hbase.faithful (ReadFuture.sound d hsize) (hids.symm ▸ List.nodup_range')
    rwa [hids] at hfaithful
  · obtain ⟨blkLs, rfl, hids⟩ := CmdQueue.blkLs_writeBlocks hwrite hrange
    have hbase : Future.Base (WriteFuture.transfer (σ := σ)) (fun _ => True) blkLs
        ({ queue := q, blkLs := blkLs } : WriteFuture ι σ) := ⟨Future.inv_start _ _ _, trivial, rfl⟩
    exact hids ▸ hbase.faithful WriteFuture.sound (hids ▸ List.nodup_range')

/-- A queue that accepts every request and has completed it when it is polled. -/
def instant : IQueue Unit where
  blockSize _ := 4
  buffConfig _ := ⟨2 ^ 32 - 1, 64, 64⟩
  submitRequest _ request := (.ok ⟨request.blockId⟩, ())
  pollRequest _ _ := (.ok (), ())

theorem validLayout_block : Dma.ValidLayout 64 64 := by decide

def instantQueue : CmdQueue Unit Nat :=
  ⟨(), Dma.newPool ⟨Pool.bumpBackend, 2 ^ 32 - 1⟩ ⟨64, 64, validLayout_block⟩ .fromDevice 2 Pool.freshWorld⟩

theorem blocks_faithful_instant : ∃ out f,
    ReadFuture.poll instant ⟨Pool.bumpBackend, 2 ^ 32 - 1⟩ (instantQueue.readBlocks 7 2) = (.ok out, f) ∧
      List.Forall₂ (fun b result => (∃ data, result = .ok data) ↔ Accepted f.calls b ∧ Completed f.calls b) [7, 8] out := by
  have hready : (ReadFuture.poll instant ⟨Pool.bumpBackend, 2 ^ 32 - 1⟩ (instantQueue.readBlocks 7 2)).1.toBool := by
    decide +kernel
  rcases hrun : ReadFuture.poll instant ⟨Pool.bumpBackend, 2 ^ 32 - 1⟩ (instantQueue.readBlocks 7 2) with ⟨e | out, f⟩
  · rw [hrun] at hready
    cases hready
  · have hfaithful :=
      (blocks_faithful instant ⟨Pool.bumpBackend, 2 ^ 32 - 1⟩ instantQueue (by decide +kernel)).1 7 2 (by decide)
    exact ⟨out, f, rfl, hfaithful.results _ out f .refl hrun⟩

end Sparreal.Block
