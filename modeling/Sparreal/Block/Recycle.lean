import Sparreal.Lib.Machine
import Sparreal.Block.Results

/-!
# Buffers of block reads

While the device has a request, the buffer of the request is in the map of the `ReadFuture`. A future that is dropped
returns it to the pool with the others, whether or not the request was finished: the buffers of accepted requests
stay out of the pool until their requests are finished if and only if the future is not dropped before
(`recycled_iff`).
-/

namespace Sparreal.Block

open Dma (DeviceDma DmaOp World DCommon Pool Fresh)

variable {ι σ : Type}

namespace ReadFuture

/-! ### Runs of a future -/

inductive Stage where
  | polling
  | ready
  | dropped
  | panicked
  deriving DecidableEq, Repr

structure State (ι σ : Type) where
  future : ReadFuture ι σ
  stage : Stage := .polling

inductive Event where
  | poll
  | drop
  deriving DecidableEq, Repr

/-- A future is polled until it is ready, and dropped at any time. -/
def step (hw : IQueue ι) (d : DeviceDma σ) (s : State ι σ) : Event → Option (State ι σ)
  | .poll =>
    if s.stage = .polling then
      match poll hw d s.future with
      | (.ok _, f) => some ⟨f, .ready⟩
      | (.error .pending, f) => some ⟨f, .polling⟩
      | (.error .panic, f) => some ⟨f, .panicked⟩
    else none
  | .drop => if s.stage = .polling ∨ s.stage = .ready then some ⟨s.future.drop d, .dropped⟩ else none

/-- No buffer of the pool is one that the device was given with a request that is not finished. -/
def Safe (f : ReadFuture ι σ) : Prop :=
  ∀ blkId buffer reqId, Call.submit ⟨blkId, .read buffer⟩ (.ok reqId) ∈ f.calls → ¬ Finished f.calls blkId →
    ∀ c ∈ f.queue.pool.pool, c.handle.dmaAddr ≠ buffer.bus

/-- The future is dropped while the device has one of its requests. -/
def Hazard (s : State ι σ) (e : Event) : Prop :=
  e = .drop ∧ ∃ blkId, Accepted s.future.calls blkId ∧ ¬ Finished s.future.calls blkId

/-! ### Who has the buffers -/

variable {hw : IQueue ι} {d : DeviceDma σ} {f f' : ReadFuture ι σ} {blk b : Nat} {r : Except Halt Unit}

/-- The buffers of requests are those of `DBuff`s that the future keeps until the request has a result. -/
structure Owned (f : ReadFuture ι σ) : Prop where
  stock : f.queue.pool.Stock
  alive : f.queue.pool.handles ≠ 0
  held : ∀ {b c}, f.requested.get b = some (some c) → c ∈ f.queue.pool.buffs
  sent : ∀ {b kind reqId}, Call.submit ⟨b, kind⟩ (.ok reqId) ∈ f.calls → f.results.get b = none →
    ∃ c, f.requested.get b = some (some c) ∧ kind = .read ⟨c.handle.cpuAddr, c.handle.dmaAddr, c.handle.size⟩

theorem Owned.safe (h : f.Owned) (hinv : f.Inv (transfer d)) : f.Safe := by
  intro b buffer reqId hsubmit hfinished c hc haddr
  obtain ⟨c', hheld, hkind⟩ := h.sent hsubmit (hinv.results_eq_none ⟨_, hsubmit⟩ hfinished)
  obtain rfl := RequestKind.read.inj hkind
  exact h.stock.apart hc (h.held hheld) haddr

theorem Owned.alloc (h : f.Owned) {r : Except Dma.Fault DCommon} {pool : Pool σ}
    (halloc : Dma.DArrayPool.alloc d f.queue.pool = (r, pool)) (hfresh : Fresh pool.world.calls) :
    Owned (f.withPool pool) ∧ ∀ c, r = .ok c → c ∈ pool.buffs ∧ c ∉ f.queue.pool.buffs := by
  have hallocated := h.stock.alloc halloc hfresh
  have hbuffs := hallocated.buffs
  refine ⟨⟨hallocated.stock, ?_, fun hheld => ?_, h.sent⟩, ?_⟩
  · show pool.handles ≠ 0
    rw [hallocated.handles]
    exact h.alive
  · show _ ∈ pool.buffs
    rw [hbuffs]
    exact List.mem_append_left _ (h.held hheld)
  · rintro c rfl
    have hnodup := hallocated.stock.nodup_buffs
    rw [hbuffs] at hnodup ⊢
    refine ⟨List.mem_append_right _ List.mem_cons_self, fun hmem => ?_⟩
    exact (List.nodup_append.mp hnodup).2.2 c hmem c List.mem_cons_self rfl

theorem Owned.release {pool : Pool σ} (h : Owned (f.withPool pool)) {c : DCommon} (hc : c ∈ pool.buffs)
    (hnot : ∀ {b}, f.requested.get b ≠ some (some c)) : Owned (f.withPool (Dma.DBuff.drop d c pool)) := by
  have hdrop : Dma.DBuff.drop d c pool = { pool with buffs := pool.buffs.erase c, pool := pool.pool ++ [c] } :=
    if_neg h.alive
  refine ⟨h.stock.drop h.alive hc, ?_, fun {b c'} hheld => ?_, h.sent⟩
  · show (Dma.DBuff.drop d c pool).handles ≠ 0
    rw [hdrop]
    exact h.alive
  · show c' ∈ (Dma.DBuff.drop d c pool).buffs
    rw [hdrop]
    refine (List.mem_erase_of_ne ?_).mpr (h.held hheld)
    rintro rfl
    exact hnot hheld

theorem Owned.record (h : f.Owned) (b : Nat) (result : Except BlkError BlockData) : Owned (f.record b result) := by
  refine ⟨h.stock, h.alive, h.held, fun hsubmit hnone => ?_⟩
  exact h.sent hsubmit (SortedMap.get_insert_eq_none.mp hnone).1

theorem Owned.called (h : f.Owned) (i : ι) {call : Call}
    (hcall : ∀ request reqId, call ≠ .submit request (.ok reqId)) : Owned (f.called i call) := by
  refine ⟨h.stock, h.alive, h.held, fun hsubmit hnone => ?_⟩
  rcases List.mem_cons.mp hsubmit with heq | hmem
  · exact absurd heq.symm (hcall _ _)
  · exact h.sent hmem hnone

theorem Owned.accept (h : f.Owned) (hnew : f.New b) {c : DCommon} (hc : c ∈ f.queue.pool.buffs) (i : ι)
    (reqId : RequestId) :
    Owned { f.called i (.submit ⟨b, (transfer d).kind b c⟩ (.ok reqId)) with
      map := f.map.insert b reqId
      requested := f.requested.insert b (some c) } := by
  refine ⟨h.stock, h.alive, fun {b' c'} hheld => ?_, fun {b' buffer reqId'} hsubmit hnone => ?_⟩
  · simp only [SortedMap.get_insert] at hheld
    split_ifs at hheld
    · obtain rfl := Option.some.inj (Option.some.inj hheld)
      exact hc
    · exact h.held hheld
  · simp only [SortedMap.get_insert]
    rcases List.mem_cons.mp hsubmit with heq | hmem
    · obtain ⟨hrequest, -⟩ := Call.submit.inj heq
      obtain ⟨rfl, hkind⟩ := Request.mk.inj hrequest
      exact ⟨c, if_pos rfl, hkind⟩
    · obtain ⟨c', hheld, hkind⟩ := h.sent hmem hnone
      refine ⟨c', ?_, hkind⟩
      rw [if_neg]
      · exact hheld
      · rintro rfl
        cases hnew.2.symm.trans hheld

theorem Owned.submitTurn (h : f.Owned) (hturn : Future.SubmitTurn hw (transfer d) blk f r f')
    (hfresh : Fresh f'.queue.pool.world.calls) : f'.Owned := by
  cases hturn with
  | skip => exact h
  | panic hnew halloc => exact (h.alloc halloc hfresh).1
  | noBuffer hnew halloc => exact (h.alloc halloc hfresh).1.record _ _
  | @accepted c pool reqId i hnew halloc hsubmit =>
    obtain ⟨howned, hbuff⟩ := h.alloc halloc hfresh
    exact howned.accept hnew (hbuff c rfl).1 i reqId
  | @retry c pool i hnew halloc hsubmit =>
    obtain ⟨howned, hbuff⟩ := h.alloc halloc (hfresh.of_suffix (Dma.buff_drop_suffix d c pool))
    obtain ⟨hmem, hnot⟩ := hbuff c rfl
    exact (howned.release hmem fun hheld => hnot (h.held hheld)).called i (by simp)
  | @refused c pool e i hnew halloc hsubmit he =>
    obtain ⟨howned, hbuff⟩ := h.alloc halloc (hfresh.of_suffix (Dma.buff_drop_suffix d c pool))
    obtain ⟨hmem, hnot⟩ := hbuff c rfl
    exact ((howned.release hmem fun hheld => hnot (h.held hheld)).called i (by simp)).record _ _

theorem Owned.pollTurn (h : f.Owned) (hturn : Future.PollTurn hw (transfer d) b f r f') : f'.Owned := by
  cases hturn with
  | skip => exact h
  | noRequest => exact h
  | noBuffer | retry => exact h.called _ (by simp)
  | @completed reqId i data left hnone hmap hpoll htake =>
    have hcalled : Owned (f.called i (.poll b reqId (.ok ()))) := h.called i (by simp)
    refine ⟨h.stock, h.alive, fun {b' c} hheld => ?_, fun {b' buffer reqId'} hsubmit hnone' => ?_⟩
    · simp only [SortedMap.get_insert] at hheld
      split_ifs at hheld
      · obtain ⟨held, -, hleft⟩ := Option.bind_eq_some_iff.mp htake
        obtain ⟨data', -, hpair⟩ := Option.map_eq_some_iff.mp hleft
        cases (Prod.mk.inj hpair).2.trans (Option.some.inj hheld)
      · exact h.held hheld
    · obtain ⟨hnone', hb⟩ := SortedMap.get_insert_eq_none.mp hnone'
      simp only [SortedMap.get_insert, if_neg hb]
      exact hcalled.sent hsubmit hnone'
  | failed => exact (h.called _ (by simp)).record _ _

/-! ### Whole polls -/

def Grows (f f' : ReadFuture ι σ) : Prop := f.queue.pool.world.calls <:+ f'.queue.pool.world.calls

theorem grows_submitTurn (hturn : Future.SubmitTurn hw (transfer d) blk f r f') : Grows f f' := by
  cases hturn with
  | skip => exact List.suffix_rfl
  | panic hnew halloc | noBuffer hnew halloc | accepted hnew halloc hsubmit => exact Dma.alloc_suffix halloc
  | retry hnew halloc hsubmit | refused hnew halloc hsubmit he =>
    exact (Dma.alloc_suffix halloc).trans (Dma.buff_drop_suffix d _ _)

theorem grows_pollTurn (hturn : Future.PollTurn hw (transfer d) b f r f') : Grows f f' := by
  cases hturn <;> exact List.suffix_rfl

theorem Grows.bind {α β : Type} {x : Exec Halt (ReadFuture ι σ) α} {g : α → Exec Halt (ReadFuture ι σ) β}
    (hx : Exec.Moves Grows x) (hg : ∀ a, Exec.Moves Grows (g a)) : Exec.Moves Grows (x >>= g) :=
  Exec.Moves.bind (R := Grows) (fun _ _ _ => List.IsSuffix.trans) hx hg

theorem grows_takeResults (blks : List Nat) : Exec.Moves Grows (Future.takeResults (ι := ι) (transfer d) blks) := by
  induction blks with
  | nil => exact fun f => List.suffix_rfl
  | cons blk blks ih =>
    refine Grows.bind (fun f => List.suffix_rfl) fun result => ?_
    cases result with
    | none => exact fun f => List.suffix_rfl
    | some result =>
      refine Grows.bind (fun f => List.suffix_rfl) fun _ => Grows.bind ih fun out => ?_
      exact fun f => List.suffix_rfl

theorem grows_poll (hw : IQueue ι) (d : DeviceDma σ) : Exec.Moves Grows (poll hw d) := by
  have hloop : ∀ {α : Type} {g : α → Exec Halt (ReadFuture ι σ) Unit}, (∀ a, Exec.Moves Grows (g a)) →
      ∀ l : List α, Exec.Moves Grows (l.forM g) := fun hg l =>
    Exec.moves_forM (R := Grows) (fun _ => List.suffix_rfl) (fun _ _ _ => List.IsSuffix.trans) hg l
  refine Grows.bind (fun f => List.suffix_rfl) fun blks => Grows.bind (hloop (fun blk f => ?_) blks) fun _ => ?_
  · exact grows_submitTurn (Future.submitBlock_turn rfl)
  · refine Grows.bind (fun f => List.suffix_rfl) fun keys => Grows.bind (hloop (fun b f => ?_) keys) fun _ => ?_
    · exact grows_pollTurn (Future.pollBlock_turn rfl)
    · exact Grows.bind (fun f => List.suffix_rfl) grows_takeResults

theorem grows_drop (d : DeviceDma σ) (f : ReadFuture ι σ) : Grows f (f.drop d) :=
  Dma.foldl_drop_suffix d f.buffers f.queue.pool

variable {Ok : Pool σ → Prop} {blkLs : List Nat}

/-- A poll keeps the buffers with the future, and returns `Ready` when every request is finished. -/
theorem Owned.poll (hT : (transfer d).Sound Ok) (hdistinct : blkLs.Nodup)
    (hbase : Future.Base (transfer d) Ok blkLs f) (h : f.Owned) {r : Except Halt (List (Except BlkError BlockData))}
    (hrun : ReadFuture.poll hw d f = (r, f')) (hfresh : Fresh f'.queue.pool.world.calls) :
    (r = .error .pending ∧ Future.Base (transfer d) Ok blkLs f' ∧ f'.Owned) ∨
      (∃ out, r = .ok out) ∧ ∀ b, Accepted f'.calls b → Finished f'.calls b := by
  -- the backend keeps its promise to the end of the poll, so at every turn of it
  have hsubmit : ∀ {blk : Nat} {g g' : ReadFuture ι σ} {r}, (Grows g f' → Owned g) →
      Future.SubmitTurn hw (transfer d) blk g r g' → Grows g' f' → Owned g' := fun howned hturn hgrows =>
    (howned ((grows_submitTurn hturn).trans hgrows)).submitTurn hturn (hfresh.of_suffix hgrows)
  have hpoll : ∀ {b : Nat} {g g' : ReadFuture ι σ} {r}, (Grows g f' → Owned g) →
      Future.PollTurn hw (transfer d) b g r g' → Grows g' f' → Owned g' := fun howned hturn hgrows =>
    (howned ((grows_pollTurn hturn).trans hgrows)).pollTurn hturn
  have hspec := Future.poll_spec hw (K := fun g => Grows g f' → Owned g) (L := fun g => Grows g f' → Owned g)
    (E := fun g => Grows g f' → Owned g) hT (by rwa [show (transfer d).blkId = id from rfl, List.map_id])
    (fun _ _ => hsubmit) (fun _ _ => hsubmit) (fun _ howned _ => howned) (fun _ => hpoll) fun _ => hpoll
  obtain ⟨hok, herror⟩ := hspec ⟨hbase, fun _ => h⟩
  cases r with
  | error e =>
    obtain ⟨rfl, hbase', howned⟩ := herror e f' hrun
    exact .inl ⟨rfl, hbase', howned List.suffix_rfl⟩
  | ok out =>
    obtain ⟨f₁, results, rfl, -, -, hfinished, -⟩ := hok out f' hrun
    exact .inr ⟨⟨out, rfl⟩, hfinished⟩

/-! ### Whole runs -/

variable {s s' : State ι σ} {e : Event}

theorem step_cases (hstep : step hw d s e = some s') :
    (e = .poll ∧ s.stage = .polling ∧ ∃ r, poll hw d s.future = (r, s'.future) ∧
      (s'.stage = .polling ↔ r = .error .pending)) ∨
    e = .drop ∧ s' = ⟨s.future.drop d, .dropped⟩ := by
  cases e with
  | poll =>
    simp only [step] at hstep
    split_ifs at hstep with hpolling
    refine .inl ⟨rfl, hpolling, ?_⟩
    rcases hrun : poll hw d s.future with ⟨(_ | _) | out, f⟩
    all_goals
      rw [hrun] at hstep
      obtain rfl := Option.some.inj hstep
      exact ⟨_, rfl, by simp⟩
  | drop =>
    simp only [step] at hstep
    split_ifs at hstep
    exact .inr ⟨rfl, (Option.some.inj hstep).symm⟩

theorem fresh_step (hstep : step hw d s e = some s') (hfresh : Fresh s'.future.queue.pool.world.calls) :
    Fresh s.future.queue.pool.world.calls := by
  rcases step_cases hstep with ⟨-, -, r, hrun, -⟩ | ⟨-, rfl⟩
  · exact hfresh.of_suffix ((grows_poll hw d).of_run hrun)
  · exact hfresh.of_suffix (grows_drop d s.future)

theorem Owned.not_safe_drop (h : f.Owned) (hinv : f.Inv (transfer d)) (haccepted : Accepted f.calls b)
    (hfinished : ¬ Finished f.calls b) : ¬ (f.drop d).Safe := by
  obtain ⟨reqId, kind, hsubmit⟩ := haccepted
  obtain ⟨c, hheld, rfl⟩ := h.sent hsubmit (hinv.results_eq_none ⟨kind, hsubmit⟩ hfinished)
  have hc : c ∈ f.buffers := by
    refine List.mem_append_left _ (List.mem_filterMap.mpr ⟨some c, ?_, rfl⟩)
    exact SortedMap.mem_values.mpr ⟨b, hheld⟩
  intro hsafe
  refine hsafe b _ reqId hsubmit hfinished c ?_ rfl
  have hpool : (f.drop d).queue.pool.pool = f.queue.pool.pool ++ f.buffers := Dma.foldl_drop_alive d f.buffers h.alive
  rw [hpool]
  exact List.mem_append_right _ hc

/-- The future is polled and has its buffers, or every request is finished. -/
def Inv (d : DeviceDma σ) (Ok : Pool σ → Prop) (blkLs : List Nat) (s : State ι σ) : Prop :=
  (s.stage = .polling ∧ Future.Base (transfer d) Ok blkLs s.future ∧ s.future.Owned) ∨
    s.stage ≠ .polling ∧ ∀ b, Accepted s.future.calls b → Finished s.future.calls b

theorem Inv.safe (h : Inv d Ok blkLs s) : s.future.Safe := by
  rcases h with ⟨-, hbase, howned⟩ | ⟨-, hfinished⟩
  · exact howned.safe hbase.toInv
  · intro b buffer reqId hsubmit hnot
    exact absurd (hfinished b ⟨reqId, _, hsubmit⟩) hnot

theorem Inv.step (hT : (transfer d).Sound Ok) (hdistinct : blkLs.Nodup) (h : Inv d Ok blkLs s)
    (hhazard : ¬ Hazard s e) (hstep : ReadFuture.step hw d s e = some s')
    (hfresh : Fresh s'.future.queue.pool.world.calls) : Inv d Ok blkLs s' := by
  rcases step_cases hstep with ⟨rfl, hpolling, r, hrun, hstage⟩ | ⟨rfl, rfl⟩
  · obtain ⟨-, hbase, howned⟩ := h.resolve_right fun hdone => hdone.1 hpolling
    rcases howned.poll hT hdistinct hbase hrun hfresh with ⟨hr, hbase', howned'⟩ | ⟨⟨out, rfl⟩, hfinished⟩
    · exact .inl ⟨hstage.mpr hr, hbase', howned'⟩
    · exact .inr ⟨by simp [hstage], hfinished⟩
  · refine .inr ⟨by simp, fun b haccepted => ?_⟩
    by_contra hnot
    exact hhazard ⟨rfl, b, haccepted, hnot⟩

end ReadFuture

/-- A queue whose pool is in order, whoever has buffers of it. -/
structure CmdQueue.Idle (q : CmdQueue ι σ) : Prop where
  stock : q.pool.Stock
  alive : q.pool.handles ≠ 0
  size : q.pool.config.size < 2 ^ 64

theorem idle_create {os : DmaOp σ} {hw : IQueue ι} {i : ι} {capacity : Nat} {w : World σ} {q : CmdQueue ι σ}
    (hcreate : createQueueWithCapacity os hw i capacity w = some q) (hfresh : Fresh q.pool.world.calls) : q.Idle := by
  obtain ⟨layout, -, rfl⟩ := Option.map_eq_some_iff.mp hcreate
  refine ⟨Dma.stock_newPool hfresh, Nat.one_ne_zero, ?_⟩
  show layout.size < 2 ^ 64
  have hvalid := layout.valid.2
  omega

/-- The buffers of accepted requests are not in the pool before the requests are finished, if and only if the future is
not dropped before. -/
theorem recycled_iff (hw : IQueue ι) (d : DeviceDma σ) (q : CmdQueue ι σ) (blkId blkCount : Nat)
    (es : List ReadFuture.Event) (t : ReadFuture.State ι σ) (hq : q.Idle)
    (hrun : Machine.run (ReadFuture.step hw d) { future := q.readBlocks blkId blkCount } es = some t)
    (hfresh : Fresh t.future.queue.pool.world.calls) :
    (∀ es' u, es' <+: es →
      Machine.run (ReadFuture.step hw d) { future := q.readBlocks blkId blkCount } es' = some u → u.future.Safe) ↔
    ∀ es' e u, es' ++ [e] <+: es →
      Machine.run (ReadFuture.step hw d) { future := q.readBlocks blkId blkCount } es' = some u →
      ¬ ReadFuture.Hazard u e := by
  have hT := ReadFuture.sound d hq.size
  have hdistinct : (q.readBlocks blkId blkCount).blkLs.Nodup := List.nodup_range'
  refine Machine.safe_iff_no_hazard (P := fun s => Fresh s.future.queue.pool.world.calls)
    (I := ReadFuture.Inv d (fun pool => pool.config = q.pool.config) (q.readBlocks blkId blkCount).blkLs)
    ReadFuture.fresh_step ReadFuture.Inv.safe (fun hs h hstep h' => .inl (hs.step hT hdistinct h hstep h')) ?_ hrun
    hfresh ?_
  · rintro s e s' hs ⟨rfl, b, haccepted, hnot⟩ hstep -
    obtain ⟨-, hbase, howned⟩ := hs.resolve_right fun hdone => hnot (hdone.2 b haccepted)
    obtain ⟨-, rfl⟩ := (ReadFuture.step_cases hstep).resolve_left fun hpoll => by cases hpoll.1
    exact howned.not_safe_drop hbase.toInv haccepted hnot
  · refine fun _ => .inl ⟨rfl, ⟨Future.inv_start _ _ _, rfl, rfl⟩, hq.stock, hq.alive, fun hheld => ?_, fun hsubmit => ?_⟩
    · cases hheld
    · cases hsubmit

/-- A device that accepts requests and does not complete them. -/
def busy : IQueue Unit where
  blockSize _ := 64
  buffConfig _ := ⟨2 ^ 32 - 1, 64, 64⟩
  submitRequest _ request := (.ok ⟨request.blockId⟩, ())
  pollRequest _ _ := (.error .retry, ())

/-- A queue of that device, with a buffer for one block. -/
def busyQueue : CmdQueue Unit Nat :=
  ⟨(), Dma.newPool ⟨Pool.bumpBackend, 2 ^ 32 - 1⟩ ⟨64, 64, validLayout_block⟩ .fromDevice 1 Pool.freshWorld⟩

/-- The future is polled twice while the device has the block. -/
theorem recycled_polled : ∃ t,
    createQueueWithCapacity Pool.bumpBackend busy () 1 Pool.freshWorld = some busyQueue ∧
      Machine.run (ReadFuture.step busy ⟨Pool.bumpBackend, 2 ^ 32 - 1⟩) { future := busyQueue.readBlocks 7 1 }
        [.poll, .poll] = some t ∧ t.future.Safe := by
  have hcreate : createQueueWithCapacity Pool.bumpBackend busy () 1 Pool.freshWorld = some busyQueue := rfl
  refine ⟨_, hcreate, rfl, ?_⟩
  refine (recycled_iff busy ⟨Pool.bumpBackend, 2 ^ 32 - 1⟩ busyQueue 7 1 [.poll, .poll] _ (idle_create hcreate ?_) rfl
    ?_).mpr ?_ _ _ List.prefix_rfl rfl
  · exact ⟨fun b hb => absurd hb id, trivial⟩
  · exact ⟨fun b hb => absurd hb id, trivial⟩
  · rintro es' e u hes - ⟨rfl, -⟩
    have hmem := hes.subset (List.mem_append_right es' List.mem_cons_self)
    simp at hmem

/-- The future is dropped while the device has the block: the buffer is in the pool again. -/
theorem dropped_in_flight : ∃ t,
    Machine.run (ReadFuture.step busy ⟨Pool.bumpBackend, 2 ^ 32 - 1⟩) { future := busyQueue.readBlocks 7 1 }
        [.poll, .drop] = some t ∧
      (t.future.queue.pool.pool.map fun c => c.handle.dmaAddr) = [4096] ∧ ¬ t.future.Safe := by
  refine ⟨_, rfl, rfl, fun hsafe => ?_⟩
  refine hsafe 7 ⟨4096, 4096, 64⟩ ⟨7⟩ (.tail _ (.head _)) (fun hfinished => ?_) _ (.head _) rfl
  have hsubmitted := (finished_poll.mp hfinished).resolve_left fun hpoll => hpoll.2 rfl
  exact not_finished_nil (finished_submit.mp hsubmitted)

end Sparreal.Block
