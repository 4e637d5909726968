import Mathlib.Data.Multiset.AddSub
import Sparreal.Block.Results

/-!
# Block futures over a queue with a bounded number of requests

The first loop of a poll returns `Pending` when a request is not accepted, before the second loop looks at the requests
that were. On a device with `k` slots that are freed by polling, a future for more blocks than there are free slots
therefore never returns (`finishes_iff`).
-/

namespace Sparreal.Block

open Dma (DeviceDma DCommon Pool)

variable {ι σ ω β γ ρ : Type}

/-- A device with `k` slots: a request is accepted while one is free and has to be retried while none is, it is
completed when it is polled, and that frees its slot. -/
structure Slots (hw : IQueue ι) (occupied : ι → Multiset RequestId) (k : Nat) : Prop where
  card_le : ∀ i, (occupied i).card ≤ k
  full : ∀ i request, (occupied i).card = k →
    ∃ i', hw.submitRequest i request = (.error .retry, i') ∧ occupied i' = occupied i
  free : ∀ i request, (occupied i).card < k →
    ∃ reqId i', hw.submitRequest i request = (.ok reqId, i') ∧ occupied i' = reqId ::ₘ occupied i
  complete : ∀ i reqId, reqId ∈ occupied i →
    ∃ i', hw.pollRequest i reqId = (.ok (), i') ∧ occupied i' = (occupied i).erase reqId

variable {reqId : RequestId}

namespace Slots

variable {hw : IQueue ι} {occupied : ι → Multiset RequestId} {k : Nat} {i i' : ι} {request : Request}

theorem accepted (h : Slots hw occupied k) (hsubmit : hw.submitRequest i request = (.ok reqId, i')) :
    occupied i' = reqId ::ₘ occupied i := by
  rcases Nat.lt_or_eq_of_le (h.card_le i) with hlt | heq
  · obtain ⟨reqId', i'', hrun, hoccupied⟩ := h.free i request hlt
    obtain ⟨hid, rfl⟩ := Prod.mk.inj (hrun.symm.trans hsubmit)
    exact Except.ok.inj hid ▸ hoccupied
  · obtain ⟨i'', hrun, -⟩ := h.full i request heq
    cases (Prod.mk.inj (hrun.symm.trans hsubmit)).1

theorem refused (h : Slots hw occupied k) {e : BlkError} (hsubmit : hw.submitRequest i request = (.error e, i')) :
    e = .retry ∧ (occupied i).card = k ∧ occupied i' = occupied i := by
  rcases Nat.lt_or_eq_of_le (h.card_le i) with hlt | heq
  · obtain ⟨reqId', i'', hrun, -⟩ := h.free i request hlt
    cases (Prod.mk.inj (hrun.symm.trans hsubmit)).1
  · obtain ⟨i'', hrun, hoccupied⟩ := h.full i request heq
    obtain ⟨he, rfl⟩ := Prod.mk.inj (hrun.symm.trans hsubmit)
    exact ⟨(Except.error.inj he).symm, heq, hoccupied⟩

end Slots

/-- The next `n` buffers can be had. -/
def Transfer.Supplies (T : Transfer σ ω β γ ρ) : Nat → Pool σ → Prop
  | 0, _ => True
  | n + 1, pool => ∃ buff pool', T.alloc pool = (.ok buff, pool') ∧ T.Supplies n pool'

namespace Future

variable {hw : IQueue ι} {T : Transfer σ ω β γ ρ} {Ok : Pool σ → Prop} {blkLs : List ω} {f f' : Future ι σ ω γ ρ}
  {occupied : ι → Multiset RequestId} {k n : Nat} {blk : ω} {b : Nat}

/-- After finitely many polls every block has been read or written. -/
def Finishes (hw : IQueue ι) (T : Transfer σ ω β γ ρ) (start : Future ι σ ω γ ρ) : Prop :=
  ∃ f out f', Waits hw T start f ∧ poll hw T f = (.ok out, f') ∧ ∀ result ∈ out, ∃ data, result = .ok data

/-! ### More blocks than slots -/

/-- Every accepted request has a slot, or all blocks that will be are already accepted. -/
def Crowded (occupied : ι → Multiset RequestId) (k n : Nat) (T : Transfer σ ω β γ ρ) (blkLs : List ω)
    (f : Future ι σ ω γ ρ) : Prop :=
  (occupied f.queue.interface).card = n + f.map.size ∨
    n + f.map.size ≤ k ∧ ∀ blk ∈ blkLs, ¬ f.New (T.blkId blk)

theorem Crowded.le (hslots : Slots hw occupied k) (h : Crowded occupied k n T blkLs f) : n + f.map.size ≤ k :=
  h.elim (fun heq => heq ▸ hslots.card_le _) And.left

variable {r : Except Halt Unit}

theorem Crowded.submitTurn (hslots : Slots hw occupied k) (hblk : blk ∈ blkLs) (hbase : Base T Ok blkLs f)
    (h : Crowded occupied k n T blkLs f) (hturn : SubmitTurn hw T blk f r f') : Crowded occupied k n T blkLs f' := by
  have hcount : f.New (T.blkId blk) → (occupied f.queue.interface).card = n + f.map.size := fun hnew =>
    h.resolve_right fun hdone => hdone.2 blk hblk hnew
  cases hturn with
  | skip => exact h
  | panic hnew halloc | noBuffer hnew halloc => exact .inl (hcount hnew)
  | @accepted buff pool reqId i hnew halloc hsubmit =>
    refine .inl ?_
    show (occupied i).card = n + (f.map.insert (T.blkId blk) reqId).size
    rw [hslots.accepted hsubmit, Multiset.card_cons, SortedMap.size_insert (hbase.map_of_new hnew), hcount hnew]
    exact Nat.add_assoc n _ 1
  | @retry buff pool i hnew halloc hsubmit =>
    refine .inl ?_
    show (occupied i).card = n + f.map.size
    rw [(hslots.refused hsubmit).2.2, hcount hnew]
  | @refused buff pool e i hnew halloc hsubmit he => exact absurd (hslots.refused hsubmit).1 he

theorem PollTurn.map_eq (hturn : PollTurn hw T b f r f') : f'.map = f.map := by
  cases hturn <;> rfl

theorem poll_crowded (hslots : Slots hw occupied k) (hT : T.Sound Ok) (hdistinct : (blkLs.map T.blkId).Nodup) (n : Nat) :
    Exec.Triple (fun f => Base T Ok blkLs f ∧ Crowded occupied k n T blkLs f) (poll hw T)
      (fun out f' => ∃ f results, f' = { f with results := results } ∧ Base T Ok blkLs f ∧
        (n + f.map.size ≤ k ∧ ∀ blk ∈ blkLs, ¬ f.New (T.blkId blk)) ∧
        (∀ b, Accepted f.calls b → Finished f.calls b) ∧
        List.Forall₂ (fun blk result => f.results.get (T.blkId blk) = some result) blkLs out)
      fun e f => e = .pending ∧ Base T Ok blkLs f ∧ Crowded occupied k n T blkLs f := by
  refine poll_spec hw hT hdistinct ?_ ?_ ?_ ?_ ?_
  · exact fun hblk hbase hk hturn => hk.submitTurn hslots hblk hbase hturn
  · exact fun hblk hbase hk hturn => hk.submitTurn hslots hblk hbase hturn
  · exact fun hbase hk hdone => ⟨hk.le hslots, hdone⟩
  · rintro b f f' hbase ⟨hle, hdone⟩ hturn
    exact ⟨hturn.map_eq ▸ hle, fun blk hblk hnew => hdone blk hblk (hturn.new hnew)⟩
  · rintro b f f' hbase ⟨hle, hdone⟩ hturn
    exact .inr ⟨hturn.map_eq ▸ hle, fun blk hblk hnew => hdone blk hblk (hturn.new hnew)⟩

theorem exists_mem_right {α β : Type} {R : α → β → Prop} {l : List α} {l' : List β} (h : List.Forall₂ R l l') {a : α}
    (ha : a ∈ l) : ∃ b ∈ l', R a b := by
  induction h with
  | nil => cases ha
  | @cons a' b l l' hab _ ih =>
    rcases List.mem_cons.mp ha with rfl | ha
    · exact ⟨b, List.mem_cons_self, hab⟩
    · obtain ⟨b', hb', hab'⟩ := ih ha
      exact ⟨b', List.mem_cons_of_mem b hb', hab'⟩

theorem Finishes.le {start : Future ι σ ω γ ρ} (hslots : Slots hw occupied k) (hT : T.Sound Ok)
    (hdistinct : (blkLs.map T.blkId).Nodup) (hbase : Base T Ok blkLs start)
    (hstart : Crowded occupied k n T blkLs start) (h : Finishes hw T start) : n + blkLs.length ≤ k := by
  obtain ⟨f, out, f', hwaits, hready, hall⟩ := h
  have hboth : Base T Ok blkLs f ∧ Crowded occupied k n T blkLs f := by
    clear hready
    induction hwaits with
    | refl => exact ⟨hbase, hstart⟩
    | tail _ hpending ih => exact ((poll_crowded hslots hT hdistinct n ih).2 _ _ hpending).2
  obtain ⟨f₁, results, rfl, hbase₁, ⟨hle, -⟩, -, hout⟩ := (poll_crowded hslots hT hdistinct n hboth).1 out f' hready
  have hkeys : blkLs.map T.blkId ⊆ f₁.map.keys := by
    intro b hb
    obtain ⟨blk, hblk, rfl⟩ := List.mem_map.mp hb
    obtain ⟨result, hmem, hresult⟩ := exists_mem_right hout hblk
    obtain ⟨data, rfl⟩ := hall result hmem
    have hcompleted := (hbase₁.completed (T.blkId blk)).mp ⟨data, hresult⟩
    obtain ⟨-, hmap⟩ := (hbase₁.finished (T.blkId blk)).mp hcompleted.finished
    exact SortedMap.mem_keys.mpr hmap
  have hsize := (List.subperm_of_subset hdistinct hkeys).length_le
  rw [List.length_map, SortedMap.length_keys] at hsize
  omega

/-! ### A slot for each block -/

def outstanding (f : Future ι σ ω γ ρ) : Multiset RequestId :=
  ((f.map.entries.filter fun e => (f.results.get e.1).isNone).map Prod.snd : List RequestId)

theorem mem_outstanding (hmap : f.map.get b = some reqId) (hnone : f.results.get b = none) :
    reqId ∈ f.outstanding := by
  refine Multiset.mem_coe.mpr (List.mem_map_of_mem (a := (b, reqId)) (List.mem_filter.mpr ⟨?_, ?_⟩))
  · exact SortedMap.get_eq_some_iff.mp hmap
  · exact Option.isNone_iff_eq_none.mpr hnone

theorem outstanding_insert (hmap : f.map.get b = some reqId) (hnone : f.results.get b = none)
    {result : Except BlkError ρ} (hf' : f'.map = f.map ∧ f'.results = f.results.insert b result) :
    f'.outstanding = f.outstanding.erase reqId := by
  have hentry := SortedMap.get_eq_some_iff.mp hmap
  have hmem : (b, reqId) ∈ f.map.entries.filter fun e => (f.results.get e.1).isNone :=
    List.mem_filter.mpr ⟨hentry, Option.isNone_iff_eq_none.mpr hnone⟩
  have hfilter : (f'.map.entries.filter fun e => (f'.results.get e.1).isNone) =
      (f.map.entries.filter fun e => (f.results.get e.1).isNone).erase (b, reqId) := by
    rw [(f.map.nodup_entries.filter _).erase_eq_filter, List.filter_filter, hf'.1, hf'.2]
    refine List.filter_congr fun e he => ?_
    rw [SortedMap.get_insert]
    by_cases hb : e.1 = b
    · have heq : e = (b, reqId) := Prod.ext hb (SortedMap.value_unique (hb ▸ he) hentry)
      simp [heq]
    · have hne : e ≠ (b, reqId) := fun heq => hb (congrArg Prod.fst heq)
      simp [hb, hne]
  rw [outstanding, outstanding, hfilter]
  refine (Multiset.erase_cons_head reqId _).symm.trans (congrArg (Multiset.erase · reqId) ?_)
  exact Multiset.coe_eq_coe.mpr ((List.perm_cons_erase hmem).map Prod.snd).symm

/-- No block has a result, every accepted request has a slot beside those that were occupied before, and there are
buffers for the other blocks. -/
structure Roomy (T : Transfer σ ω β γ ρ) (occupied : ι → Multiset RequestId) (before : Multiset RequestId)
    (blkIds : List Nat) (f : Future ι σ ω γ ρ) : Prop where
  results : ∀ b, f.results.get b = none
  keys : ∀ b reqId, f.map.get b = some reqId → b ∈ blkIds
  slots : occupied f.queue.interface = before + (f.map.values : Multiset RequestId)
  buffers : T.Supplies (blkIds.length - f.map.size) f.queue.pool

variable {before : Multiset RequestId} {blkIds : List Nat}

theorem Roomy.size_lt (h : Roomy T occupied before blkIds f) (hinv : f.Inv T) (hnew : f.New b) (hb : b ∈ blkIds) :
    f.map.size < blkIds.length := by
  have hout : b ∉ f.map.keys := fun hmem => by
    obtain ⟨reqId, hmap⟩ := SortedMap.mem_keys.mp hmem
    cases (hinv.map_of_new hnew).symm.trans hmap
  have hsub : b :: f.map.keys ⊆ blkIds := by
    refine List.cons_subset.mpr ⟨hb, fun b' hb' => ?_⟩
    obtain ⟨reqId, hmap⟩ := SortedMap.mem_keys.mp hb'
    exact h.keys b' reqId hmap
  have hsize := (List.subperm_of_subset (List.nodup_cons.mpr ⟨hout, f.map.nodup_keys⟩) hsub).length_le
  rwa [List.length_cons, SortedMap.length_keys] at hsize

theorem Roomy.card_eq (h : Roomy T occupied before blkIds f) :
    (occupied f.queue.interface).card = before.card + f.map.size := by
  rw [h.slots, Multiset.card_add, Multiset.coe_card, SortedMap.values, List.length_map]
  rfl

theorem Roomy.submitTurn (hslots : Slots hw occupied k) (h : Roomy T occupied before blkIds f) (hinv : f.Inv T)
    (hb : T.blkId blk ∈ blkIds) (hroom : before.card + blkIds.length ≤ k) (hturn : SubmitTurn hw T blk f r f') :
    r = .ok () ∧ Roomy T occupied before blkIds f' := by
  have hsupply : f.New (T.blkId blk) → ∃ buff pool, T.alloc f.queue.pool = (.ok buff, pool) ∧
      T.Supplies (blkIds.length - (f.map.size + 1)) pool := by
    intro hnew
    have hbuffers := h.buffers
    have hlt := h.size_lt hinv hnew hb
    rwa [show blkIds.length - f.map.size = blkIds.length - (f.map.size + 1) + 1 by omega] at hbuffers
  cases hturn with
  | skip => exact ⟨rfl, h⟩
  | panic hnew hfault | noBuffer hnew hfault =>
    obtain ⟨buff, pool, halloc, -⟩ := hsupply hnew
    cases (Prod.mk.inj (halloc.symm.trans hfault)).1
  | @accepted buff pool reqId i hnew halloc hsubmit =>
    have hmap := hinv.map_of_new hnew
    refine ⟨rfl, h.results, fun b' reqId' hget => ?_, ?_, ?_⟩
    · simp only [SortedMap.get_insert] at hget
      split_ifs at hget with hb'
      · exact hb' ▸ hb
      · exact h.keys b' reqId' hget
    · show occupied i = before + ((f.map.insert (T.blkId blk) reqId).values : Multiset RequestId)
      have hvalues := Multiset.coe_eq_coe.mpr (SortedMap.values_insert (v := reqId) hmap)
      rw [hslots.accepted hsubmit, hvalues, h.slots, ← Multiset.cons_coe, Multiset.add_cons]
    · show T.Supplies (blkIds.length - (f.map.insert (T.blkId blk) reqId).size) pool
      obtain ⟨buff', pool', halloc', hrest⟩ := hsupply hnew
      obtain ⟨-, rfl⟩ := Prod.mk.inj (halloc'.symm.trans halloc)
      rwa [SortedMap.size_insert hmap]
  | retry hnew _ hsubmit =>
    have hfull := (hslots.refused hsubmit).2.1
    have hlt := h.size_lt hinv hnew hb
    rw [h.card_eq] at hfull
    omega
  | refused hnew _ hsubmit he => exact absurd (hslots.refused hsubmit).1 he

/-- What there is a result for was read or written, and what there is none for has a slot. -/
structure Draining (occupied : ι → Multiset RequestId) (f : Future ι σ ω γ ρ) : Prop where
  results : ∀ b result, f.results.get b = some result → ∃ data, result = .ok data
  slots : f.outstanding ≤ occupied f.queue.interface

theorem Draining.pollTurn (hslots : Slots hw occupied k) (h : Draining occupied f) (hturn : PollTurn hw T b f r f')
    (hpanic : r ≠ .error .panic) : r = .ok () ∧ Draining occupied f' := by
  have hcomplete : ∀ {reqId answer i}, f.map.get b = some reqId → f.results.get b = none →
      hw.pollRequest f.queue.interface reqId = (answer, i) →
      answer = .ok () ∧ occupied i = (occupied f.queue.interface).erase reqId := by
    intro reqId answer i hmap hnone hpoll
    obtain ⟨i', hrun, hoccupied⟩ := hslots.complete _ reqId (Multiset.mem_of_le h.slots (mem_outstanding hmap hnone))
    obtain ⟨rfl, rfl⟩ := Prod.mk.inj (hrun.symm.trans hpoll)
    exact ⟨rfl, hoccupied⟩
  cases hturn with
  | skip => exact ⟨rfl, h⟩
  | noRequest | noBuffer => exact absurd rfl hpanic
  | @completed reqId i data left hnone hmap hpoll htake =>
    refine ⟨rfl, fun b' result hresult => ?_, ?_⟩
    · simp only [SortedMap.get_insert] at hresult
      split_ifs at hresult
      · exact ⟨data, (Option.some.inj hresult).symm⟩
      · exact h.results b' result hresult
    · refine le_trans (b := f.outstanding.erase reqId) (le_of_eq ?_) ?_
      · exact outstanding_insert hmap hnone ⟨rfl, rfl⟩
      · show _ ≤ occupied i
        rw [(hcomplete hmap hnone hpoll).2]
        exact Multiset.erase_le_erase reqId h.slots
  | retry hnone hmap hpoll | failed hnone hmap hpoll he => cases (hcomplete hmap hnone hpoll).1

theorem finishes_of_le {q : CmdQueue ι σ} (hslots : Slots hw occupied k) (hT : T.Sound Ok)
    (hdistinct : (blkLs.map T.blkId).Nodup) (hpool : Ok q.pool) (hbuffers : T.Supplies blkLs.length q.pool)
    (hroom : (occupied q.interface).card + blkLs.length ≤ k) :
    Finishes hw T ({ queue := q, blkLs := blkLs } : Future ι σ ω γ ρ) := by
  rw [← List.length_map T.blkId] at hbuffers hroom
  have hbase : Base T Ok blkLs { queue := q, blkLs := blkLs } := ⟨inv_start T q blkLs, hpool, rfl⟩
  have hstart : Roomy T occupied (occupied q.interface) (blkLs.map T.blkId) { queue := q, blkLs := blkLs } := by
    refine ⟨fun b => rfl, fun b reqId hmap => ?_, ?_, hbuffers⟩
    · cases hmap
    · simp [SortedMap.values, SortedMap.empty]
  have hspec := poll_spec hw (K := Roomy T occupied (occupied q.interface) (blkLs.map T.blkId)) (L := Draining occupied)
    (E := fun _ => False) hT hdistinct ?_ ?_ ?_ ?_ ?_
  · obtain ⟨hok, herror⟩ := hspec ⟨hbase, hstart⟩
    rcases hrun : poll hw T { queue := q, blkLs := blkLs } with ⟨e | out, f'⟩
    · exact (herror e f' hrun).2.2.elim
    · obtain ⟨f, results, -, -, hdraining, -, hout⟩ := hok out f' hrun
      refine ⟨_, out, f', .refl, hrun, fun result hresult => ?_⟩
      obtain ⟨blk, -, hget⟩ := exists_mem_right hout.flip hresult
      exact hdraining.results (T.blkId blk) result hget
  · intro blk f f' hblk hbase hk hturn
    exact (hk.submitTurn hslots hbase.toInv (List.mem_map_of_mem hblk) hroom hturn).2
  · intro blk f f' hblk hbase hk hturn
    cases (hk.submitTurn hslots hbase.toInv (List.mem_map_of_mem hblk) hroom hturn).1
  · intro f hbase hk _
    refine ⟨fun b result hresult => ?_, ?_⟩
    · cases (hk.results b).symm.trans hresult
    · have hall : (f.map.entries.filter fun e => (f.results.get e.1).isNone) = f.map.entries :=
        List.filter_eq_self.mpr fun e _ => Option.isNone_iff_eq_none.mpr (hk.results e.1)
      rw [outstanding, hall, hk.slots]
      exact Multiset.le_add_left _ _
  · exact fun hbase hl hturn => (hl.pollTurn hslots hturn (by simp)).2
  · intro b f f' hbase hl hturn
    cases (hl.pollTurn hslots hturn (by simp)).1

theorem finishes_iff_le {q : CmdQueue ι σ} (hslots : Slots hw occupied k) (hT : T.Sound Ok)
    (hdistinct : (blkLs.map T.blkId).Nodup) (hpool : Ok q.pool) (hbuffers : T.Supplies blkLs.length q.pool) :
    Finishes hw T ({ queue := q, blkLs := blkLs } : Future ι σ ω γ ρ) ↔
      (occupied q.interface).card + blkLs.length ≤ k :=
  ⟨fun h => h.le hslots hT hdistinct ⟨inv_start T q blkLs, hpool, rfl⟩ (.inl rfl),
    finishes_of_le hslots hT hdistinct hpool hbuffers⟩

end Future

/-! ### The two futures -/

theorem ReadFuture.supplies_of_le (d : DeviceDma σ) {n : Nat} {pool : Pool σ} (h : n ≤ pool.pool.length) :
    (transfer d).Supplies n pool := by
  induction n generalizing pool with
  | zero => trivial
  | succ n ih =>
    rcases hpool : pool.pool with _ | ⟨c, cs⟩
    · rw [hpool] at h
      exact absurd h (Nat.not_succ_le_zero n)
    · refine ⟨c, { pool with pool := cs, buffs := pool.buffs ++ [c] }, ?_, ih ?_⟩
      · simp only [transfer, Dma.DArrayPool.alloc, hpool]
      · rw [hpool, List.length_cons] at h
        exact Nat.le_of_succ_le_succ h

theorem WriteFuture.supplies (n : Nat) (pool : Pool σ) : transfer.Supplies n pool := by
  induction n with
  | zero => trivial
  | succ n ih => exact ⟨(), pool, rfl, ih⟩

/-- A future finishes on a device with a bounded number of slots if and only if there is a free slot for each of its
blocks; a read is given as many buffers. -/
theorem finishes_iff (hw : IQueue ι) (occupied : ι → Multiset RequestId) (k : Nat) (hslots : Slots hw occupied k)
    (d : DeviceDma σ) (q : CmdQueue ι σ) (hsize : q.pool.config.size < 2 ^ 64) :
    (∀ blkId blkCount, blkId + blkCount < 2 ^ 64 → (ReadFuture.transfer d).Supplies blkCount q.pool →
      (Future.Finishes hw (ReadFuture.transfer d) (q.readBlocks blkId blkCount) ↔
        (occupied q.interface).card + blkCount ≤ k)) ∧
    ∀ startBlkId data f, q.writeBlocks hw startBlkId data = some f →
      startBlkId + data.length / hw.blockSize q.interface ≤ 2 ^ 64 →
      (Future.Finishes hw WriteFuture.transfer f ↔
        (occupied q.interface).card + data.length / hw.blockSize q.interface ≤ k) := by
  refine ⟨fun blkId blkCount hrange hbuffers => ?_, fun startBlkId data f hwrite hrange => ?_⟩
  · have hids : (List.range' blkId blkCount).map (ReadFuture.transfer d).blkId = List.range' blkId blkCount :=
      List.map_id _
    have hlength : (List.range' blkId blkCount).length = blkCount := List.length_range'
    have hread : q.readBlocks blkId blkCount = { queue := q, blkLs := List.range' blkId blkCount } := by
      rw [← q.blkLs_readBlocks hrange]
      rfl
    have hiff := Future.finishes_iff_le hslots (ReadFuture.sound d hsize) (hids.symm ▸ List.nodup_range') (q := q) rfl
      (hlength.symm ▸ hbuffers)
    rwa [hlength, ← hread] at hiff
  · obtain ⟨blkLs, rfl, hids⟩ := CmdQueue.blkLs_writeBlocks hwrite hrange
    have hlength : blkLs.length = data.length / hw.blockSize q.interface := by
      rw [← List.length_map Prod.fst, hids, List.length_range']
    rw [← hlength]
    exact Future.finishes_iff_le hslots WriteFuture.sound (hids ▸ List.nodup_range') trivial (WriteFuture.supplies _ _)

def slotted (k : Nat) : IQueue { slots : List RequestId // slots.length ≤ k } where
  blockSize _ := 1
  buffConfig _ := ⟨2 ^ 32 - 1, 64, 64⟩
  submitRequest slots request :=
    if h : slots.1.length < k then (.ok ⟨request.blockId⟩, ⟨⟨request.blockId⟩ :: slots.1, h⟩) else (.error .retry, slots)
  pollRequest slots reqId :=
    if reqId ∈ slots.1 then (.ok (), ⟨slots.1.erase reqId, List.length_erase_le.trans slots.2⟩)
    else (.error .notSupported, slots)

theorem slots_slotted (k : Nat) : Slots (slotted k) (fun slots => (slots.1 : Multiset RequestId)) k where
  card_le slots := slots.2
  full slots _ hfull := ⟨slots, dif_neg hfull.not_lt, rfl⟩
  free _ _ hfree := ⟨_, _, dif_pos hfree, rfl⟩
  complete _ _ hmem := ⟨_, if_pos hmem, rfl⟩

/-- A queue of that device, with buffers for four blocks. -/
def slottedQueue (k : Nat) : CmdQueue { slots : List RequestId // slots.length ≤ k } Nat :=
  ⟨⟨[], Nat.zero_le k⟩,
    Dma.newPool ⟨Pool.bumpBackend, 2 ^ 32 - 1⟩ ⟨64, 64, validLayout_block⟩ .fromDevice 4 Pool.freshWorld⟩

/-- Three blocks are read, and written, over four slots. -/
theorem finishes_three_blocks :
    Future.Finishes (slotted 4) (ReadFuture.transfer ⟨Pool.bumpBackend, 2 ^ 32 - 1⟩) ((slottedQueue 4).readBlocks 0 3) ∧
      ∃ f, (slottedQueue 4).writeBlocks (slotted 4) 0 [1, 2, 3] = some f ∧
        Future.Finishes (slotted 4) WriteFuture.transfer f := by
  have hiff := finishes_iff (slotted 4) _ 4 (slots_slotted 4) ⟨Pool.bumpBackend, 2 ^ 32 - 1⟩ (slottedQueue 4)
    (by decide +kernel)
  refine ⟨(hiff.1 0 3 (by decide) (ReadFuture.supplies_of_le _ (by decide +kernel))).mpr (by decide), _, rfl, ?_⟩
  exact (hiff.2 0 [1, 2, 3] _ rfl (by decide)).mpr (by decide)

/-- Two blocks are neither read nor written over one slot, however often the futures are polled. -/
theorem two_blocks_never_finish :
    ¬ Future.Finishes (slotted 1) (ReadFuture.transfer ⟨Pool.bumpBackend, 2 ^ 32 - 1⟩) ((slottedQueue 1).readBlocks 0 2) ∧
      ∃ f, (slottedQueue 1).writeBlocks (slotted 1) 0 [1, 2] = some f ∧ ¬ Future.Finishes (slotted 1) WriteFuture.transfer f := by
  refine ⟨fun hfinishes => ?_, _, rfl, fun hfinishes => ?_⟩
  · have hbase : Future.Base (ReadFuture.transfer ⟨Pool.bumpBackend, 2 ^ 32 - 1⟩)
        (fun pool => pool.config = (slottedQueue 1).pool.config) [0, 1] ((slottedQueue 1).readBlocks 0 2) :=
      ⟨Future.inv_start _ _ _, rfl, rfl⟩
    have hle := hfinishes.le (n := 0) (slots_slotted 1) (ReadFuture.sound _ (by decide +kernel)) (by decide) hbase (.inl rfl)
    exact absurd hle (by decide)
  · have hle := hfinishes.le (n := 0) (slots_slotted 1) WriteFuture.sound (by decide)
      ⟨Future.inv_start _ _ _, trivial, rfl⟩ (.inl rfl)
    exact absurd hle (by decide)

end Sparreal.Block
