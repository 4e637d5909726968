import Mathlib.Data.List.Nodup
import Sparreal.Eth.Net

/-!
# What a network device has

Where the buffers of a queue of `rd-net` are. Whatever the device answers, the map `inflight` has the buffers that
`submit` has accepted and `reclaim` has not returned, each under its own address, and no buffer is in two places
(`Inv`). So nothing the device has is in the pool or given back to the backend (`Inv.safe`), until the queue itself
is dropped: its pool goes first, and the buffers of the map are given back after it (`Inv.drop_safe_iff`).
-/

namespace Sparreal.Eth

open Dma (DeviceDma DmaOp World DCommon Pool Fresh)

variable {ι β σ : Type}

namespace Queue

variable {d : DeviceDma σ} {hw : IQueue ι β} {q q' : Queue ι σ} {held : List DCommon} {c : DCommon}

/-- What the device was given and has not returned is neither in the pool nor given back to the backend. -/
def Safe (q : Queue ι σ) : Prop :=
  ∀ a ∈ q.device, (∃ h, q.pool.world.calls.Live h ∧ h.dmaAddr = a) ∧ ∀ c ∈ q.pool.pool, c.handle.dmaAddr ≠ a

/-- The map has the buffers that the device has, under their own addresses. -/
structure Recorded (q : Queue ι σ) : Prop where
  key : ∀ {a c}, q.inflight.get a = some c → c.handle.dmaAddr = a
  device : ∀ a, a ∈ q.device ↔ ∃ c, q.inflight.get a = some c
  nodup : q.device.Nodup

theorem Recorded.remove (h : q.Recorded) (a : Nat) (i : ι) :
    Recorded { q with interface := i, device := q.device.erase a, inflight := (q.inflight.remove a).2 } where
  key hget := by
    rw [SortedMap.get_remove] at hget
    split_ifs at hget
    exact h.key hget
  device b := by
    show b ∈ q.device.erase a ↔ ∃ c, (q.inflight.remove a).2.get b = some c
    rw [h.nodup.mem_erase_iff, h.device, SortedMap.get_remove]
    by_cases hb : b = a <;> simp [hb]
  nodup := h.nodup.erase a

theorem key_insert (h : ∀ {a c}, q.inflight.get a = some c → c.handle.dmaAddr = a) {a : Nat} {c' : DCommon}
    (hget : (q.inflight.insert c.handle.dmaAddr c).get a = some c') : c'.handle.dmaAddr = a := by
  rw [SortedMap.get_insert] at hget
  split_ifs at hget with hb
  · exact Option.some.inj hget ▸ hb.symm
  · exact h hget

theorem device_insert (h : ∀ a, a ∈ q.device ↔ ∃ c, q.inflight.get a = some c) (a b : Nat) :
    b ∈ q.device ++ [a] ↔ ∃ c', (q.inflight.insert a c).get b = some c' := by
  rw [List.mem_append, List.mem_singleton, h, SortedMap.get_insert]
  by_cases hb : b = a <;> simp [hb]

theorem Recorded.insert (h : q.Recorded) (hget : q.inflight.get c.handle.dmaAddr = none) (i : ι) (n : Nat) :
    Recorded { q with
      interface := i, device := q.device ++ [c.handle.dmaAddr], submitted := n
      inflight := q.inflight.insert c.handle.dmaAddr c } where
  key := key_insert h.key
  device := device_insert h.device _
  nodup := by
    refine List.nodup_append.mpr ⟨h.nodup, List.nodup_singleton _, fun a ha b hb hab => ?_⟩
    obtain ⟨c', hc'⟩ := (h.device a).mp ha
    cases hget.symm.trans (List.mem_singleton.mp hb ▸ hab ▸ hc')

/-- Every buffer is in the queue of the pool, held by someone, or in the map. -/
structure Inv (held : List DCommon) (q : Queue ι σ) : Prop extends q.Recorded where
  stock : q.pool.Stock
  handles : q.pool.handles = 1
  returning : q.pool.returning = []
  size : q.pool.config.size = q.config.bufSize
  buffs : q.pool.buffs.Perm (held ++ q.inflight.values)

section

variable (h : q.Inv held)

include h

theorem Inv.alive : q.pool.handles ≠ 0 := h.handles ▸ Nat.one_ne_zero

theorem Inv.stocked : Dma.Stocked q.config.bufSize q.pool.world (q.pool.pool ++ (held ++ q.inflight.values)) := by
  have hstock := h.stock
  rw [Pool.Stock, Pool.containers, h.returning, List.append_nil, h.size] at hstock
  exact hstock.perm (h.buffs.append_left q.pool.pool)

theorem Inv.get_held (hc : c ∈ held) : q.inflight.get c.handle.dmaAddr = none := by
  rw [Option.eq_none_iff_forall_ne_some]
  intro c' hget
  have hnodup := h.stocked.nodup
  rw [List.map_append, List.map_append, List.nodup_append, List.nodup_append] at hnodup
  refine hnodup.2.1.2.2 _ (List.mem_map_of_mem hc) _ (List.mem_map_of_mem (SortedMap.mem_values.mpr ⟨_, hget⟩)) ?_
  exact (h.key hget).symm

theorem Inv.safe : q.Safe := by
  intro a ha
  obtain ⟨c, hget⟩ := (h.device a).mp ha
  have hc : c ∈ held ++ q.inflight.values := List.mem_append_right _ (SortedMap.mem_values.mpr ⟨a, hget⟩)
  refine ⟨⟨_, h.stocked.live (List.mem_append_right _ hc), h.key hget⟩, fun c' hc' haddr => ?_⟩
  have hnodup := h.stocked.nodup
  rw [List.map_append, List.nodup_append] at hnodup
  exact hnodup.2.2 _ (List.mem_map_of_mem hc') _ (List.mem_map_of_mem hc) (haddr.trans (h.key hget).symm)

theorem Inv.interface (i : ι) : Inv held { q with interface := i } := { h with }

theorem Inv.access (f : Dma.Memory → Dma.Memory) : Inv held (q.access f) :=
  { h with stock := ⟨h.stock.includes, h.stock.size⟩ }

end

/-- What a call that allocates nothing leaves as it is. -/
structure Same (q q' : Queue ι σ) : Prop where
  world : q'.pool.world = q.pool.world
  config : q'.config = q.config
  submitted : q'.submitted = q.submitted
  containers : q.pool.containers.Perm q'.pool.containers

theorem Same.trans {q'' : Queue ι σ} (h : q.Same q') (h' : q'.Same q'') : q.Same q'' :=
  ⟨h'.world.trans h.world, h'.config.trans h.config, h'.submitted.trans h.submitted,
    h.containers.trans h'.containers⟩

theorem Inv.same_dropBuff (h : q.Inv (c :: held)) : q.Same (q.dropBuff d c) := by
  have hc : c ∈ q.pool.buffs := h.buffs.mem_iff.mpr List.mem_cons_self
  refine ⟨?_, rfl, rfl, Dma.perm_drop h.alive hc⟩
  rw [Queue.dropBuff, Dma.DBuff.drop, if_neg h.alive]

theorem Inv.dropBuff (h : q.Inv (c :: held)) : Inv held (q.dropBuff d c) := by
  have hc : c ∈ q.pool.buffs := h.buffs.mem_iff.mpr List.mem_cons_self
  have hbuffs : (q.pool.buffs.erase c).Perm (held ++ q.inflight.values) := by
    have herase := h.buffs.erase c
    rwa [List.cons_append, List.erase_cons_head] at herase
  have hpool : (q.dropBuff d c).pool = { q.pool with buffs := q.pool.buffs.erase c, pool := q.pool.pool ++ [c] } :=
    if_neg h.alive
  refine { h with stock := h.stock.drop h.alive hc, handles := ?_, returning := ?_, size := ?_, buffs := ?_ }
  all_goals rw [hpool]
  · exact h.handles
  · exact h.returning
  · exact h.size
  · exact hbuffs

/-- What `reclaim` returns is taken out of the map and held, or is not there. -/
theorem Inv.reclaimBuffer (h : q.Inv held) {unknown : String} {r : Except Stop (Option (DCommon × β))}
    (hrun : reclaimBuffer hw unknown q = (r, q')) :
    q.Same q' ∧
      ((r = .ok none ∨ r = .error (.err (.other unknown))) ∧ Inv held q' ∨
        ∃ c x, r = .ok (some (c, x)) ∧ Inv (c :: held) q') := by
  rcases hreclaim : hw.reclaim q.interface with ⟨_ | ⟨a, x⟩, i⟩
  · simp only [Queue.reclaimBuffer, Exec.bind_apply, reclaim, hreclaim, Exec.pure_apply] at hrun
    obtain ⟨rfl, rfl⟩ := Prod.mk.inj hrun
    exact ⟨⟨rfl, rfl, rfl, .refl _⟩, .inl ⟨.inl rfl, h.interface i⟩⟩
  · rcases hget : q.inflight.get a with _ | c
    · have hnot : a ∉ q.device := fun ha => by
        obtain ⟨c, hc⟩ := (h.device a).mp ha
        cases hget.symm.trans hc
      have hremove : (q.inflight.remove a).1 = none := hget
      simp only [Queue.reclaimBuffer, Exec.bind_apply, reclaim, hreclaim, remove, hremove, Exec.throw_apply,
        SortedMap.remove_of_none hget, List.erase_of_not_mem hnot] at hrun
      obtain ⟨rfl, rfl⟩ := Prod.mk.inj hrun
      exact ⟨⟨rfl, rfl, rfl, .refl _⟩, .inl ⟨.inr rfl, h.interface i⟩⟩
    · have hremove : (q.inflight.remove a).1 = some c := hget
      simp only [Queue.reclaimBuffer, Exec.bind_apply, reclaim, hreclaim, remove, hremove, Exec.pure_apply] at hrun
      obtain ⟨rfl, rfl⟩ := Prod.mk.inj hrun
      refine ⟨⟨rfl, rfl, rfl, .refl _⟩, .inr ⟨c, x, rfl, ?_⟩⟩
      refine { h with toRecorded := h.toRecorded.remove a i, buffs := ?_ }
      refine h.buffs.trans ((SortedMap.values_remove hget).append_left held |>.trans ?_)
      exact List.perm_middle

variable {r : Except Stop DCommon}

theorem alloc_cases (hrun : alloc d q = (r, q')) :
    ∃ r' pool, Dma.DArrayPool.alloc d q.pool = (r', pool) ∧ q' = { q with pool := pool } ∧
      r'.toOption = r.toOption ∧ (r = .error .panic → r' = .error .panic) := by
  rcases halloc : Dma.DArrayPool.alloc d q.pool with ⟨(e | _) | c, pool⟩
  all_goals
    simp only [alloc, halloc] at hrun
    obtain ⟨rfl, rfl⟩ := Prod.mk.inj hrun
    exact ⟨_, pool, rfl, rfl, rfl, by simp⟩

theorem Inv.alloc_ne_panic (h : q.Inv held) (hsmall : q.config.bufSize < 2 ^ 64) (hrun : Queue.alloc d q = (r, q')) :
    r ≠ .error .panic := by
  obtain ⟨r', pool, halloc, -, -, hpanic⟩ := alloc_cases hrun
  exact fun hr => Dma.alloc_ne_panic (h.size ▸ hsmall) halloc (hpanic hr)

theorem Inv.alloc (h : q.Inv held) (hrun : alloc d q = (r, q')) (hfresh : Fresh q'.pool.world.calls) :
    q'.config = q.config ∧ Inv (r.toOption.toList ++ held) q' := by
  obtain ⟨r', pool, halloc, rfl, hoption, -⟩ := alloc_cases hrun
  have hpool := h.stock.alloc halloc hfresh
  refine ⟨rfl, { h with
    stock := hpool.stock, handles := hpool.handles.trans h.handles, returning := hpool.returning.trans h.returning
    size := (congrArg _ hpool.config).trans h.size, buffs := ?_ }⟩
  show pool.buffs.Perm _
  rw [hpool.buffs, hoption, List.append_assoc]
  exact List.perm_append_comm.trans (h.buffs.append_left _)

theorem submit_cases {busAddr len : Nat} {r : Except Stop Unit} (hrun : submit hw busAddr len q = (r, q')) :
    (r = .ok () ∧ ∃ i, q' = { q with
      interface := i, device := q.device ++ [busAddr], submitted := q.submitted + 1 }) ∨
      ∃ e i, r = .error (.err e) ∧ q' = { q with interface := i } := by
  rcases hsubmit : hw.submit q.interface busAddr len with ⟨e | _, i⟩
  · simp only [submit, hsubmit] at hrun
    obtain ⟨rfl, rfl⟩ := Prod.mk.inj hrun
    exact .inr ⟨e, i, rfl, rfl⟩
  · simp only [submit, hsubmit] at hrun
    obtain ⟨rfl, rfl⟩ := Prod.mk.inj hrun
    exact .inl ⟨rfl, i, rfl⟩

theorem insert_eq (d : DeviceDma σ) (a : Nat) (c : DCommon) (q : Queue ι σ) :
    ∃ pool, q.insert d a c = { q with pool := pool, inflight := q.inflight.insert a c } := by
  rw [Queue.insert]
  split
  · exact ⟨_, rfl⟩
  · exact ⟨q.pool, rfl⟩

/-- A buffer that is held and accepted by the device goes into the map. -/
theorem Inv.insert (h : q.Inv (c :: held)) (i : ι) (n : Nat) :
    Inv held (Queue.insert d c.handle.dmaAddr c
      { q with interface := i, device := q.device ++ [c.handle.dmaAddr], submitted := n }) := by
  have hget := h.get_held List.mem_cons_self
  simp only [Queue.insert, hget]
  refine { h with toRecorded := h.toRecorded.insert hget i n, buffs := ?_ }
  refine h.buffs.trans (List.perm_middle.symm.trans ?_)
  exact (SortedMap.values_insert hget).symm.append_left held

theorem recorded_create {i : ι} {pool : Pool σ} {config : QueueConfig} :
    Recorded ⟨i, pool, .empty, config, [], 0⟩ where
  key hget := by cases hget
  device a := by simp [SortedMap.empty, SortedMap.get]
  nodup := List.nodup_nil

section Create

variable {os : DmaOp σ} {config : QueueConfig} {direction : Dma.DmaDirection} {i : ι} {w : World σ}

theorem create_eq_ok (hcreate : Queue.create os config direction i w = .ok q) :
    ∃ layout, Dma.Layout.fromSizeAlign config.bufSize (max config.align 1) = some layout ∧
      q = ⟨i, Dma.newPool ⟨os, config.dmaMask⟩ layout direction config.ringSize w, .empty, config, [], 0⟩ := by
  rw [Queue.create] at hcreate
  split at hcreate
  · cases hcreate
  · next layout hlayout => exact ⟨layout, hlayout, (Except.ok.inj hcreate).symm⟩

theorem inv_create (hcreate : Queue.create os config direction i w = .ok q) (hfresh : Fresh q.pool.world.calls) :
    q.Inv [] ∧ q.config.bufSize < 2 ^ 64 := by
  obtain ⟨layout, hlayout, rfl⟩ := create_eq_ok hcreate
  have hsize := (Dma.Layout.fromSizeAlign_eq_some hlayout).1
  refine ⟨⟨recorded_create, Dma.stock_newPool hfresh, rfl, rfl, hsize, .refl _⟩, ?_⟩
  show config.bufSize < 2 ^ 64
  have hvalid := layout.valid.2
  omega

end Create

/-! ### The queue is dropped -/

theorem Inv.drop_pool (h : q.Inv held) :
    (q.drop d).pool.world = Pool.dropAll d (q.pool.pool ++ q.inflight.values) q.pool.world ∧
      (q.drop d).pool.pool = [] := by
  have hsettle : Dma.DArrayPool.drop d q.pool =
      { q.pool with handles := 0, pool := [], world := Pool.dropAll d q.pool.pool q.pool.world } := by
    simp only [Dma.DArrayPool.drop, Pool.settle, h.handles, h.returning, Nat.sub_self, and_self, if_true]
  have hfold := Dma.foldl_drop d q.inflight.values (s := Dma.DArrayPool.drop d q.pool) (hsettle ▸ rfl)
  refine ⟨hfold.1.trans ?_, hfold.2.trans (hsettle ▸ rfl)⟩
  rw [hsettle, Pool.dropAll, Pool.dropAll, Pool.dropAll, List.foldl_append]

theorem Inv.device_eq_nil (h : q.Inv held) (hempty : q.inflight.entries = []) : q.device = [] := by
  refine List.eq_nil_iff_forall_not_mem.mpr fun a ha => ?_
  obtain ⟨c, hget⟩ := (h.device a).mp ha
  have hmem := SortedMap.get_eq_some_iff.mp hget
  rw [hempty] at hmem
  exact absurd hmem List.not_mem_nil

/-- Dropping the queue gives back what the device has, if there is anything to give back. -/
theorem Inv.drop_safe_iff (h : q.Inv []) (hfresh : Fresh q.pool.world.calls) :
    (q.drop d).Safe ↔ q.config.bufSize = 0 ∨ q.inflight.entries = [] := by
  obtain ⟨hworld, hpool⟩ := h.drop_pool (d := d)
  have hstocked := h.stocked
  rw [List.nil_append] at hstocked
  constructor
  · intro hsafe
    by_contra hneither
    obtain ⟨hsize, hne⟩ := not_or.mp hneither
    obtain ⟨⟨a, c⟩, rest, hentries⟩ := List.exists_cons_of_ne_nil hne
    have hget : q.inflight.get a = some c := SortedMap.get_eq_some_iff.mpr (hentries ▸ List.mem_cons_self)
    have hc : c ∈ q.pool.pool ++ q.inflight.values := List.mem_append_right _ (SortedMap.mem_values.mpr ⟨a, hget⟩)
    obtain ⟨⟨b, hlive, haddr⟩, -⟩ := hsafe a ((h.device a).mpr ⟨c, hget⟩)
    -- the handle with that address is that of the container, which was given back
    rw [hworld, Dma.live_dropAll_iff] at hlive
    have hpos : 0 < c.handle.size := hstocked.size c hc ▸ Nat.pos_of_ne_zero hsize
    rcases hfresh.apart_or_eq Dma.Distinct.symm hlive.1 (hstocked.live hc) with hapart | heq
    · exact hapart (haddr.trans (h.key hget).symm)
    · exact hlive.2 c hc hpos heq
  · rintro (hzero | hempty) a ha
    · obtain ⟨b, hlive, haddr⟩ := (h.safe a ha).1
      refine ⟨⟨b, ?_, haddr⟩, fun c hc => ?_⟩
      · rw [hworld, Dma.live_dropAll_iff]
        refine ⟨hlive, fun c hc hpos => ?_⟩
        rw [hstocked.size c hc, hzero] at hpos
        exact absurd hpos (Nat.lt_irrefl 0)
      · rw [hpool] at hc
        exact absurd hc List.not_mem_nil
    · have ha : a ∈ q.device := ha
      rw [h.device_eq_nil hempty] at ha
      exact absurd ha List.not_mem_nil

/-! ### The calls of the backend -/

/-- Nothing is taken from the history of the backend. -/
def Grows (q q' : Queue ι σ) : Prop := q.pool.world.calls <:+ q'.pool.world.calls

theorem Grows.refl (q : Queue ι σ) : q.Grows q := List.suffix_rfl

theorem Grows.trans {q q' q'' : Queue ι σ} (h : q.Grows q') (h' : q'.Grows q'') : q.Grows q'' :=
  List.IsSuffix.trans h h'

theorem Grows.bind {α γ : Type} {x : Exec Stop (Queue ι σ) α} {f : α → Exec Stop (Queue ι σ) γ}
    (hx : Exec.Moves Grows x) (hf : ∀ a, Exec.Moves Grows (f a)) : Exec.Moves Grows (x >>= f) :=
  Exec.Moves.bind (R := Grows) (fun _ _ _ => Grows.trans) hx hf

theorem Grows.gets {α γ : Type} {g : Queue ι σ → α} {f : α → Exec Stop (Queue ι σ) γ}
    (hf : ∀ a, Exec.Moves Grows (f a)) : Exec.Moves Grows (Exec.gets g >>= f) :=
  Grows.bind (fun q => Grows.refl q) hf

theorem grows_dropBuff (d : DeviceDma σ) (c : DCommon) (q : Queue ι σ) : q.Grows (q.dropBuff d c) :=
  Dma.buff_drop_suffix d c q.pool

theorem grows_insert (d : DeviceDma σ) (a : Nat) (c : DCommon) (q : Queue ι σ) : q.Grows (q.insert d a c) := by
  rw [Queue.insert]
  split
  · next old _ => exact grows_dropBuff d old { q with inflight := q.inflight.insert a c }
  · exact List.suffix_rfl

theorem moves_reclaimBuffer (hw : IQueue ι β) (unknown : String) :
    Exec.Moves (Grows (σ := σ)) (Queue.reclaimBuffer hw unknown) := by
  intro q
  rcases hreclaim : hw.reclaim q.interface with ⟨_ | ⟨a, x⟩, i⟩
  · simp only [Queue.reclaimBuffer, Exec.bind_apply, reclaim, hreclaim, Exec.pure_apply]
    exact List.suffix_rfl
  · rcases hremove : (q.inflight.remove a).1 with _ | c
    all_goals
      simp only [Queue.reclaimBuffer, Exec.bind_apply, reclaim, hreclaim, remove, hremove, Exec.pure_apply,
        Exec.throw_apply]
      exact List.suffix_rfl

theorem moves_alloc (d : DeviceDma σ) : Exec.Moves (Grows (ι := ι)) (Queue.alloc d) := by
  intro q
  rcases hrun : Queue.alloc d q with ⟨r, q'⟩
  obtain ⟨r', pool, halloc, rfl, -⟩ := alloc_cases hrun
  exact Dma.alloc_suffix halloc

theorem moves_submit (hw : IQueue ι β) (a len : Nat) : Exec.Moves (Grows (σ := σ)) (Queue.submit hw a len) := by
  intro q
  rcases hrun : Queue.submit hw a len q with ⟨r, q'⟩
  rcases submit_cases hrun with ⟨-, i, rfl⟩ | ⟨e, i, -, rfl⟩
  · exact List.suffix_rfl
  · exact List.suffix_rfl

theorem grows_drop (d : DeviceDma σ) (q : Queue ι σ) : q.Grows (q.drop d) :=
  (Pool.settle_suffix d { q.pool with handles := q.pool.handles - 1 }).trans
    (Dma.foldl_drop_suffix d q.inflight.values _)

end Queue

end Sparreal.Eth
