import Mathlib.Data.List.Pairwise
import Sparreal.Dma.Pool

/-!
# Buffers that devices use

`DArrayPool::alloc` and `DBuff::drop` of `dma-api/src/pool.rs` as the drivers call them, each from beginning to
end. They are runs of the pool (`alloc_run`, `drop_run`). A driver knows its buffers by the addresses it gives to
the device, so what it relies on is that these are distinct: the backend gives out addresses that are not in use
(`Fresh`), and the buffers of a pool, wherever they are, have addresses of their own (`Stocked`).
-/

namespace Sparreal.Dma

variable {σ : Type}

/-- Two handles have different addresses for the device. -/
def Distinct (a b : DmaHandle) : Prop := a.dmaAddr ≠ b.dmaAddr

theorem Distinct.symm {a b : DmaHandle} (h : Distinct a b) : Distinct b a := Ne.symm h

theorem Distinct.ne {a b : DmaHandle} (h : Distinct a b) : a ≠ b := fun he => h (congrArg _ he)

/-- The backend gives out addresses that are not in use. -/
def Fresh (log : Ledger DmaHandle) : Prop := log.Grants Distinct

/-- The containers have buffers of that size that were not given back, at addresses of their own. -/
structure Stocked (size : Nat) (w : World σ) (cs : List DCommon) : Prop where
  includes : w.calls.Includes Distinct (cs.map fun c => c.handle.toDmaHandle)
  size : ∀ c ∈ cs, c.handle.size = size

section Stocked

variable {d : DeviceDma σ} {config : DArrayConfig} {size : Nat} {w w' : World σ} {c c' : DCommon}
  {cs cs' : List DCommon}

theorem stocked_nil (size : Nat) (w : World σ) : Stocked size w [] :=
  ⟨⟨fun _ h => absurd h List.not_mem_nil, List.Pairwise.nil⟩, fun _ h => absurd h List.not_mem_nil⟩

theorem Stocked.perm (hcs : cs.Perm cs') (h : Stocked size w cs) : Stocked size w cs' :=
  ⟨h.includes.perm Distinct.symm (hcs.map _), fun c hc => h.size c (hcs.mem_iff.mpr hc)⟩

theorem Stocked.live (h : Stocked size w cs) (hc : c ∈ cs) : w.calls.Live c.handle.toDmaHandle :=
  h.includes.live _ (List.mem_map_of_mem hc)

theorem Stocked.nodup (h : Stocked size w cs) : (cs.map fun c => c.handle.dmaAddr).Nodup := by
  have hapart := List.pairwise_map.mp h.includes.apart
  exact List.pairwise_map.mpr hapart

theorem Stocked.newBuffer {r : Except Fault DCommon} (h : Stocked config.size w cs)
    (hrun : newBuffer d config w = (r, w')) (hfresh : Fresh w'.calls) :
    Stocked config.size w' (r.toOption.toList ++ cs) := by
  rcases newBuffer_cases hrun with ⟨⟨fault, rfl⟩, hback⟩ | ⟨c, rfl, hsize, -, hcalls⟩
  · refine ⟨?_, h.size⟩
    rcases hback with hcalls | hcalls | ⟨a, hcalls⟩
    · exact hcalls ▸ h.includes
    · exact hcalls ▸ ⟨h.includes.live, h.includes.apart⟩
    · rw [hcalls] at hfresh ⊢
      exact (h.includes.grant hfresh).release Distinct.ne
  · rw [hcalls] at hfresh
    exact ⟨hcalls ▸ h.includes.grant hfresh, List.forall_mem_cons.mpr ⟨hsize, h.size⟩⟩

theorem newZeroChecked_ne_panic {size align : Nat} {direction : DmaDirection} :
    (newZeroChecked d size align direction w).1 ≠ .error .panic := by
  intro hpanic
  rw [newZeroChecked] at hpanic
  cases hlayout : Layout.fromSizeAlign size align with
  | none =>
    rw [hlayout] at hpanic
    cases hpanic
  | some layout =>
    rw [hlayout] at hpanic
    rcases newZero_cases (Prod.eta (DCommon.newZero d layout direction w)) with ⟨⟨e, he⟩, -⟩ | ⟨a, -, ha, -⟩
    · cases he.symm.trans hpanic
    · cases ha.symm.trans hpanic

theorem newBuffer_ne_panic (hsize : config.size < 2 ^ 64) : (newBuffer d config w).1 ≠ .error .panic := by
  have hbytes : config.size * byteLayout.size < 2 ^ 64 := (Nat.mul_one config.size).symm ▸ hsize
  rw [newBuffer, DArray.newZeroWithAlign, if_pos hbytes]
  exact newZeroChecked_ne_panic

end Stocked

/-! ### The calls of a driver -/

def DArrayPool.alloc (d : DeviceDma σ) : Exec Fault (Pool σ) DCommon := fun s =>
  match s.pool with
  | dvec :: rest => (.ok dvec, { s with pool := rest, buffs := s.buffs ++ [dvec] })
  | [] =>
    match newBuffer d s.config s.world with
    | (.ok dvec, w) => (.ok dvec, { s with buffs := s.buffs ++ [dvec], world := w })
    | (.error fault, w) => (.error fault, { s with world := w })

/-- `DBuff::drop`, with the data of the buffer. -/
def DBuff.drop (d : DeviceDma σ) (data : DCommon) (s : Pool σ) : Pool σ :=
  if s.handles = 0 then { s with buffs := s.buffs.erase data, world := data.drop d s.world }
  else { s with buffs := s.buffs.erase data, pool := s.pool ++ [data] }

/-- The last `DArrayPool` is dropped. -/
def DArrayPool.drop (d : DeviceDma σ) (s : Pool σ) : Pool σ :=
  Pool.settle d { s with handles := s.handles - 1 }

section Calls

variable {d : DeviceDma σ} {s s' : Pool σ} {r : Except Fault DCommon} {c : DCommon}

/-- What `alloc` does: it takes the first buffer of the queue, or asks for a new one. -/
theorem alloc_cases (hrun : DArrayPool.alloc d s = (r, s')) :
    (∃ dvec rest, s.pool = dvec :: rest ∧ r = .ok dvec ∧ s' = { s with pool := rest, buffs := s.buffs ++ [dvec] }) ∨
      s.pool = [] ∧ ∃ w, newBuffer d s.config s.world = (r, w) ∧
        s' = { s with buffs := s.buffs ++ r.toOption.toList, world := w } := by
  rw [DArrayPool.alloc] at hrun
  split at hrun
  · next dvec rest hpool =>
    obtain ⟨rfl, rfl⟩ := Prod.mk.inj hrun
    exact .inl ⟨dvec, rest, hpool, rfl, rfl⟩
  · next hpool =>
    refine .inr ⟨hpool, ?_⟩
    rcases hnew : newBuffer d s.config s.world with ⟨fault | dvec, w⟩
    all_goals
      rw [hnew] at hrun
      obtain ⟨rfl, rfl⟩ := Prod.mk.inj hrun
    · exact ⟨w, rfl, by simp [Except.toOption]⟩
    · exact ⟨w, rfl, rfl⟩

theorem alloc_run (hhandles : s.handles ≠ 0) (hrun : DArrayPool.alloc d s = (r, s')) :
    ∃ es, Machine.run (Pool.step d) s es = some s' := by
  rcases alloc_cases hrun with ⟨dvec, rest, hpool, -, rfl⟩ | ⟨hpool, w, hnew, rfl⟩
  · refine ⟨[.alloc], ?_⟩
    simp only [Machine.run, Pool.step, if_neg hhandles, hpool, Option.bind_some]
  · refine ⟨[.alloc, .allocNew], ?_⟩
    cases r with
    | error fault | ok dvec => simp [Machine.run, Pool.step, hhandles, hpool, hnew, Except.toOption]

theorem drop_run (hreturning : s.returning = []) (hc : c ∈ s.buffs) :
    ∃ es, Machine.run (Pool.step d) s es = some (DBuff.drop d c s) := by
  have hidx : s.buffs[s.buffs.idxOf c]? = some c := List.getElem?_idxOf hc
  have herase : s.buffs.eraseIdx (s.buffs.idxOf c) = s.buffs.erase c := List.eraseIdx_idxOf_eq_erase c s.buffs
  rw [DBuff.drop]
  split_ifs with hhandles
  · refine ⟨[.dropBuff (s.buffs.idxOf c)], ?_⟩
    simp only [Machine.run, Pool.step, hidx, herase, Option.map_some, Option.bind_some, hhandles, hreturning,
      and_self, if_true]
  · refine ⟨[.dropBuff (s.buffs.idxOf c), .giveBack 0], ?_⟩
    simp only [Machine.run, Pool.step, hidx, herase, Option.map_some, Option.bind_some, hhandles, hreturning,
      false_and, if_false, List.nil_append, List.getElem?_cons_zero, Pool.settle, List.eraseIdx_zero, List.tail_cons]

def Pool.Stock (s : Pool σ) : Prop := Stocked s.config.size s.world s.containers

theorem stock_newPool {layout : Layout} {direction : DmaDirection} {cap : Nat} {w : World σ}
    (hfresh : Fresh (newPool d layout direction cap w).world.calls) : (newPool d layout direction cap w).Stock := by
  have hfill : Stocked layout.size _ (fill d ⟨layout.size, layout.align, direction⟩ cap ([], w)).1 :=
    fill_keeps (K := Stocked _) Ledger.Grants.of_suffix Stocked.perm Stocked.newBuffer (stocked_nil _ w) hfresh
  rwa [Pool.Stock, Pool.containers, newPool, List.append_nil, List.append_nil]

/-- No buffer is in the queue of the pool and in a `DBuff`. -/
theorem Pool.Stock.apart (h : s.Stock) {c' : DCommon} (hc : c ∈ s.pool) (hc' : c' ∈ s.buffs) :
    c.handle.dmaAddr ≠ c'.handle.dmaAddr := by
  have hnodup := h.nodup
  rw [containers, List.map_append, List.map_append] at hnodup
  have hboth := (List.nodup_append.mp hnodup).1
  exact (List.nodup_append.mp hboth).2.2 _ (List.mem_map_of_mem hc) _ (List.mem_map_of_mem hc')

theorem Pool.Stock.nodup_buffs (h : s.Stock) : s.buffs.Nodup := by
  have hnodup : s.containers.Nodup :=
    (List.pairwise_map.mp h.nodup).imp fun hne heq => hne (congrArg (fun c => c.handle.dmaAddr) heq)
  rw [containers] at hnodup
  exact (List.nodup_append.mp (List.nodup_append.mp hnodup).1).2.1

/-- What `alloc` does: the buffer it returns is one of the pool. -/
structure Allocated (s s' : Pool σ) (r : Except Fault DCommon) : Prop where
  stock : s'.Stock
  config : s'.config = s.config
  handles : s'.handles = s.handles
  returning : s'.returning = s.returning
  buffs : s'.buffs = s.buffs ++ r.toOption.toList

theorem alloc_suffix (hrun : DArrayPool.alloc d s = (r, s')) : s.world.calls <:+ s'.world.calls := by
  rcases alloc_cases hrun with ⟨dvec, rest, -, -, rfl⟩ | ⟨-, w, hnew, rfl⟩
  · exact List.suffix_rfl
  · exact newBuffer_suffix hnew

theorem alloc_config (hrun : DArrayPool.alloc d s = (r, s')) : s'.config = s.config := by
  rcases alloc_cases hrun with ⟨dvec, rest, -, -, rfl⟩ | ⟨-, w, hnew, rfl⟩ <;> rfl

theorem alloc_ne_panic (hsize : s.config.size < 2 ^ 64) (hrun : DArrayPool.alloc d s = (r, s')) :
    r ≠ .error .panic := by
  rcases alloc_cases hrun with ⟨dvec, rest, -, rfl, -⟩ | ⟨-, w, hnew, -⟩
  · exact fun h => by cases h
  · have hpanic := newBuffer_ne_panic (d := d) (w := s.world) hsize
    rwa [hnew] at hpanic

theorem Pool.Stock.alloc (h : s.Stock) (hrun : DArrayPool.alloc d s = (r, s')) (hfresh : Fresh s'.world.calls) :
    Allocated s s' r := by
  rcases alloc_cases hrun with ⟨dvec, rest, hpool, rfl, rfl⟩ | ⟨hpool, w, hnew, rfl⟩
  · refine ⟨Stocked.perm ?_ h, rfl, rfl, rfl, rfl⟩
    rw [containers, containers, hpool]
    refine List.Perm.append_right s.returning ((List.perm_append_comm_assoc [dvec] rest s.buffs).trans ?_)
    exact .append_left rest List.perm_append_comm
  · refine ⟨(Stocked.newBuffer h hnew hfresh).perm ?_, rfl, rfl, rfl, rfl⟩
    rw [containers, containers, hpool, ← List.append_assoc]
    exact List.perm_append_comm.append_right s.returning

theorem perm_drop (hhandles : s.handles ≠ 0) (hc : c ∈ s.buffs) :
    s.containers.Perm (DBuff.drop d c s).containers := by
  rw [DBuff.drop, if_neg hhandles, Pool.containers, Pool.containers]
  refine .append_right s.returning ?_
  rw [List.append_assoc]
  exact .append_left s.pool (List.perm_cons_erase hc)

theorem Pool.Stock.drop (h : s.Stock) (hhandles : s.handles ≠ 0) (hc : c ∈ s.buffs) : (DBuff.drop d c s).Stock := by
  have hstock := Stocked.perm (perm_drop (d := d) hhandles hc) h
  rw [DBuff.drop, if_neg hhandles] at hstock ⊢
  exact hstock

theorem buff_drop_suffix (d : DeviceDma σ) (c : DCommon) (s : Pool σ) :
    s.world.calls <:+ (DBuff.drop d c s).world.calls := by
  rw [DBuff.drop]
  split_ifs
  · exact drop_suffix d c s.world
  · exact List.suffix_rfl

end Calls

/-! ### When everything is dropped -/

section DropAll

variable {d : DeviceDma σ} {w : World σ} {c : DCommon} {cs : List DCommon} {h : DmaHandle}

theorem live_drop_iff : (c.drop d w).calls.Live h ↔
    w.calls.Live h ∧ (0 < c.handle.size → h ≠ c.handle.toDmaHandle) := by
  rw [DCommon.drop]
  split_ifs with hsize
  · show (_ ∧ _) ↔ _
    simp [hsize, and_comm]
  · simp [hsize]

/-- What is left is what no container of a positive size had. -/
theorem live_dropAll_iff : (Pool.dropAll d cs w).calls.Live h ↔
    w.calls.Live h ∧ ∀ c ∈ cs, 0 < c.handle.size → h ≠ c.handle.toDmaHandle := by
  induction cs generalizing w with
  | nil => simp [Pool.dropAll]
  | cons c cs ih =>
    have hcons := ih (w := c.drop d w)
    rw [live_drop_iff] at hcons
    refine hcons.trans ?_
    rw [List.forall_mem_cons, and_assoc]

/-- The buffers that outlive their pool are given back one by one. -/
theorem foldl_drop (d : DeviceDma σ) (cs : List DCommon) {s : Pool σ} (hhandles : s.handles = 0) :
    (cs.foldl (fun s c => DBuff.drop d c s) s).world = Pool.dropAll d cs s.world ∧
      (cs.foldl (fun s c => DBuff.drop d c s) s).pool = s.pool := by
  induction cs generalizing s with
  | nil => exact ⟨rfl, rfl⟩
  | cons c cs ih =>
    have hdrop : DBuff.drop d c s = { s with buffs := s.buffs.erase c, world := c.drop d s.world } :=
      if_pos hhandles
    rw [List.foldl_cons, hdrop]
    exact ih hhandles

theorem foldl_drop_alive (d : DeviceDma σ) (cs : List DCommon) {s : Pool σ} (hhandles : s.handles ≠ 0) :
    (cs.foldl (fun s c => DBuff.drop d c s) s).pool = s.pool ++ cs := by
  induction cs generalizing s with
  | nil => exact (List.append_nil _).symm
  | cons c cs ih =>
    have hdrop : DBuff.drop d c s = { s with buffs := s.buffs.erase c, pool := s.pool ++ [c] } := if_neg hhandles
    rw [List.foldl_cons, hdrop]
    refine (ih ?_).trans (List.append_assoc s.pool [c] cs)
    exact hhandles

theorem foldl_drop_suffix (d : DeviceDma σ) (cs : List DCommon) (s : Pool σ) :
    s.world.calls <:+ (cs.foldl (fun s c => DBuff.drop d c s) s).world.calls := by
  induction cs generalizing s with
  | nil => exact List.suffix_rfl
  | cons c cs ih => exact (buff_drop_suffix d c s).trans (ih _)

end DropAll

/-- A machine that has given out nothing, for `bumpBackend`. -/
def Pool.freshWorld : World Nat := ⟨4096, ⟨fun _ => none, fun _ => 0⟩, []⟩

end Sparreal.Dma
