import Mathlib.Data.List.Perm.Basic
import Sparreal.Lib.Machine
import Sparreal.Dma.Container

/-!
# Pools of DMA buffers

`DArrayPool` of `dma-api/src/pool.rs`. The pool is shared: it lives as long as one of its handles does, or a
`DBuff` that is being dropped and has upgraded its weak reference. A dropped `DBuff` goes back to the pool if
it is alive and is freed otherwise; the pool frees its buffers when it goes.

At all times every buffer the backend has given out and not got back is in exactly one place (`Kept`).
-/

namespace Sparreal.Dma

structure DArrayConfig where
  size : Nat
  align : Nat
  direction : DmaDirection
  deriving DecidableEq, Repr

/-- A pool and what has become of its buffers. -/
structure Pool (σ : Type) where
  config : DArrayConfig
  world : World σ
  /-- The `DArrayPool`s. -/
  handles : Nat
  /-- The queue of `Inner`. -/
  pool : List DCommon
  /-- The data of the `DBuff`s. -/
  buffs : List DCommon
  /-- The data of the `DBuff`s that are dropped and hold a reference to the pool. -/
  returning : List DCommon
  /-- The calls of `alloc` that found the queue empty and have not asked for a buffer yet. -/
  waiting : Nat

variable {σ : Type}

def newBuffer (d : DeviceDma σ) (config : DArrayConfig) : Exec Fault (World σ) DCommon :=
  DArray.newZeroWithAlign d byteLayout config.size config.align config.direction

/-- The loop of `new_pool`; buffers that cannot be had are left out. -/
def fill (d : DeviceDma σ) (config : DArrayConfig) : Nat → List DCommon × World σ → List DCommon × World σ
  | 0, s => s
  | cap + 1, (pool, w) =>
    match newBuffer d config w with
    | (.ok dvec, w) => fill d config cap (pool ++ [dvec], w)
    | (.error _, w) => fill d config cap (pool, w)

def newPool (d : DeviceDma σ) (layout : Layout) (direction : DmaDirection) (cap : Nat) (w : World σ) : Pool σ :=
  let config := ⟨layout.size, layout.align, direction⟩
  let (pool, w) := fill d config cap ([], w)
  ⟨config, w, 1, pool, [], [], 0⟩

namespace Pool

def dropAll (d : DeviceDma σ) (cs : List DCommon) (w : World σ) : World σ := cs.foldl (fun w c => c.drop d w) w

/-- `Inner` is dropped with the last reference to it. -/
def settle (d : DeviceDma σ) (s : Pool σ) : Pool σ :=
  if s.handles = 0 ∧ s.returning = [] then { s with pool := [], world := dropAll d s.pool s.world } else s

/-- What happens. A `DBuff` is named by its place among the others. `alloc` is the part of `alloc` under the
lock, `allocNew` the rest of it; `dropBuff` is `DBuff::drop` up to the upgrade of the weak reference,
`giveBack` the rest of it. -/
inductive Event where
  | alloc
  | allocNew
  | clonePool
  | dropPool
  | dropBuff (i : Nat)
  | giveBack (i : Nat)
  deriving DecidableEq, Repr

/-- One step. The pool outlives the calls of its `alloc`. -/
def step (d : DeviceDma σ) (s : Pool σ) : Event → Option (Pool σ)
  | .alloc =>
    if s.handles = 0 then none
    else match s.pool with
      | dvec :: rest => some { s with pool := rest, buffs := s.buffs ++ [dvec] }
      | [] => some { s with waiting := s.waiting + 1 }
  | .allocNew =>
    if s.waiting = 0 then none
    else match newBuffer d s.config s.world with
      | (.ok dvec, w) => some { s with buffs := s.buffs ++ [dvec], world := w, waiting := s.waiting - 1 }
      | (.error _, w) => some { s with world := w, waiting := s.waiting - 1 }
  | .clonePool => if s.handles = 0 then none else some { s with handles := s.handles + 1 }
  | .dropPool =>
    if s.handles = 0 ∨ s.handles = 1 ∧ s.waiting ≠ 0 then none
    else some (settle d { s with handles := s.handles - 1 })
  | .dropBuff i =>
    s.buffs[i]?.map fun data =>
      if s.handles = 0 ∧ s.returning = [] then
        { s with buffs := s.buffs.eraseIdx i, world := data.drop d s.world }
      else { s with buffs := s.buffs.eraseIdx i, returning := s.returning ++ [data] }
  | .giveBack i =>
    s.returning[i]?.map fun data =>
      settle d { s with pool := s.pool ++ [data], returning := s.returning.eraseIdx i }

def containers (s : Pool σ) : List DCommon := s.pool ++ s.buffs ++ s.returning

end Pool

/-! ### What the backend promises -/

/-- Two buffers do not overlap. -/
def Apart (a b : DmaHandle) : Prop := a.cpuAddr + a.size ≤ b.cpuAddr ∨ b.cpuAddr + b.size ≤ a.cpuAddr

theorem Apart.symm {a b : DmaHandle} (h : Apart a b) : Apart b a := Or.symm h

/-- The backend gives out memory that is not in use. -/
def Behaves : Ledger DmaHandle → Prop
  | [] => True
  | .grant a :: log => (∀ b, Ledger.Live log b → Apart a b) ∧ Behaves log
  | .refuse :: log => Behaves log
  | .release _ :: log => Behaves log

/-- The size, the alignment and the direction of a container are those of the configuration. -/
structure DArrayConfig.Fits (config : DArrayConfig) (c : DCommon) : Prop where
  size : c.handle.size = config.size
  align : c.handle.align = config.align
  aligned : config.align ∣ c.handle.dmaAddr
  direction : c.direction = config.direction

/-- What is granted and not released is in the containers, each of them with the configuration of the pool. -/
structure Kept (config : DArrayConfig) (w : World σ) (cs : List DCommon) : Prop where
  holds : w.calls.Holds Apart (cs.map fun c => c.handle.toDmaHandle)
  fits : ∀ c ∈ cs, config.Fits c

section Kept

variable {d : DeviceDma σ} {config : DArrayConfig} {w w' : World σ} {c : DCommon} {cs cs' : List DCommon}

/-- A new buffer is one of the configuration; without one, what was granted is released. -/
theorem newBuffer_cases {r : Except Fault DCommon} (hrun : newBuffer d config w = (r, w')) :
    ((∃ fault, r = .error fault) ∧ GaveBack w w') ∨
      ∃ c, r = .ok c ∧ c.handle.size = config.size ∧ (0 < config.align → config.Fits c) ∧
        w'.calls = .grant c.handle.toDmaHandle :: w.calls := by
  rcases newZeroWithAlign_cases hrun with ⟨hr, rfl⟩ | ⟨layout, hlsize, hlalign, hnew⟩
  · exact .inl ⟨hr, .inl rfl⟩
  · rcases newZero_cases hnew with ⟨⟨e, rfl⟩, hback⟩ | ⟨a, hlayout, rfl, hcheck, hcalls, -⟩
    · exact .inl ⟨⟨_, rfl⟩, hback⟩
    · have hbytes : a.size = config.size := by
        rw [DmaHandle.size, hlayout, hlsize]
        exact Nat.mul_one _
      refine .inr ⟨_, rfl, hbytes, fun halign => ?_, hcalls⟩
      have haligned : a.align = config.align := by
        rw [DmaHandle.align, hlayout, hlalign]
        exact max_eq_left halign
      exact ⟨hbytes, haligned, haligned ▸ (checkHandle_eq_ok hcheck).2, rfl⟩

theorem Kept.perm (hcs : cs.Perm cs') (h : Kept config w cs) : Kept config w cs' :=
  ⟨h.holds.perm Apart.symm (hcs.map _), fun c hc => h.fits c (hcs.mem_iff.mpr hc)⟩

variable (hsize : 0 < config.size)

include hsize

theorem Kept.not_apart (h : Kept config w cs) : ∀ a ∈ cs.map fun c => c.handle.toDmaHandle, ¬ Apart a a := by
  rintro a ha (hle | hle)
  all_goals
    obtain ⟨c, hc, rfl⟩ := List.mem_map.mp ha
    have hsize' := (h.fits c hc).size
    omega

theorem Kept.drop (h : Kept config w (c :: cs)) : Kept config (c.drop d w) cs := by
  have hpos : 0 < c.handle.size := by rwa [(h.fits c (List.mem_cons_self ..)).size]
  refine ⟨?_, fun c' hc' => h.fits c' (List.mem_cons_of_mem _ hc')⟩
  rw [DCommon.drop, if_pos hpos]
  exact h.holds.release fun a ha => h.not_apart hsize a (List.mem_cons_of_mem _ ha)

theorem Kept.dropAll (h : Kept config w (cs ++ cs')) : Kept config (Pool.dropAll d cs w) cs' := by
  induction cs generalizing w with
  | nil => exact h
  | cons c cs ih => exact ih (h.drop hsize)

theorem Kept.grant (h : Kept config w cs) {a : DmaHandle} (hbehaves : Behaves (.grant a :: w.calls)) :
    Ledger.Holds Apart (.grant a :: w.calls) (a :: cs.map fun c => c.handle.toDmaHandle) :=
  h.holds.grant (h.not_apart hsize) fun b hb => hbehaves.1 b ((h.holds.live b).mpr hb)

theorem Kept.newBuffer {r : Except Fault DCommon} (halign : 0 < config.align) (h : Kept config w cs)
    (hrun : newBuffer d config w = (r, w')) (hbehaves : Behaves w'.calls) :
    Kept config w' (r.toOption.toList ++ cs) := by
  rcases newBuffer_cases hrun with ⟨⟨fault, rfl⟩, hback⟩ | ⟨c, rfl, -, hfits, hcalls⟩
  · refine ⟨?_, h.fits⟩
    rcases hback with hcalls | hcalls | ⟨a, hcalls⟩
    · exact hcalls ▸ h.holds
    · exact hcalls ▸ h.holds.refuse
    · rw [hcalls] at hbehaves ⊢
      exact (h.grant hsize hbehaves).release (h.not_apart hsize)
  · rw [hcalls] at hbehaves
    exact ⟨hcalls ▸ h.grant hsize hbehaves, List.forall_mem_cons.mpr ⟨hfits halign, h.fits⟩⟩

end Kept

/-! ### The ledger only grows -/

section Suffix

variable {d : DeviceDma σ} {w w' : World σ} {s s' : Pool σ}

theorem Behaves.of_suffix {log log' : Ledger DmaHandle} (h : Behaves log') (hsuffix : log <:+ log') :
    Behaves log := by
  refine Ledger.of_suffix (fun {event log} h => ?_) h hsuffix
  cases event with
  | grant a => exact h.2
  | refuse => exact h
  | release a => exact h

theorem newBuffer_suffix {config : DArrayConfig} {r : Except Fault DCommon}
    (hrun : newBuffer d config w = (r, w')) : w.calls <:+ w'.calls := by
  rcases newBuffer_cases hrun with ⟨-, hcalls | hcalls | ⟨a, hcalls⟩⟩ | ⟨c, -, -, -, hcalls⟩
  · exact hcalls ▸ List.suffix_rfl
  · exact hcalls ▸ List.suffix_cons ..
  · exact hcalls ▸ (List.suffix_cons ..).trans (List.suffix_cons ..)
  · exact hcalls ▸ List.suffix_cons ..

theorem drop_suffix (d : DeviceDma σ) (c : DCommon) (w : World σ) : w.calls <:+ (c.drop d w).calls := by
  rw [DCommon.drop]
  split_ifs
  · exact List.suffix_cons ..
  · exact List.suffix_rfl

namespace Pool

theorem dropAll_suffix (d : DeviceDma σ) (cs : List DCommon) (w : World σ) :
    w.calls <:+ (dropAll d cs w).calls := by
  induction cs generalizing w with
  | nil => exact List.suffix_rfl
  | cons c cs ih => exact (drop_suffix d c w).trans (ih _)

theorem settle_suffix (d : DeviceDma σ) (s : Pool σ) : s.world.calls <:+ (settle d s).world.calls := by
  rw [settle]
  split_ifs
  · exact dropAll_suffix d s.pool s.world
  · exact List.suffix_rfl

end Pool

end Suffix

/-! ### Runs -/

namespace Pool

variable {d : DeviceDma σ} {config : DArrayConfig} {s s' : Pool σ} {e : Event}

/-- Everything is kept, and a pool that is gone has no buffers. -/
structure Inv (s : Pool σ) : Prop where
  size : 0 < s.config.size
  align : 0 < s.config.align
  kept : Kept s.config s.world s.containers
  gone : s.handles = 0 → s.returning = [] → s.pool = []

theorem inv_settle (hconfig : s.config = config) (hsize : 0 < s.config.size) (halign : 0 < s.config.align)
    (hkept : Kept s.config s.world s.containers) : (settle d s).config = config ∧ (settle d s).Inv := by
  rw [settle]
  split_ifs with hgone
  · rw [containers, List.append_assoc] at hkept
    exact ⟨hconfig, hsize, halign, Kept.dropAll hsize hkept, fun _ _ => rfl⟩
  · exact ⟨hconfig, hsize, halign, hkept, fun h h' => absurd ⟨h, h'⟩ hgone⟩

theorem perm_eraseIdx {cs : List DCommon} {i : Nat} {c : DCommon} (h : cs[i]? = some c) :
    cs.Perm (c :: cs.eraseIdx i) := by
  obtain ⟨hi, rfl⟩ := List.getElem?_eq_some_iff.mp h
  exact (List.getElem_cons_eraseIdx_perm hi).symm

theorem perm_containers {cs cs' cs'' : List DCommon} {c : DCommon} :
    (c :: (cs ++ cs' ++ cs'')).Perm (cs ++ (cs' ++ [c]) ++ cs'') := by
  rw [← List.append_assoc cs, List.append_assoc (cs ++ cs')]
  exact List.perm_middle.symm

/-- The call of `alloc` that found nothing makes a buffer, or fails. -/
theorem Inv.allocNew (hs : Behaves s.world.calls → s.config = config ∧ s.Inv) (h : s.step d .allocNew = some s')
    (hbehaves : Behaves s'.world.calls) : s'.config = config ∧ s'.Inv := by
  rcases hnew : newBuffer d s.config s.world with ⟨fault | dvec, w⟩
  all_goals
    simp only [Pool.step, hnew] at h
    split_ifs at h
    obtain rfl := Option.some.inj h
    obtain ⟨hconfig, hsize, halign, hkept, hgone⟩ := hs (hbehaves.of_suffix (newBuffer_suffix hnew))
    have hkept' := hkept.newBuffer hsize halign hnew hbehaves
  · exact ⟨hconfig, hsize, halign, hkept', hgone⟩
  · exact ⟨hconfig, hsize, halign, hkept'.perm perm_containers, hgone⟩

theorem Inv.step (hs : Behaves s.world.calls → s.config = config ∧ s.Inv) (h : s.step d e = some s')
    (hbehaves : Behaves s'.world.calls) : s'.config = config ∧ s'.Inv := by
  cases e with
  | alloc =>
    simp only [Pool.step] at h
    split_ifs at h with hhandles
    split at h
    · next dvec rest hpool =>
      obtain rfl := Option.some.inj h
      obtain ⟨hconfig, hsize, halign, hkept, -⟩ := hs hbehaves
      rw [containers, hpool] at hkept
      exact ⟨hconfig, hsize, halign, hkept.perm perm_containers, fun h => absurd h hhandles⟩
    · next hpool =>
      obtain rfl := Option.some.inj h
      obtain ⟨hconfig, hsize, halign, hkept, hgone⟩ := hs hbehaves
      exact ⟨hconfig, hsize, halign, hkept, hgone⟩
  | allocNew => exact Inv.allocNew hs h hbehaves
  | clonePool =>
    simp only [Pool.step] at h
    split_ifs at h
    obtain rfl := Option.some.inj h
    obtain ⟨hconfig, hsize, halign, hkept, -⟩ := hs hbehaves
    exact ⟨hconfig, hsize, halign, hkept, fun h => absurd h (Nat.succ_ne_zero _)⟩
  | dropPool =>
    simp only [Pool.step] at h
    split_ifs at h
    obtain rfl := Option.some.inj h
    have hlog : Behaves s.world.calls := hbehaves.of_suffix
      (settle_suffix d { s with handles := s.handles - 1 })
    obtain ⟨hconfig, hsize, halign, hkept, -⟩ := hs hlog
    exact inv_settle hconfig hsize halign hkept
  | dropBuff i =>
    obtain ⟨data, hdata, rfl⟩ := Option.map_eq_some_iff.mp h
    have hmove : s.containers.Perm (data :: (s.pool ++ s.buffs.eraseIdx i ++ s.returning)) :=
      (((perm_eraseIdx hdata).append_left s.pool).append_right s.returning).trans
        (List.perm_middle.append_right s.returning)
    split_ifs at hbehaves ⊢ with hgone
    · obtain ⟨hconfig, hsize, halign, hkept, hpool⟩ := hs (hbehaves.of_suffix (drop_suffix d data s.world))
      exact ⟨hconfig, hsize, halign, Kept.drop hsize (hkept.perm hmove), hpool⟩
    · obtain ⟨hconfig, hsize, halign, hkept, -⟩ := hs hbehaves
      refine ⟨hconfig, hsize, halign, hkept.perm (hmove.trans ?_), fun _ h => absurd h (by simp)⟩
      exact (List.perm_append_singleton ..).symm.trans (by simp only [containers, List.append_assoc]; rfl)
  | giveBack i =>
    obtain ⟨data, hdata, rfl⟩ := Option.map_eq_some_iff.mp h
    have hlog : Behaves s.world.calls := hbehaves.of_suffix
      (settle_suffix d { s with pool := s.pool ++ [data], returning := s.returning.eraseIdx i })
    obtain ⟨hconfig, hsize, halign, hkept, -⟩ := hs hlog
    refine inv_settle hconfig hsize halign (hkept.perm ?_)
    calc
      List.Perm s.containers (s.pool ++ s.buffs ++ data :: s.returning.eraseIdx i) :=
        (perm_eraseIdx hdata).append_left _
      List.Perm _ (data :: (s.pool ++ s.buffs ++ s.returning.eraseIdx i)) := List.perm_middle
      List.Perm _ (s.pool ++ data :: (s.buffs ++ s.returning.eraseIdx i)) := by
        rw [List.append_assoc]
        exact List.perm_middle.symm
      List.Perm _ (s.pool ++ [data] ++ s.buffs ++ s.returning.eraseIdx i) := by simp

end Pool

/-! ### The first buffers -/

section Fill

variable {d : DeviceDma σ} {config : DArrayConfig}

theorem fill_suffix (cap : Nat) (pool : List DCommon) (w : World σ) :
    w.calls <:+ (fill d config cap (pool, w)).2.calls := by
  induction cap generalizing pool w with
  | zero => exact List.suffix_rfl
  | succ cap ih =>
    rcases hnew : newBuffer d config w with ⟨dvec | fault, w₁⟩
    all_goals
      rw [fill, hnew]
      exact (newBuffer_suffix hnew).trans (ih _ _)

/-- What each new buffer keeps is kept to the end. -/
theorem fill_keeps {K : World σ → List DCommon → Prop} {B : Ledger DmaHandle → Prop}
    (hsuffix : ∀ {log log'}, B log' → log <:+ log' → B log) (hperm : ∀ {w cs cs'}, cs.Perm cs' → K w cs → K w cs')
    (hnew : ∀ {w w' cs r}, K w cs → newBuffer d config w = (r, w') → B w'.calls → K w' (r.toOption.toList ++ cs))
    {cap : Nat} {pool : List DCommon} {w : World σ} (h : K w pool) (hcalls : B (fill d config cap (pool, w)).2.calls) :
    K (fill d config cap (pool, w)).2 (fill d config cap (pool, w)).1 := by
  induction cap generalizing pool w with
  | zero => exact h
  | succ cap ih =>
    rcases hrun : newBuffer d config w with ⟨fault | dvec, w₁⟩
    all_goals
      rw [fill, hrun] at hcalls ⊢
      have hnext := hnew h hrun (hsuffix hcalls (fill_suffix cap _ w₁))
    · exact ih hnext hcalls
    · exact ih (hperm (List.perm_append_singleton ..).symm hnext) hcalls

end Fill

namespace Pool

theorem inv_newPool {d : DeviceDma σ} {layout : Layout} {direction : DmaDirection} {cap : Nat} {w : World σ}
    (hsize : 0 < layout.size) (hw : w.calls = [])
    (hbehaves : Behaves (newPool d layout direction cap w).world.calls) :
    (newPool d layout direction cap w).Inv := by
  have hempty : Kept ⟨layout.size, layout.align, direction⟩ w [] :=
    ⟨hw ▸ Ledger.Holds.nil, fun _ h => absurd h List.not_mem_nil⟩
  have hkept := fill_keeps (K := Kept _) Behaves.of_suffix Kept.perm (Kept.newBuffer hsize layout.align_pos) hempty
    hbehaves
  refine ⟨hsize, layout.align_pos, ?_, fun h => absurd h Nat.one_ne_zero⟩
  rwa [containers, newPool, List.append_nil, List.append_nil]

/-- What holds of a pool at every point: its buffers, wherever they are, do not overlap and are those of its
configuration, and when the pool and its buffers are gone everything the backend gave has been given back
once. -/
structure Owned (config : DArrayConfig) (s : Pool σ) : Prop where
  apart : s.containers.Pairwise fun c c' => Apart c.handle.toDmaHandle c'.handle.toDmaHandle
  distinct : s.containers.Nodup
  fits : ∀ c ∈ s.containers, config.Fits c
  released : s.handles = 0 → s.buffs = [] → s.returning = [] →
    s.world.calls.Sound ∧ ∀ h, s.world.calls.granted h = s.world.calls.released h

theorem Inv.owned {s : Pool σ} (h : s.Inv) : s.Owned s.config := by
  have hapart : s.containers.Pairwise fun c c' => Apart c.handle.toDmaHandle c'.handle.toDmaHandle :=
    List.pairwise_map.mp h.kept.holds.apart
  refine ⟨hapart, ?_, h.kept.fits, fun hhandles hbuffs hreturning => ⟨h.kept.holds.sound, ?_⟩⟩
  · refine hapart.imp_of_mem fun {c c'} hc _ hcc' heq => ?_
    exact h.kept.not_apart h.size _ (List.mem_map_of_mem hc) (heq ▸ hcc')
  · have hnone : s.containers = [] := by
      rw [containers, h.gone hhandles hreturning, hbuffs, hreturning]
      rfl
    have hholds := h.kept.holds
    rw [hnone] at hholds
    exact hholds.granted_eq_released

/-- The buffers of a pool are owned once, whatever the order in which it and they go. -/
theorem pool_owned (d : DeviceDma σ) (layout : Layout) (direction : DmaDirection) (cap : Nat) (w : World σ)
    (es : List Event) (s : Pool σ) (hsize : layout.size ≠ 0) (hw : w.calls = [])
    (hrun : Machine.run (step d) (newPool d layout direction cap w) es = some s)
    (hbehaves : Behaves s.world.calls) : s.Owned ⟨layout.size, layout.align, direction⟩ := by
  obtain ⟨hconfig, hinv⟩ := Machine.run_keeps (I := fun s => Behaves s.world.calls →
    s.config = ⟨layout.size, layout.align, direction⟩ ∧ s.Inv) Inv.step hrun
    (fun h => ⟨rfl, inv_newPool (Nat.pos_of_ne_zero hsize) hw h⟩) hbehaves
  exact hconfig ▸ hinv.owned

/-- A backend that gives out one piece of memory after the other. -/
def bumpBackend : DmaOp Nat where
  allocCoherent _ layout s := (some ⟨s.1, s.1, layout⟩, (s.1 + layout.size, s.2))
  deallocCoherent _ s := s
  layout_eq h := by
    obtain rfl := Option.some.inj (Prod.mk.inj h).1
    rfl

/-- A pool of one buffer that gives out two and goes before they do. -/
theorem pool_owned_two : ∃ s,
    Machine.run (step ⟨bumpBackend, 2 ^ 32 - 1⟩)
        (newPool ⟨bumpBackend, 2 ^ 32 - 1⟩ ⟨64, 64, by decide⟩ .toDevice 1
          ⟨4096, ⟨fun _ => none, fun _ => 0⟩, []⟩)
        [.alloc, .alloc, .allocNew, .dropBuff 0, .dropPool, .giveBack 0, .dropBuff 0] = some s ∧
      s.world.calls.granted ⟨4160, 4160, ⟨64, 64, by decide⟩⟩ = 1 ∧ s.handles = 0 ∧
      s.Owned ⟨64, 64, .toDevice⟩ := by
  have hrun := Option.some_get (show (Machine.run (step ⟨bumpBackend, 2 ^ 32 - 1⟩)
    (newPool ⟨bumpBackend, 2 ^ 32 - 1⟩ ⟨64, 64, by decide⟩ .toDevice 1 ⟨4096, ⟨fun _ => none, fun _ => 0⟩, []⟩)
    [.alloc, .alloc, .allocNew, .dropBuff 0, .dropPool, .giveBack 0, .dropBuff 0]).isSome by decide +kernel)
  refine ⟨_, hrun.symm, by decide +kernel, by decide +kernel,
    pool_owned _ _ _ 1 _ _ _ (by decide) rfl hrun.symm ?_⟩
  refine ⟨fun b hb => ?_, fun b hb => absurd hb id, trivial⟩
  obtain rfl := hb.resolve_right id
  exact .inr (by decide)

end Pool

end Sparreal.Dma
