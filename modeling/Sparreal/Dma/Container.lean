import Sparreal.Lib.Exec
import Sparreal.Lib.Ledger
import Sparreal.Dma.Sync

/-!
# DMA containers

`DCommon` of `dma-api/src/common.rs` with the constructors of `DArray` and `DBox` and the allocation in
`DeviceDma` (`lib.rs`). The backend is any `DmaOp`: it may refuse, and it may answer with any address. What it
is asked is kept as a ledger: a handle it returned is a grant, a call of `dealloc_coherent` a release.

A container passes its handle to `dealloc_coherent` when it is dropped, unless it is empty; `DCommon::drop`
then leaves the handle with nobody (`ownedOnce_iff`).
-/

namespace Sparreal.Dma

/-- Why a constructor stops: it returns `Err`, or it panics. -/
inductive Fault where
  | err (e : DmaError)
  | panic
  deriving DecidableEq, Repr

/-- `DmaOp`, over the state `σ` of the system behind it. A handle has the layout that was asked for. -/
structure DmaOp (σ : Type) where
  allocCoherent : Nat → Layout → σ × Memory → Option DmaHandle × (σ × Memory)
  deallocCoherent : DmaHandle → σ × Memory → σ × Memory
  layout_eq : ∀ {mask layout s h s'}, allocCoherent mask layout s = (some h, s') → h.layout = layout

structure DeviceDma (σ : Type) where
  os : DmaOp σ
  mask : Nat

/-- The system behind the backend, the memory, and what the backend was asked. -/
structure World (σ : Type) where
  os : σ
  memory : Memory
  calls : Ledger DmaHandle

/-- `DCommon`, what `DArray` and `DBox` consist of. -/
structure DCommon where
  handle : DmaMapHandle
  direction : DmaDirection
  deriving DecidableEq

variable {σ : Type}

namespace DeviceDma

/-- `in_mask` of `check_handle`; the sum is checked. -/
def inMask (d : DeviceDma σ) (h : DmaHandle) : Bool :=
  if h.size = 0 then decide (h.dmaAddr ≤ d.mask)
  else decide (h.dmaAddr + (h.size - 1) < 2 ^ 64) && decide (h.dmaAddr + (h.size - 1) ≤ d.mask)

def checkHandle (d : DeviceDma σ) (h : DmaHandle) : Except DmaError Unit :=
  if !d.inMask h then .error (.dmaMaskNotMatch h.dmaAddr d.mask)
  else if h.dmaAddr % h.align ≠ 0 then .error (.alignMismatch h.align h.dmaAddr)
  else .ok ()

/-- The call of the backend's `alloc_coherent`. -/
def askBackend (d : DeviceDma σ) (layout : Layout) : Exec Fault (World σ) (Option DmaHandle) := fun w =>
  let (answer, os, memory) := d.os.allocCoherent d.mask layout (w.os, w.memory)
  (.ok answer, ⟨os, memory, (match answer with | some h => .grant h | none => .refuse) :: w.calls⟩)

def deallocCoherent (d : DeviceDma σ) (h : DmaHandle) (w : World σ) : World σ :=
  let (os, memory) := d.os.deallocCoherent h (w.os, w.memory)
  ⟨os, memory, .release h :: w.calls⟩

def allocCoherent (d : DeviceDma σ) (layout : Layout) : Exec Fault (World σ) DmaHandle := do
  match ← d.askBackend layout with
  | none => .throw (.err .noMemory)
  | some res =>
    match d.checkHandle res with
    | .ok () => pure res
    | .error e => do
      Exec.modify (d.deallocCoherent res)
      .throw (.err e)

end DeviceDma

/-- `write_bytes(0, size)` and `flush_invalidate`. -/
def zeroBytes (h : DmaHandle) (s : Memory) : Memory :=
  ((s.write h.cpuAddr (List.replicate h.size 0)).flush h.cpuAddr h.size).invalidate h.cpuAddr h.size

def DCommon.newZero (d : DeviceDma σ) (layout : Layout) (direction : DmaDirection) :
    Exec Fault (World σ) DCommon := do
  let handle ← d.allocCoherent layout
  Exec.modify fun w => { w with memory := zeroBytes handle w.memory }
  return ⟨⟨handle, none⟩, direction⟩

def DCommon.drop (d : DeviceDma σ) (c : DCommon) (w : World σ) : World σ :=
  if 0 < c.handle.size then d.deallocCoherent c.handle.toDmaHandle w else w

/-- `DCommon::new_zero` for a layout that is checked first. -/
def newZeroChecked (d : DeviceDma σ) (size align : Nat) (direction : DmaDirection) :
    Exec Fault (World σ) DCommon :=
  match Layout.fromSizeAlign size align with
  | none => .throw (.err .layoutError)
  | some layout => DCommon.newZero d layout direction

/-- `DArray::new_zero_with_align`, for elements with the layout `T`. The product is a `usize`. -/
def DArray.newZeroWithAlign (d : DeviceDma σ) (T : Layout) (size align : Nat) (direction : DmaDirection) :
    Exec Fault (World σ) DCommon :=
  if size * T.size < 2 ^ 64 then newZeroChecked d (size * T.size) (max align T.align) direction
  else .throw .panic

def DArray.newZero (d : DeviceDma σ) (T : Layout) (size : Nat) (direction : DmaDirection) :
    Exec Fault (World σ) DCommon :=
  DArray.newZeroWithAlign d T size T.align direction

def DBox.newZero (d : DeviceDma σ) (T : Layout) (direction : DmaDirection) : Exec Fault (World σ) DCommon :=
  newZeroChecked d T.size T.align direction

def DBox.newZeroWithAlign (d : DeviceDma σ) (T : Layout) (align : Nat) (direction : DmaDirection) :
    Exec Fault (World σ) DCommon :=
  newZeroChecked d T.size (max align T.align) direction

/-- What a container is asked for, with the layout `T` of its elements. -/
inductive Request where
  | array (T : Layout) (size : Nat)
  | arrayWithAlign (T : Layout) (size align : Nat)
  | box (T : Layout)
  | boxWithAlign (T : Layout) (align : Nat)

namespace Request

/-- The constructor of the container. -/
def create (d : DeviceDma σ) (direction : DmaDirection) : Request → Exec Fault (World σ) DCommon
  | .array T size => DArray.newZero d T size direction
  | .arrayWithAlign T size align => DArray.newZeroWithAlign d T size align direction
  | .box T => DBox.newZero d T direction
  | .boxWithAlign T align => DBox.newZeroWithAlign d T align direction

def bytes : Request → Nat
  | .array T size => size * T.size
  | .arrayWithAlign T size _ => size * T.size
  | .box T => T.size
  | .boxWithAlign T _ => T.size

def align : Request → Nat
  | .array T _ => T.align
  | .arrayWithAlign T _ align => max align T.align
  | .box T => T.align
  | .boxWithAlign T align => max align T.align

end Request

/-! ### One constructor call -/

section Calls

variable {d : DeviceDma σ} {h : DmaHandle} {layout : Layout} {direction : DmaDirection} {w w' : World σ}

theorem le_mask_of_inMask (hmask : d.inMask h = true) {x : Nat} (hle : h.dmaAddr ≤ x)
    (hlt : x < h.dmaAddr + h.size) : x ≤ d.mask := by
  rw [DeviceDma.inMask] at hmask
  split_ifs at hmask
  · omega
  · have hend := of_decide_eq_true (Bool.and_eq_true_iff.mp hmask).2
    omega

theorem checkHandle_eq_ok (hok : d.checkHandle h = .ok ()) : d.inMask h = true ∧ h.align ∣ h.dmaAddr := by
  rw [DeviceDma.checkHandle] at hok
  split_ifs at hok with hmask halign
  exact ⟨by simpa using hmask, Nat.dvd_of_mod_eq_zero (not_not.mp halign)⟩

theorem checkHandle_ok_or_error (d : DeviceDma σ) (h : DmaHandle) :
    d.checkHandle h = .ok () ∨ ∃ e, d.checkHandle h = .error e := by
  cases hc : d.checkHandle h with
  | ok => exact .inl rfl
  | error e => exact .inr ⟨e, rfl⟩

theorem allocCoherent_cases {r : Except Fault DmaHandle} (hrun : d.allocCoherent layout w = (r, w')) :
    (r = .error (.err .noMemory) ∧ w'.calls = .refuse :: w.calls) ∨
      ∃ res, res.layout = layout ∧
        ((r = .ok res ∧ d.checkHandle res = .ok () ∧ w'.calls = .grant res :: w.calls) ∨
          (∃ e, r = .error (.err e)) ∧ w'.calls = .release res :: .grant res :: w.calls) := by
  rw [DeviceDma.allocCoherent, Exec.bind_apply, DeviceDma.askBackend] at hrun
  rcases hask : d.os.allocCoherent d.mask layout (w.os, w.memory) with ⟨_ | res, os, memory⟩
  · simp only [hask] at hrun
    obtain ⟨rfl, rfl⟩ := Prod.mk.inj hrun
    exact .inl ⟨rfl, rfl⟩
  · simp only [hask] at hrun
    refine .inr ⟨res, d.os.layout_eq hask, ?_⟩
    rcases checkHandle_ok_or_error d res with hcheck | ⟨e, hcheck⟩
    · simp only [hcheck] at hrun
      obtain ⟨rfl, rfl⟩ := Prod.mk.inj hrun
      exact .inl ⟨rfl, hcheck, rfl⟩
    · simp only [hcheck] at hrun
      obtain ⟨rfl, rfl⟩ := Prod.mk.inj hrun
      exact .inr ⟨⟨e, rfl⟩, rfl⟩

/-- The bytes are zero for the CPU and for the device. -/
def Zeroed (h : DmaHandle) (s : Memory) : Prop :=
  ∀ i < h.size, s.view (h.cpuAddr + i) = 0 ∧ s.memory (h.cpuAddr + i) = 0

theorem zeroed_zeroBytes (h : DmaHandle) (s : Memory) : Zeroed h (zeroBytes h s) := by
  intro i hi
  have hwritten : (s.write h.cpuAddr (List.replicate h.size 0)).view (h.cpuAddr + i) = 0 :=
    CachedMemory.view_write (by simp [hi])
  have hmemory : (zeroBytes h s).memory (h.cpuAddr + i) = 0 := by
    rw [zeroBytes, CachedMemory.memory_invalidate, CachedMemory.memory_flush, if_pos (by omega), hwritten]
  refine ⟨?_, hmemory⟩
  rw [zeroBytes, CachedMemory.view_invalidate, if_pos (by omega)]
  exact hmemory

/-- What was granted since has been released since. -/
def Balanced (w w' : World σ) : Prop :=
  ∃ calls : Ledger DmaHandle, w'.calls = calls ++ w.calls ∧ ∀ h, calls.granted h = calls.released h

/-- What a constructor that fails has asked of the backend: nothing, a handle it did not get, or a handle it
gave back. -/
def GaveBack (w w' : World σ) : Prop :=
  w'.calls = w.calls ∨ w'.calls = .refuse :: w.calls ∨ ∃ h, w'.calls = .release h :: .grant h :: w.calls

theorem GaveBack.balanced (hback : GaveBack w w') : Balanced w w' := by
  rcases hback with hcalls | hcalls | ⟨h, hcalls⟩
  · exact ⟨[], hcalls, fun _ => rfl⟩
  · exact ⟨[.refuse], hcalls, fun _ => rfl⟩
  · refine ⟨[.release h, .grant h], hcalls, fun h' => ?_⟩
    by_cases hh : h = h' <;> simp [Ledger.granted, Ledger.released, hh]

variable {r : Except Fault DCommon}

theorem newZero_cases (hrun : DCommon.newZero d layout direction w = (r, w')) :
    ((∃ e, r = .error (.err e)) ∧ GaveBack w w') ∨
      ∃ h, h.layout = layout ∧ r = .ok ⟨⟨h, none⟩, direction⟩ ∧ d.checkHandle h = .ok () ∧
        w'.calls = .grant h :: w.calls ∧ Zeroed h w'.memory := by
  rw [DCommon.newZero, Exec.bind_apply] at hrun
  rcases halloc : d.allocCoherent layout w with ⟨r₁, w₁⟩
  simp only [halloc] at hrun
  rcases allocCoherent_cases halloc with
    ⟨rfl, hcalls⟩ | ⟨res, hlayout, ⟨rfl, hcheck, hcalls⟩ | ⟨⟨e, rfl⟩, hcalls⟩⟩
  · obtain ⟨rfl, rfl⟩ := Prod.mk.inj hrun
    exact .inl ⟨⟨_, rfl⟩, .inr (.inl hcalls)⟩
  · obtain ⟨rfl, rfl⟩ := Prod.mk.inj hrun
    exact .inr ⟨res, hlayout, rfl, hcheck, hcalls, zeroed_zeroBytes res w₁.memory⟩
  · obtain ⟨rfl, rfl⟩ := Prod.mk.inj hrun
    exact .inl ⟨⟨e, rfl⟩, .inr (.inr ⟨res, hcalls⟩)⟩

theorem newZeroChecked_cases {size align : Nat} (hrun : newZeroChecked d size align direction w = (r, w')) :
    ((∃ fault, r = .error fault) ∧ w' = w) ∨
      ∃ layout : Layout, layout.size = size ∧ layout.align = align ∧
        DCommon.newZero d layout direction w = (r, w') := by
  rw [newZeroChecked] at hrun
  cases hlayout : Layout.fromSizeAlign size align with
  | none =>
    rw [hlayout] at hrun
    obtain ⟨rfl, rfl⟩ := Prod.mk.inj hrun
    exact .inl ⟨⟨_, rfl⟩, rfl⟩
  | some layout =>
    rw [hlayout] at hrun
    obtain ⟨hsize, halign⟩ := Layout.fromSizeAlign_eq_some hlayout
    exact .inr ⟨layout, hsize, halign, hrun⟩

theorem newZeroWithAlign_cases {T : Layout} {size align : Nat}
    (hrun : DArray.newZeroWithAlign d T size align direction w = (r, w')) :
    ((∃ fault, r = .error fault) ∧ w' = w) ∨
      ∃ layout : Layout, layout.size = size * T.size ∧ layout.align = max align T.align ∧
        DCommon.newZero d layout direction w = (r, w') := by
  rw [DArray.newZeroWithAlign] at hrun
  split_ifs at hrun
  · exact newZeroChecked_cases hrun
  · obtain ⟨rfl, rfl⟩ := Prod.mk.inj hrun
    exact .inl ⟨⟨_, rfl⟩, rfl⟩

theorem create_cases {request : Request} (hrun : request.create d direction w = (r, w')) :
    ((∃ fault, r = .error fault) ∧ w' = w) ∨
      ∃ layout : Layout, layout.size = request.bytes ∧ layout.align = request.align ∧
        DCommon.newZero d layout direction w = (r, w') := by
  cases request with
  | array T size =>
    have hcases := newZeroWithAlign_cases hrun
    rwa [max_self] at hcases
  | arrayWithAlign T size align => exact newZeroWithAlign_cases hrun
  | box T | boxWithAlign T align => exact newZeroChecked_cases hrun

end Calls

/-! ### Ownership -/

/-- What a container owes its backend: a container that comes back lies inside the mask, is aligned and zero;
without one nothing stays allocated; and dropping it is one call of `dealloc_coherent` with its handle. -/
structure OwnedOnce (d : DeviceDma σ) (request : Request) (direction : DmaDirection) (w : World σ) : Prop where
  created : ∀ {c w'}, request.create d direction w = (.ok c, w') →
    c.handle.size = request.bytes ∧
      (∀ x, c.handle.dmaAddr ≤ x → x < c.handle.dmaAddr + request.bytes → x ≤ d.mask) ∧
      request.align ∣ c.handle.dmaAddr ∧ Zeroed c.handle.toDmaHandle w'.memory
  failed : ∀ {fault w'}, request.create d direction w = (.error fault, w') → Balanced w w'
  dropped : ∀ {c w'}, request.create d direction w = (.ok c, w') →
    ∀ w₁, (c.drop d w₁).calls = .release c.handle.toDmaHandle :: w₁.calls

/-- Every container is owned once, except that the handle of an empty one is never given back. -/
theorem ownedOnce_iff (d : DeviceDma σ) (request : Request) (direction : DmaDirection) (w : World σ) :
    OwnedOnce d request direction w ↔
      ((∃ c w', request.create d direction w = (.ok c, w')) → request.bytes ≠ 0) := by
  -- what a container is, whatever its size
  have hcreated : ∀ {c w'}, request.create d direction w = (.ok c, w') →
      c.handle.size = request.bytes ∧ c.handle.align = request.align ∧
        d.checkHandle c.handle.toDmaHandle = .ok () ∧ Zeroed c.handle.toDmaHandle w'.memory := by
    intro c w' hrun
    rcases create_cases hrun with ⟨⟨_, h⟩, -⟩ | ⟨layout, hsize, halign, hnew⟩
    · cases h
    · rcases newZero_cases hnew with ⟨⟨_, h⟩, -⟩ | ⟨h, rfl, hc, hcheck, -, hzero⟩
      · cases h
      · obtain rfl := Except.ok.inj hc
        exact ⟨hsize, halign, hcheck, hzero⟩
  constructor
  · rintro howned ⟨c, w', hrun⟩ hzero
    have hdrop := howned.dropped hrun w
    rw [DCommon.drop, if_neg (by rw [(hcreated hrun).1, hzero]; exact lt_irrefl 0)] at hdrop
    exact absurd (congrArg List.length hdrop) (by simp)
  · intro hcond
    refine ⟨fun {c w'} hrun => ?_, fun {fault w'} hrun => ?_, fun {c w'} hrun w₁ => ?_⟩
    · obtain ⟨hsize, halign, hcheck, hzero⟩ := hcreated hrun
      obtain ⟨hmask, hdvd⟩ := checkHandle_eq_ok hcheck
      refine ⟨hsize, fun x hle hlt => le_mask_of_inMask hmask hle (by rwa [hsize]), ?_, hzero⟩
      rwa [halign] at hdvd
    · rcases create_cases hrun with ⟨-, rfl⟩ | ⟨layout, -, -, hnew⟩
      · exact GaveBack.balanced (.inl rfl)
      · rcases newZero_cases hnew with ⟨-, hback⟩ | ⟨h, -, hc, -⟩
        · exact hback.balanced
        · cases hc
    · have hpos : 0 < c.handle.size := by
        rw [(hcreated hrun).1]
        exact Nat.pos_of_ne_zero (hcond ⟨c, w', hrun⟩)
      rw [DCommon.drop, if_pos hpos]
      rfl

def pageBackend : DmaOp Unit where
  allocCoherent _ layout s := (some ⟨4096, 4096, layout⟩, s)
  deallocCoherent _ s := s
  layout_eq h := by
    obtain rfl := Option.some.inj (Prod.mk.inj h).1
    rfl

/-- An array of no bytes is allocated and dropped, and its handle is never given back. -/
theorem empty_array_leaks : ∃ c w',
    (Request.array ⟨1, 1, by decide⟩ 0).create ⟨pageBackend, 2 ^ 32 - 1⟩ .toDevice
        ⟨(), ⟨fun _ => none, fun _ => 0⟩, []⟩ = (.ok c, w') ∧
      w'.calls = [.grant ⟨4096, 4096, ⟨0, 1, by decide⟩⟩] ∧
      (c.drop ⟨pageBackend, 2 ^ 32 - 1⟩ w').calls = w'.calls :=
  ⟨_, _, rfl, rfl, rfl⟩

end Sparreal.Dma
