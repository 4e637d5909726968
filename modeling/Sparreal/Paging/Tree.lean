import Sparreal.Paging.Table
import Mathlib.Data.Set.Lattice

/-!
# The tree a page table is

The memory below a root frame read as a tree: a `Tree` is a table with its entries and the tables
its directory entries point to. `tableAt` reads the tree off the memory and `lookup` is the address
translation on trees; `translate` of the source is a function of it (`translate_congr`,
`translateRecursiveWithLevel_eq`).

A tree is `Separated` if no frame occurs in it twice. Then a store to one table changes one node of
the tree (`tableAt_write`), and memory outside the frames of a tree does not matter to it
(`tableAt_congr`).
-/

namespace Sparreal.Paging

variable {P : Type}

/-- A table and the tables below it; `nil` stands below an entry that is not a directory. -/
inductive Tree (P : Type) where
  | nil
  | node (frame : PhysAddr) (entries : Nat → P) (kids : Nat → Tree P)

variable {frame : PhysAddr} {pte : P}

namespace Tree

def frames : Tree P → Set PhysAddr
  | nil => ∅
  | node frame _ kids => {g | g = frame ∨ ∃ i, g ∈ (kids i).frames}

/-- No frame occurs twice. -/
def Separated : Tree P → Prop
  | nil => True
  | node frame _ kids =>
    (∀ i, frame ∉ (kids i).frames) ∧
      (∀ i j, i ≠ j → ∀ g ∈ (kids i).frames, g ∉ (kids j).frames) ∧ ∀ i, (kids i).Separated

def kid : Tree P → Nat → Tree P
  | nil, _ => nil
  | node _ _ kids, i => kids i

def root : Tree P → Option PhysAddr
  | nil => none
  | node frame _ _ => some frame

def set : Tree P → Nat → P → Tree P → Tree P
  | nil, _, _, _ => nil
  | node frame entries kids, i, pte, k =>
    node frame (Function.update entries i pte) (Function.update kids i k)

@[simp] theorem mem_frames_nil (g : PhysAddr) : g ∈ (nil : Tree P).frames ↔ False := Iff.rfl

@[simp] theorem mem_frames_node (frame : PhysAddr) (entries : Nat → P) (kids : Nat → Tree P)
    (g : PhysAddr) : g ∈ (node frame entries kids).frames ↔ g = frame ∨ ∃ i, g ∈ (kids i).frames :=
  Iff.rfl

variable {t : Tree P} {i : Nat} {g : PhysAddr}

theorem mem_frames_of_kid (h : g ∈ (t.kid i).frames) :
    g ∈ t.frames := by
  cases t with
  | nil => exact h
  | node frame entries kids => exact Or.inr ⟨i, h⟩

theorem mem_frames_iff :
    g ∈ t.frames ↔ t.root = some g ∨ ∃ i, g ∈ (t.kid i).frames := by
  cases t with
  | nil => simp [root, kid]
  | node frame entries kids => simp [root, kid, eq_comm]

theorem Separated.kid (h : t.Separated) (i : Nat) : (t.kid i).Separated := by
  cases t with
  | nil => exact trivial
  | node frame entries kids => exact h.2.2 i

theorem Separated.disjoint (h : t.Separated) {j : Nat} (hne : i ≠ j) (hg : g ∈ (t.kid i).frames) :
    g ∉ (t.kid j).frames := by
  cases t with
  | nil => exact id
  | node frame entries kids => exact h.2.1 i j hne g hg

/-- A table, not the place below an entry that is no directory. -/
def IsTable : Tree P → Prop
  | nil => False
  | node _ _ _ => True

theorem kid_set (ht : t.IsTable) (i j : Nat) (pte : P) (k : Tree P) :
    (t.set i pte k).kid j = if j = i then k else t.kid j := by
  cases t with
  | nil => exact ht.elim
  | node frame entries kids => simp [set, kid, Function.update_apply]

theorem set_set (t : Tree P) (i : Nat) (pte pte' : P) (k k' : Tree P) :
    (t.set i pte k).set i pte' k' = t.set i pte' k' := by
  cases t with
  | nil => rfl
  | node frame entries kids => simp [set]

@[simp] theorem root_set (t : Tree P) (i : Nat) (pte : P) (k : Tree P) :
    (t.set i pte k).root = t.root := by
  cases t <;> rfl

theorem isTable_set (ht : t.IsTable) (i : Nat) (pte : P) (k : Tree P) :
    (t.set i pte k).IsTable := by
  cases t with
  | nil => exact ht
  | node frame entries kids => exact trivial

theorem mem_frames_set (ht : t.IsTable) (hsep : t.Separated) {k : Tree P} :
    g ∈ (t.set i pte k).frames ↔ g ∈ k.frames ∨ g ∈ t.frames ∧ g ∉ (t.kid i).frames := by
  cases t with
  | nil => exact ht.elim
  | node frame entries kids =>
    obtain ⟨hroot, hdisj, -⟩ := hsep
    simp only [set, mem_frames_node, kid]
    constructor
    · rintro (rfl | ⟨j, hj⟩)
      · exact Or.inr ⟨Or.inl rfl, hroot i⟩
      · by_cases hji : j = i
        · subst hji
          rw [Function.update_self] at hj
          exact Or.inl hj
        · rw [Function.update_of_ne hji] at hj
          exact Or.inr ⟨Or.inr ⟨j, hj⟩, hdisj j i hji g hj⟩
    · rintro (hk | ⟨rfl | ⟨j, hj⟩, hi⟩)
      · exact Or.inr ⟨i, by rwa [Function.update_self]⟩
      · exact Or.inl rfl
      · have hji : j ≠ i := fun e => hi (e ▸ hj)
        exact Or.inr ⟨j, by rwa [Function.update_of_ne hji]⟩

/-- A table with frames that are new to the tree, or were below entry `i`, may go below it. -/
theorem Separated.set (hsep : t.Separated) {k : Tree P} (hk : k.Separated)
    (hnew : ∀ g ∈ k.frames, g ∈ t.frames → g ∈ (t.kid i).frames) : (t.set i pte k).Separated := by
  cases t with
  | nil => exact trivial
  | node frame entries kids =>
    obtain ⟨hroot, hdisj, hkids⟩ := hsep
    have hframe : frame ∉ k.frames := fun h => hroot i (hnew frame h (Or.inl rfl))
    have hother : ∀ j, j ≠ i → ∀ g ∈ k.frames, g ∉ (kids j).frames := fun j hj g hg hgj =>
      hdisj j i hj g hgj (hnew g hg (Or.inr ⟨j, hgj⟩))
    refine ⟨fun j => ?_, fun j j' hne g hg hg' => ?_, fun j => ?_⟩
    · by_cases hji : j = i
      · subst hji
        rwa [Function.update_self]
      · rw [Function.update_of_ne hji]
        exact hroot j
    · by_cases hji : j = i
      · subst hji
        rw [Function.update_self] at hg
        rw [Function.update_of_ne (Ne.symm hne)] at hg'
        exact hother j' (Ne.symm hne) g hg hg'
      · rw [Function.update_of_ne hji] at hg
        by_cases hji' : j' = i
        · subst hji'
          rw [Function.update_self] at hg'
          exact hother j hji g hg' hg
        · rw [Function.update_of_ne hji'] at hg'
          exact hdisj j j' hne g hg hg'
    · by_cases hji : j = i
      · subst hji
        rwa [Function.update_self]
      · rw [Function.update_of_ne hji]
        exact hkids j

variable [PageTableEntry P]

def entry : Tree P → Nat → P
  | nil, _ => zeroed
  | node _ entries _, i => entries i

def fresh (frame : PhysAddr) : Tree P := node frame (fun _ => zeroed) (fun _ => nil)

@[simp] theorem entry_fresh (frame : PhysAddr) (i : Nat) :
    (fresh frame : Tree P).entry i = zeroed := rfl

theorem mem_frames_fresh : g ∈ (fresh frame : Tree P).frames ↔ g = frame := by
  simp [fresh]

theorem separated_fresh (frame : PhysAddr) : (fresh frame : Tree P).Separated :=
  ⟨fun _ h => h, fun _ _ _ _ h _ => h, fun _ => trivial⟩

theorem entry_set (ht : t.IsTable) (i j : Nat) (pte : P) (k : Tree P) :
    (t.set i pte k).entry j = if j = i then pte else t.entry j := by
  cases t with
  | nil => exact ht.elim
  | node frame entries kids => simp [set, entry, Function.update_apply]

def setKid (t : Tree P) (i : Nat) (k : Tree P) : Tree P := t.set i (t.entry i) k

@[simp] theorem entry_setKid (t : Tree P) (i j : Nat) (k : Tree P) :
    (t.setKid i k).entry j = t.entry j := by
  cases t with
  | nil => rfl
  | node frame entries kids => simp [setKid, set, entry]

end Tree

variable [PageTableEntry P]

/-! ### Reading the tree off the memory -/

/-- A directory entry as `map_range_recursive` tests for it: valid and not huge. -/
def isDirectory (pte : P) : Bool := (toConfig pte true).valid && !(toConfig pte true).huge

/-- Does an entry of a level-`level` table point to a table? -/
def pointsToTable (level : Nat) (pte : P) : Bool := decide (1 < level) && isDirectory pte

/-- Where a directory entry points. -/
def childPaddr (pte : P) : PhysAddr := (toConfig pte true).paddr

variable {level : Nat}

theorem pointsToTable_eq_true :
    pointsToTable level pte = true ↔
      1 < level ∧ (toConfig pte true).valid = true ∧ (toConfig pte true).huge = false := by
  simp [pointsToTable, isDirectory]

theorem pos_of_pointsToTable (h : pointsToTable (level + 1) pte = true) : 0 < level :=
  Nat.lt_of_succ_lt_succ (pointsToTable_eq_true.mp h).1

variable (T : TableMeta P)

/-- The tree of the level-`level` table in `frame`. -/
def tableAt (mem : PhysAddr → Nat → P) : Nat → PhysAddr → Tree P
  | 0, _ => .nil
  | level + 1, frame => .node frame (mem frame) fun i =>
      if i < T.len ∧ pointsToTable (level + 1) (mem frame i) then
        tableAt mem level (childPaddr (mem frame i))
      else .nil

/-- Is every entry invalid, as `is_frame_empty` reads them? -/
def Tree.isEmpty (t : Tree P) : Bool :=
  (List.range T.len).all fun i => !(toConfig (t.entry i) false).valid

variable {t : Tree P} {i : Nat}

theorem Tree.isEmpty_eq_true :
    t.isEmpty T = true ↔ ∀ i < T.len, (toConfig (t.entry i) false).valid = false := by
  simp [Tree.isEmpty]

/-- Address translation: the final entry that covers `vaddr`, with its level. -/
def lookup : Nat → Tree P → Nat → Option (P × Nat)
  | 0, _, _ => none
  | level + 1, t, vaddr =>
    let pte := t.entry (T.slot (level + 1) vaddr)
    let config := toConfig pte (decide (1 < level + 1))
    if !config.valid then none
    else if config.huge || level + 1 == 1 then some (pte, level + 1)
    else lookup level (t.kid (T.slot (level + 1) vaddr)) vaddr

variable {T}

theorem tableAt_congr {mem mem' : PhysAddr → Nat → P} (level : Nat) (frame : PhysAddr)
    (h : ∀ g ∈ (tableAt T mem level frame).frames, mem' g = mem g) :
    tableAt T mem' level frame = tableAt T mem level frame := by
  induction level generalizing frame with
  | zero => rfl
  | succ level ih =>
    have hframe : mem' frame = mem frame := h frame (Or.inl rfl)
    simp only [tableAt, hframe]
    congr 1
    funext i
    split_ifs with hi
    · refine ih _ fun g hg => h g (Or.inr ⟨i, ?_⟩)
      show g ∈ ((tableAt T mem (level + 1) frame).kid i).frames
      rwa [show (tableAt T mem (level + 1) frame).kid i = _ from if_pos hi]
    · rfl

theorem tableAt_kid (mem : PhysAddr → Nat → P) (level : Nat) (frame : PhysAddr) (hi : i < T.len)
    (hp : pointsToTable (level + 1) (mem frame i) = true) :
    (tableAt T mem (level + 1) frame).kid i = tableAt T mem level (childPaddr (mem frame i)) :=
  if_pos ⟨hi, hp⟩

theorem tableAt_kid_nil (mem : PhysAddr → Nat → P) (level : Nat) (frame : PhysAddr)
    (h : ¬ (i < T.len ∧ pointsToTable (level + 1) (mem frame i) = true)) :
    (tableAt T mem (level + 1) frame).kid i = .nil :=
  if_neg h

theorem entry_tableAt (mem : PhysAddr → Nat → P) (h : 0 < level) (frame : PhysAddr) (i : Nat) :
    (tableAt T mem level frame).entry i = mem frame i := by
  obtain ⟨level, rfl⟩ : ∃ l, level = l + 1 := ⟨level - 1, by omega⟩
  rfl

theorem kid_tableAt (mem : PhysAddr → Nat → P) (hi : i < T.len) (hp : pointsToTable level (mem frame i) = true) :
    (tableAt T mem level frame).kid i = tableAt T mem (level - 1) (childPaddr (mem frame i)) := by
  obtain ⟨level, rfl⟩ : ∃ l, level = l + 1 := ⟨level - 1, by have := (pointsToTable_eq_true.mp hp).1; omega⟩
  exact tableAt_kid mem level frame hi hp

theorem mem_frames_tableAt (mem : PhysAddr → Nat → P) (h : 0 < level) (frame : PhysAddr) :
    frame ∈ (tableAt T mem level frame).frames := by
  obtain ⟨level, rfl⟩ : ∃ l, level = l + 1 := ⟨level - 1, by omega⟩
  exact Or.inl rfl

variable {mem : PhysAddr → Nat → P}

/-- A store of an entry `pte` to `frame` changes that entry, and the table below it becomes the one
`pte` points to. -/
theorem tableAt_write (hsep : (tableAt T mem (level + 1) frame).Separated) (i : Nat) (pte : P) :
    tableAt T (Function.update mem frame (Function.update (mem frame) i pte)) (level + 1) frame =
      (tableAt T mem (level + 1) frame).set i pte
        (if i < T.len ∧ pointsToTable (level + 1) pte then
          tableAt T (Function.update mem frame (Function.update (mem frame) i pte)) level
            (childPaddr pte)
        else .nil) := by
  obtain ⟨hroot, -, -⟩ := hsep
  simp only [tableAt, Tree.set, Function.update_self]
  congr 1
  funext j
  by_cases hj : j = i
  · subst hj
    simp
  · rw [Function.update_of_ne hj, Function.update_of_ne hj]
    split_ifs with hp
    · refine tableAt_congr _ _ fun g hg => Function.update_of_ne (fun hgf => ?_) _ _
      refine hroot j ?_
      show frame ∈ ((tableAt T mem (level + 1) frame).kid j).frames
      rw [hgf] at hg
      rwa [show (tableAt T mem (level + 1) frame).kid j = _ from if_pos hp]
    · rfl

theorem tableAt_fresh (hmem : mem frame = fun _ => zeroed) (hzero : isDirectory (zeroed : P) = false) :
    tableAt T mem (level + 1) frame = Tree.fresh frame := by
  simp only [tableAt, Tree.fresh, hmem]
  congr 1
  funext i
  simp [pointsToTable, hzero]

/-! ### Looking addresses up -/

theorem lookup_succ (level : Nat) (t : Tree P) (vaddr : Nat) :
    lookup T (level + 1) t vaddr =
      if (toConfig (t.entry (T.slot (level + 1) vaddr)) (decide (1 < level + 1))).valid = false then
        none
      else if pointsToTable (level + 1) (t.entry (T.slot (level + 1) vaddr)) then
        lookup T level (t.kid (T.slot (level + 1) vaddr)) vaddr
      else some (t.entry (T.slot (level + 1) vaddr), level + 1) := by
  rw [lookup]
  by_cases hlevel : 1 < level + 1
  · have hne : (level + 1 == 1) = false := by simp; omega
    simp only [hlevel, decide_true, hne, Bool.or_false, pointsToTable, isDirectory, Bool.true_and]
    cases (toConfig (t.entry (T.slot (level + 1) vaddr)) true).valid <;>
      cases (toConfig (t.entry (T.slot (level + 1) vaddr)) true).huge <;> simp
  · have heq : (level + 1 == 1) = true := by simp; omega
    simp only [hlevel, decide_false, heq, Bool.or_true, pointsToTable, Bool.false_and]
    cases (toConfig (t.entry (T.slot (level + 1) vaddr)) false).valid <;> simp

variable {vaddr : Nat}

theorem lookup_invalid (h : (toConfig (t.entry (T.slot level vaddr)) (decide (1 < level))).valid = false) :
    lookup T level t vaddr = none := by
  cases level with
  | zero => rfl
  | succ level => rw [lookup_succ, if_pos h]

theorem lookup_final (hpos : 0 < level)
    (hvalid : (toConfig (t.entry (T.slot level vaddr)) (decide (1 < level))).valid = true)
    (hp : pointsToTable level (t.entry (T.slot level vaddr)) = false) :
    lookup T level t vaddr = some (t.entry (T.slot level vaddr), level) := by
  obtain ⟨level, rfl⟩ := Nat.exists_eq_add_one.mpr hpos
  rw [lookup_succ, if_neg (by rw [hvalid]; decide), hp]
  rfl

theorem lookup_table (hp : pointsToTable level (t.entry (T.slot level vaddr)) = true) :
    lookup T level t vaddr = lookup T (level - 1) (t.kid (T.slot level vaddr)) vaddr := by
  obtain ⟨hlevel, hvalid, hhuge⟩ := pointsToTable_eq_true.mp hp
  obtain ⟨level, rfl⟩ : ∃ l, level = l + 1 := ⟨level - 1, by omega⟩
  rw [lookup_succ, if_neg (by simp [hlevel, hvalid]), if_pos hp, Nat.add_sub_cancel]

theorem lookup_level {l : Nat} (h : lookup T level t vaddr = some (pte, l)) : 0 < l ∧ l ≤ level := by
  induction level generalizing t with
  | zero => simp [lookup] at h
  | succ level ih =>
    rw [lookup_succ] at h
    split_ifs at h with hvalid hp
    · have := ih h
      omega
    · simp only [Option.some.injEq, Prod.mk.injEq] at h
      omega

theorem lookup_entry {l : Nat} (h : lookup T level t vaddr = some (pte, l)) :
    (toConfig pte (decide (1 < l))).valid = true ∧ pointsToTable l pte = false := by
  induction level generalizing t with
  | zero => simp [lookup] at h
  | succ level ih =>
    rw [lookup_succ] at h
    split_ifs at h with hvalid hp
    · exact ih h
    · simp only [Option.some.injEq, Prod.mk.injEq] at h
      obtain ⟨rfl, rfl⟩ := h
      exact ⟨by simpa using hvalid, by simpa using hp⟩

/-- The recursive lookup of the source, where its index computations do not overflow. -/
theorem translateRecursiveWithLevel_eq (hl : T.Addressable level) (mem : PhysAddr → Nat → P) (frame : PhysAddr)
    (vaddr : Nat) :
    Frame.translateRecursiveWithLevel T mem level frame vaddr =
      match lookup T level (tableAt T mem level frame) vaddr with
      | some r => .ok r
      | none => .error (.err .notMapped) := by
  induction level generalizing frame with
  | zero => exact absurd hl.1 (lt_irrefl 0)
  | succ level ih =>
    have hindex : T.virtToIndex vaddr (level + 1) = .ok (T.slot (level + 1) vaddr) :=
      T.virtToIndex_eq_ok.mpr ⟨hl, rfl⟩
    have hslot : T.slot (level + 1) vaddr < T.len :=
      T.slot_lt _ _
    simp only [Frame.translateRecursiveWithLevel, hindex]
    by_cases hvalid : (toConfig (mem frame (T.slot (level + 1) vaddr))
        (decide (1 < level + 1))).valid = true
    · rw [if_neg (by rw [hvalid]; decide)]
      by_cases hp : pointsToTable (level + 1) (mem frame (T.slot (level + 1) vaddr)) = true
      · obtain ⟨hlevel, _, hhuge⟩ := pointsToTable_eq_true.mp hp
        have hne : (level + 1 == 1) = false := by simp; omega
        rw [lookup_table (t := tableAt T mem (level + 1) frame) hp,
          tableAt_kid mem level frame hslot hp, Nat.add_sub_cancel, if_neg (by simp [hhuge, hne, hlevel]),
          ← ih (hl.mono (by omega) (by omega))]
        simp only [hlevel, decide_true, childPaddr]
      · rw [lookup_final (t := tableAt T mem (level + 1) frame) (Nat.succ_pos _) hvalid
          ((Bool.not_eq_true _).mp hp)]
        refine if_pos ?_
        by_cases hlevel : 1 < level + 1
        · simp only [pointsToTable, isDirectory, hlevel, decide_true, Bool.true_and] at hp hvalid
          simp only [hvalid, Bool.true_and, Bool.not_eq_true, Bool.not_eq_false'] at hp
          simp [hlevel, hp]
        · have heq : (level + 1 == 1) = true := by simp; omega
          simp [heq]
    · have hinvalid := (Bool.not_eq_true _).mp hvalid
      rw [if_pos (by rw [hinvalid]; rfl),
        lookup_invalid (t := tableAt T mem (level + 1) frame) hinvalid]

theorem translateRecursiveWithLevel_eq_ok (hl : T.Addressable level) {r : P × Nat} :
    Frame.translateRecursiveWithLevel T mem level frame vaddr = .ok r ↔
      lookup T level (tableAt T mem level frame) vaddr = some r := by
  rw [translateRecursiveWithLevel_eq hl]
  cases lookup T level (tableAt T mem level frame) vaddr <;> simp

theorem translate_congr {m m' : Machine P} {root root' : PhysAddr}
    (h : lookup T T.ptLevel (tableAt T m'.mem T.ptLevel root') vaddr =
      lookup T T.ptLevel (tableAt T m.mem T.ptLevel root) vaddr) :
    PageTableRef.translate T m' root' vaddr = PageTableRef.translate T m root vaddr := by
  unfold PageTableRef.translate
  by_cases hl : T.Addressable T.ptLevel
  · rw [translateRecursiveWithLevel_eq hl, translateRecursiveWithLevel_eq hl, h]
  · have hstop : ∀ (mem : PhysAddr → Nat → P) frame,
        Frame.translateRecursiveWithLevel T mem T.ptLevel frame vaddr = .error .panic := by
      intro mem frame
      cases hn : T.ptLevel with
      | zero => rfl
      | succ level =>
        have hindex : T.virtToIndex vaddr (level + 1) = .error .panic := by
          rcases T.virtToIndex_eq vaddr (level + 1) with ⟨hl', _⟩ | ⟨_, he⟩
          · rw [hn] at hl
            exact absurd hl' hl
          · exact he
        simp only [Frame.translateRecursiveWithLevel, hindex]
    rw [hstop, hstop]

end Sparreal.Paging
