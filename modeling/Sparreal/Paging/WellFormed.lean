import Sparreal.Paging.Runs

/-!
# Well-formed trees

In the trees the code builds every entry is one that `map` or `unmap` wrote or a cleared frame held,
and the tables below a table are exactly those its directory entries point to. Runs keep trees
`WellFormed` (`MapRun.wellFormed`, `UnmapRun.wellFormed`).
-/

namespace Sparreal.Paging

variable {P : Type} [PageTableEntry P]

/-- An entry the code can have left in a table of level `level`. -/
inductive Written (T : TableMeta P) (limit level : Nat) : P → Prop where
  | zeroed : Written T limit level zeroed
  | cleared : Written T limit level (fromConfig invalidConfig)
  | encoded {c : PteConfig} (hc : Encodable T limit level c)
      (hfits : pointsToTable level (fromConfig c : P) = false →
        c.paddr + T.size level < usizeRange) : Written T limit level (fromConfig c)

/-- Every entry was written by the code, and directory entries have their table below. -/
def WellFormed (T : TableMeta P) (limit : Nat) : Nat → Tree P → Prop
  | 0, _ => True
  | level + 1, t =>
    t.IsTable ∧ (∀ i, Written T limit (level + 1) (t.entry i)) ∧
      ∀ i, if i < T.len ∧ pointsToTable (level + 1) (t.entry i) = true then
        WellFormed T limit level (t.kid i) ∧ (t.kid i).root = some (childPaddr (t.entry i))
      else t.kid i = .nil

variable {T : TableMeta P} {A : FrameAllocator} {limit level : Nat} {t : Tree P}

namespace WellFormed

theorem isTable (h : WellFormed T limit level t) (hlevel : 0 < level) : t.IsTable := by
  cases level with
  | zero => exact absurd hlevel (lt_irrefl 0)
  | succ level => exact h.1

theorem written (h : WellFormed T limit level t) (hlevel : 0 < level) (i : Nat) :
    Written T limit level (t.entry i) := by
  cases level with
  | zero => exact absurd hlevel (lt_irrefl 0)
  | succ level => exact h.2.1 i

variable {i : Nat}

variable (h : WellFormed T limit (level + 1) t)

include h

theorem kid (hi : i < T.len) (hp : pointsToTable (level + 1) (t.entry i) = true) :
    WellFormed T limit level (t.kid i) := by
  have hkid := h.2.2 i
  rw [if_pos ⟨hi, hp⟩] at hkid
  exact hkid.1

theorem kid_root (hi : i < T.len) (hp : pointsToTable (level + 1) (t.entry i) = true) :
    (t.kid i).root = some (childPaddr (t.entry i)) := by
  have hkid := h.2.2 i
  rw [if_pos ⟨hi, hp⟩] at hkid
  exact hkid.2

theorem kid_nil (hp : pointsToTable (level + 1) (t.entry i) = false) : t.kid i = .nil := by
  have hkid := h.2.2 i
  rwa [if_neg (by simp [hp])] at hkid

theorem set {pte : P} {k : Tree P} (hpte : Written T limit (level + 1) pte)
    (hk : if i < T.len ∧ pointsToTable (level + 1) pte = true then
      WellFormed T limit level k ∧ k.root = some (childPaddr pte) else k = .nil) :
    WellFormed T limit (level + 1) (t.set i pte k) := by
  refine ⟨Tree.isTable_set h.1 _ _ _, fun j => ?_, fun j => ?_⟩
  · rw [Tree.entry_set h.1]
    split_ifs
    · exact hpte
    · exact h.2.1 j
  · rw [Tree.entry_set h.1, Tree.kid_set h.1]
    by_cases hj : j = i
    · rw [if_pos hj, if_pos hj, hj]
      exact hk
    · rw [if_neg hj, if_neg hj]
      exact h.2.2 j

theorem set_nil {pte : P} (hpte : Written T limit (level + 1) pte) (hp : pointsToTable (level + 1) pte = false) :
    WellFormed T limit (level + 1) (t.set i pte .nil) :=
  h.set hpte (by rw [if_neg (by simp [hp])])

/-- The table below a directory entry is replaced by a later state of it. -/
theorem setKid {k : Tree P} (hi : i < T.len) (hp : pointsToTable (level + 1) (t.entry i) = true)
    (hk : WellFormed T limit level k) (hroot : k.root = (t.kid i).root) :
    WellFormed T limit (level + 1) (t.setKid i k) := by
  refine h.set (h.written (Nat.succ_pos _) i) ?_
  rw [if_pos ⟨hi, hp⟩, hroot]
  exact ⟨hk, h.kid_root hi hp⟩

end WellFormed

theorem wellFormed_fresh (hzero : isDirectory (zeroed : P) = false) (frame : PhysAddr) :
    WellFormed T limit level (Tree.fresh frame) := by
  cases level with
  | zero => exact trivial
  | succ level =>
    refine ⟨trivial, fun i => .zeroed, fun i => ?_⟩
    rw [if_neg (by simp [pointsToTable, hzero])]
    rfl

/-! ### Runs keep trees well formed -/

variable {e v : Nat} {log' : Ledger PhysAddr} {t' : Tree P} {template : PteConfig} {log : Ledger PhysAddr}

theorem MapRun.root_eq {p : Nat} {r : Except PagingError Unit}
    (h : MapRun T A limit template level e v p t log r t' log') : t'.root = t.root := by
  have hready : ∀ {t t₁ : Tree P} {i log log₁}, ChildReady A template t i log t₁ log₁ →
      t₁.root = t.root := by
    intro t t₁ i log log₁ hready
    cases hready <;> simp
  induction h with
  | done | fail | noMemory => rfl
  | place _ _ _ _ _ _ _ ih => simpa using ih
  | descend _ _ ready _ _ _ ih => rw [ih, Tree.setKid, Tree.root_set, hready ready]
  | descendFail _ _ ready _ _ => rw [Tree.setKid, Tree.root_set, hready ready]

theorem UnmapRun.root_eq {flag r : Bool} (h : UnmapRun T level e v flag t log r t' log') : t'.root = t.root := by
  induction h with
  | done => rfl
  | skip _ _ _ ih => exact ih
  | clear _ _ _ _ ih => simpa using ih
  | reclaim _ _ _ _ _ ih => simpa using ih
  | keep _ _ _ _ _ ih => simpa [Tree.setKid] using ih

theorem UnmapRun.isEmpty {flag r : Bool} (h : UnmapRun T level e v flag t log r t' log') (hr : r = true) :
    t'.isEmpty T = true := by
  induction h with
  | done => exact (Bool.and_eq_true _ _ ▸ hr).2
  | skip _ _ _ ih => exact ih hr
  | clear _ _ _ _ ih => exact ih hr
  | reclaim _ _ _ _ _ ih => exact ih hr
  | keep _ _ _ _ _ ih => exact ih hr

section

variable (hcodec : KeepsDirectories T limit)

include hcodec

variable {i : Nat}

theorem ChildReady.wellFormed (hA : A.Fresh T limit) {log₁ : Ledger PhysAddr} {t₁ : Tree P} (hlevel : 0 < level)
    (hready : ChildReady A template t (T.slot (level + 1) v) log t₁ log₁) (h : WellFormed T limit (level + 1) t) :
    WellFormed T limit (level + 1) t₁ ∧ pointsToTable (level + 1) (t₁.entry (T.slot (level + 1) v)) = true ∧
      WellFormed T limit level (t₁.kid (T.slot (level + 1) v)) := by
  have hdeep : 1 < level + 1 := by omega
  cases hready with
  | present hdir =>
    have hp : pointsToTable (level + 1) (t.entry (T.slot (level + 1) v)) = true := by
      rw [pointsToTable, decide_eq_true hdeep, hdir, Bool.and_true]
    exact ⟨h, hp, h.kid (T.slot_lt _ _) hp⟩
  | @created frame hfree halloc =>
    obtain ⟨-, haligned, hlt⟩ := hA log frame halloc
    obtain ⟨hp, hpaddr⟩ := hcodec.pointsToTable_directory template hdeep haligned hlt
    have hwritten : Written T limit (level + 1) (fromConfig (template.directory frame) : P) :=
      .encoded (encodable_directory template hdeep haligned hlt) fun hfinal => by simp [hp] at hfinal
    have hkid : WellFormed T limit level (Tree.fresh frame) := wellFormed_fresh hcodec.zeroed frame
    refine ⟨h.set hwritten ?_, ?_, ?_⟩
    · rw [if_pos ⟨T.slot_lt _ _, hp⟩, hpaddr]
      exact ⟨hkid, rfl⟩
    · rwa [Tree.entry_set h.1, if_pos rfl]
    · rwa [Tree.kid_set h.1, if_pos rfl]

theorem WellFormed.place (h : WellFormed T limit level t) {p : Nat}
    (hlevel : level = 1 ∨ 1 < level ∧ level ≤ T.maxBlockLevel) (haligned : T.pageSize ∣ p) (hbelow : p < limit)
    (hfits : p + T.size level < usizeRange) :
    WellFormed T limit level (t.set i (fromConfig (template.final level p)) .nil) := by
  obtain ⟨level, rfl⟩ : ∃ l, level = l + 1 := ⟨level - 1, by omega⟩
  exact h.set_nil (.encoded (encodable_final template hlevel haligned hbelow) fun _ => hfits)
    (hcodec.pointsToTable_final template hlevel haligned hbelow)

theorem WellFormed.clear (h : WellFormed T limit level t) :
    WellFormed T limit level (t.set i (fromConfig invalidConfig) .nil) := by
  cases level with
  | zero => exact trivial
  | succ level => exact h.set_nil .cleared (hcodec.pointsToTable_invalid _)

theorem MapRun.wellFormed (hA : A.Fresh T limit) {p : Nat} {r : Except PagingError Unit}
    (h : MapRun T A limit template level e v p t log r t' log')
    (ht : WellFormed T limit level t) : WellFormed T limit level t' := by
  induction h with
  | done | fail | noMemory => exact ht
  | place _ hlevel haligned hbelow hfits _ _ ih =>
    exact ih (ht.place hcodec (hlevel.imp_right fun h => ⟨h.1, h.2.1⟩) haligned hbelow hfits)
  | descend _ hlevel ready child _ ihchild ih =>
    obtain ⟨ht₁, hp, hkid⟩ := ready.wellFormed hcodec hA hlevel ht
    exact ih (ht₁.setKid (T.slot_lt _ _) hp (ihchild hkid) child.root_eq)
  | descendFail _ hlevel ready child ihchild =>
    obtain ⟨ht₁, hp, hkid⟩ := ready.wellFormed hcodec hA hlevel ht
    exact ht₁.setKid (T.slot_lt _ _) hp (ihchild hkid) child.root_eq

theorem UnmapRun.wellFormed {flag r : Bool} (h : UnmapRun T level e v flag t log r t' log')
    (ht : WellFormed T limit level t) : WellFormed T limit level t' := by
  induction h with
  | done => exact ht
  | skip _ _ _ ih => exact ih ht
  | clear _ _ _ _ ih | reclaim _ _ _ _ _ ih => exact ih (ht.clear hcodec)
  | keep _ hp child _ ihchild ih =>
    exact ih (ht.setKid (T.slot_lt _ _) hp (ihchild (ht.kid (T.slot_lt _ _) hp)) child.root_eq)

end

end Sparreal.Paging
