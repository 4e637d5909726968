import Sparreal.Paging.Runs

/-!
# Tables in memory

`Represents` says that a machine holds a tree: the memory below the frame reads as it, no frame
occurs in it twice, all its frames are live, and no frame was ever given back that was not in use.
`Keeps` is the frame rule of the table code: live frames outside the tree stay live, outside and
untouched. A store, a new table, a reclaimed table and the work of a call on the table below an entry
each come with one rule that re-establishes both.
-/

namespace Sparreal.Paging

variable {P : Type} [PageTableEntry P]

/-- The machine holds the level-`level` table `t` in `frame`. -/
structure Represents (T : TableMeta P) (level : Nat) (frame : PhysAddr) (m : Machine P)
    (t : Tree P) : Prop where
  table : tableAt T m.mem level frame = t
  separated : t.Separated
  live : ∀ g ∈ t.frames, Ledger.Live m.log g
  sound : Ledger.Sound m.log

/-- Live frames outside the tree stay live, outside the tree and unchanged. -/
def Keeps (m : Machine P) (t : Tree P) (m' : Machine P) (t' : Tree P) : Prop :=
  ∀ g, Ledger.Live m.log g → g ∉ t.frames →
    Ledger.Live m'.log g ∧ g ∉ t'.frames ∧ m'.mem g = m.mem g

omit [PageTableEntry P] in
theorem Keeps.refl (m : Machine P) (t : Tree P) : Keeps m t m t := fun _ hlive hg => ⟨hlive, hg, rfl⟩

omit [PageTableEntry P] in
theorem Keeps.trans {m m' m'' : Machine P} {t t' t'' : Tree P} (h : Keeps m t m' t')
    (h' : Keeps m' t' m'' t'') : Keeps m t m'' t'' := by
  intro g hlive hg
  obtain ⟨hlive', hg', hmem⟩ := h g hlive hg
  obtain ⟨hlive'', hg'', hmem'⟩ := h' g hlive' hg'
  exact ⟨hlive'', hg'', hmem'.trans hmem⟩

namespace Represents

variable {T : TableMeta P} {level : Nat} {frame : PhysAddr} {m m' : Machine P} {t : Tree P}

section

variable (h : Represents T (level + 1) frame m t)

include h

theorem isTable : t.IsTable := by
  rw [← h.table]
  exact trivial

theorem entry (i : Nat) : t.entry i = m.mem frame i := by
  rw [← h.table]
  rfl

theorem frame_mem : frame ∈ t.frames := by
  rw [← h.table]
  exact Or.inl rfl

theorem frame_notMem_kid (i : Nat) : frame ∉ (t.kid i).frames := by
  have hsep := h.separated
  rw [← h.table] at hsep ⊢
  exact hsep.1 i

end

/-- Only the memory and the life of its own frames matter to a tree. -/
theorem transport (h : Represents T level frame m t) (hmem : ∀ g ∈ t.frames, m'.mem g = m.mem g)
    (hlive : ∀ g ∈ t.frames, Ledger.Live m'.log g) (hsound : Ledger.Sound m'.log) :
    Represents T level frame m' t where
  table := by
    rw [← h.table]
    exact tableAt_congr level frame fun g hg => hmem g (h.table ▸ hg)
  separated := h.separated
  live := hlive
  sound := hsound

theorem congr (h : Represents T level frame m t) (hmem : m'.mem = m.mem) (hlog : m'.log = m.log) :
    Represents T level frame m' t ∧ Keeps m t m' t :=
  ⟨⟨by rw [hmem, h.table], h.separated, by rw [hlog]; exact h.live, by rw [hlog]; exact h.sound⟩,
    fun g hlive hg => ⟨by rwa [hlog], hg, by rw [hmem]⟩⟩

theorem refuse (h : Represents T level frame m t) :
    Represents T level frame m.refuse t ∧ Keeps m t m.refuse t :=
  ⟨⟨h.table, h.separated, h.live, h.sound⟩, fun _ hlive hg => ⟨hlive, hg, rfl⟩⟩

variable (h : Represents T (level + 1) frame m t)

include h

variable {i : Nat}

theorem kid (hi : i < T.len) (hp : pointsToTable (level + 1) (t.entry i) = true) :
    Represents T level (childPaddr (t.entry i)) m (t.kid i) where
  table := by
    rw [h.entry] at hp ⊢
    rw [← h.table, tableAt_kid m.mem level frame hi hp]
  separated := h.separated.kid i
  live g hg := h.live g (Tree.mem_frames_of_kid hg)
  sound := h.sound

/-- A store of an entry that points to no table. -/
theorem write {pte : P} (hp : pointsToTable (level + 1) pte = false) :
    Represents T (level + 1) frame (m.write frame i pte) (t.set i pte .nil) ∧
      Keeps m t (m.write frame i pte) (t.set i pte .nil) := by
  have hframes : ∀ g, g ∈ (t.set i pte .nil).frames → g ∈ t.frames := by
    intro g hg
    rcases (Tree.mem_frames_set h.isTable h.separated).mp hg with hnil | ⟨hg, -⟩
    · exact hnil.elim
    · exact hg
  refine ⟨⟨?_, ?_, fun g hg => h.live g (hframes g hg), h.sound⟩, fun g hlive hg => ⟨hlive, ?_, ?_⟩⟩
  · have hsep := h.separated
    rw [← h.table] at hsep ⊢
    rw [Machine.write_mem, tableAt_write hsep, if_neg (by simp [hp])]
  · exact h.separated.set trivial fun g hg => hg.elim
  · exact fun hg' => hg (hframes g hg')
  · exact Function.update_of_ne (fun e : g = frame => hg (e ▸ h.frame_mem)) _ _

/-- A call on the table below entry `i` that keeps to its own frames. -/
theorem setKid {k : Tree P} (hi : i < T.len) (hp : pointsToTable (level + 1) (t.entry i) = true)
    (hk : Represents T level (childPaddr (t.entry i)) m' k) (hkeeps : Keeps m (t.kid i) m' k) :
    Represents T (level + 1) frame m' (t.setKid i k) ∧ Keeps m t m' (t.setKid i k) := by
  -- everything of `t` that is not below entry `i` is kept by the call
  have hkept : ∀ g ∈ t.frames, g ∉ (t.kid i).frames →
      Ledger.Live m'.log g ∧ g ∉ k.frames ∧ m'.mem g = m.mem g :=
    fun g hg hgi => hkeeps g (h.live g hg) hgi
  have hframes : ∀ g, g ∈ (t.setKid i k).frames ↔ g ∈ k.frames ∨ g ∈ t.frames ∧ g ∉ (t.kid i).frames :=
    fun g => Tree.mem_frames_set h.isTable h.separated
  have hmem : m'.mem frame = m.mem frame := (hkept frame h.frame_mem (h.frame_notMem_kid i)).2.2
  refine ⟨⟨?_, ?_, fun g hg => ?_, hk.sound⟩, fun g hlive hg => ?_⟩
  · have hsep := h.separated
    have hktable := hk.table
    rw [h.entry] at hp hktable
    rw [← h.table] at hsep hkept ⊢
    simp only [Tree.setKid, Tree.set, Tree.entry, tableAt, hmem, Function.update_eq_self]
    congr 1
    funext j
    by_cases hji : j = i
    · subst hji
      rw [if_pos ⟨hi, hp⟩, Function.update_self, hktable]
    · rw [Function.update_of_ne hji]
      split_ifs with hj
      · have hkj := tableAt_kid m.mem level frame hj.1 hj.2
        refine tableAt_congr _ _ fun g hg => (hkept g ?_ ?_).2.2
        · exact Tree.mem_frames_of_kid (i := j) (by rwa [hkj])
        · rw [← hkj] at hg
          exact hsep.2.1 j i hji g hg
      · rfl
  · refine h.separated.set hk.separated fun g hg hgt => ?_
    by_contra hgi
    exact (hkept g hgt hgi).2.1 hg
  · rcases (hframes g).mp hg with hg | ⟨hg, hgi⟩
    · exact hk.live g hg
    · exact (hkept g hg hgi).1
  · obtain ⟨hlive', hgk, hmem'⟩ := hkeeps g hlive fun hgi => hg (Tree.mem_frames_of_kid hgi)
    refine ⟨hlive', fun hg' => ?_, hmem'⟩
    rcases (hframes g).mp hg' with hgk' | ⟨hgt, -⟩
    · exact hgk hgk'
    · exact hg hgt

/-- A cleared frame that was not in use, linked below entry `i`. -/
theorem link {pte : P} {new : PhysAddr} (hzero : isDirectory (zeroed : P) = false) (hlevel : 0 < level)
    (hi : i < T.len) (hfresh : ¬ Ledger.Live m.log new) (hp : pointsToTable (level + 1) pte = true)
    (hpaddr : childPaddr pte = new) :
    Represents T (level + 1) frame ((m.alloc new zeroed).write frame i pte)
        (t.set i pte (Tree.fresh new)) ∧
      Keeps m t ((m.alloc new zeroed).write frame i pte) (t.set i pte (Tree.fresh new)) := by
  have hne : new ≠ frame := fun e => hfresh (e ▸ h.live frame h.frame_mem)
  have hnew : new ∉ t.frames := fun hg => hfresh (h.live new hg)
  have hmem : ∀ g, g ≠ frame → g ≠ new → ((m.alloc new zeroed).write frame i pte).mem g = m.mem g := by
    intro g hgf hgn
    rw [Machine.write_mem, Function.update_of_ne hgf, Machine.alloc_mem, Function.update_of_ne hgn]
  refine ⟨⟨?_, ?_, fun g hg => ?_, ⟨hfresh, h.sound⟩⟩,
    fun g hlive hg => ⟨Or.inr hlive, fun hg' => ?_, ?_⟩⟩
  · -- clearing the new frame is invisible to the tree, the store then links it
    have halloc : tableAt T (m.alloc new zeroed).mem (level + 1) frame = t := by
      rw [← h.table]
      refine tableAt_congr _ _ fun g hg => Function.update_of_ne (fun e : g = new => hnew ?_) _ _
      rwa [← e, ← h.table]
    have hcleared : ((m.alloc new zeroed).write frame i pte).mem new = fun _ => zeroed := by
      rw [Machine.write_mem, Function.update_of_ne hne, Machine.alloc_mem, Function.update_self]
    have hsep := h.separated
    rw [← halloc] at hsep
    obtain ⟨level, rfl⟩ := Nat.exists_eq_add_one.mpr hlevel
    rw [← halloc]
    show tableAt T (Function.update _ _ _) _ _ = _
    rw [tableAt_write hsep, if_pos ⟨hi, hp⟩, hpaddr]
    congr 1
    exact tableAt_fresh hcleared hzero
  · refine h.separated.set (Tree.separated_fresh new) fun g hg hgt => ?_
    rw [Tree.mem_frames_fresh.mp hg] at hgt
    exact absurd hgt hnew
  · rcases (Tree.mem_frames_set h.isTable h.separated).mp hg with hg | ⟨hg, -⟩
    · exact Or.inl (Tree.mem_frames_fresh.mp hg)
    · exact Or.inr (h.live g hg)
  · rcases (Tree.mem_frames_set h.isTable h.separated).mp hg' with hgn | ⟨hgt, -⟩
    · exact hfresh (Tree.mem_frames_fresh.mp hgn ▸ hlive)
    · exact hg hgt
  · exact hmem g (fun e => hg (e ▸ h.frame_mem)) (fun e => hfresh (e ▸ hlive))

/-- The table below entry `i` is unlinked and its frame given back. -/
theorem unlink {pte : P} (hlevel : 0 < level) (hi : i < T.len) (hdir : pointsToTable (level + 1) (t.entry i) = true)
    (hp : pointsToTable (level + 1) pte = false) :
    Represents T (level + 1) frame ((m.write frame i pte).release (childPaddr (t.entry i)))
        (t.set i pte .nil) ∧
      Keeps m t ((m.write frame i pte).release (childPaddr (t.entry i))) (t.set i pte .nil) := by
  obtain ⟨hrep, hkeeps⟩ := h.write (i := i) hp
  have hchild : childPaddr (t.entry i) ∈ (t.kid i).frames := by
    obtain ⟨level, rfl⟩ := Nat.exists_eq_add_one.mpr hlevel
    exact (h.kid hi hdir).frame_mem
  refine ⟨⟨hrep.table, hrep.separated, fun g hg => ⟨?_, hrep.live g hg⟩,
    ⟨h.live _ (Tree.mem_frames_of_kid hchild), hrep.sound⟩⟩, fun g hlive hg => ?_⟩
  · rintro rfl
    rcases (Tree.mem_frames_set h.isTable h.separated).mp hg with hnil | ⟨-, hgi⟩
    · exact hnil
    · exact hgi hchild
  · obtain ⟨hlive', hg', hmem⟩ := hkeeps g hlive hg
    exact ⟨⟨fun e => hg (e ▸ Tree.mem_frames_of_kid hchild), hlive'⟩, hg', hmem⟩

end Represents

end Sparreal.Paging
