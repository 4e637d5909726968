import Sparreal.Paging.Calls
import Sparreal.Arch.X86

/-!
# Frame accounting

On a reachable table the live frames are exactly the frames of the tree (`Reachable.accounted`): `Keeps`
and the representation say that the frames of the tree are live, and `NoLeak` says of every run that no
frame drops out of the tree without being given back. As no frame occurs in the tree twice, every one but
the root is referenced by one directory entry of one table (`exists_refers`, `Refers.unique`).

Dropping the table visits every table below the root and gives its frame back
(`deallocateRecursive_frees`), so that in the end grants and releases match.
-/

namespace Sparreal.Paging

variable {P : Type} {T : TableMeta P} {A : FrameAllocator} {limit level : Nat} {t t₁ t' : Tree P}
  {log log₁ log' : Ledger PhysAddr}

/-! ### No frame is lost -/

/-- What is live and outside the tree after was so before. -/
def NoLeak (log : Ledger PhysAddr) (t : Tree P) (log' : Ledger PhysAddr) (t' : Tree P) : Prop :=
  ∀ g, Ledger.Live log' g → g ∉ t'.frames → Ledger.Live log g ∧ g ∉ t.frames

theorem NoLeak.refl (log : Ledger PhysAddr) (t : Tree P) : NoLeak log t log t :=
  fun _ hlive hg => ⟨hlive, hg⟩

theorem NoLeak.trans (h : NoLeak log t log₁ t₁) (h' : NoLeak log₁ t₁ log' t') :
    NoLeak log t log' t' := by
  intro g hlive hg
  obtain ⟨hlive₁, hg₁⟩ := h' g hlive hg
  exact h g hlive₁ hg₁

theorem NoLeak.mem (h : NoLeak log t log' t') (hlive : ∀ g, Ledger.Live log g ↔ g ∈ t.frames) (g : PhysAddr)
    (hg : Ledger.Live log' g) : g ∈ t'.frames := by
  by_contra hg'
  obtain ⟨hl, hgt⟩ := h g hg hg'
  exact hgt ((hlive g).mp hl)

variable {pte : P} {g : PhysAddr} {i : Nat}

theorem Tree.mem_frames_set_of_mem {k : Tree P} (hg : g ∈ t.frames) :
    g ∈ (t.set i pte k).frames ∨ g ∈ (t.kid i).frames := by
  cases t with
  | nil => exact hg.elim
  | node frame entries kids =>
    rcases hg with rfl | ⟨j, hj⟩
    · exact Or.inl (Or.inl rfl)
    · by_cases hji : j = i
      · exact Or.inr (hji ▸ hj)
      · exact Or.inl (Or.inr ⟨j, by rwa [Function.update_of_ne hji]⟩)

theorem Tree.mem_frames_set_self (ht : t.IsTable) {k : Tree P} (hg : g ∈ k.frames) : g ∈ (t.set i pte k).frames := by
  cases t with
  | nil => exact ht.elim
  | node frame entries kids => exact Or.inr ⟨i, by rwa [Function.update_self]⟩

/-- The table below an entry is replaced by a later state of it, or by nothing once it is given back:
what the call below has not leaked is not leaked. -/
theorem NoLeak.set {k : Tree P} (h : NoLeak log (t.kid i) log' k)
    (hk : ∀ g, Ledger.Live log' g → g ∈ k.frames → g ∈ (t.set i pte k).frames) :
    NoLeak log t log' (t.set i pte k) := by
  intro g hlive hg
  obtain ⟨hlive', hgk⟩ := h g hlive fun hgk => hg (hk g hlive hgk)
  exact ⟨hlive', fun hgt => (Tree.mem_frames_set_of_mem hgt).elim hg hgk⟩

theorem NoLeak.set_nil (hkid : t.kid i = .nil) : NoLeak log t log (t.set i pte .nil) :=
  NoLeak.set (by rw [hkid]; exact NoLeak.refl _ _) fun _ _ hg => hg.elim

variable [PageTableEntry P]

section

variable (hcodec : KeepsDirectories T limit)

include hcodec

theorem Written.directory (h : Written T limit level pte) (hp : pointsToTable level pte = true) :
    ∃ c, pte = fromConfig c ∧ Encodable T limit level c ∧ 1 < level ∧ c.huge = false := by
  have hdir : isDirectory pte = true := (Bool.and_eq_true _ _ ▸ hp).2
  cases h with
  | zeroed => exact absurd (hcodec.zeroed.symm.trans hdir) (by decide)
  | cleared => exact absurd (hcodec.invalid.symm.trans hdir) (by decide)
  | @encoded c hc =>
    refine ⟨c, rfl, hc, (pointsToTable_eq_true.mp hp).1, ?_⟩
    by_contra hhuge
    exact absurd ((hcodec.huge level c hc (by simpa using hhuge)).symm.trans hdir) (by decide)

theorem Written.pointsToTable_eq_false (h : Written T limit level pte) (hfree : PageTableEntry.valid pte = false) :
    pointsToTable level pte = false := by
  by_contra hp
  obtain ⟨c, rfl, hc, hlevel, hhuge⟩ := h.directory hcodec ((Bool.not_eq_false _).mp hp)
  rw [(hcodec.directory level c hc hlevel hhuge).2.2] at hfree
  exact absurd hfree (by decide)

theorem WellFormed.eq_root_of_isEmpty (hscan : ScanSeesDirectories (P := P) T limit) (hlevel : 0 < level)
    (ht : WellFormed T limit level t) (hempty : t.isEmpty T = true) (hg : g ∈ t.frames) : t.root = some g := by
  have hkids : ∀ i, t.kid i = .nil := by
    intro i
    have hwritten := ht.written hlevel i
    obtain ⟨level, rfl⟩ := Nat.exists_eq_add_one.mpr hlevel
    have hkid := ht.2.2 i
    split_ifs at hkid with hp
    · obtain ⟨c, hpte, hc, hdeep, hhuge⟩ := hwritten.directory hcodec hp.2
      have hfree := (Tree.isEmpty_eq_true T).mp hempty i hp.1
      rw [hpte, hscan _ c hc hdeep hhuge] at hfree
      exact absurd hfree (by decide)
    · exact hkid
  cases t with
  | nil => exact hg.elim
  | node frame entries kids =>
    rcases hg with rfl | ⟨i, hi⟩
    · rfl
    · rw [show kids i = .nil from hkids i] at hi
      exact hi.elim

omit hcodec in
theorem ChildReady.noLeak {template : PteConfig} (ht : WellFormed T limit (level + 1) t)
    (hready : ChildReady A template t i log t₁ log₁) : NoLeak log t log₁ t₁ := by
  cases hready with
  | present => exact NoLeak.refl _ _
  | @created frame hfree halloc =>
    have hkid : t.kid i = .nil := ht.kid_nil (by
      by_contra hp
      obtain ⟨-, hvalid, -⟩ := pointsToTable_eq_true.mp ((Bool.not_eq_false _).mp hp)
      rw [hvalid] at hfree
      exact absurd hfree (by decide))
    intro g hlive hg
    rcases hlive with rfl | hlive
    · exact absurd (Tree.mem_frames_set_self ht.1 (Tree.mem_frames_fresh.mpr rfl)) hg
    · refine ⟨hlive, fun hgt => (Tree.mem_frames_set_of_mem hgt).elim hg ?_⟩
      rw [hkid]
      exact id

theorem MapRun.noLeak (hA : A.Fresh T limit) {template : PteConfig} {e v p : Nat}
    {r : Except PagingError Unit} (h : MapRun T A limit template level e v p t log r t' log')
    (ht : WellFormed T limit level t) : NoLeak log t log' t' := by
  induction h with
  | done | fail => exact NoLeak.refl _ _
  | noMemory => exact fun g hlive hg => ⟨hlive, hg⟩
  | @place level e v p t log r t' log' hv hlevel haligned hbelow hfits hfree _ ih =>
    have hlevel' := hlevel.imp_right fun h => (⟨h.1, h.2.1⟩ : 1 < level ∧ level ≤ T.maxBlockLevel)
    have hkid : t.kid (T.slot level v) = .nil := by
      have hp := (ht.written (by omega) (T.slot level v)).pointsToTable_eq_false hcodec hfree
      obtain ⟨level, rfl⟩ : ∃ l, level = l + 1 := ⟨level - 1, by omega⟩
      exact ht.kid_nil hp
    exact (NoLeak.set_nil hkid).trans (ih (ht.place hcodec hlevel' haligned hbelow hfits))
  | descend _ hlevel ready child _ ihchild ih =>
    obtain ⟨ht₁, hp, hkid⟩ := ready.wellFormed hcodec hA hlevel ht
    refine (ready.noLeak ht).trans (NoLeak.trans (NoLeak.set (ihchild hkid) ?_) (ih ?_))
    · exact fun g _ hg => Tree.mem_frames_set_self ht₁.1 hg
    · exact ht₁.setKid (T.slot_lt _ _) hp (child.wellFormed hcodec hA hkid) child.root_eq
  | descendFail _ hlevel ready child ihchild =>
    obtain ⟨ht₁, hp, hkid⟩ := ready.wellFormed hcodec hA hlevel ht
    refine (ready.noLeak ht).trans (NoLeak.set (ihchild hkid) ?_)
    exact fun g _ hg => Tree.mem_frames_set_self ht₁.1 hg

theorem UnmapRun.noLeak (hscan : ScanSeesDirectories (P := P) T limit) {e v : Nat} {flag r : Bool}
    (h : UnmapRun T level e v flag t log r t' log') (ht : WellFormed T limit level t)
    (hlevel : 0 < level) : NoLeak log t log' t' := by
  induction h with
  | done => exact NoLeak.refl _ _
  | skip _ _ _ ih => exact ih ht hlevel
  | @clear level e v flag t log r t' log' _ _ hfinal _ ih =>
    have hkid : t.kid (T.slot level v) = .nil := by
      obtain ⟨level, rfl⟩ := Nat.exists_eq_add_one.mpr hlevel
      exact ht.kid_nil hfinal
    exact (NoLeak.set_nil hkid).trans (ih (ht.clear hcodec) hlevel)
  | @reclaim level e v flag t log k log₁ r t' log' _ hp child _ ihchild ih =>
    have hpos := pos_of_pointsToTable hp
    have hkid := ht.kid (T.slot_lt _ _) hp
    refine NoLeak.trans ?_ (ih (ht.clear hcodec) hlevel)
    -- the table given back is all that is left below the entry
    rintro g ⟨hne, hlive⟩ hg
    obtain ⟨hlive', hgk⟩ := ihchild hkid hpos g hlive fun hgk => hne (by
      have hroot := (child.wellFormed hcodec hkid).eq_root_of_isEmpty hcodec hscan hpos
        (child.isEmpty rfl) hgk
      rw [child.root_eq, ht.kid_root (T.slot_lt _ _) hp] at hroot
      exact (Option.some.inj hroot).symm)
    exact ⟨hlive', fun hgt => (Tree.mem_frames_set_of_mem hgt).elim hg hgk⟩
  | keep _ hp child _ ihchild ih =>
    have hpos := pos_of_pointsToTable hp
    have hkid := ht.kid (T.slot_lt _ _) hp
    refine NoLeak.trans (NoLeak.set (ihchild hkid hpos) ?_) (ih ?_ hlevel)
    · exact fun g _ hg => Tree.mem_frames_set_self ht.1 hg
    · exact ht.setKid (T.slot_lt _ _) hp (child.wellFormed hcodec hkid) child.root_eq

variable {root : PhysAddr} {m m' : Machine P}

/-- On a reachable table exactly the frames of the tree are live. -/
theorem Reachable.accounted (hscan : ScanSeesDirectories (P := P) T limit) (hA : A.Fresh T limit)
    (h : Reachable T A limit root m) :
    ∃ t, Holds T limit root m t ∧ ∀ g, Ledger.Live m.log g ↔ g ∈ t.frames := by
  induction h with
  | new hlog hnew =>
    obtain ⟨hlog', hm⟩ := new_holds hcodec hA hlog hnew
    refine ⟨_, hm, fun g => ?_⟩
    rw [hlog', Tree.mem_frames_fresh]
    simp
  | map _ hlimit hmap hr ih =>
    obtain ⟨t, ht, hlive⟩ := ih
    obtain ⟨r, rfl⟩ := returned_iff.mp hr
    rcases map_refines hcodec hA hlimit hmap ht with ⟨-, -, rfl⟩ | ⟨-, t', hrun, ht', -⟩
    · exact ⟨t, ht, hlive⟩
    · have hleak := hrun.noLeak hcodec hA ht.wellFormed
      exact ⟨t', ht', fun g => ⟨hleak.mem hlive g, ht'.represents.live g⟩⟩
  | unmap _ hunmap hr ih =>
    obtain ⟨t, ht, hlive⟩ := ih
    obtain ⟨r, rfl⟩ := returned_iff.mp hr
    rcases unmap_refines hcodec hunmap ht with ⟨_, -, rfl⟩ | ⟨-, -, _, t', hrun, ht', -⟩
    · exact ⟨t, ht, hlive⟩
    · have hleak := hrun.noLeak hcodec hscan ht.wellFormed T.ptLevel_pos
      exact ⟨t', ht', fun g => ⟨hleak.mem hlive g, ht'.represents.live g⟩⟩

end

/-! ### References -/

/-- `frame` is a level-`l` table of the tree of the level-`level` table in `top`. -/
def TableIn (T : TableMeta P) (mem : PhysAddr → Nat → P) : Nat → PhysAddr → Nat → PhysAddr → Prop
  | 0, _, _, _ => False
  | level + 1, top, l, frame => (l = level + 1 ∧ frame = top) ∨
      ∃ i < T.len, pointsToTable (level + 1) (mem top i) = true ∧
        TableIn T mem level (childPaddr (mem top i)) l frame

/-- Entry `i` of the table in `frame` is a valid, non-huge directory entry that points to `g`. -/
def Refers (T : TableMeta P) (mem : PhysAddr → Nat → P) (level : Nat) (top frame : PhysAddr) (i : Nat)
    (g : PhysAddr) : Prop :=
  ∃ l, TableIn T mem level top l frame ∧ i < T.len ∧ pointsToTable l (mem frame i) = true ∧
    childPaddr (mem frame i) = g

section

variable {mem : PhysAddr → Nat → P} {top frame frame' g : PhysAddr} {i i' : Nat}

theorem TableIn.mem_frames {l : Nat} (h : TableIn T mem level top l frame) :
    frame ∈ (tableAt T mem level top).frames := by
  induction level generalizing top with
  | zero => exact h
  | succ level ih =>
    rcases h with ⟨-, rfl⟩ | ⟨i, hi, hp, h⟩
    · exact Or.inl rfl
    · refine Tree.mem_frames_of_kid (i := i) ?_
      rw [tableAt_kid mem level top hi hp]
      exact ih h

theorem refers_succ : Refers T mem (level + 1) top frame i g ↔
    (frame = top ∧ i < T.len ∧ pointsToTable (level + 1) (mem top i) = true ∧
      childPaddr (mem top i) = g) ∨
    ∃ j < T.len, pointsToTable (level + 1) (mem top j) = true ∧
      Refers T mem level (childPaddr (mem top j)) frame i g := by
  constructor
  · rintro ⟨l, ⟨rfl, rfl⟩ | ⟨j, hj, hp, htable⟩, hrest⟩
    · exact Or.inl ⟨rfl, hrest⟩
    · exact Or.inr ⟨j, hj, hp, l, htable, hrest⟩
  · rintro (⟨rfl, hrest⟩ | ⟨j, hj, hp, l, htable, hrest⟩)
    · exact ⟨level + 1, Or.inl ⟨rfl, rfl⟩, hrest⟩
    · exact ⟨l, Or.inr ⟨j, hj, hp, htable⟩, hrest⟩

theorem childPaddr_mem_kid (hi : i < T.len) (hp : pointsToTable (level + 1) (mem top i) = true) :
    childPaddr (mem top i) ∈ ((tableAt T mem (level + 1) top).kid i).frames := by
  have hpos := pos_of_pointsToTable hp
  rw [tableAt_kid mem level top hi hp]
  exact mem_frames_tableAt mem hpos _

theorem Refers.mem_kid (h : Refers T mem level top frame i g) :
    ∃ j, g ∈ ((tableAt T mem level top).kid j).frames := by
  cases level with
  | zero =>
    obtain ⟨l, htable, -⟩ := h
    exact htable.elim
  | succ level =>
    induction level generalizing top with
    | zero =>
      rcases refers_succ.mp h with ⟨rfl, hi, hp, rfl⟩ | ⟨j, -, -, l, htable, -⟩
      · exact ⟨i, childPaddr_mem_kid hi hp⟩
      · exact htable.elim
    | succ level ih =>
      rcases refers_succ.mp h with ⟨rfl, hi, hp, rfl⟩ | ⟨j, hj, hp, hrefers⟩
      · exact ⟨i, childPaddr_mem_kid hi hp⟩
      · obtain ⟨j', hg⟩ := ih hrefers
        refine ⟨j, ?_⟩
        rw [tableAt_kid mem _ top hj hp]
        exact Tree.mem_frames_of_kid hg

theorem exists_refers (hg : g ∈ (tableAt T mem level top).frames) :
    g = top ∨ ∃ frame i, Refers T mem level top frame i g := by
  induction level generalizing top with
  | zero => exact hg.elim
  | succ level ih =>
    rcases hg with rfl | ⟨j, hj⟩
    · exact Or.inl rfl
    · right
      have hj : g ∈ ((tableAt T mem (level + 1) top).kid j).frames := hj
      by_cases hp : j < T.len ∧ pointsToTable (level + 1) (mem top j) = true
      · rw [tableAt_kid mem level top hp.1 hp.2] at hj
        rcases ih hj with rfl | ⟨frame, i, hrefers⟩
        · exact ⟨top, j, refers_succ.mpr (Or.inl ⟨rfl, hp.1, hp.2, rfl⟩)⟩
        · exact ⟨frame, i, refers_succ.mpr (Or.inr ⟨j, hp.1, hp.2, hrefers⟩)⟩
      · rw [tableAt_kid_nil mem level top hp] at hj
        exact hj.elim

theorem Refers.unique (hsep : (tableAt T mem level top).Separated)
    (h : Refers T mem level top frame i g) (h' : Refers T mem level top frame' i' g) :
    frame = frame' ∧ i = i' := by
  induction level generalizing top with
  | zero =>
    obtain ⟨l, htable, -⟩ := h
    exact htable.elim
  | succ level ih =>
    have hdisj : ∀ {j j'}, g ∈ ((tableAt T mem (level + 1) top).kid j).frames →
        g ∈ ((tableAt T mem (level + 1) top).kid j').frames → j = j' := by
      intro j j' hj hj'
      by_contra hne
      exact hsep.2.1 j j' hne g hj hj'
    -- a reference from below the table that entry `j` points to does not lead back to it
    have hbelow : ∀ {j frame i}, j < T.len → pointsToTable (level + 1) (mem top j) = true →
        Refers T mem level (childPaddr (mem top j)) frame i g →
        g ∈ ((tableAt T mem (level + 1) top).kid j).frames ∧ g ≠ childPaddr (mem top j) := by
      intro j frame i hj hp hrefers
      obtain ⟨j', hg⟩ := hrefers.mem_kid
      have hkid := tableAt_kid mem level top hj hp
      refine ⟨by rw [hkid]; exact Tree.mem_frames_of_kid hg, ?_⟩
      rintro rfl
      have hsep' := hsep.kid j
      rw [hkid] at hsep'
      obtain ⟨n, rfl⟩ : ∃ n, level = n + 1 :=
        ⟨level - 1, by have := pos_of_pointsToTable hp; omega⟩
      exact hsep'.1 j' hg
    rcases refers_succ.mp h with ⟨rfl, hi, hp, hg⟩ | ⟨j, hj, hp, hrefers⟩ <;>
      rcases refers_succ.mp h' with ⟨rfl, hi', hp', hg'⟩ | ⟨j', hj', hp', hrefers'⟩
    · refine ⟨rfl, hdisj ?_ ?_⟩
      · exact hg ▸ childPaddr_mem_kid hi hp
      · exact hg' ▸ childPaddr_mem_kid hi' hp'
    · obtain ⟨hmem, hne⟩ := hbelow hj' hp' hrefers'
      obtain rfl := hdisj (hg ▸ childPaddr_mem_kid hi hp) hmem
      exact absurd hg.symm hne
    · obtain ⟨hmem, hne⟩ := hbelow hj hp hrefers
      obtain rfl := hdisj (hg' ▸ childPaddr_mem_kid hi' hp') hmem
      exact absurd hg'.symm hne
    · obtain rfl := hdisj (hbelow hj hp hrefers).1 (hbelow hj' hp' hrefers').1
      refine ih ?_ hrefers hrefers'
      have hsep' := hsep.kid j
      rwa [tableAt_kid mem level top hj hp] at hsep'

end

/-! ### Dropping the table -/

section

variable {m m' : Machine P} {frame : PhysAddr}

/-- The frames of the tables below the entries before `n`. -/
def framesBelow (t : Tree P) (n : Nat) : Set PhysAddr := {g | ∃ i < n, g ∈ (t.kid i).frames}

omit [PageTableEntry P] in
theorem mem_framesBelow_succ {n : Nat} : g ∈ framesBelow t (n + 1) ↔ g ∈ framesBelow t n ∨ g ∈ (t.kid n).frames := by
  constructor
  · rintro ⟨i, hi, hg⟩
    rcases Nat.lt_succ_iff_lt_or_eq.mp hi with hi | rfl
    · exact Or.inl ⟨i, hi, hg⟩
    · exact Or.inr hg
  · rintro (⟨i, hi, hg⟩ | hg)
    · exact ⟨i, by omega, hg⟩
    · exact ⟨n, by omega, hg⟩

/-- Exactly the frames in `S` have been given back, and only they and those in `W` may have been
written. -/
structure Frees (S W : Set PhysAddr) (m m' : Machine P) : Prop where
  live : ∀ g, Ledger.Live m'.log g ↔ Ledger.Live m.log g ∧ g ∉ S
  sound : Ledger.Sound m'.log
  mem : ∀ g, g ∉ S → g ∉ W → m'.mem g = m.mem g

/-- What the loop of `deallocate_children` has before it: the entries before `n` and the tables below
them are as they were. -/
structure Undropped (T : TableMeta P) (level : Nat) (frame : PhysAddr) (t : Tree P) (n : Nat)
    (m : Machine P) : Prop where
  entries : ∀ i < n, m.mem frame i = t.entry i
  kids : ∀ i < n, pointsToTable (level + 1) (t.entry i) = true →
    Represents T level (childPaddr (t.entry i)) m (t.kid i)
  others : ∀ i < n, pointsToTable (level + 1) (t.entry i) = false → t.kid i = .nil
  sound : Ledger.Sound m.log

/-- The test of `deallocate_children`. -/
theorem valid_and_not_final (hpos : 0 < level) :
    ((toConfig pte (decide (1 < level))).valid &&
        !((toConfig pte (decide (1 < level))).huge || level == 1)) = pointsToTable level pte := by
  cases hvalid : (toConfig pte (decide (1 < level))).valid with
  | false =>
    by_contra hne
    have hp : pointsToTable level pte = true := by simpa using hne
    obtain ⟨hlevel, hv, -⟩ := pointsToTable_eq_true.mp hp
    rw [decide_eq_true hlevel, hv] at hvalid
    exact absurd hvalid (by decide)
  | true =>
    rw [Frame.pointsToTable_of_valid hpos hvalid, Bool.or_comm]
    rfl

theorem deallocateChildren_succ (free : PhysAddr → Run P Unit) (n : Nat) :
    Frame.deallocateChildren free (level + 1) frame (n + 1) m =
      if pointsToTable (level + 1) (m.mem frame n) = true then
        (free (childPaddr (m.mem frame n)) >>= fun _ =>
          Frame.writeEntry frame n (fromConfig invalidConfig) >>= fun _ =>
          Frame.deallocateChildren free (level + 1) frame n) m
      else Frame.deallocateChildren free (level + 1) frame n m := by
  rw [Frame.deallocateChildren, Exec.bind_apply, Frame.readEntry, Exec.gets_apply]
  simp only [valid_and_not_final (Nat.succ_pos level)]
  split_ifs with hp
  · rw [childPaddr, ← decide_eq_true (pointsToTable_eq_true.mp hp).1]
  · rfl

variable (hfree : 0 < level → ∀ {frame m t}, Represents T level frame m t →
  ∃ m', Frame.deallocateRecursive T level frame m = (.ok (), m') ∧ Frees t.frames ∅ m m')

include hfree

theorem deallocateChildren_frees (hsep : t.Separated) (hframe : ∀ i, frame ∉ (t.kid i).frames)
    (n : Nat) (hm : Undropped T level frame t n m) :
    ∃ m', Frame.deallocateChildren (Frame.deallocateRecursive T level) (level + 1) frame n m =
        (.ok (), m') ∧ Frees (framesBelow t n) {frame} m m' := by
  induction n generalizing m with
  | zero =>
    refine ⟨m, rfl, fun g => ⟨fun h => ⟨h, fun ⟨i, hi, _⟩ => by omega⟩, fun h => h.1⟩, hm.sound,
      fun _ _ _ => rfl⟩
  | succ n ih =>
    rw [deallocateChildren_succ, hm.entries n (by omega)]
    cases hp : pointsToTable (level + 1) (t.entry n) with
    | false =>
      have hnil := hm.others n (by omega) hp
      obtain ⟨m', hrun, hfrees⟩ := ih ⟨fun i hi => hm.entries i (by omega),
        fun i hi => hm.kids i (by omega), fun i hi => hm.others i (by omega), hm.sound⟩
      have hsame : framesBelow t (n + 1) = framesBelow t n := by
        ext g
        rw [mem_framesBelow_succ, hnil]
        exact or_iff_left id
      refine ⟨m', by rw [if_neg (by decide)]; exact hrun, by rwa [hsame]⟩
    | true =>
      have hpos := pos_of_pointsToTable hp
      obtain ⟨m₁, hcall, hfrees₁⟩ := hfree hpos (hm.kids n (by omega) hp)
      -- what is left for the rest of the loop: neither the call nor the store has touched it
      have hmem : ∀ g, g ≠ frame → g ∉ (t.kid n).frames →
          (m₁.write frame n (fromConfig invalidConfig)).mem g = m.mem g := by
        intro g hgf hgn
        rw [Machine.write_mem, Function.update_of_ne hgf]
        exact hfrees₁.mem g hgn (Set.notMem_empty g)
      have hleft : Undropped T level frame t n (m₁.write frame n (fromConfig invalidConfig)) := by
        refine ⟨fun i hi => ?_, fun i hi hpi => ?_, fun i hi => hm.others i (by omega), hfrees₁.sound⟩
        · rw [Machine.write_mem, Function.update_self, Function.update_of_ne (by omega),
            hfrees₁.mem frame (hframe n) (Set.notMem_empty _), hm.entries i (by omega)]
        · have hkid := hm.kids i (by omega) hpi
          have hother : ∀ g ∈ (t.kid i).frames, g ∉ (t.kid n).frames := fun g hg =>
            hsep.disjoint (by omega) hg
          refine hkid.transport (fun g hg => hmem g ?_ (hother g hg)) (fun g hg => ?_) hfrees₁.sound
          · rintro rfl
            exact hframe i hg
          · exact (hfrees₁.live g).mpr ⟨hkid.live g hg, hother g hg⟩
      obtain ⟨m', hrun, hfrees⟩ := ih hleft
      refine ⟨m', ?_, fun g => ?_, hfrees.sound, fun g hg hgf => ?_⟩
      · rw [if_pos rfl, Exec.bind_apply_ok hcall]
        exact hrun
      · rw [hfrees.live, mem_framesBelow_succ, Machine.write_log, hfrees₁.live, not_or]
        tauto
      · rw [mem_framesBelow_succ, not_or] at hg
        rw [hfrees.mem g hg.1 hgf, hmem g hgf hg.2]

end

/-- `deallocate_recursive` gives every table of the tree back, each once. -/
theorem deallocateRecursive_frees (hlevel : 0 < level) {frame : PhysAddr} {m : Machine P}
    (h : Represents T level frame m t) :
    ∃ m', Frame.deallocateRecursive T level frame m = (.ok (), m') ∧ Frees t.frames ∅ m m' := by
  induction level generalizing frame m t with
  | zero => exact absurd hlevel (lt_irrefl 0)
  | succ level ih =>
    have hm : Undropped T level frame t T.len m := by
      refine ⟨fun i _ => (h.entry i).symm, fun i hi hp => h.kid hi hp, fun i _ hp => ?_, h.sound⟩
      rw [h.entry] at hp
      rw [← h.table]
      exact tableAt_kid_nil m.mem level frame (by simp [hp])
    obtain ⟨m₁, hrun, hfrees⟩ :=
      deallocateChildren_frees (fun hpos => ih hpos) h.separated h.frame_notMem_kid T.len hm
    have hframes : ∀ g, g ∈ t.frames ↔ g = frame ∨ g ∈ framesBelow t T.len := by
      intro g
      rw [← h.table]
      refine or_congr_right ⟨fun ⟨i, hi⟩ => ?_, fun ⟨i, _, hi⟩ => ⟨i, hi⟩⟩
      by_cases hlen : i < T.len
      · exact ⟨i, hlen, hi⟩
      · have hi : g ∈ ((tableAt T m.mem (level + 1) frame).kid i).frames := hi
        rw [tableAt_kid_nil m.mem level frame fun hp => hlen hp.1] at hi
        exact hi.elim
    have hlast : frame ∉ framesBelow t T.len := fun ⟨i, _, hi⟩ => h.frame_notMem_kid i hi
    refine ⟨m₁.release frame, ?_, fun g => ?_, ?_, fun g hg _ => ?_⟩
    · rw [Frame.deallocateRecursive, Exec.bind_apply_ok hrun]
      rfl
    · rw [hframes, not_or, Machine.release_log, Ledger.live_release, hfrees.live]
      tauto
    · exact ⟨(hfrees.live frame).mpr ⟨h.live frame h.frame_mem, hlast⟩, hfrees.sound⟩
    · rw [hframes, not_or] at hg
      exact hfrees.mem g hg.2 hg.1

/-! ### The whole life of a table -/

section

variable {root : PhysAddr} {m : Machine P}

/-- On a reachable table every live frame but the root is referenced by exactly one valid, non-huge
directory entry of exactly one live table, only frames in use are ever given back, and dropping the table
gives every frame back as often as it was handed out. -/
theorem frames_accounted (hcodec : KeepsDirectories T limit)
    (hscan : ScanSeesDirectories (P := P) T limit) (hA : A.Fresh T limit)
    (hm : Reachable T A limit root m) :
    (∀ g, Ledger.Live m.log g → g = root ∨ ∃! entry : PhysAddr × Nat, Ledger.Live m.log entry.1 ∧
      Refers T m.mem T.ptLevel root entry.1 entry.2 g) ∧
    ∃ m', PageTableRef.deallocate T root m = (.ok (), m') ∧ Ledger.Sound m'.log ∧
      ∀ g, Ledger.released m'.log g = Ledger.granted m'.log g := by
  obtain ⟨t, ht, hlive⟩ := hm.accounted hcodec hscan hA
  have htable := ht.represents.table
  refine ⟨fun g hg => ?_, ?_⟩
  · rw [hlive, ← htable] at hg
    refine (exists_refers hg).imp_right fun ⟨frame, i, hrefers⟩ => ?_
    refine ⟨(frame, i), ⟨?_, hrefers⟩, ?_⟩
    · obtain ⟨l, hin, -⟩ := hrefers
      rw [hlive, ← htable]
      exact hin.mem_frames
    · rintro ⟨frame', i'⟩ ⟨-, hrefers'⟩
      have hsep := ht.represents.separated
      rw [← htable] at hsep
      obtain ⟨rfl, rfl⟩ := hrefers'.unique hsep hrefers
      rfl
  · obtain ⟨m', hrun, hfrees⟩ := deallocateRecursive_frees T.ptLevel_pos ht.represents
    refine ⟨m', hrun, hfrees.sound, fun g => ?_⟩
    have hdead : ¬ Ledger.Live m'.log g := by
      rw [hfrees.live, hlive]
      exact fun h => h.2 h.1
    rw [hfrees.sound.granted_eq, if_neg hdead, Nat.add_zero]

/-- An x86_64 table with one page. -/
theorem frames_accounted_x86 :
    (∀ g, Ledger.Live (X86.mapped X86.page X86.start).log g → g = X86.root ∨
      ∃! entry : PhysAddr × Nat, Ledger.Live (X86.mapped X86.page X86.start).log entry.1 ∧
        Refers X86.generic (X86.mapped X86.page X86.start).mem X86.generic.ptLevel X86.root entry.1
          entry.2 g) ∧
    ∃ m', PageTableRef.deallocate X86.generic X86.root (X86.mapped X86.page X86.start) = (.ok (), m') ∧
      Ledger.Sound m'.log ∧ ∀ g, Ledger.released m'.log g = Ledger.granted m'.log g :=
  frames_accounted X86.roundTrips.keepsDirectories
    (X86.roundTrips.scanSeesDirectories X86.validIndependent) X86.bump_fresh X86.reachable_page

end

end Sparreal.Paging
