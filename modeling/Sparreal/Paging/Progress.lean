import Sparreal.Paging.Undo

/-!
# Mapping comes to an end

A call of `map` whose range stays inside the address space returns, with `Ok` or with an error
(`map_returns`), and mapping a range that is free returns `Ok` unless the allocator refuses a frame
(`map_free`).

The second rests on there being no empty tables: where a huge page fits, `map_range_recursive` asks for a
slot that is not valid, and a table with nothing in it would be in the way. Tables that `map` makes are
never empty (`Dense`).
-/

namespace Sparreal.Paging

variable {P : Type} [PageTableEntry P] {T : TableMeta P} {A : FrameAllocator} {limit level : Nat}

/-! ### Why an iteration stops -/

namespace Frame

variable {child : PhysAddr → MapRecursiveConfig → Run P Unit} {c : MapRecursiveConfig}
  {frame : PhysAddr} {index : Nat} {m m' : Machine P} {fault : Fault}

/-- An iteration inside the address space stops because its slot is taken, because it cannot have a table
below, or because the call below stops. -/
theorem mapStep_fault {v p : Nat} (hl : T.Addressable level) (hv : v < c.endVaddr)
    (hend : c.endVaddr + T.pageSize ≤ usizeRange)
    (hpend : p + (c.endVaddr - v) + T.pageSize ≤ usizeRange)
    (h : mapStep T A child level frame c (v, p) m = (.error fault, m')) :
    ((level = 1 ∨ canUseHuge T c level v p = true) ∧
        PageTableEntry.valid (m.mem frame (T.slot level v)) = true ∧
        fault = .err (.mappingConflict v p)) ∨
      1 < level ∧ (childFrame A frame (T.slot level v) c.pteTemplate m = (.error fault, m') ∨
        ∃ new m₁, childFrame A frame (T.slot level v) c.pteTemplate m = (.ok new, m₁) ∧
          child new (childConfig T level c v p) m₁ = (.error fault, m')) := by
  have hpage := T.pageSize_pos
  have hone := T.size_one
  rcases mapStep_stops h with ⟨hnot, -⟩ | ⟨-, ⟨hfinal, hplace | ⟨hover, -⟩⟩ |
    ⟨hdeep, hnew | ⟨new, m₁, hnew, hchild | ⟨hover, -⟩⟩⟩⟩
  · exact absurd hl hnot
  · obtain ⟨hvalid, hfault, -⟩ := placeEntry_error hplace
    exact .inl ⟨hfinal, hvalid, hfault⟩
  · -- the entry is a page, or a huge page inside the range
    have hstep : T.size level ≤ c.endVaddr - v ∨ T.size level = T.pageSize := by
      rcases hfinal with rfl | hhuge
      · exact .inr hone
      · exact .inl ((canUseHuge_eq_true hl).mp hhuge).2.2.2.1
    omega
  · exact .inr ⟨hdeep, .inl hnew⟩
  · exact .inr ⟨hdeep, .inr ⟨new, m₁, hnew, hchild⟩⟩
  · have hnext : (childConfig T level c v p).endVaddr ≤ c.endVaddr := Nat.min_le_right _ _
    omega

end Frame

/-! ### Every call returns -/

def Inside (T : TableMeta P) (e v p : Nat) : Prop := v < e → p + (e - v) + T.pageSize ≤ usizeRange

section Returns

variable {child : PhysAddr → MapRecursiveConfig → Run P Unit} {c : MapRecursiveConfig}
  {frame : PhysAddr} {m m' : Machine P} {v p v' p' : Nat}

theorem mapStep_advances (hv : v < c.endVaddr) (hend : c.endVaddr + T.pageSize ≤ usizeRange)
    (hin : Inside T c.endVaddr v p)
    (h : Frame.mapStep T A child level frame c (v, p) m = (.ok (v', p'), m')) :
    v < v' ∧ Inside T c.endVaddr v' p' := by
  have hin := hin hv
  rcases (Frame.mapStep_ok h).2 with ⟨-, -, rfl, rfl, -⟩ | ⟨-, -, new, m₁, -, -, hv', rfl⟩
  · have hsize := T.size_pos level
    exact ⟨by omega, fun hlt => by omega⟩
  · have hpage := T.pageSize_pos
    have hlt := T.lt_entryEnd level v
    have hnext : v' = min (T.entryEnd level v) c.endVaddr := by
      rw [hv']
      exact Frame.childConfig_endVaddr T level p (Nat.le_of_lt_succ (show c.endVaddr < usizeRange by omega)) hv
    exact ⟨by omega, fun hlt => by omega⟩

/-- A loop whose iterations advance and keep `I`, or stop with `E`, returns or stops with `E`. -/
theorem mapLoop_cases (T : TableMeta P) (A : FrameAllocator)
    (child : PhysAddr → MapRecursiveConfig → Run P Unit) (level : Nat) (frame : PhysAddr)
    (c : MapRecursiveConfig) {I : Nat × Nat → Machine P → Prop} {E : Fault → Machine P → Prop}
    (hstep : ∀ v p m, I (v, p) m → v < c.endVaddr →
      (∃ v' p' m', Frame.mapStep T A child level frame c (v, p) m = (.ok (v', p'), m') ∧ v < v' ∧
          I (v', p') m') ∨
        ∃ fault m', Frame.mapStep T A child level frame c (v, p) m = (.error fault, m') ∧ E fault m')
    (cursor : Nat × Nat) (m : Machine P) (hI : I cursor m) :
    (∃ cursor' m', Frame.mapLoop T A child level frame c (c.endVaddr - cursor.1) cursor m =
        (.ok cursor', m')) ∨
      ∃ fault m', Frame.mapLoop T A child level frame c (c.endVaddr - cursor.1) cursor m =
        (.error fault, m') ∧ E fault m' := by
  unfold Frame.mapLoop
  refine Exec.loop_cases (I := I) (E := E) (fun cursor => c.endVaddr - cursor.1) ?_ ?_ _ cursor m le_rfl hI
  · intro cursor _ _ hv
    have := of_decide_eq_true hv
    omega
  · rintro ⟨v, p⟩ m hI hv
    have hv : v < c.endVaddr := of_decide_eq_true hv
    refine (hstep v p m hI hv).imp_left ?_
    rintro ⟨v', p', m', hok, hlt, hI'⟩
    exact ⟨(v', p'), m', hok, hI', by show c.endVaddr - v' < c.endVaddr - v; omega⟩

theorem mapLoop_returns (hl : T.Addressable level) (hend : c.endVaddr + T.pageSize ≤ usizeRange)
    (hchild : ∀ v p new, v < c.endVaddr → 1 < level → Inside T c.endVaddr v p → ∀ m : Machine P,
      Returned (child new (Frame.childConfig T level c v p) m).1)
    (cursor : Nat × Nat) (hin : Inside T c.endVaddr cursor.1 cursor.2) (m : Machine P) :
    Returned (Frame.mapLoop T A child level frame c (c.endVaddr - cursor.1) cursor m).1 := by
  have hcases := mapLoop_cases T A child level frame c
    (I := fun cursor _ => Inside T c.endVaddr cursor.1 cursor.2)
    (E := fun fault _ => ∃ e, fault = .err e) (fun v p m hin hv => ?_) cursor m hin
  · rcases hcases with ⟨_, _, hloop⟩ | ⟨_, _, hloop, e, rfl⟩
    · rw [hloop]
      exact trivial
    · rw [hloop]
      exact trivial
  · rcases hstep : Frame.mapStep T A child level frame c (v, p) m with ⟨fault | ⟨v', p'⟩, m'⟩
    · refine .inr ⟨fault, m', rfl, ?_⟩
      rcases Frame.mapStep_fault hl hv hend (hin hv) hstep with
        ⟨-, -, he⟩ | ⟨hdeep, hnew | ⟨new, m₁, -, hcall⟩⟩
      · exact ⟨_, he⟩
      · rcases Frame.childFrame_error hnew with ⟨-, -, he, -⟩ | ⟨he, -⟩
        · exact ⟨_, he⟩
        · exact ⟨_, he⟩
      · have hr := hchild v p new hv hdeep hin m₁
        rw [hcall] at hr
        match fault, hr with
        | .err e, _ => exact ⟨e, rfl⟩
    · obtain ⟨hlt, hin'⟩ := mapStep_advances hv hend hin hstep
      exact .inl ⟨v', p', m', rfl, hlt, hin'⟩

theorem mapRangeRecursive_returns (hl : T.Addressable level) (frame : PhysAddr) (c : MapRecursiveConfig)
    (hend : c.endVaddr + T.pageSize ≤ usizeRange)
    (hin : Inside T c.endVaddr c.startVaddr c.startPaddr) (m : Machine P) :
    Returned (Frame.mapRangeRecursive T A level frame c m).1 := by
  induction level generalizing frame c m with
  | zero => exact absurd hl.1 (lt_irrefl 0)
  | succ level ih =>
    have hloop : Returned (Frame.mapLoop T A (Frame.mapRangeRecursive T A level) (level + 1) frame c
        (c.endVaddr - c.startVaddr) (c.startVaddr, c.startPaddr) m).1 :=
      mapLoop_returns hl hend (fun v p new hv hdeep hin m => ?_) (c.startVaddr, c.startPaddr) hin m
    · rw [Frame.mapRangeRecursive, Exec.bind_apply]
      revert hloop
      rcases Frame.mapLoop T A (Frame.mapRangeRecursive T A level) (level + 1) frame c
        (c.endVaddr - c.startVaddr) (c.startVaddr, c.startPaddr) m with ⟨fault | cursor, m'⟩
      · intro hr
        match fault, hr with
        | .err _, _ => exact trivial
      · exact fun _ => trivial
    · have hpos : 0 < level := by omega
      have hle : (Frame.childConfig T (level + 1) c v p).endVaddr ≤ c.endVaddr := Nat.min_le_right _ _
      refine ih (hl.mono hpos (Nat.le_succ _)) new _ (by omega) (fun hlt => ?_) m
      have := hin hv
      change p + ((Frame.childConfig T (level + 1) c v p).endVaddr - v) + T.pageSize ≤ usizeRange
      omega

end Returns

variable {root : PhysAddr} {config : MapConfig}

theorem map_returns (hl : T.Addressable T.ptLevel) (A : FrameAllocator) (root : PhysAddr)
    (hv : config.vaddr + config.size + T.pageSize ≤ usizeRange)
    (hp : config.paddr + config.size + T.pageSize ≤ usizeRange) (m : Machine P) :
    Returned (PageTableRef.map T A root config m).1 := by
  rcases PageTableRef.map_eq T A root config m with ⟨-, error, herror⟩ | ⟨-, hrun⟩
  · rw [herror]
    exact trivial
  · rw [hrun]
    refine mapRangeRecursive_returns hl root _ hv (fun _ => ?_) m
    change config.paddr + (config.vaddr + config.size - config.vaddr) + T.pageSize ≤ usizeRange
    omega

/-! ### Tables with nothing in them -/

variable {t t' : Tree P}

/-- No table below is empty. -/
def Dense (T : TableMeta P) : Nat → Tree P → Prop
  | 0, _ => True
  | level + 1, t => ∀ i, pointsToTable (level + 1) (t.entry i) = true → Populated T level (t.kid i)

theorem Populated.dense (h : Populated T level t) : Dense T level t := by
  cases level with
  | zero => exact trivial
  | succ level => exact h.2

theorem Dense.grown (h : Dense T level t) (hgrown : Grown T level t t') : Dense T level t' := by
  cases level with
  | zero => exact trivial
  | succ level =>
    intro i hp
    rcases hgrown.2 i hp with ⟨hentry, hkid⟩ | ⟨-, hnew⟩
    · exact (h i (hentry ▸ hp)).grown hkid
    · exact hnew

theorem Dense.pruned (hind : ValidIndependent P) (h : Dense T level t) (hpruned : Pruned T level t t') :
    Dense T level t' := by
  induction level generalizing t t' with
  | zero => exact trivial
  | succ level ih =>
    intro i hp
    obtain ⟨hentry, hkept⟩ := hpruned i hp
    have hpop := h i (hentry ▸ hp)
    have hsome := hpop.lookup_of_pruned hind hkept
    rcases hkept with hsame | ⟨-, hkid⟩
    · exact hsame ▸ hpop
    · cases level with
      | zero => exact hpop.elim
      | succ level => exact ⟨hsome, ih hpop.dense hkid⟩

section Codec

variable (hcodec : RoundTrips T limit)

include hcodec

theorem dense_fresh (frame : PhysAddr) : Dense T level (Tree.fresh frame) := by
  cases level with
  | zero => exact trivial
  | succ level =>
    intro i hp
    rw [Tree.entry_fresh, pointsToTable, hcodec.keepsDirectories.zeroed, Bool.and_false] at hp
    exact absurd hp Bool.false_ne_true

theorem Written.valid {pte : P} (h : Written T limit level pte) (htaken : PageTableEntry.valid pte = true) :
    (toConfig pte (decide (1 < level))).valid = true := by
  cases h with
  | zeroed =>
    rw [hcodec.zeroed_valid] at htaken
    exact absurd htaken Bool.false_ne_true
  | cleared =>
    rw [hcodec.invalid_valid] at htaken
    exact absurd htaken Bool.false_ne_true
  | encoded hc =>
    rw [← hc.isDir]
    exact hcodec.valid _ _ hc

/-- The slot of an address that does not translate is free, above the leaf level if no address of the entry
translates. -/
theorem Dense.slot_free (hdense : Dense T level t) (ht : WellFormed T limit level t) (hlevel : 0 < level)
    {v : Nat} (hv : lookup T level t v = none)
    (hentry : 1 < level → ∀ x, x / T.size level = v / T.size level → lookup T level t x = none) :
    PageTableEntry.valid (t.entry (T.slot level v)) = false := by
  rw [← Bool.not_eq_true]
  intro htaken
  have hvalid := (ht.written hlevel _).valid hcodec htaken
  cases hp : pointsToTable level (t.entry (T.slot level v)) with
  | false =>
    rw [lookup_final hlevel hvalid hp] at hv
    exact Option.some_ne_none _ hv
  | true =>
    -- the table below translates something, and so does the entry
    obtain ⟨level, rfl⟩ := Nat.exists_eq_add_one.mpr hlevel
    have hdeep : 1 < level + 1 := (pointsToTable_eq_true.mp hp).1
    obtain ⟨level, rfl⟩ : ∃ l, level = l + 1 := ⟨level - 1, by omega⟩
    obtain ⟨⟨a, ha⟩, -⟩ := hdense _ hp
    obtain ⟨b, hslot, hab⟩ := T.exists_slot_eq (level + 1 + 1) (T.slot_lt _ v) a
    obtain ⟨b', hbb', hdiv⟩ := T.exists_modEq_div_eq hlevel hslot
    refine ha ?_
    rw [lookup_modEq hab, ← lookup_kid hp hslot, lookup_modEq hbb', hentry hdeep b' hdiv]

end Codec

/-! ### Mapping a free range -/

/-- The range of a call is inside the address space, on whole pages below `limit`, and no two of its
addresses have the same indices in a table of level `level`. -/
structure Mappable (T : TableMeta P) (limit level e v p : Nat) : Prop where
  fits : e + T.pageSize ≤ usizeRange
  inside : Inside T e v p
  onPage : OnPage T limit e v p
  distinct : ∀ x y, v ≤ x → x < e → v ≤ y → y < e → x ≡ y [MOD T.size (level + 1)] → x = y

/-- A call on a table with no empty tables below in which the range is free returns `Ok`, or the allocator
refuses a frame. -/
def MapFree (T : TableMeta P) (limit level : Nat) (call : PhysAddr → MapRecursiveConfig → Run P Unit) : Prop :=
  ∀ {frame c m t}, Mappable T limit level c.endVaddr c.startVaddr c.startPaddr →
    Represents T level frame m t → WellFormed T limit level t → Dense T level t →
    (∀ x, c.startVaddr ≤ x → x < c.endVaddr → lookup T level t x = none) →
    (∃ m', call frame c m = (.ok (), m')) ∨
      ∃ m', call frame c m = (.error (.err .noMemory), m') ∧ .refuse ∈ m'.log

omit [PageTableEntry P] in
theorem Mappable.le_usizeMax {e v p : Nat} (h : Mappable T limit level e v p) : e ≤ usizeMax := by
  have := h.fits
  have := T.pageSize_pos
  exact Nat.le_of_lt_succ (show e < usizeRange by omega)

omit [PageTableEntry P] in
theorem Mappable.child {e v p w q : Nat} (h : Mappable T limit (level + 1) e v p) (hw : w < e)
    (hin : Inside T e w q) (hpage : OnPage T limit e w q) :
    Mappable T limit level (min (T.entryEnd (level + 1) w) e) w q where
  fits := by
    have := h.fits
    omega
  inside _ := by
    have := hin hw
    omega
  onPage := hpage.child hw _
  distinct x y hx hxe hy hye hxy := by
    have hdiv : x / T.size (level + 1) = y / T.size (level + 1) := by
      rw [T.div_eq_of_lt_entryEnd hx (by omega), T.div_eq_of_lt_entryEnd hy (by omega)]
    rw [← Nat.div_add_mod x (T.size (level + 1)), hdiv, show x % _ = y % _ from hxy, Nat.div_add_mod]

section Free

variable (hcodec : RoundTrips T limit) (hA : A.Fresh T limit)
  {child : PhysAddr → MapRecursiveConfig → Run P Unit} {frame : PhysAddr} {c : MapRecursiveConfig}
  {m m' : Machine P}

include hcodec hA

omit hA in
theorem ChildReady.dense {template : PteConfig} {i : Nat} {log log₁ : Ledger PhysAddr} {t₁ : Tree P}
    (hready : ChildReady A template t i log t₁ log₁) (ht : t.IsTable) (hdense : Dense T (level + 1) t)
    (hp : pointsToTable (level + 1) (t₁.entry i) = true) : Dense T level (t₁.kid i) := by
  cases hready with
  | present => exact (hdense i hp).dense
  | created =>
    rw [Tree.kid_set ht, if_pos rfl]
    exact dense_fresh hcodec _

theorem mapStep_free {v p : Nat} {fault : Fault} (hchild : 0 < level → MapFree T limit level child)
    (hl : T.Addressable (level + 1))
    (hmap : Mappable T limit (level + 1) c.endVaddr c.startVaddr c.startPaddr)
    (hv : v < c.endVaddr) (hin : Inside T c.endVaddr v p) (hpage : OnPage T limit c.endVaddr v p)
    (hrep : Represents T (level + 1) frame m t) (ht : WellFormed T limit (level + 1) t)
    (hdense : Dense T (level + 1) t)
    (hfree : ∀ x, v ≤ x → x < c.endVaddr → lookup T (level + 1) t x = none)
    (h : Frame.mapStep T A child (level + 1) frame c (v, p) m = (.error fault, m')) :
    fault = .err .noMemory ∧ .refuse ∈ m'.log := by
  have hnone := hfree v le_rfl hv
  rcases Frame.mapStep_fault hl hv hmap.fits (hin hv) h with
    ⟨hplace, htaken, -⟩ | ⟨hdeep, hnew | ⟨new, m₁, hnew, hcall⟩⟩
  · -- a free slot cannot be taken
    rw [← hrep.entry, hdense.slot_free hcodec ht (Nat.succ_pos level) hnone] at htaken
    · exact absurd htaken Bool.false_ne_true
    · intro hdeep x hx
      obtain ⟨-, -, -, hfit, hdvd, -⟩ :=
        (Frame.canUseHuge_eq_true hl).mp (hplace.resolve_left (by omega))
      obtain ⟨hle, hlt⟩ := T.div_eq_div_iff.mp hx
      rw [Nat.div_mul_cancel hdvd] at hle
      rw [T.entryEnd_of_dvd hdvd] at hlt
      exact hfree x hle (by omega)
  · rcases Frame.childFrame_error hnew with ⟨hvalid, hhuge, -, -⟩ | ⟨hfault, rfl⟩
    · rw [← hrep.entry] at hvalid hhuge
      rw [lookup_final (Nat.succ_pos level) (by rw [decide_eq_true hdeep, hvalid])
        (by simp [pointsToTable, isDirectory, hhuge])] at hnone
      exact absurd hnone (Option.some_ne_none _)
    · exact ⟨hfault, List.mem_cons_self⟩
  · have hi : T.slot (level + 1) v < T.len := T.slot_lt _ _
    have hlevel : 0 < level := by omega
    have hnext := Frame.childConfig_endVaddr T (level + 1) p hmap.le_usizeMax hv
    obtain ⟨t₁, hready, hrep₁, -, hp, rfl⟩ :=
      childFrame_refines hcodec.keepsDirectories hA hrep hlevel hi hnew
    obtain ⟨-, -, hkid⟩ := hready.wellFormed hcodec.keepsDirectories hA hlevel ht
    have hcases := hchild hlevel (c := Frame.childConfig T (level + 1) c v p)
      (by rw [hnext]; exact hmap.child hv hin hpage) (hrep₁.kid hi hp) hkid
      (hready.dense hcodec ht.1 hdense hp) fun x hx hxe => ?_
    · rw [hcall] at hcases
      rcases hcases with ⟨m', hok⟩ | ⟨m', herror, hrefuse⟩
      · simp at hok
      · simp only [Prod.mk.injEq, Except.error.injEq] at herror
        obtain ⟨rfl, rfl⟩ := herror
        exact ⟨rfl, hrefuse⟩
    · have hx : v ≤ x := hx
      rw [hnext] at hxe
      have hlt : x < T.entryEnd (level + 1) v := by omega
      have hslot := T.slot_eq_of_div_eq (T.div_eq_of_lt_entryEnd hx hlt)
      rw [← lookup_kid hp hslot, hready.lookup_eq hcodec hA hlevel ht.1]
      exact hfree x hx (by omega)

theorem mapLoop_free (hchild : 0 < level → MapFree T limit level child)
    (hrefines : MapRefines T A limit level child) (hl : T.Addressable (level + 1))
    (hmap : Mappable T limit (level + 1) c.endVaddr c.startVaddr c.startPaddr)
    (hrep : Represents T (level + 1) frame m t) (ht : WellFormed T limit (level + 1) t)
    (hdense : Dense T (level + 1) t)
    (hfree : ∀ x, c.startVaddr ≤ x → x < c.endVaddr → lookup T (level + 1) t x = none) :
    (∃ cursor m', Frame.mapLoop T A child (level + 1) frame c (c.endVaddr - c.startVaddr)
        (c.startVaddr, c.startPaddr) m = (.ok cursor, m')) ∨
      ∃ m', Frame.mapLoop T A child (level + 1) frame c (c.endVaddr - c.startVaddr)
        (c.startVaddr, c.startPaddr) m = (.error (.err .noMemory), m') ∧ .refuse ∈ m'.log := by
  have hcases := mapLoop_cases T A child (level + 1) frame c
    (I := fun cursor m => c.startVaddr ≤ cursor.1 ∧ Inside T c.endVaddr cursor.1 cursor.2 ∧
      OnPage T limit c.endVaddr cursor.1 cursor.2 ∧ ∃ t, Represents T (level + 1) frame m t ∧
        WellFormed T limit (level + 1) t ∧ Dense T (level + 1) t ∧
        ∀ x, cursor.1 ≤ x → x < c.endVaddr → lookup T (level + 1) t x = none)
    (E := fun fault m' => fault = .err .noMemory ∧ .refuse ∈ m'.log) ?_ (c.startVaddr, c.startPaddr) m
    ⟨le_rfl, hmap.inside, hmap.onPage, t, hrep, ht, hdense, hfree⟩
  · rcases hcases with hloop | ⟨_, m', hloop, rfl, hrefuse⟩
    · exact .inl hloop
    · exact .inr ⟨m', hloop, hrefuse⟩
  · rintro v p m ⟨hsv, hin, hpage, t, hrep, ht, hdense, hfree⟩ hv
    rcases hstep : Frame.mapStep T A child (level + 1) frame c (v, p) m with ⟨fault | ⟨v', p'⟩, m'⟩
    · exact .inr ⟨fault, m', rfl,
        mapStep_free hcodec hA hchild hl hmap hv hin hpage hrep ht hdense hfree hstep⟩
    · obtain ⟨hlt, hin'⟩ := mapStep_advances hv hmap.fits hin hstep
      obtain ⟨hpage', -, t', hrep', -, hrun⟩ :=
        mapStep_run hcodec.keepsDirectories hA hrefines hrep hpage hmap.le_usizeMax hv hstep
      have hrun := hrun (.inr rfl) (.done le_rfl)
      have hgrown := hrun.grown hcodec hA ht (fun _ => (hpage hv).1) rfl
      refine .inl ⟨v', p', m', rfl, hlt, by show c.startVaddr ≤ v'; omega, hin', hpage', t', hrep',
        hrun.wellFormed hcodec.keepsDirectories hA ht, hdense.grown hgrown, fun x hx hxe => ?_⟩
      -- what the iteration has mapped is below `v'`
      have hx : v' ≤ x := hx
      have hmaps := hrun.maps_range hcodec hA ht (hpage hv).1 (hpage' (show v' < _ by omega)).1 hlt
      rw [hmaps.frame x fun y hvy hyv hxy => ?_]
      · exact hfree x (show v ≤ x by omega) hxe
      · have hsv : c.startVaddr ≤ v := hsv
        have := hmap.distinct x y (by omega) hxe (by omega) (by omega) hxy
        omega

theorem mapRangeRecursive_free (level : Nat) (hl : T.Addressable level) :
    MapFree T limit level (Frame.mapRangeRecursive T A level) := by
  induction level with
  | zero => exact absurd hl.1 (lt_irrefl 0)
  | succ level ih =>
    intro frame c m t hmap hrep ht hdense hfree
    rcases mapLoop_free hcodec hA (fun hpos => ih (hl.mono hpos (Nat.le_succ _)))
      (mapRangeRecursive_refines hcodec.keepsDirectories hA level) hl hmap hrep ht hdense hfree with
      ⟨cursor, m', hloop⟩ | ⟨m', hloop, hrefuse⟩
    · exact .inl ⟨m', Exec.bind_apply_ok hloop⟩
    · exact .inr ⟨m', Exec.bind_eq_error.mpr (.inl hloop), hrefuse⟩

end Free

/-- `map` of a free range returns `Ok`, or the allocator refuses a frame. -/
theorem map_free (hcodec : RoundTrips T limit) (hA : A.Fresh T limit) (hl : T.Addressable T.ptLevel)
    {m : Machine P} (hm : Holds T limit root m t) (hdense : Dense T T.ptLevel t)
    (haccepted : config.Accepted T)
    (hmap : Mappable T limit T.ptLevel (config.vaddr + config.size) config.vaddr config.paddr)
    (hfree : ∀ x, config.vaddr ≤ x → x < config.vaddr + config.size → lookup T T.ptLevel t x = none) :
    (∃ m', PageTableRef.map T A root config m = (.ok (), m')) ∨
      ∃ m', PageTableRef.map T A root config m = (.error (.err .noMemory), m') ∧ .refuse ∈ m'.log := by
  rcases PageTableRef.map_eq T A root config m with ⟨hnot, -⟩ | ⟨-, hrun⟩
  · exact absurd haccepted hnot
  · rw [hrun]
    exact mapRangeRecursive_free hcodec hA T.ptLevel hl (c := PageTableRef.rootConfig config) hmap
      hm.represents hm.wellFormed hdense hfree

end Sparreal.Paging
