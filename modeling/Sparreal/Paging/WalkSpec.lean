import Sparreal.Paging.Walk
import Sparreal.Paging.Translate
import Sparreal.Arch.X86

/-!
# What a walk yields

The final entries of the depth-first list are the final entries that lookups find
(`mem_visit_final`), in increasing order of their addresses (`visit_pairwise`). So a full walk yields
exactly what `translate` goes through. A walk that starts at `start` leaves out what lies below a
top-level entry that begins before `start` (`visit_eq_filter`), also where it is in the range.
-/

namespace Sparreal.Paging

variable {P : Type} [PageTableEntry P] {T : TableMeta P} {level start : Nat} {t : Tree P}

/-! ### The depth-first list -/

variable {info : PteInfo P} {base i : Nat}

theorem mem_visitEntry_bounds {below : Tree P → Nat → List (PteInfo P)}
    (hbelow : ∀ base, info ∈ below (t.kid i) base →
      base ≤ info.vaddr ∧ info.vaddr + T.pageSize ≤ base + T.size level)
    (h : info ∈ visitEntry T start below level t base i) :
    base + i * T.size level ≤ info.vaddr ∧
      info.vaddr + T.pageSize ≤ base + i * T.size level + T.size level := by
  rw [visitEntry] at h
  split_ifs at h with hstart hp
  · simp at h
  · rcases List.mem_cons.mp h with rfl | h
    · exact ⟨le_rfl, Nat.add_le_add_left (Nat.le_of_dvd (T.size_pos _) (T.pageSize_dvd_size _)) _⟩
    · exact hbelow _ h
  · obtain rfl := List.mem_singleton.mp h
    exact ⟨le_rfl, Nat.add_le_add_left (Nat.le_of_dvd (T.size_pos _) (T.pageSize_dvd_size _)) _⟩

variable {base : Nat}

theorem mem_visit_bounds (h : info ∈ visit T start level t base) :
    base ≤ info.vaddr ∧ info.vaddr + T.pageSize ≤ base + T.size (level + 1) := by
  induction level generalizing t base with
  | zero => simp [visit] at h
  | succ level ih =>
    rw [visit, List.mem_flatMap] at h
    obtain ⟨i, hi, h⟩ := h
    obtain ⟨hle, hlt⟩ := mem_visitEntry_bounds (fun base h => ih h) h
    have hrow := T.row_le (show 0 < level + 1 by omega) (List.mem_range.mp hi)
    omega

theorem mem_row_bounds (h : info ∈ visitEntry T start (visit T start level) (level + 1) t base i) :
    base + i * T.size (level + 1) ≤ info.vaddr ∧
      info.vaddr + T.pageSize ≤ base + i * T.size (level + 1) + T.size (level + 1) :=
  mem_visitEntry_bounds (fun _ h => mem_visit_bounds h) h

theorem visitEntry_of_le (below : Tree P → Nat → List (PteInfo P)) (t : Tree P)
    (h : start ≤ base + i * T.size level) :
    visitEntry T start below level t base i = entryInfo T level t base i ::
      if pointsToTable level (t.entry i) then below (t.kid i) (base + i * T.size level) else [] :=
  if_neg (Nat.not_lt.mpr h)

theorem visit_of_le (h : start ≤ base) : visit T start level t base = visit T 0 level t base := by
  induction level generalizing t base with
  | zero => rfl
  | succ level ih =>
    rw [visit, visit]
    refine List.flatMap_congr fun i _ => ?_
    rw [visitEntry_of_le _ _ (by omega), visitEntry_of_le _ _ (Nat.zero_le _), ih (by omega)]

/-- A walk from `start` visits what lies below the top-level entries from `start` on. -/
theorem visit_eq_filter (start : Nat) (t : Tree P) (hlevel : 0 < level) :
    visit T start level t 0 =
      (visit T 0 level t 0).filter fun info => start ≤ info.vaddr / T.size level * T.size level := by
  obtain ⟨level, rfl⟩ := Nat.exists_eq_add_one.mpr hlevel
  rw [visit, visit, List.filter_flatMap]
  refine List.flatMap_congr fun i _ => ?_
  -- everything in a row lies in the range of its entry
  have hrow : ∀ info ∈ visitEntry T 0 (visit T 0 level) (level + 1) t 0 i,
      info.vaddr / T.size (level + 1) = i := by
    intro info hinfo
    have := mem_row_bounds hinfo
    have := T.pageSize_pos
    exact Nat.div_eq_of_lt_le (by omega) (by rw [Nat.succ_mul]; omega)
  by_cases hi : 0 + i * T.size (level + 1) < start
  · rw [visitEntry, if_pos hi, eq_comm, List.filter_eq_nil_iff]
    intro info hinfo
    rw [hrow info hinfo]
    simp only [decide_eq_true_eq]
    omega
  · have hself : ∀ info ∈ visitEntry T 0 (visit T 0 level) (level + 1) t 0 i,
        decide (start ≤ info.vaddr / T.size (level + 1) * T.size (level + 1)) = true := by
      intro info hinfo
      rw [hrow info hinfo]
      simp only [decide_eq_true_eq]
      omega
    rw [List.filter_eq_self.mpr hself, visitEntry_of_le _ _ (Nat.le_of_not_lt hi),
      visitEntry_of_le _ _ (Nat.zero_le _), visit_of_le (Nat.le_of_not_lt hi)]

/-- The order of the list: addresses do not decrease, and grow after a final entry. -/
def Before (p q : PteInfo P) : Prop := p.vaddr ≤ q.vaddr ∧ (p.isFinalMapping = true → p.vaddr < q.vaddr)

theorem entryInfo_of_pointsToTable (hp : pointsToTable level (t.entry i) = true) :
    (entryInfo T level t base i).isFinalMapping = false := by
  obtain ⟨hlevel, hvalid, hhuge⟩ := pointsToTable_eq_true.mp hp
  simp only [entryInfo, decide_eq_true hlevel, hvalid, hhuge, Bool.true_and, Bool.false_or,
    beq_eq_false_iff_ne]
  omega

theorem visit_pairwise : (visit T start level t base).Pairwise Before := by
  induction level generalizing t base with
  | zero => exact List.Pairwise.nil
  | succ level ih =>
    rw [visit, List.pairwise_flatMap]
    refine ⟨fun i _ => ?_, List.Pairwise.imp ?_ List.pairwise_lt_range⟩
    · rw [visitEntry]
      split_ifs with hstart hp
      · exact List.Pairwise.nil
      · refine List.Pairwise.cons (fun q hq => ⟨(mem_visit_bounds hq).1, fun hfinal => ?_⟩) ih
        rw [entryInfo_of_pointsToTable hp] at hfinal
        exact absurd hfinal (by decide)
      · exact List.pairwise_singleton _ _
    · intro i j hij p hp q hq
      have hp := mem_row_bounds hp
      have hq := mem_row_bounds hq
      have := T.pageSize_pos
      have := Nat.mul_le_mul_right (T.size (level + 1)) (Nat.succ_le_of_lt hij)
      rw [Nat.succ_mul] at this
      exact ⟨by omega, fun _ => by omega⟩

/-! ### The final entries -/

theorem entryInfo_final_iff (base i : Nat) (hlevel : 0 < level) :
    (entryInfo T level t base i).isFinalMapping = true ↔
      (toConfig (t.entry i) (decide (1 < level))).valid = true ∧ pointsToTable level (t.entry i) = false := by
  simp only [entryInfo, pointsToTable, isDirectory]
  by_cases hone : level = 1
  · subst hone
    simp
  · have hdeep : 1 < level := by omega
    rw [decide_eq_true hdeep, beq_eq_false_iff_ne.mpr hone]
    cases (toConfig (t.entry i) true).valid <;> cases (toConfig (t.entry i) true).huge <;> decide

section

variable {info : PteInfo P} (hfinal : info.isFinalMapping = true)

include hfinal

theorem lookup_of_mem_visit (hinfo : info ∈ visit T 0 level t base) : ∃ x < T.size (level + 1),
      lookup T level t x = some (info.pte, info.level) ∧
        info.vaddr = base + x / T.size info.level * T.size info.level := by
  induction level generalizing t base with
  | zero => simp [visit] at hinfo
  | succ level ih =>
    have hpos := T.size_pos (level + 1)
    rw [visit, List.mem_flatMap] at hinfo
    obtain ⟨i, hi, hinfo⟩ := hinfo
    have hi := List.mem_range.mp hi
    have hrow := T.row_le (show 0 < level + 1 by omega) hi
    rw [visitEntry_of_le _ _ (Nat.zero_le _)] at hinfo
    rcases List.mem_cons.mp hinfo with rfl | hinfo
    · obtain ⟨hvalid, hp⟩ := (entryInfo_final_iff base i (Nat.succ_pos _)).mp hfinal
      have hslot : T.slot (level + 1) (i * T.size (level + 1)) = i := T.slot_mul_add hi hpos
      refine ⟨i * T.size (level + 1), by omega, ?_, ?_⟩
      · rw [lookup_final (Nat.succ_pos _) (by rw [hslot, hvalid]) (by rw [hslot, hp]), hslot]
        rfl
      · show base + i * T.size (level + 1) = base + i * T.size (level + 1) / T.size (level + 1) * _
        rw [Nat.mul_div_cancel _ hpos]
        rfl
    · split_ifs at hinfo with hp
      · obtain ⟨x, hx, hlookup, hvaddr⟩ := ih hinfo
        have hmod : i * T.size (level + 1) + x ≡ x [MOD T.size (level + 1)] := by
          rw [Nat.ModEq, Nat.mul_comm, Nat.mul_add_mod]
        refine ⟨i * T.size (level + 1) + x, by omega, ?_, ?_⟩
        · rw [lookup_kid hp (T.slot_mul_add hi hx), lookup_modEq hmod, hlookup]
        · rw [T.floor_mul_add ((lookup_level hlookup).2.trans (Nat.le_succ _)), hvaddr, Nat.add_assoc]
      · simp at hinfo

theorem mem_visit_of_lookup {x : Nat} (hx : x < T.size (level + 1))
    (hlookup : lookup T level t x = some (info.pte, info.level))
    (hvaddr : info.vaddr = base + x / T.size info.level * T.size info.level) : info ∈ visit T 0 level t base := by
  induction level generalizing t base x with
  | zero => simp [lookup] at hlookup
  | succ level ih =>
    have hpos := T.size_pos (level + 1)
    have hi : x / T.size (level + 1) < T.len := Nat.div_lt_of_lt_mul (T.size_succ (Nat.succ_pos level) ▸ hx)
    have hslot : T.slot (level + 1) x = x / T.size (level + 1) := Nat.mod_eq_of_lt hi
    have hdecomp := Nat.div_add_mod' x (T.size (level + 1))
    rw [visit, List.mem_flatMap]
    refine ⟨x / T.size (level + 1), List.mem_range.mpr hi, ?_⟩
    rw [visitEntry_of_le _ _ (Nat.zero_le _)]
    rw [lookup_succ, hslot] at hlookup
    split_ifs at hlookup with hvalid hp
    · rw [if_pos hp]
      have hmod : x ≡ x % T.size (level + 1) [MOD T.size (level + 1)] := (Nat.mod_modEq _ _).symm
      refine List.mem_cons_of_mem _ (ih (Nat.mod_lt x hpos) ?_ ?_)
      · rw [← lookup_modEq hmod, hlookup]
      · have hle : info.level ≤ level + 1 := (lookup_level hlookup).2.trans (Nat.le_succ _)
        rw [hvaddr, Nat.add_assoc, ← T.floor_mul_add hle, hdecomp]
    · obtain ⟨hpte, hinfo⟩ := Prod.mk.inj (Option.some.inj hlookup)
      obtain ⟨l, vaddr, final, pte⟩ := info
      dsimp only at hpte hinfo hvaddr hfinal
      subst hpte hinfo hvaddr hfinal
      refine List.mem_cons.mpr (Or.inl ?_)
      rw [entryInfo, PteInfo.mk.injEq]
      exact ⟨rfl, rfl, ((entryInfo_final_iff (T := T) base _ (Nat.succ_pos _)).mpr
        ⟨by simpa using hvalid, by simpa using hp⟩).symm, rfl⟩

/-- The final entries of the list are those that lookups of the addresses of the table find. -/
theorem mem_visit_final :
    info ∈ visit T 0 level t base ↔ ∃ x < T.size (level + 1),
      lookup T level t x = some (info.pte, info.level) ∧
        info.vaddr = base + x / T.size info.level * T.size info.level :=
  ⟨lookup_of_mem_visit hfinal,
    fun ⟨_, hx, hlookup, hvaddr⟩ => mem_visit_of_lookup hfinal hx hlookup hvaddr⟩

end

/-! ### Walks -/

def finalMappings (T : TableMeta P) (t : Tree P) : List (PteInfo P) :=
  (visit T 0 T.ptLevel t 0).filter (·.isFinalMapping)

theorem finalMappings_pairwise : (finalMappings T t).Pairwise fun p q => p.vaddr < q.vaddr := by
  rw [finalMappings, List.pairwise_filter]
  exact visit_pairwise.imp fun h hp _ => h.2 hp

theorem mem_finalMappings :
    info ∈ finalMappings T t ↔ info.isFinalMapping = true ∧ T.size info.level ∣ info.vaddr ∧
      info.vaddr < T.size (T.ptLevel + 1) ∧ ∀ a, info.vaddr ≤ a → a < info.vaddr + T.size info.level →
        lookup T T.ptLevel t a = some (info.pte, info.level) := by
  rw [finalMappings, List.mem_filter, and_comm]
  refine and_congr_right fun hfinal => ?_
  rw [mem_visit_final hfinal]
  constructor
  · rintro ⟨x, hx, hlookup, hvaddr⟩
    rw [Nat.zero_add] at hvaddr
    have hle := Nat.div_mul_le_self x (T.size info.level)
    refine ⟨Dvd.intro_left _ hvaddr.symm, by omega, fun a ha ha' => lookup_of_div_eq hlookup ?_⟩
    refine T.div_eq_div_iff.mpr ⟨by omega, ?_⟩
    rw [TableMeta.entryEnd, Nat.succ_mul]
    omega
  · rintro ⟨hdvd, hlt, hlookup⟩
    have hsize := T.size_pos info.level
    refine ⟨info.vaddr, hlt, hlookup _ le_rfl (by omega), ?_⟩
    rw [Nat.zero_add, Nat.div_mul_cancel hdvd]

theorem exists_mem_finalMappings {a l : Nat} {pte : P} (h : lookup T T.ptLevel t a = some (pte, l)) :
    ∃ p ∈ finalMappings T t, p.vaddr ≤ a % T.size (T.ptLevel + 1) ∧
      a % T.size (T.ptLevel + 1) < p.vaddr + T.size p.level := by
  have hlt := Nat.mod_lt a (T.size_pos (T.ptLevel + 1))
  have hmod : a ≡ a % T.size (T.ptLevel + 1) [MOD T.size (T.ptLevel + 1)] := (Nat.mod_modEq _ _).symm
  rw [lookup_modEq hmod] at h
  refine ⟨⟨l, a % T.size (T.ptLevel + 1) / T.size l * T.size l, true, pte⟩, ?_, Nat.div_mul_le_self _ _, ?_⟩
  · rw [finalMappings, List.mem_filter, mem_visit_final rfl]
    exact ⟨⟨_, hlt, h, (Nat.zero_add _).symm⟩, rfl⟩
  · have := T.lt_entryEnd l (a % T.size (T.ptLevel + 1))
    rwa [TableMeta.entryEnd, Nat.succ_mul] at this

theorem lt_usizeMax (hbits : T.ptValidBits ≤ 64) {p : PteInfo P} (hp : p ∈ finalMappings T t) :
    p.vaddr < usizeMax := by
  show p.vaddr < 2 ^ 64 - 1
  obtain ⟨-, hlt⟩ := mem_visit_bounds (List.mem_filter.mp hp).1
  have hspace : T.size (T.ptLevel + 1) ≤ 2 ^ 64 := T.size_le_usizeRange hbits
  have hpage := T.pageSize_pos
  by_cases hone : T.pageSize = 1
  · have := T.size_of_pageSize_one hone (T.ptLevel + 1)
    omega
  · omega

theorem takeWhile_eq_filter {α : Type} {p : α → Bool} {l : List α}
    (h : l.Pairwise fun a b => p b = true → p a = true) : l.takeWhile p = l.filter p := by
  induction l with
  | nil => rfl
  | cons a l ih =>
    obtain ⟨ha, hl⟩ := List.pairwise_cons.mp h
    cases hp : p a with
    | true => rw [List.takeWhile_cons_of_pos hp, List.filter_cons_of_pos hp, ih hl]
    | false =>
      have hnone : l.filter p = [] := List.filter_eq_nil_iff.mpr fun b hb hpb => by
        rw [ha b hb hpb] at hp
        exact absurd hp (by decide)
      have hp' : ¬ p a = true := by rw [hp]; exact Bool.false_ne_true
      rw [List.takeWhile_cons_of_neg hp', List.filter_cons_of_neg hp', hnone]

section

variable (hind : ValidIndependent P) (hl : T.Addressable T.ptLevel) (hbits : T.ptValidBits ≤ 64)
  (hdepth : T.ptLevel ≤ maxWalkDepth) (m : Machine P) (root : PhysAddr)

include hind hl hbits hdepth

theorem walk_final_eq (start stop : Nat) (hrange : start < stop) :
    ∃ part, PageTableRef.walk T m root start stop = .ok part ∧
      part.filter (·.isFinalMapping) = (finalMappings T (tableAt T m.mem T.ptLevel root)).filter fun p =>
        decide (start ≤ p.vaddr / T.size T.ptLevel * T.size T.ptLevel) && decide (p.vaddr < stop) := by
  have hall := walkAll_eq hl hbits hdepth m root ⟨start, stop⟩ hrange
  have hsorted : (visit T start T.ptLevel (tableAt T m.mem T.ptLevel root) 0).Pairwise fun p q =>
      PageTableWalker.beforeEnd stop q = true → PageTableWalker.beforeEnd stop p = true :=
    visit_pairwise.imp fun hle hq => decide_eq_true (hle.1.trans_lt (of_decide_eq_true hq))
  refine ⟨_, by rw [PageTableRef.walk, hall]; rfl, ?_⟩
  rw [takeWhile_eq_filter hsorted, visit_eq_filter start _ T.ptLevel_pos, finalMappings]
  simp only [List.filter_filter]
  refine List.filter_congr fun p hp => ?_
  cases hfinal : p.isFinalMapping with
  | false => simp only [Bool.false_and, Bool.and_false]
  | true =>
    -- a final entry is valid, however it is read
    obtain ⟨x, -, hlookup, -⟩ := (mem_visit_final hfinal).mp hp
    have hvalid := (lookup_entry hlookup).1
    rw [hind.eq] at hvalid
    simp only [hvalid, PageTableWalker.beforeEnd, Bool.true_and, Bool.and_comm]

theorem walkValid_eq :
    PageTableRef.walkValid T m root = .ok (finalMappings T (tableAt T m.mem T.ptLevel root)) := by
  obtain ⟨part, hwalk, hpart⟩ := walk_final_eq hind hl hbits hdepth m root 0 usizeMax (by decide)
  rw [PageTableRef.walkValid, hwalk]
  refine congrArg Except.ok ?_
  dsimp only
  rw [← List.filter_filter, hpart, List.filter_filter]
  refine List.filter_eq_self.mpr fun p hp => ?_
  obtain ⟨hfinal, -, -, hlookup⟩ := mem_finalMappings.mp hp
  have hsize := T.size_pos p.level
  have hvalid := (lookup_entry (hlookup _ le_rfl (by omega))).1
  rw [hind.eq] at hvalid
  have hlt := lt_usizeMax hbits hp
  simp only [hvalid, Bool.true_and, Nat.zero_le, decide_true, decide_eq_true hlt]

/-- A full walk agrees with `translate`. -/
theorem walkValid_translate :
    ∃ infos, PageTableRef.walkValid T m root = .ok infos ∧
      infos.Pairwise (fun p q => p.vaddr < q.vaddr) ∧
      (∀ p, p ∈ infos ↔ p.isFinalMapping = true ∧ T.size p.level ∣ p.vaddr ∧ p.vaddr < 2 ^ T.ptValidBits ∧
        ∀ a, p.vaddr ≤ a → a < p.vaddr + T.size p.level →
          Frame.translateRecursiveWithLevel T m.mem T.ptLevel root a = .ok (p.pte, p.level)) ∧
      ∀ a, (∀ p ∈ infos, ¬ (p.vaddr ≤ a % 2 ^ T.ptValidBits ∧
          a % 2 ^ T.ptValidBits < p.vaddr + T.size p.level)) →
        PageTableRef.translate T m root a = .error (.err .notMapped) := by
  refine ⟨_, walkValid_eq hind hl hbits hdepth m root, finalMappings_pairwise, fun p => ?_, fun a ha => ?_⟩
  · rw [mem_finalMappings, T.size_ptLevel_succ]
    simp only [translateRecursiveWithLevel_eq_ok hl]
  · rw [← T.size_ptLevel_succ] at ha
    rcases hlookup : lookup T T.ptLevel (tableAt T m.mem T.ptLevel root) a with _ | ⟨pte, l⟩
    · rw [PageTableRef.translate, translateRecursiveWithLevel_eq hl, hlookup]
    · obtain ⟨p, hp, hcover⟩ := exists_mem_finalMappings hlookup
      exact absurd hcover (ha p hp)

omit hind hl hbits hdepth in
/-- An x86_64 table with one 4 KiB page. -/
theorem walkValid_translate_x86 :
    ∃ infos, PageTableRef.walkValid X86.generic (X86.mapped X86.page X86.start) X86.root = .ok infos ∧
      infos.Pairwise (fun p q => p.vaddr < q.vaddr) ∧
      (∀ p, p ∈ infos ↔ p.isFinalMapping = true ∧ X86.generic.size p.level ∣ p.vaddr ∧
        p.vaddr < 2 ^ X86.generic.ptValidBits ∧
        ∀ a, p.vaddr ≤ a → a < p.vaddr + X86.generic.size p.level →
          Frame.translateRecursiveWithLevel X86.generic (X86.mapped X86.page X86.start).mem
            X86.generic.ptLevel X86.root a = .ok (p.pte, p.level)) ∧
      ∀ a, (∀ p ∈ infos, ¬ (p.vaddr ≤ a % 2 ^ X86.generic.ptValidBits ∧
          a % 2 ^ X86.generic.ptValidBits < p.vaddr + X86.generic.size p.level)) →
        PageTableRef.translate X86.generic (X86.mapped X86.page X86.start) X86.root a =
          .error (.err .notMapped) :=
  walkValid_translate X86.validIndependent X86.addressable (by decide) (by decide) _ _

omit hind hl hbits hdepth in
/-- A 2 MiB page of an x86_64 table: `translate` returns its entry for the whole first 4 KiB, but the
walk does not yield it as an entry of level 1. -/
theorem walkValid_level :
    ∃ (pte : X86.Entry) (infos : List (PteInfo X86.Entry)),
      (∀ a, 0x200000 ≤ a → a < 0x200000 + X86.generic.size 1 → ∃ pa,
        PageTableRef.translate X86.generic (X86.mapped X86.hugePage X86.start) X86.root a = .ok (pa, pte)) ∧
      PageTableRef.walkValid X86.generic (X86.mapped X86.hugePage X86.start) X86.root = .ok infos ∧
      (⟨1, 0x200000, true, pte⟩ : PteInfo X86.Entry) ∉ infos := by
  have hfound : Frame.translateRecursiveWithLevel X86.generic (X86.mapped X86.hugePage X86.start).mem
      X86.generic.ptLevel X86.root 0x200000 = .ok (⟨9223372036858970275⟩, 2) := by
    decide +kernel
  have hlookup := (translateRecursiveWithLevel_eq_ok X86.addressable).mp hfound
  refine ⟨⟨9223372036858970275⟩, _, fun a hle hlt => ?_,
    walkValid_eq X86.validIndependent X86.addressable (by decide) (by decide) _ _, fun hmem => ?_⟩
  · obtain ⟨t, ht⟩ := X86.reachable_hugePage.holds X86.roundTrips.keepsDirectories X86.bump_fresh
    rw [ht.represents.table] at hlookup
    have hpage : X86.generic.size 1 = 0x1000 := by decide
    have hsize : X86.generic.size 2 = 0x200000 := by decide
    refine ⟨_, ht.translate_some X86.roundTrips X86.addressable (lookup_of_div_eq hlookup ?_)⟩
    rw [hsize]
    omega
  · obtain ⟨-, -, -, hspan⟩ := mem_finalMappings.mp hmem
    have hlevel := hlookup.symm.trans (hspan 0x200000 le_rfl (by decide))
    exact absurd (congrArg Prod.snd (Option.some.inj hlevel)) (by decide)

/-- A walk of a range yields the final mappings of the range iff none of them lies below a top-level
entry that begins before the range. -/
theorem walk_restricts_iff {stop : Nat} (hrange : start < stop) :
    ∃ full part, PageTableRef.walkValid T m root = .ok full ∧
      PageTableRef.walk T m root start stop = .ok part ∧
      (part.filter (·.isFinalMapping) = full.filter (fun p => start ≤ p.vaddr ∧ p.vaddr < stop) ↔
        ∀ p ∈ full, start ≤ p.vaddr → p.vaddr < stop →
          start ≤ p.vaddr / T.size T.ptLevel * T.size T.ptLevel) := by
  obtain ⟨part, hwalk, hpart⟩ := walk_final_eq hind hl hbits hdepth m root start stop hrange
  refine ⟨_, part, walkValid_eq hind hl hbits hdepth m root, hwalk, ?_⟩
  rw [hpart]
  constructor
  · intro heq p hp hle hlt
    have hmem : p ∈ (finalMappings T (tableAt T m.mem T.ptLevel root)).filter fun p =>
        start ≤ p.vaddr ∧ p.vaddr < stop := List.mem_filter.mpr ⟨hp, by simp [hle, hlt]⟩
    rw [← heq, List.mem_filter, Bool.and_eq_true] at hmem
    exact of_decide_eq_true hmem.2.1
  · intro h
    refine List.filter_congr fun p hp => ?_
    have hdown := Nat.div_mul_le_self p.vaddr (T.size T.ptLevel)
    by_cases hle : start ≤ p.vaddr <;> by_cases hlt : p.vaddr < stop
    · simp [hle, hlt, h p hp hle hlt]
    · simp [hlt]
    · simp [hle, show ¬ start ≤ p.vaddr / T.size T.ptLevel * T.size T.ptLevel by omega]
    · simp [hlt]

end

/-- An x86_64 table with one 4 KiB page, walked from the beginning of its top-level entry. -/
theorem walk_restricts_iff_x86 :
    ∃ full part, PageTableRef.walkValid X86.generic (X86.mapped X86.page X86.start) X86.root = .ok full ∧
      PageTableRef.walk X86.generic (X86.mapped X86.page X86.start) X86.root 0 0x300000 = .ok part ∧
      (part.filter (·.isFinalMapping) = full.filter (fun p => 0 ≤ p.vaddr ∧ p.vaddr < 0x300000) ↔
        ∀ p ∈ full, 0 ≤ p.vaddr → p.vaddr < 0x300000 →
          0 ≤ p.vaddr / X86.generic.size X86.generic.ptLevel * X86.generic.size X86.generic.ptLevel) :=
  walk_restricts_iff X86.validIndependent X86.addressable (by decide) (by decide) _ _ (by decide)

/-- The page at `0x200000` is the only mapping and begins where the walk does, but the top-level entry
above it begins at `0`: the walk yields nothing. -/
theorem walk_misses_page :
    PageTableRef.walk X86.generic (X86.mapped X86.page X86.start) X86.root 0x200000 0x201000 = .ok [] ∧
      PageTableRef.walkValid X86.generic (X86.mapped X86.page X86.start) X86.root =
        .ok [⟨1, 0x200000, true, ⟨9223372036854796323⟩⟩] := by
  constructor
  · decide +kernel
  · rw [walkValid_eq X86.validIndependent X86.addressable (by decide) (by decide)]
    exact congrArg Except.ok (by decide +kernel)

end Sparreal.Paging
