import Sparreal.Paging.WellFormed
import Mathlib.Data.Nat.ModEq

/-!
# Addresses, slots and lookups

A table of level `level` sees an address only modulo `size (level + 1)`, the span of the table:
addresses that agree there agree in all slots below (`modEq_size_succ`), and `lookup` cannot tell
them apart (`lookup_modEq`). The other lemmas say what a store does to lookups.
-/

namespace Sparreal.Paging

namespace TableMeta

variable {P : Type} (T : TableMeta P)

variable {a b level' v x : Nat} {level : Nat}

theorem modEq_size_succ (hlevel : 0 < level) :
    a ≡ b [MOD T.size (level + 1)] ↔
      a ≡ b [MOD T.size level] ∧ T.slot level a = T.slot level b := by
  rw [T.size_succ hlevel]
  constructor
  · intro h
    refine ⟨h.of_mul_right _, ?_⟩
    rw [slot, slot, ← Nat.mod_mul_right_div_self, ← Nat.mod_mul_right_div_self, h]
  · rintro ⟨hlow, hslot⟩
    rw [slot, slot] at hslot
    rw [Nat.ModEq, Nat.mod_mul, Nat.mod_mul, hlow, hslot]

theorem slot_modEq (hlevel : 0 < level) (h : a ≡ b [MOD T.size (level + 1)]) : T.slot level a = T.slot level b :=
  ((T.modEq_size_succ hlevel).mp h).2

theorem modEq_size_mono (hle : level ≤ level') (h : a ≡ b [MOD T.size level']) : a ≡ b [MOD T.size level] :=
  h.of_dvd (T.size_dvd_size hle)

theorem slot_eq_of_div_eq (h : a / T.size level = b / T.size level) : T.slot level a = T.slot level b := by
  rw [slot, slot, h]

theorem div_eq_div_iff :
    x / T.size level = v / T.size level ↔
      v / T.size level * T.size level ≤ x ∧ x < T.entryEnd level v := by
  rw [entryEnd, Nat.div_eq_iff (T.size_pos level)]
  have := T.size_pos level
  rw [Nat.succ_mul]
  omega

theorem div_eq_of_lt_entryEnd (hle : v ≤ x) (hlt : x < T.entryEnd level v) : x / T.size level = v / T.size level :=
  T.div_eq_div_iff.mpr ⟨(Nat.div_mul_le_self _ _).trans hle, hlt⟩

theorem floor_le_floor (hle : level ≤ level') (a : Nat) :
    a / T.size level' * T.size level' ≤ a / T.size level * T.size level := by
  obtain ⟨d, hd⟩ := T.size_dvd_size hle
  have : a / T.size level' * d ≤ a / T.size level := by
    rw [hd, ← Nat.div_div_eq_div_mul]
    exact Nat.div_mul_le_self _ _
  calc a / T.size level' * T.size level' = a / T.size level' * d * T.size level := by
        rw [hd, Nat.mul_assoc, Nat.mul_comm d]
    _ ≤ a / T.size level * T.size level := Nat.mul_le_mul_right _ this

theorem entryEnd_le_entryEnd (hle : level ≤ level') (a : Nat) : T.entryEnd level a ≤ T.entryEnd level' a := by
  obtain ⟨d, hd⟩ := T.size_dvd_size hle
  have hlt : a / T.size level < (a / T.size level' + 1) * d := by
    rw [hd, ← Nat.div_div_eq_div_mul]
    exact Nat.lt_mul_of_div_lt (Nat.lt_succ_self _) (Nat.pos_of_mul_pos_left (hd ▸ T.size_pos level'))
  calc T.entryEnd level a ≤ (a / T.size level' + 1) * d * T.size level := Nat.mul_le_mul_right _ hlt
    _ = T.entryEnd level' a := by rw [entryEnd, hd, Nat.mul_assoc, Nat.mul_comm d]

theorem div_eq_mono (hle : level ≤ level') (h : a / T.size level = b / T.size level) :
    a / T.size level' = b / T.size level' := by
  obtain ⟨d, hd⟩ := T.size_dvd_size hle
  rw [hd, ← Nat.div_div_eq_div_mul, ← Nat.div_div_eq_div_mul, h]

theorem div_eq_of_slot_eq (hlevel : 0 < level) (h : a / T.size (level + 1) = b / T.size (level + 1))
    (hslot : T.slot level a = T.slot level b) : a / T.size level = b / T.size level := by
  rw [T.size_succ hlevel, ← Nat.div_div_eq_div_mul, ← Nat.div_div_eq_div_mul] at h
  rw [slot, slot] at hslot
  rw [← Nat.div_add_mod (a / T.size level) T.len, h, hslot, Nat.div_add_mod]

theorem exists_modEq_div_eq (hlevel : 0 < level) (h : T.slot level a = T.slot level v) :
    ∃ b, a ≡ b [MOD T.size (level + 1)] ∧ b / T.size level = v / T.size level := by
  have hlt := Nat.mod_lt a (T.size_pos level)
  have hdiv : (v / T.size level * T.size level + a % T.size level) / T.size level = v / T.size level := by
    rw [Nat.mul_comm, Nat.mul_add_div (T.size_pos level), Nat.div_eq_of_lt hlt, Nat.add_zero]
  refine ⟨v / T.size level * T.size level + a % T.size level, ?_, hdiv⟩
  refine (T.modEq_size_succ hlevel).mpr ⟨?_, h.trans (T.slot_eq_of_div_eq hdiv).symm⟩
  rw [Nat.ModEq, Nat.mul_comm, Nat.mul_add_mod, Nat.mod_mod]

theorem slot_mul_add {level i : Nat} (hi : i < T.len) (hx : x < T.size level) :
    T.slot level (i * T.size level + x) = i := by
  rw [slot, Nat.mul_comm, Nat.mul_add_div (T.size_pos level), Nat.div_eq_of_lt hx, Nat.add_zero,
    Nat.mod_eq_of_lt hi]

theorem exists_slot_eq (level : Nat) {i : Nat} (hi : i < T.len) (a : Nat) :
    ∃ b, T.slot level b = i ∧ a ≡ b [MOD T.size level] := by
  refine ⟨i * T.size level + a % T.size level, T.slot_mul_add hi (Nat.mod_lt _ (T.size_pos level)), ?_⟩
  rw [Nat.ModEq, Nat.mul_comm, Nat.mul_add_mod, Nat.mod_mod]

theorem floor_mul_add (hle : level ≤ level') (i x : Nat) :
    (i * T.size level' + x) / T.size level * T.size level =
      i * T.size level' + x / T.size level * T.size level := by
  obtain ⟨d, hd⟩ := T.size_dvd_size hle
  rw [hd, show i * (T.size level * d) + x = T.size level * (i * d) + x by ring,
    Nat.mul_add_div (T.size_pos level)]
  ring

theorem entryEnd_congr (h : a / T.size level = b / T.size level) : T.entryEnd level a = T.entryEnd level b := by
  rw [entryEnd, entryEnd, h]

theorem dvd_entryEnd (level v : Nat) : T.size level ∣ T.entryEnd level v := Dvd.intro_left _ rfl

theorem pageSize_dvd_entryEnd (level v : Nat) : T.pageSize ∣ T.entryEnd level v :=
  (T.pageSize_dvd_size level).trans (T.dvd_entryEnd level v)

theorem le_entryEnd {level stop : Nat} (hdvd : T.pageSize ∣ stop) (hlt : stop < T.entryEnd level v + T.pageSize) :
    stop ≤ T.entryEnd level v := by
  obtain ⟨a, rfl⟩ := hdvd
  obtain ⟨b, hb⟩ := T.pageSize_dvd_entryEnd level v
  rw [hb] at hlt ⊢
  have : a < b + 1 := Nat.lt_of_mul_lt_mul_left (a := T.pageSize) (by rw [Nat.mul_add]; omega)
  exact Nat.mul_le_mul_left _ (by omega)

theorem entryEnd_of_dvd (h : T.size level ∣ v) : T.entryEnd level v = v + T.size level := by
  rw [entryEnd, Nat.succ_mul, Nat.div_mul_cancel h]

end TableMeta

variable {P : Type} [PageTableEntry P] {T : TableMeta P} {A : FrameAllocator} {limit level : Nat}
  {t : Tree P}

variable {a i : Nat} {k : Tree P}

/-- A table does not see beyond its span. -/
theorem lookup_modEq {b : Nat} (h : a ≡ b [MOD T.size (level + 1)]) :
    lookup T level t a = lookup T level t b := by
  induction level generalizing t with
  | zero => rfl
  | succ level ih =>
    have hslot := T.slot_modEq (Nat.succ_pos level) h
    rw [lookup_succ, lookup_succ, hslot, ih (T.modEq_size_mono (Nat.le_succ _) h)]

variable {pte : P}

theorem lookup_of_div_eq {b : Nat} {l : Nat} (h : lookup T level t b = some (pte, l))
    (hdiv : a / T.size l = b / T.size l) : lookup T level t a = some (pte, l) := by
  induction level generalizing t with
  | zero => simp [lookup] at h
  | succ level ih =>
    have hslot := T.slot_eq_of_div_eq (T.div_eq_mono (lookup_level h).2 hdiv)
    rw [lookup_succ] at h ⊢
    rw [hslot]
    split_ifs at h ⊢ with hvalid hp
    · exact ih h
    · exact h

theorem lookup_kid (hp : pointsToTable (level + 1) (t.entry i) = true) (hi : T.slot (level + 1) a = i) :
    lookup T (level + 1) t a = lookup T level (t.kid i) a := by
  subst hi
  rw [lookup_table hp, Nat.add_sub_cancel]

section

variable (ht : t.IsTable)

include ht

theorem lookup_set_of_ne (hi : T.slot level a ≠ i) (pte : P) (k : Tree P) :
    lookup T level (t.set i pte k) a = lookup T level t a := by
  cases level with
  | zero => rfl
  | succ level =>
    rw [lookup_succ, lookup_succ, Tree.entry_set ht, Tree.kid_set ht, if_neg hi, if_neg hi]

theorem lookup_set_invalid (hi : T.slot level a = i) (hpte : (toConfig pte (decide (1 < level))).valid = false) :
    lookup T level (t.set i pte k) a = none := by
  refine lookup_invalid ?_
  rw [Tree.entry_set ht, if_pos hi, hpte]

theorem lookup_set_final (hi : T.slot level a = i) (hlevel : 0 < level)
    (hvalid : (toConfig pte (decide (1 < level))).valid = true) (hp : pointsToTable level pte = false) :
    lookup T level (t.set i pte k) a = some (pte, level) := by
  have hentry : (t.set i pte k).entry (T.slot level a) = pte := by
    rw [Tree.entry_set ht, if_pos hi]
  rw [lookup_final hlevel (by rw [hentry, hvalid]) (by rw [hentry, hp]), hentry]

theorem lookup_set_table (hi : T.slot (level + 1) a = i) (hp : pointsToTable (level + 1) pte = true) :
    lookup T (level + 1) (t.set i pte k) a = lookup T level k a := by
  have hentry : (t.set i pte k).entry i = pte := by rw [Tree.entry_set ht, if_pos rfl]
  rw [lookup_kid (by rw [hentry, hp]) hi, Tree.kid_set ht, if_pos rfl]

theorem lookup_setKid (hp : pointsToTable (level + 1) (t.entry i) = true) (hi : T.slot (level + 1) a = i) :
    lookup T (level + 1) (t.setKid i k) a = lookup T level k a :=
  lookup_set_table ht hi hp

theorem lookup_setKid_of_ne (hi : T.slot level a ≠ i) : lookup T level (t.setKid i k) a = lookup T level t a :=
  lookup_set_of_ne ht hi _ _

end

theorem lookup_fresh (hzero : ∀ isDir, (toConfig (zeroed : P) isDir).valid = false) (frame : PhysAddr)
    (a : Nat) : lookup T level (Tree.fresh frame) a = none :=
  lookup_invalid (hzero _)

/-! ### Reading entries under the round-trip contract -/

section

variable (hcodec : RoundTrips T limit)

include hcodec

theorem Written.invalid (h : Written T limit level pte) (hfree : PageTableEntry.valid pte = false) :
    (toConfig pte (decide (1 < level))).valid = false := by
  cases h with
  | zeroed => exact hcodec.zeroed _
  | cleared => exact hcodec.invalid _
  | encoded hc =>
    rw [hcodec.bit _ _ hc] at hfree
    exact absurd hfree (by decide)

theorem RoundTrips.valid_final (template : PteConfig) {p : Nat}
    (hlevel : level = 1 ∨ 1 < level ∧ level ≤ T.maxBlockLevel) (haligned : T.pageSize ∣ p)
    (hbelow : p < limit) :
    (toConfig (fromConfig (template.final level p) : P) (decide (1 < level))).valid = true :=
  hcodec.valid level _ (encodable_final template hlevel haligned hbelow)

theorem ChildReady.lookup_eq (hA : A.Fresh T limit) {template : PteConfig} {i : Nat}
    {log log₁ : Ledger PhysAddr} {t₁ : Tree P} (hlevel : 0 < level) (ht : t.IsTable)
    (hready : ChildReady A template t i log t₁ log₁) (a : Nat) :
    lookup T (level + 1) t₁ a = lookup T (level + 1) t a := by
  cases hready with
  | present => rfl
  | @created frame hfree halloc =>
    have hdeep : 1 < level + 1 := by omega
    obtain ⟨-, haligned, hlt⟩ := hA log frame halloc
    obtain ⟨hp, -⟩ :=
      hcodec.keepsDirectories.pointsToTable_directory template hdeep haligned hlt
    by_cases hi : T.slot (level + 1) a = i
    · rw [lookup_set_table ht hi hp, lookup_fresh hcodec.zeroed, lookup_invalid]
      rw [hi, decide_eq_true hdeep, hfree]
    · exact lookup_set_of_ne ht hi _ _

end

end Sparreal.Paging
