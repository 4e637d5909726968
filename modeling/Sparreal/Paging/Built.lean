import Sparreal.Paging.Huge
import Sparreal.Paging.Owned
import Sparreal.Paging.Progress

/-!
# Tables built by calls of `map`

A table is built by a list of calls if the calls have mapped their pages, one apart from the other, and
nothing else is in the table (`Built`). One more call that returns `Ok` builds on (`Built.map_ok`); it
returns `Ok` if its pages are apart from those of the list and the allocator has frames (`Built.map_total`).

Unmapping one page of such a table takes the whole entry away that the page is in (`Unmaps.of_page`).
-/

namespace Sparreal.Paging

variable {P : Type} [PageTableEntry P] {T : TableMeta P} {A : FrameAllocator} {limit : Nat} {t t' : Tree P}

/-- The pages of the call are mapped, by huge pages where they fit and there only. -/
structure Placed (T : TableMeta P) (limit : Nat) (t : Tree P) (config : MapConfig) : Prop where
  mapped : (config.stretch T).MappedIn T limit t
  fits : ∀ {x pte l}, x ∈ (config.stretch T).addresses → lookup T T.ptLevel t x = some (pte, l) → 1 < l →
    ∃ y, x ≡ y [MOD T.size (T.ptLevel + 1)] ∧
      FitsBlock T (config.vaddr + config.size) config.vaddr config.paddr l y
  huge : config.allowHuge = true → ∀ {k x}, 1 < k → k ≤ T.ptLevel → k ≤ T.maxBlockLevel →
    FitsBlock T (config.vaddr + config.size) config.vaddr config.paddr k x → HugeAt T T.ptLevel t k x

structure Built (T : TableMeta P) (limit : Nat) (t : Tree P) (configs : List MapConfig) : Prop where
  placed : ∀ config ∈ configs, Placed T limit t config
  apart : (configs.map (MapConfig.stretch T)).Pairwise (Stretch.Apart T)
  rest : ∀ a, (∀ config ∈ configs, ∀ x ∈ (config.stretch T).addresses,
    ¬ a ≡ x [MOD T.size (T.ptLevel + 1)]) → lookup T T.ptLevel t a = none
  dense : Dense T T.ptLevel t

variable {config : MapConfig} {configs : List MapConfig}

omit [PageTableEntry P] in
theorem MapConfig.mem_stretch (T : TableMeta P) {config : MapConfig} {x : Nat} (hle : config.vaddr ≤ x)
    (hlt : x < config.vaddr + config.size) : x ∈ (config.stretch T).addresses := by
  refine ⟨hle, hlt.trans_le ?_⟩
  have hpos := T.pageSize_pos
  have := Nat.lt_div_mul_add (a := config.vaddr + config.size + T.pageSize - 1) hpos
  show _ ≤ (config.vaddr + config.size + T.pageSize - 1) / T.pageSize * T.pageSize
  omega

theorem Placed.congr (h : Placed T limit t config)
    (hlookup : ∀ x ∈ (config.stretch T).addresses, lookup T T.ptLevel t' x = lookup T T.ptLevel t x) :
    Placed T limit t' config where
  mapped := h.mapped.congr hlookup
  fits hx hsome hl := h.fits hx ((hlookup _ hx).symm.trans hsome) hl
  huge hallow {k x} hk hlevel hblock hfits := by
    obtain ⟨pte, l, hsome, hkl⟩ := h.huge hallow hk hlevel hblock hfits
    exact ⟨pte, l, (hlookup x (MapConfig.mem_stretch T hfits.le hfits.lt)).trans hsome, hkl⟩

namespace Built

theorem owns (h : Built T limit t configs) : Owns T limit t (configs.map (MapConfig.stretch T)) := by
  refine ⟨fun s hs => ?_, h.apart⟩
  obtain ⟨config, hconfig, rfl⟩ := List.mem_map.mp hs
  exact (h.placed config hconfig).mapped

section Calls

variable {root : PhysAddr} {m m' : Machine P} (hcodec : RoundTrips T limit)

include hcodec

theorem fresh (frame : PhysAddr) : Built T limit (Tree.fresh frame) [] where
  placed _ h := absurd h List.not_mem_nil
  apart := .nil
  rest a _ := lookup_fresh hcodec.zeroed frame a
  dense := dense_fresh hcodec frame

theorem map_ok (hA : A.Fresh T limit) (hm : Holds T limit root m t) (h : Built T limit t configs)
    (hlimit : config.paddr + config.size ≤ limit)
    (hmap : PageTableRef.map T A root config m = (.ok (), m')) :
    config.Accepted T ∧ ∃ t', Holds T limit root m' t' ∧ Built T limit t' (config :: configs) := by
  obtain ⟨haccepted, hfree, t', hm', howns, hframe⟩ := h.owns.map_ok hcodec hA hm hlimit hmap
  obtain ⟨-, t₁, hm₁, hrun⟩ := map_run hcodec hA hm hlimit hmap
  obtain rfl : t₁ = t' := hm₁.represents.table.symm.trans hm'.represents.table
  have hdvd : config.vaddr < config.vaddr + config.size → T.pageSize ∣ config.vaddr :=
    fun _ => haccepted.vaddr_aligned
  have hapart := List.pairwise_cons.mp (show (config.stretch T :: configs.map _).Pairwise _ from howns.apart)
  refine ⟨haccepted, t₁, hm', fun config' hconfig' => ?_, howns.apart, fun a ha => ?_,
    h.dense.grown (hrun.grown hcodec hA hm.wellFormed hdvd rfl)⟩
  · rcases List.mem_cons.mp hconfig' with rfl | hconfig'
    · exact ⟨howns.mapped _ List.mem_cons_self,
        fun hx hsome hl => hrun.fitsBlock hcodec hA hm.wellFormed hdvd (hfree _ hx) hsome hl,
        fun hallow _ _ hk hlevel hblock hfits =>
          map_huge hcodec hA hm hm' hlimit hallow hmap hk hlevel hblock hfits⟩
    · refine (h.placed config' hconfig').congr fun x hx => hframe x fun y hy hxy => ?_
      exact hapart.1 _ (List.mem_map_of_mem hconfig') y hy x hx hxy.symm
  · rw [hframe a (ha config List.mem_cons_self)]
    exact h.rest a fun config' hconfig' => ha config' (List.mem_cons_of_mem _ hconfig')

/-- A call on pages that are apart from those of the list. -/
theorem map_total (hA : A.Fresh T limit) (hl : T.Addressable T.ptLevel) (hm : Holds T limit root m t)
    (h : Built T limit t configs) (haccepted : config.Accepted T)
    (hmap : Mappable T limit T.ptLevel (config.vaddr + config.size) config.vaddr config.paddr)
    (hapart : ∀ config' ∈ configs, (config.stretch T).Apart T (config'.stretch T)) :
    (∃ m', PageTableRef.map T A root config m = (.ok (), m')) ∨
      ∃ m', PageTableRef.map T A root config m = (.error (.err .noMemory), m') ∧ .refuse ∈ m'.log := by
  refine map_free hcodec hA hl hm h.dense haccepted hmap fun x hle hlt => h.rest x fun config' hconfig' => ?_
  exact hapart config' hconfig' x (MapConfig.mem_stretch T hle hlt)

end Calls

end Built

/-! ### Unmapping a page -/

variable {level v e a l : Nat} {pte : P}

theorem clears_of_lookup (h : lookup T level t v = some (pte, l)) (hv : v < e)
    (hdiv : a / T.size l = v / T.size l) : Clears T level t v e a := by
  induction level generalizing t e with
  | zero => simp [lookup] at h
  | succ level ih =>
    have hdiv' := T.div_eq_mono (lookup_level h).2 hdiv
    have hslot := T.slot_eq_of_div_eq hdiv'
    rw [Clears, reachedAt_of_div_eq hdiv']
    refine ⟨hdiv'.ge, hv, fun hp => ih ?_ ?_⟩
    · rw [← lookup_kid hp hslot.symm]
      exact h
    · have := T.lt_entryEnd (level + 1) v
      rw [T.entryEnd_congr hdiv']
      omega

omit [PageTableEntry P] in
/-- In the block of an address there is an alias of `v`, if there is one in the block of an alias. -/
theorem TableMeta.exists_alias (T : TableMeta P) {b n : Nat} (hab : a ≡ b [MOD T.size n]) (hl : l ≤ n)
    (hdiv : b / T.size l = v / T.size l) : ∃ c, c ≡ v [MOD T.size n] ∧ c / T.size l = a / T.size l := by
  have hpos := T.size_pos l
  have hfloor : a / T.size l * T.size l ≡ b / T.size l * T.size l [MOD T.size n] := by
    have hmod : a % T.size l = b % T.size l := hab.of_dvd (T.size_dvd_size hl)
    refine Nat.ModEq.add_right_cancel' (b % T.size l) ?_
    rw [Nat.div_add_mod', ← hmod, Nat.div_add_mod']
    exact hab
  refine ⟨a / T.size l * T.size l + v % T.size l, ?_, ?_⟩
  · have := hfloor.add_right (v % T.size l)
    rw [hdiv, Nat.div_add_mod'] at this
    exact this
  · rw [Nat.add_comm, Nat.add_mul_div_right _ _ hpos, Nat.div_eq_of_lt (Nat.mod_lt _ hpos), Nat.zero_add]

theorem Unmaps.of_page (h : Unmaps T level (v + T.pageSize) v t t') (hv : T.pageSize ∣ v) :
    (∀ {pte l b}, lookup T level t v = some (pte, l) → a ≡ b [MOD T.size (level + 1)] →
        b / T.size l = v / T.size l → lookup T level t' a = none) ∧
      (∀ {pte l}, lookup T level t a = some (pte, l) →
        (∀ b, a ≡ b [MOD T.size (level + 1)] → b / T.size l ≠ v / T.size l) →
          lookup T level t' a = lookup T level t a) := by
  have hpos := T.pageSize_pos
  refine ⟨fun {pte l b} hsome hab hdiv => ?_, fun {pte l} hsome hother => ?_⟩
  · refine (h.none_iff a ?_).mpr ⟨b, hab, clears_of_lookup hsome (by omega) hdiv⟩
    rw [lookup_modEq hab, lookup_of_div_eq hsome hdiv]
    exact Option.some_ne_none _
  · refine (h.cases a).resolve_left fun hnone => ?_
    obtain ⟨b, hab, hclears⟩ := (h.none_iff a (hsome ▸ Option.some_ne_none _)).mp hnone
    rw [lookup_modEq hab] at hsome
    obtain ⟨y, hvy, hyv, hdiv⟩ := hclears.exists_mem hsome
    -- the entry has an address of the page, and with it the page
    have hpage : y / T.size 1 = v / T.size 1 := by
      refine T.div_eq_of_lt_entryEnd hvy ?_
      rw [T.entryEnd_of_dvd (by rwa [T.size_one]), T.size_one]
      exact hyv
    exact hother b hab (hdiv.symm.trans (T.div_eq_mono (lookup_level hsome).1 hpage))

theorem Unmaps.page_free (h : Unmaps T level (v + T.pageSize) v t t') (hv : T.pageSize ∣ v)
    (hdiv : a / T.size 1 = v / T.size 1) : lookup T level t' a = none := by
  cases hv' : lookup T level t v with
  | some entry =>
    exact (h.of_page hv).1 hv' rfl (T.div_eq_mono (lookup_level hv').1 hdiv)
  | none =>
    refine (h.cases a).elim id fun heq => heq.trans ?_
    cases ha : lookup T level t a with
    | none => rfl
    | some entry =>
      have hsome := lookup_of_div_eq ha (T.div_eq_mono (lookup_level ha).1 hdiv.symm)
      rw [hv'] at hsome
      exact absurd hsome.symm (Option.some_ne_none _)

end Sparreal.Paging
