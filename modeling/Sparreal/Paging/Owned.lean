import Sparreal.Paging.Undo
import Mathlib.Data.Set.Lattice
import Mathlib.Order.CompletePartialOrder

/-!
# Stretches a table owns

The stretches that calls of `map` have mapped into one table, as long as nothing else unmaps them. A table
owns a list of stretches if each is mapped whole and no address of one has the indices of an address of
another. Mapping adds a stretch or, if it fails, keeps what is owned (`Owns.maps`); unmapping one of them
keeps the others (`Owns.unmaps`).
-/

namespace Sparreal.Paging

variable {P : Type} {T : TableMeta P} {limit : Nat}

/-- The addresses from `start` to `stop`, mapped onto the addresses from `paddr` on. -/
structure Stretch where
  start : Nat
  stop : Nat
  paddr : Nat
  template : PteConfig

def Stretch.addresses (s : Stretch) : Set Nat := Set.Ico s.start s.stop

/-- No address of `a` has the indices of an address of `b`. -/
def Stretch.Apart (T : TableMeta P) (a b : Stretch) : Prop :=
  ∀ x ∈ a.addresses, ∀ y ∈ b.addresses, ¬ x ≡ y [MOD T.size (T.ptLevel + 1)]

theorem Stretch.Apart.symm {a b : Stretch} (h : a.Apart T b) : b.Apart T a :=
  fun x hx y hy hxy => h y hy x hx hxy.symm

theorem Stretch.Apart.disjoint {a b : Stretch} (h : a.Apart T b) : Disjoint a.addresses b.addresses :=
  Set.disjoint_left.mpr fun x hx hx' => h x hx x hx' rfl

variable [PageTableEntry P] {t t' : Tree P}

/-- The addresses of the stretch are mapped, by entries that lie in it whole. -/
def Stretch.MappedIn (T : TableMeta P) (limit : Nat) (t : Tree P) (s : Stretch) : Prop :=
  ∀ x ∈ s.addresses, MappedAt T limit s.template T.ptLevel t s.start s.paddr s.stop x

variable {s : Stretch}

theorem Stretch.MappedIn.congr (h : s.MappedIn T limit t)
    (hlookup : ∀ x ∈ s.addresses, lookup T T.ptLevel t' x = lookup T T.ptLevel t x) : s.MappedIn T limit t' := by
  intro x hx
  obtain ⟨l, pa, hsome, hrest⟩ := h x hx
  exact ⟨l, pa, (hlookup x hx).trans hsome, hrest⟩

theorem Stretch.MappedIn.lookup_ne_none (h : s.MappedIn T limit t) {x : Nat} (hx : x ∈ s.addresses) :
    lookup T T.ptLevel t x ≠ none := by
  obtain ⟨l, pa, hsome, -⟩ := h x hx
  exact hsome ▸ Option.some_ne_none _

theorem Stretch.MappedIn.covered (h : s.MappedIn T limit t) : Covered T T.ptLevel t s.start s.stop := by
  intro x hle hlt
  obtain ⟨l, pa, hsome, -, -, hstart, hstop⟩ := h x ⟨hle, hlt⟩
  exact ⟨_, l, hsome, hstart, hstop⟩

/-- The table maps the stretches, and no two of them share an address. -/
structure Owns (T : TableMeta P) (limit : Nat) (t : Tree P) (owned : List Stretch) : Prop where
  mapped : ∀ s ∈ owned, s.MappedIn T limit t
  apart : owned.Pairwise (Stretch.Apart T)

namespace Owns

variable {owned owned' : List Stretch} {s : Stretch}

theorem nil : Owns T limit t [] := ⟨fun _ hs => absurd hs List.not_mem_nil, .nil⟩

theorem perm (h : Owns T limit t owned) (hperm : owned.Perm owned') : Owns T limit t owned' :=
  ⟨fun s hs => h.mapped s (hperm.mem_iff.mpr hs), (hperm.pairwise_iff fun h => h.symm).mp h.apart⟩

theorem apart_of_free (h : Owns T limit t owned)
    (hfree : ∀ x ∈ s.addresses, lookup T T.ptLevel t x = none) : ∀ s' ∈ owned, s.Apart T s' := by
  intro s' hs' x hx y hy hxy
  refine (h.mapped s' hs').lookup_ne_none hy ?_
  rw [← lookup_modEq hxy]
  exact hfree x hx

theorem maps (h : Owns T limit t owned)
    (hmaps : Maps T limit s.template T.ptLevel t t' s.start s.paddr s.stop) :
    Owns T limit t' (s :: owned) := by
  have hapart := h.apart_of_free (s := s) fun x hx => hmaps.free x hx.1 hx.2
  refine ⟨fun s' hs' => ?_, List.pairwise_cons.mpr ⟨hapart, h.apart⟩⟩
  rcases List.mem_cons.mp hs' with rfl | hs'
  · exact fun x hx => hmaps.mapped x hx.1 hx.2
  · refine (h.mapped s' hs').congr fun x hx => hmaps.frame x fun y hle hlt hxy => ?_
    exact hapart s' hs' y ⟨hle, hlt⟩ x hx hxy.symm

theorem tail (h : Owns T limit t (s :: owned)) : Owns T limit t owned :=
  ⟨fun s' hs' => h.mapped s' (List.mem_cons_of_mem s hs'), h.apart.of_cons⟩

/-- Unmapping one stretch leaves none of its addresses and all other stretches. -/
theorem unmaps (h : Owns T limit t (s :: owned)) (hunmaps : Unmaps T T.ptLevel s.stop s.start t t') :
    (∀ x ∈ s.addresses, lookup T T.ptLevel t' x = none) ∧ Owns T limit t' owned := by
  have hcovered := (h.mapped s List.mem_cons_self).covered
  refine ⟨fun x hx => hcovered.unmapped hunmaps hx.1 hx.2 rfl, fun s' hs' => ?_, h.apart.of_cons⟩
  refine (h.tail.mapped s' hs').congr fun x hx => hcovered.kept hunmaps fun y hle hlt hxy => ?_
  exact List.rel_of_pairwise_cons h.apart hs' y ⟨hle, hlt⟩ x hx hxy.symm

end Owns

/-! ### Calls -/

/-- The pages a call of `map` asks for. -/
def MapConfig.stretch (T : TableMeta P) (config : MapConfig) : Stretch where
  start := config.vaddr
  stop := (config.vaddr + config.size + T.pageSize - 1) / T.pageSize * T.pageSize
  paddr := config.paddr
  template := config.pte

omit [PageTableEntry P] in
theorem TableMeta.eq_roundUp (T : TableMeta P) {x stop : Nat} (hdvd : T.pageSize ∣ stop) (hle : x ≤ stop)
    (hlt : stop < x + T.pageSize) : stop = (x + T.pageSize - 1) / T.pageSize * T.pageSize := by
  obtain ⟨k, rfl⟩ := hdvd
  have hpos := T.pageSize_pos
  have hk : (x + T.pageSize - 1) / T.pageSize = k :=
    Nat.div_eq_of_lt_le (by rw [Nat.mul_comm]; omega) (by rw [Nat.mul_comm, Nat.mul_succ]; omega)
  rw [hk, Nat.mul_comm]

section Calls

variable {A : FrameAllocator} {root : PhysAddr} {m m' : Machine P} {config : MapConfig}
  {owned : List Stretch} (hcodec : RoundTrips T limit)

include hcodec

theorem Owns.map_ok (hA : A.Fresh T limit) (hm : Holds T limit root m t) (h : Owns T limit t owned)
    (hlimit : config.paddr + config.size ≤ limit)
    (hmap : PageTableRef.map T A root config m = (.ok (), m')) :
    config.Accepted T ∧ (∀ x ∈ (config.stretch T).addresses, lookup T T.ptLevel t x = none) ∧
      ∃ t', Holds T limit root m' t' ∧ Owns T limit t' (config.stretch T :: owned) ∧
        ∀ a, (∀ x ∈ (config.stretch T).addresses, ¬ a ≡ x [MOD T.size (T.ptLevel + 1)]) →
          lookup T T.ptLevel t' a = lookup T T.ptLevel t a := by
  obtain ⟨haccepted, -⟩ := map_run hcodec hA hm hlimit hmap
  obtain ⟨stop, t', hle, hlt, hdvd, hok, hm', hmaps⟩ :=
    map_stretch hcodec hA hm hlimit haccepted (r := .ok ()) hmap
  obtain rfl := T.eq_roundUp hdvd (hok rfl) hlt
  exact ⟨haccepted, fun x hx => hmaps.free x hx.1 hx.2, t', hm', h.maps (s := config.stretch T) hmaps,
    fun a ha => hmaps.frame a fun x hvx hxs => ha x ⟨hvx, hxs⟩⟩

theorem Owns.map_error (hA : A.Fresh T limit) (hm : Holds T limit root m t) (h : Owns T limit t owned)
    (hlimit : config.paddr + config.size ≤ limit) {error : PagingError}
    (hmap : PageTableRef.map T A root config m = (.error (.err error), m')) :
    ∃ t', Holds T limit root m' t' ∧ Owns T limit t' owned := by
  by_cases haccepted : config.Accepted T
  · obtain ⟨stop, t', -, -, -, -, hm', hmaps⟩ :=
      map_stretch hcodec hA hm hlimit haccepted (r := .error error) hmap
    exact ⟨t', hm', (h.maps (s := ⟨config.vaddr, stop, config.paddr, config.pte⟩) hmaps).tail⟩
  · rcases map_refines hcodec.keepsDirectories hA hlimit (r := .error error) hmap hm with
      ⟨-, -, rfl⟩ | ⟨haccepted', -⟩
    · exact ⟨t, hm, h⟩
    · exact absurd haccepted' haccepted

theorem Owns.unmap_ok (hind : ValidIndependent P) (hm : Holds T limit root m t) (h : Owns T limit t (s :: owned))
    (hle : s.start ≤ s.stop) (hunmap : PageTableRef.unmap T root s.start (s.stop - s.start) m = (.ok (), m')) :
    ∃ t', Holds T limit root m' t' ∧ (∀ x ∈ s.addresses, lookup T T.ptLevel t' x = none) ∧
      Owns T limit t' owned := by
  obtain ⟨t', hm', hunmaps⟩ := unmap_unmaps hcodec hind hm hunmap
  rw [Nat.add_sub_cancel' hle] at hunmaps
  exact ⟨t', hm', h.unmaps hunmaps⟩

end Calls

end Sparreal.Paging
