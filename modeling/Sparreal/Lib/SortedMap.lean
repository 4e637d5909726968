import Mathlib.Order.Lattice
import Mathlib.Data.List.Pairwise
import Mathlib.Tactic.Common

/-!
# Sorted maps

A map as the list of its entries in the order of their keys. The order is part of the type, so an entry is
found by its key alone (`get_eq_some_iff`), the first entry has the least key, and taking it out leaves the
rest of the list (`remove_first`).
-/

/-- A finite map whose entries are kept in increasing order of their keys. -/
structure SortedMap (K V : Type) [LinearOrder K] where
  entries : List (K × V)
  sorted : entries.Pairwise fun a b => a.1 < b.1

namespace SortedMap

variable {K V : Type} [LinearOrder K] {m : SortedMap K V} {k k' : K} {v v' : V}

def empty : SortedMap K V := ⟨[], List.Pairwise.nil⟩

def get (m : SortedMap K V) (k : K) : Option V := (m.entries.find? fun e => e.1 = k).map Prod.snd

def contains (m : SortedMap K V) (k : K) : Bool := (m.get k).isSome

def firstKey (m : SortedMap K V) : Option K := m.entries.head?.map Prod.fst

def size (m : SortedMap K V) : Nat := m.entries.length

/-- Give the key a value, in place of the one it has. -/
def insert (m : SortedMap K V) (k : K) (v : V) : SortedMap K V where
  entries := m.entries.filter (·.1 < k) ++ (k, v) :: m.entries.filter (k < ·.1)
  sorted := by
    refine List.pairwise_append.mpr ⟨m.sorted.filter _, List.pairwise_cons.mpr ⟨?_, m.sorted.filter _⟩, ?_⟩
    · intro e he
      exact of_decide_eq_true (List.mem_filter.mp he).2
    · intro e he e' he'
      have hlt : e.1 < k := of_decide_eq_true (List.mem_filter.mp he).2
      rcases List.mem_cons.mp he' with rfl | he'
      · exact hlt
      · exact hlt.trans (of_decide_eq_true (List.mem_filter.mp he').2)

def remove (m : SortedMap K V) (k : K) : Option V × SortedMap K V :=
  (m.get k, ⟨m.entries.filter (·.1 ≠ k), m.sorted.filter _⟩)

/-! ### Entries -/

theorem value_unique (h : (k, v) ∈ m.entries) (h' : (k, v') ∈ m.entries) : v = v' := by
  by_contra hne
  have : Std.Symm fun a b : K × V => a.1 ≠ b.1 := ⟨fun _ _ hab => hab.symm⟩
  have hdistinct : m.entries.Pairwise fun a b => a.1 ≠ b.1 := m.sorted.imp fun hlt => hlt.ne
  exact hdistinct.forall h h' (fun he => hne (Prod.mk.inj he).2) rfl

theorem get_eq_some_iff : m.get k = some v ↔ (k, v) ∈ m.entries := by
  constructor
  · intro h
    obtain ⟨e, he, rfl⟩ := Option.map_eq_some_iff.mp h
    have hk : e.1 = k := by simpa using List.find?_some he
    exact hk ▸ List.mem_of_find?_eq_some he
  · intro h
    cases hf : m.entries.find? (fun e => e.1 = k) with
    | none => exact absurd (decide_eq_true rfl) (List.find?_eq_none.mp hf _ h)
    | some e =>
      have hk : e.1 = k := by simpa using List.find?_some hf
      have he : (k, e.2) ∈ m.entries := hk ▸ List.mem_of_find?_eq_some hf
      rw [get, hf, Option.map_some, value_unique he h]

theorem get_eq_none_iff : m.get k = none ↔ ∀ v, (k, v) ∉ m.entries := by
  simp only [Option.eq_none_iff_forall_ne_some, ne_eq, get_eq_some_iff]

theorem contains_iff : m.contains k = true ↔ ∃ v, m.get k = some v := Option.isSome_iff_exists

theorem mem_insert {e : K × V} : e ∈ (m.insert k v).entries ↔ e = (k, v) ∨ e.1 ≠ k ∧ e ∈ m.entries := by
  simp only [insert, List.mem_append, List.mem_cons, List.mem_filter, decide_eq_true_eq, ne_iff_lt_or_gt]
  tauto

theorem mem_remove {e : K × V} : e ∈ (m.remove k).2.entries ↔ e.1 ≠ k ∧ e ∈ m.entries := by
  simp only [remove, List.mem_filter, decide_eq_true_eq, and_comm]

theorem get_insert : (m.insert k v).get k' = if k' = k then some v else m.get k' := by
  apply Option.ext
  intro w
  rw [get_eq_some_iff, mem_insert]
  split_ifs with h
  · subst h
    simp [eq_comm]
  · rw [get_eq_some_iff]
    simp [h]

@[simp]
theorem get_insert_eq_none : (m.insert k v).get k' = none ↔ m.get k' = none ∧ k' ≠ k := by
  rw [get_insert]
  split_ifs with h <;> simp [h]

theorem get_insert_self : (m.insert k v).get k = some v := by rw [get_insert, if_pos rfl]

theorem get_remove : (m.remove k).2.get k' = if k' = k then none else m.get k' := by
  apply Option.ext
  intro w
  rw [get_eq_some_iff, mem_remove]
  split_ifs with h
  · simp [h]
  · rw [get_eq_some_iff]
    simp [h]

theorem remove_of_none (h : m.get k = none) : (m.remove k).2 = m := by
  have hself : m.entries.filter (·.1 ≠ k) = m.entries := List.filter_eq_self.mpr fun e he =>
    decide_eq_true fun hk => get_eq_none_iff.mp h e.2 (hk ▸ he)
  simp only [remove, hself]

/-! ### Keys and values -/

def keys (m : SortedMap K V) : List K := m.entries.map Prod.fst

theorem nodup_keys (m : SortedMap K V) : m.keys.Nodup :=
  List.pairwise_map.mpr (m.sorted.imp fun hlt => hlt.ne)

theorem length_keys (m : SortedMap K V) : m.keys.length = m.size := List.length_map _

theorem mem_keys : k ∈ m.keys ↔ ∃ v, m.get k = some v := by
  rw [keys, List.mem_map]
  constructor
  · rintro ⟨⟨k, v⟩, he, rfl⟩
    exact ⟨v, get_eq_some_iff.mpr he⟩
  · rintro ⟨v, hget⟩
    exact ⟨(k, v), get_eq_some_iff.mp hget, rfl⟩

theorem nodup_entries (m : SortedMap K V) : m.entries.Nodup :=
  m.sorted.imp fun hlt he => hlt.ne (congrArg Prod.fst he)

def values (m : SortedMap K V) : List V := m.entries.map Prod.snd

theorem mem_values : v ∈ m.values ↔ ∃ k, m.get k = some v := by
  rw [values, List.mem_map]
  constructor
  · rintro ⟨⟨k, v⟩, he, rfl⟩
    exact ⟨k, get_eq_some_iff.mpr he⟩
  · rintro ⟨k, hget⟩
    exact ⟨(k, v), get_eq_some_iff.mp hget, rfl⟩

theorem values_insert (h : m.get k = none) : (m.insert k v).values.Perm (v :: m.values) := by
  have hnew : (k, v) ∉ m.entries := get_eq_none_iff.mp h v
  have hperm : (m.insert k v).entries.Perm ((k, v) :: m.entries) := by
    refine (List.perm_ext_iff_of_nodup (nodup_entries _) (List.nodup_cons.mpr ⟨hnew, nodup_entries m⟩)).mpr ?_
    intro e
    rw [mem_insert, List.mem_cons]
    refine or_congr_right (and_iff_right_of_imp fun he hk => ?_)
    exact get_eq_none_iff.mp h e.2 (hk ▸ he)
  exact hperm.map Prod.snd

theorem size_insert (h : m.get k = none) : (m.insert k v).size = m.size + 1 := by
  have hlength := (values_insert (v := v) h).length_eq
  rw [values, values, List.length_cons, List.length_map, List.length_map] at hlength
  exact hlength

theorem values_remove (h : m.get k = some v) : m.values.Perm (v :: (m.remove k).2.values) := by
  have hout : (k, v) ∉ (m.remove k).2.entries := fun he => (mem_remove.mp he).1 rfl
  have hperm : m.entries.Perm ((k, v) :: (m.remove k).2.entries) := by
    refine (List.perm_ext_iff_of_nodup (nodup_entries m) (List.nodup_cons.mpr ⟨hout, nodup_entries _⟩)).mpr ?_
    rintro ⟨k', v'⟩
    rw [List.mem_cons, mem_remove]
    constructor
    · intro he
      by_cases hk : k' = k
      · subst hk
        exact .inl (congrArg _ (value_unique he (get_eq_some_iff.mp h)))
      · exact .inr ⟨hk, he⟩
    · rintro (he | ⟨-, he⟩)
      · exact he ▸ get_eq_some_iff.mp h
      · exact he
  exact hperm.map Prod.snd

/-! ### The first entry -/

theorem firstKey_eq_none : m.firstKey = none ↔ m.entries = [] := by
  rw [firstKey, Option.map_eq_none_iff, List.head?_eq_none_iff]

theorem firstKey_eq_some : m.firstKey = some k ↔ ∃ v rest, m.entries = (k, v) :: rest := by
  rw [firstKey, Option.map_eq_some_iff]
  constructor
  · rintro ⟨⟨_, v⟩, he, rfl⟩
    exact ⟨v, List.head?_eq_some_iff.mp he⟩
  · rintro ⟨v, rest, he⟩
    exact ⟨(k, v), by rw [he]; rfl, rfl⟩

theorem get_of_firstKey (h : m.firstKey = some k) : ∃ v, m.get k = some v := by
  obtain ⟨v, rest, he⟩ := firstKey_eq_some.mp h
  exact ⟨v, get_eq_some_iff.mpr (he ▸ List.mem_cons_self ..)⟩

theorem firstKey_le (h : m.firstKey = some k) (hget : m.get k' = some v) : k ≤ k' := by
  obtain ⟨w, rest, he⟩ := firstKey_eq_some.mp h
  have hsorted := m.sorted
  rw [he] at hsorted
  rcases List.mem_cons.mp (he ▸ get_eq_some_iff.mp hget) with heq | hmem
  · exact (Prod.mk.inj heq).1.ge
  · exact ((List.pairwise_cons.mp hsorted).1 _ hmem).le

theorem remove_first {rest : List (K × V)} (h : m.entries = (k, v) :: rest) :
    (m.remove k).1 = some v ∧ (m.remove k).2.entries = rest := by
  have hsorted := m.sorted
  rw [h] at hsorted
  refine ⟨get_eq_some_iff.mpr (h ▸ List.mem_cons_self ..), ?_⟩
  show m.entries.filter (·.1 ≠ k) = rest
  rw [h, List.filter_cons_of_neg (by simp), List.filter_eq_self]
  intro e he
  exact decide_eq_true ((List.pairwise_cons.mp hsorted).1 e he).ne'

end SortedMap
