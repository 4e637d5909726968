import Sparreal.Paging.Owned

/-!
# A page table as an address space

A client calls `map` and `unmap` on one table, keeps account of the stretches it has mapped, and unmaps whole stretches.
After any such run the table is an address space made of the client's stretches and of at most one leftover for each
call of `map` that failed: these translate as they were mapped, and no other address translates.
-/

namespace Sparreal.Paging

variable {P : Type} [PageTableEntry P] {T : TableMeta P} {A : FrameAllocator} {limit : Nat} {root : PhysAddr}

/-- The runs of a client: how many calls of `map` have failed, the stretches mapped now, and the machine. -/
inductive Client (T : TableMeta P) (A : FrameAllocator) (limit : Nat) (root : PhysAddr) :
    Nat → List Stretch → Machine P → Prop where
  | new {m₀ m : Machine P} (hlog : m₀.log = []) (hnew : PageTableRef.new A m₀ = (.ok root, m)) :
      Client T A limit root 0 [] m
  | map {failed : Nat} {live : List Stretch} {m m' : Machine P} {config : MapConfig}
      (h : Client T A limit root failed live m) (hlimit : config.paddr + config.size ≤ limit)
      (hmap : PageTableRef.map T A root config m = (.ok (), m')) :
      Client T A limit root failed (config.stretch T :: live) m'
  | mapFails {failed : Nat} {live : List Stretch} {m m' : Machine P} {config : MapConfig} {error : PagingError}
      (h : Client T A limit root failed live m) (hlimit : config.paddr + config.size ≤ limit)
      (hmap : PageTableRef.map T A root config m = (.error (.err error), m')) :
      Client T A limit root (failed + 1) live m'
  | unmap {failed : Nat} {live live' : List Stretch} {s : Stretch} {m m' : Machine P}
      (h : Client T A limit root failed live m) (hlive : live.Perm (s :: live'))
      (hunmap : PageTableRef.unmap T root s.start (s.stop - s.start) m = (.ok (), m')) :
      Client T A limit root failed live' m'
  | unmapFails {failed : Nat} {live : List Stretch} {start size : Nat} {m m' : Machine P} {error : PagingError}
      (h : Client T A limit root failed live m)
      (hunmap : PageTableRef.unmap T root start size m = (.error (.err error), m')) :
      Client T A limit root failed live m'

/-- No address of the stretches has the indices of `a`. -/
def Outside (T : TableMeta P) (owned : List Stretch) (a : Nat) : Prop :=
  ∀ s ∈ owned, ∀ x ∈ s.addresses, ¬ a ≡ x [MOD T.size (T.ptLevel + 1)]

/-- The table maps the stretches, and nothing else. -/
structure Exactly (T : TableMeta P) (limit : Nat) (t : Tree P) (owned : List Stretch) : Prop
    extends Owns T limit t owned where
  only : ∀ a, Outside T owned a → lookup T T.ptLevel t a = none

namespace Exactly

variable {t t' : Tree P} {owned owned' : List Stretch} {s : Stretch}

theorem perm (h : Exactly T limit t owned) (hperm : owned.Perm owned') : Exactly T limit t owned' :=
  ⟨h.toOwns.perm hperm, fun a ha => h.only a fun s hs => ha s (hperm.mem_iff.mp hs)⟩

theorem maps (h : Exactly T limit t owned)
    (hmaps : Maps T limit s.template T.ptLevel t t' s.start s.paddr s.stop) : Exactly T limit t' (s :: owned) := by
  refine ⟨h.toOwns.maps hmaps, fun a ha => ?_⟩
  obtain ⟨hs, hrest⟩ := List.forall_mem_cons.mp ha
  rw [hmaps.frame a fun x hle hlt => hs x ⟨hle, hlt⟩]
  exact h.only a hrest

theorem unmaps (h : Exactly T limit t (s :: owned)) (hunmaps : Unmaps T T.ptLevel s.stop s.start t t') :
    Exactly T limit t' owned := by
  have hcovered := (h.mapped s List.mem_cons_self).covered
  refine ⟨(h.toOwns.unmaps hunmaps).2, fun a ha => ?_⟩
  by_cases hs : ∃ x ∈ s.addresses, a ≡ x [MOD T.size (T.ptLevel + 1)]
  · obtain ⟨x, hx, hax⟩ := hs
    exact hcovered.unmapped hunmaps hx.1 hx.2 hax
  · have hnot : ∀ x ∈ s.addresses, ¬ a ≡ x [MOD T.size (T.ptLevel + 1)] := fun x hx hax => hs ⟨x, hx, hax⟩
    rw [hcovered.kept hunmaps fun x hle hlt => hnot x ⟨hle, hlt⟩]
    apply h.only
    exact List.forall_mem_cons.mpr ⟨hnot, ha⟩

end Exactly

/-! ### Tables that are in use -/

variable {level : Nat} {t t' : Tree P}

theorem Populated.pruned (hind : ValidIndependent P) (h : Populated T level t)
    (hkept : t' = t ∨ t'.isEmpty T = false ∧ Pruned T level t t') : Populated T level t' := by
  induction level generalizing t t' with
  | zero => exact h
  | succ level ih =>
    refine ⟨h.lookup_of_pruned hind hkept, fun i hp => ?_⟩
    rcases hkept with rfl | ⟨-, hpruned⟩
    · exact h.2 i hp
    · obtain ⟨hentry, hkid⟩ := hpruned i hp
      exact ih (h.2 i (hentry ▸ hp)) hkid

/-- Every table below the root translates something. -/
def Thrifty (T : TableMeta P) : Nat → Tree P → Prop
  | 0, _ => True
  | level + 1, t => ∀ i, pointsToTable (level + 1) (t.entry i) = true → Populated T level (t.kid i)

namespace Thrifty

theorem grown (h : Thrifty T level t) (hgrown : Grown T level t t') : Thrifty T level t' := by
  cases level with
  | zero => trivial
  | succ level =>
    intro i hp
    rcases hgrown.2 i hp with ⟨hentry, hkid⟩ | ⟨-, hnew⟩
    · exact (h i (hentry ▸ hp)).grown hkid
    · exact hnew

theorem pruned (hind : ValidIndependent P) (h : Thrifty T level t) (hpruned : Pruned T level t t') :
    Thrifty T level t' := by
  cases level with
  | zero => trivial
  | succ level =>
    intro i hp
    obtain ⟨hentry, hkid⟩ := hpruned i hp
    exact (h i (hentry ▸ hp)).pruned hind hkid

/-- A table that translates nothing has no table below it. -/
theorem frames_eq (h : Thrifty T level t) (hlevel : 0 < level) (ht : WellFormed T limit level t)
    (hnone : ∀ a, lookup T level t a = none) {g : PhysAddr} (hg : g ∈ t.frames) : t.root = some g := by
  obtain ⟨level, rfl⟩ := Nat.exists_eq_add_one.mpr hlevel
  rcases Tree.mem_frames_iff.mp hg with hg | ⟨i, hg⟩
  · exact hg
  · by_cases hp : i < T.len ∧ pointsToTable (level + 1) (t.entry i) = true
    · obtain ⟨hi, hp⟩ := hp
      cases level with
      | zero => exact (h i hp).elim
      | succ level =>
        obtain ⟨a, ha⟩ := (h i hp).1
        obtain ⟨b, hb, hab⟩ := T.exists_slot_eq (level + 2) hi a
        rw [lookup_modEq hab, ← lookup_kid hp hb] at ha
        exact absurd (hnone b) ha
    · have hkid := ht.2.2 i
      rw [if_neg hp] at hkid
      rw [hkid] at hg
      exact hg.elim

end Thrifty

variable {failed : Nat} {live : List Stretch} {m : Machine P}

/-- What a client has mapped and what failed calls have left over is all there is in the table. -/
theorem Client.exactly (hcodec : RoundTrips T limit) (hind : ValidIndependent P) (hA : A.Fresh T limit)
    (h : Client T A limit root failed live m) :
    ∃ t leftover, leftover.length ≤ failed ∧ Holds T limit root m t ∧ Exactly T limit t (live ++ leftover) ∧
      (failed = 0 → Thrifty T T.ptLevel t) := by
  have hdirs := hcodec.keepsDirectories
  induction h with
  | new hlog hnew =>
    refine ⟨_, [], le_rfl, (new_holds hdirs hA hlog hnew).2, ⟨.nil, fun a _ => lookup_fresh hcodec.zeroed root a⟩, ?_⟩
    obtain ⟨n, hn⟩ := Nat.exists_eq_add_one.mpr T.ptLevel_pos
    rw [hn]
    intro _ i hp
    rw [Tree.entry_fresh, pointsToTable_of_invalid (hcodec.zeroed _)] at hp
    exact absurd hp (by decide)
  | map _ hlimit hmap ih =>
    obtain ⟨t, leftover, hlen, hm, ht, hthrifty⟩ := ih
    obtain ⟨haccepted, t₂, hm₂, hrun⟩ := map_run hcodec hA hm hlimit hmap
    obtain ⟨stop, t', -, hlt, hdvd, hok, hm', hmaps⟩ := map_stretch hcodec hA hm hlimit haccepted (r := .ok ()) hmap
    obtain rfl := T.eq_roundUp hdvd (hok rfl) hlt
    obtain rfl : t₂ = t' := hm₂.represents.table.symm.trans hm'.represents.table
    refine ⟨t₂, leftover, hlen, hm', ht.maps hmaps, fun hzero => (hthrifty hzero).grown ?_⟩
    exact hrun.grown hcodec hA hm.wellFormed (fun _ => haccepted.vaddr_aligned) rfl
  | @mapFails _ live _ _ config error _ hlimit hmap ih =>
    obtain ⟨t, leftover, hlen, hm, ht, -⟩ := ih
    by_cases haccepted : config.Accepted T
    · obtain ⟨stop, t', -, -, -, -, hm', hmaps⟩ :=
        map_stretch hcodec hA hm hlimit haccepted (r := .error error) hmap
      -- the pages mapped before the call failed stay mapped
      let prior : Stretch := ⟨config.vaddr, stop, config.paddr, config.pte⟩
      refine ⟨t', prior :: leftover, Nat.succ_le_succ hlen, hm', ?_, nofun⟩
      apply (ht.maps (s := prior) hmaps).perm
      exact List.perm_middle.symm
    · rcases map_refines hdirs hA hlimit (r := .error error) hmap hm with ⟨-, -, rfl⟩ | ⟨hacc, -⟩
      · exact ⟨t, leftover, hlen.trans (Nat.le_succ _), hm, ht, nofun⟩
      · exact absurd hacc haccepted
  | @unmap _ _ live' s _ _ _ hlive hunmap ih =>
    obtain ⟨t, leftover, hlen, hm, ht, hthrifty⟩ := ih
    rcases unmap_cases (r := .ok ()) hunmap with ⟨_, herror, -⟩ | ⟨-, haccepted, -⟩
    · cases herror
    obtain ⟨r, t', hm', hrun⟩ := unmap_run hcodec hm hunmap
    have hpos := haccepted.size_pos
    rw [show s.start + (s.stop - s.start) = s.stop by omega] at hrun
    have hunmaps := hrun.unmaps hcodec hind hm.wellFormed T.ptLevel_pos
    refine ⟨t', leftover, hlen, hm', (ht.perm (hlive.append_right leftover)).unmaps hunmaps, fun hzero => ?_⟩
    exact (hthrifty hzero).pruned hind (hrun.pruned hcodec hind hm.wellFormed T.ptLevel_pos)
  | @unmapFails _ _ _ _ _ _ error _ hunmap ih =>
    rcases unmap_cases (r := .error error) hunmap with ⟨_, -, rfl⟩ | ⟨herror, -⟩
    · exact ih
    · cases herror

/-- **The table is the client's address space**, but for what failed calls of `map` have left over. -/
theorem client_translate (hcodec : RoundTrips T limit) (hind : ValidIndependent P) (hA : A.Fresh T limit)
    (hl : T.Addressable T.ptLevel) (h : Client T A limit root failed live m) :
    ∃ leftover : List Stretch, leftover.length ≤ failed ∧ (live ++ leftover).Pairwise (Stretch.Apart T) ∧
      (∀ s ∈ live ++ leftover, ∀ x ∈ s.addresses, ∃ level base, PageTableRef.translate T m root x =
        .ok (s.paddr + (x - s.start), fromConfig (s.template.final level base))) ∧
      ∀ a, Outside T (live ++ leftover) a → PageTableRef.translate T m root a = .error (.err .notMapped) := by
  obtain ⟨t, leftover, hlen, hm, ht, -⟩ := h.exactly hcodec hind hA
  refine ⟨leftover, hlen, ht.apart, fun s hs x hx => ?_, fun a ha => ?_⟩
  · exact (ht.mapped s hs x hx).translate hcodec hm hl
  · exact hm.translate_none hl (ht.only a ha)

theorem X86.client_start : Client X86.generic X86.bump (2 ^ 52) X86.root 0 [] X86.start :=
  .new rfl (Prod.ext (by decide) rfl : PageTableRef.new X86.bump X86.blank = (.ok X86.root, X86.start))

/-- A client of an x86_64 table that has mapped one page. -/
theorem client_translate_page :
    ∃ leftover : List Stretch, leftover.length ≤ 0 ∧
      ([X86.page.stretch X86.generic] ++ leftover).Pairwise (Stretch.Apart X86.generic) ∧
      (∀ s ∈ [X86.page.stretch X86.generic] ++ leftover, ∀ x ∈ s.addresses, ∃ level base,
        PageTableRef.translate X86.generic (X86.mapped X86.page X86.start) X86.root x =
          .ok (s.paddr + (x - s.start), fromConfig (s.template.final level base))) ∧
      ∀ a, Outside X86.generic ([X86.page.stretch X86.generic] ++ leftover) a →
        PageTableRef.translate X86.generic (X86.mapped X86.page X86.start) X86.root a = .error (.err .notMapped) := by
  have hmap : PageTableRef.map X86.generic X86.bump X86.root X86.page X86.start =
      (.ok (), X86.mapped X86.page X86.start) := X86.map_eq (by decide +kernel)
  exact client_translate X86.roundTrips X86.validIndependent X86.bump_fresh X86.addressable
    (.map X86.client_start (by decide) hmap)

theorem Client.reachable (h : Client T A limit root failed live m) : Reachable T A limit root m := by
  induction h with
  | new hlog hnew => exact .new hlog hnew
  | map _ hlimit hmap ih => exact .map ih hlimit hmap trivial
  | mapFails _ hlimit hmap ih => exact .map ih hlimit hmap trivial
  | unmap _ _ hunmap ih => exact .unmap ih hunmap trivial
  | unmapFails _ hunmap ih => exact .unmap ih hunmap trivial

/-- **No frame is leaked**: when everything is unmapped again, in whatever order, and no call of `map` has failed, the
root is the only frame in use. -/
theorem client_frames (hcodec : RoundTrips T limit) (hind : ValidIndependent P) (hA : A.Fresh T limit)
    (h : Client T A limit root 0 [] m) (g : PhysAddr) : Ledger.Live m.log g ↔ g = root := by
  obtain ⟨t, leftover, hlen, hm, ht, hthrifty⟩ := h.exactly hcodec hind hA
  obtain ⟨t', hm', hlive⟩ := h.reachable.accounted hcodec.keepsDirectories (hcodec.scanSeesDirectories hind) hA
  obtain rfl : t' = t := hm'.represents.table.symm.trans hm.represents.table
  obtain rfl := List.eq_nil_of_length_eq_zero (Nat.le_zero.mp hlen)
  have hroot : t'.root = some root := by
    obtain ⟨n, hn⟩ := Nat.exists_eq_add_one.mpr T.ptLevel_pos
    rw [← hm.represents.table, hn]
    rfl
  rw [hlive]
  constructor
  · intro hg
    have hframe := (hthrifty rfl).frames_eq T.ptLevel_pos hm.wellFormed (fun a => ht.only a nofun) hg
    exact Option.some.inj (hframe.symm.trans hroot)
  · rintro rfl
    exact Tree.mem_frames_iff.mpr (.inl hroot)

/-- One page of an x86_64 table is mapped and unmapped: the first table made for it is not in use any more. -/
theorem client_frames_page :
    Ledger.Live (X86.unmapped 0x200000 0x1000 (X86.mapped X86.page X86.start)).log 0x101000 ↔ 0x101000 = X86.root := by
  have hmap : PageTableRef.map X86.generic X86.bump X86.root X86.page X86.start =
      (.ok (), X86.mapped X86.page X86.start) := X86.map_eq (by decide +kernel)
  have hunmap : PageTableRef.unmap X86.generic X86.root 0x200000 0x1000 (X86.mapped X86.page X86.start) =
      (.ok (), X86.unmapped 0x200000 0x1000 (X86.mapped X86.page X86.start)) := X86.unmap_eq (by decide +kernel)
  have hpage := Client.map X86.client_start (by decide) hmap
  exact client_frames X86.roundTrips X86.validIndependent X86.bump_fresh
    (hpage.unmap (s := X86.page.stretch X86.generic) (.refl _) hunmap) 0x101000

end Sparreal.Paging
