import Sparreal.Paging.RefineMap
import Sparreal.Paging.RefineUnmap
import Sparreal.Paging.WellFormed

/-!
# Calls on the page table

What a call of `map` or `unmap` that comes back does to the tree of the table: it is refused by the
validation and changes nothing, or it is a run of `MapRun` or `UnmapRun` from the root
(`map_refines`, `unmap_refines`). Every reachable machine therefore holds a well-formed tree
(`Reachable.holds`).
-/

namespace Sparreal.Paging

variable {P : Type} [PageTableEntry P] {T : TableMeta P} {A : FrameAllocator} {limit : Nat}
  {root : PhysAddr} {m m' : Machine P} {t : Tree P}

/-- The machine holds the well-formed table `t` at `root`. -/
structure Holds (T : TableMeta P) (limit : Nat) (root : PhysAddr) (m : Machine P) (t : Tree P) :
    Prop where
  represents : Represents T T.ptLevel root m t
  wellFormed : WellFormed T limit T.ptLevel t

/-- What `validate_map_config` and the overflow check of `map` let pass. -/
structure MapConfig.Accepted (T : TableMeta P) (config : MapConfig) : Prop where
  size_pos : 0 < config.size
  vaddr_aligned : T.pageSize ∣ config.vaddr
  paddr_aligned : T.pageSize ∣ config.paddr
  vaddr_fits : config.vaddr + config.size ≤ usizeMax
  paddr_fits : config.paddr + config.size ≤ usizeMax

/-- What `validate_unmap_params` and the overflow check of `unmap` let pass. -/
structure UnmapAccepted (T : TableMeta P) (startVaddr size : Nat) : Prop where
  size_pos : 0 < size
  start_aligned : T.pageSize ∣ startVaddr
  size_aligned : T.pageSize ∣ size
  fits : startVaddr + size ≤ usizeMax

namespace PageTableRef

omit [PageTableEntry P] in
theorem validateMapConfig_eq (config : MapConfig) :
    validateMapConfig T config = .ok () ∧ 0 < config.size ∧ T.pageSize ∣ config.vaddr ∧
        T.pageSize ∣ config.paddr ∨
      ¬ config.Accepted T ∧ ∃ error, validateMapConfig T config = .error (.err error) := by
  unfold validateMapConfig
  split_ifs with hsize hv hp
  · exact Or.inr ⟨fun h => h.size_pos.ne hsize.symm, _, rfl⟩
  · exact Or.inr ⟨fun h => hv (Nat.mod_eq_zero_of_dvd h.vaddr_aligned), _, rfl⟩
  · exact Or.inr ⟨fun h => hp (Nat.mod_eq_zero_of_dvd h.paddr_aligned), _, rfl⟩
  · exact Or.inl ⟨rfl, Nat.pos_of_ne_zero hsize, Nat.dvd_of_mod_eq_zero (not_not.mp hv),
      Nat.dvd_of_mod_eq_zero (not_not.mp hp)⟩

omit [PageTableEntry P] in
theorem validateUnmapParams_eq (startVaddr size : Nat) :
    validateUnmapParams T startVaddr size = .ok () ∧ 0 < size ∧ T.pageSize ∣ startVaddr ∧
        T.pageSize ∣ size ∨
      ¬ UnmapAccepted T startVaddr size ∧
        ∃ error, validateUnmapParams T startVaddr size = .error (.err error) := by
  unfold validateUnmapParams
  split_ifs with hsize hv hs
  · exact Or.inr ⟨fun h => h.size_pos.ne hsize.symm, _, rfl⟩
  · exact Or.inr ⟨fun h => hv (Nat.mod_eq_zero_of_dvd h.start_aligned), _, rfl⟩
  · exact Or.inr ⟨fun h => hs (Nat.mod_eq_zero_of_dvd h.size_aligned), _, rfl⟩
  · exact Or.inl ⟨rfl, Nat.pos_of_ne_zero hsize, Nat.dvd_of_mod_eq_zero (not_not.mp hv),
      Nat.dvd_of_mod_eq_zero (not_not.mp hs)⟩

/-- The configuration `map` starts the recursion with. -/
def rootConfig (config : MapConfig) : MapRecursiveConfig where
  startVaddr := config.vaddr
  startPaddr := config.paddr
  endVaddr := config.vaddr + config.size
  allowHuge := config.allowHuge
  flush := config.flush
  pteTemplate := config.pte

/-- A call of `map` is refused and changes nothing, or it runs the recursion from the root. -/
theorem map_eq (T : TableMeta P) (A : FrameAllocator) (root : PhysAddr) (config : MapConfig) (m : Machine P) :
    (¬ config.Accepted T ∧ ∃ error, map T A root config m = (.error (.err error), m)) ∨
      config.Accepted T ∧
        map T A root config m = Frame.mapRangeRecursive T A T.ptLevel root (rootConfig config) m := by
  rcases validateMapConfig_eq (T := T) config with ⟨hok, hsize, hv, hp⟩ | ⟨hnot, error, herror⟩
  · by_cases hover : usizeMax < config.vaddr + config.size ∨ usizeMax < config.paddr + config.size
    · left
      refine ⟨fun h => ?_, .addressOverflow "Virtual or physical address overflow", ?_⟩
      · have := h.vaddr_fits
        have := h.paddr_fits
        omega
      rw [map, Exec.bind_apply, Exec.ofExcept_apply, hok]
      simp only [if_pos hover, Exec.throw_apply]
    · right
      refine ⟨⟨hsize, hv, hp, by omega, by omega⟩, ?_⟩
      rw [map, Exec.bind_apply, Exec.ofExcept_apply, hok]
      simp only [if_neg hover]
      rfl
  · left
    refine ⟨hnot, error, ?_⟩
    rw [map, Exec.bind_apply, Exec.ofExcept_apply, herror]

theorem unmap_eq (T : TableMeta P) (root : PhysAddr) (startVaddr size : Nat) (m : Machine P) :
    (¬ UnmapAccepted T startVaddr size ∧
        ∃ error, unmap T root startVaddr size m = (.error (.err error), m)) ∨
      UnmapAccepted T startVaddr size ∧
        unmap T root startVaddr size m =
          (Frame.unmapRangeRecursive T T.ptLevel root
            { startVaddr := startVaddr, endVaddr := startVaddr + size, flush := true } >>= fun _ =>
            pure ()) m := by
  rcases validateUnmapParams_eq (T := T) startVaddr size with
    ⟨hok, hsize, hv, hs⟩ | ⟨hnot, error, herror⟩
  · by_cases hover : usizeMax < startVaddr + size
    · left
      refine ⟨fun h => absurd h.fits (by omega), .addressOverflow "Virtual address overflow in unmap", ?_⟩
      rw [unmap, unmapRange, Exec.bind_apply, Exec.ofExcept_apply, hok]
      simp only [if_pos hover, Exec.throw_apply]
    · right
      refine ⟨⟨hsize, hv, hs, by omega⟩, ?_⟩
      rw [unmap, unmapRange, Exec.bind_apply, Exec.ofExcept_apply, hok]
      simp only [if_neg hover]
  · left
    refine ⟨hnot, error, ?_⟩
    rw [unmap, unmapRange, Exec.bind_apply, Exec.ofExcept_apply, herror]

end PageTableRef

theorem returned_iff {α : Type} {r : Except Fault α} :
    Returned r ↔ ∃ res : Except PagingError α, r = res.mapError .err := by
  constructor
  · intro h
    match r, h with
    | .ok a, _ => exact ⟨.ok a, rfl⟩
    | .error (.err e), _ => exact ⟨.error e, rfl⟩
  · rintro ⟨e | a, rfl⟩ <;> exact trivial

/-- How a call of `unmap` comes back: refused, with nothing changed, or after the recursion from the root. -/
theorem unmap_cases {startVaddr size : Nat} {r : Except PagingError Unit}
    (h : PageTableRef.unmap T root startVaddr size m = (r.mapError .err, m')) :
    (∃ error, r = .error error ∧ m' = m) ∨
      r = .ok () ∧ UnmapAccepted T startVaddr size ∧ ∃ b, Frame.unmapRangeRecursive T T.ptLevel root
        { startVaddr := startVaddr, endVaddr := startVaddr + size, flush := true } m = (.ok b, m') := by
  rcases PageTableRef.unmap_eq T root startVaddr size m with
    ⟨-, error, herror⟩ | ⟨haccepted, hrun⟩
  · left
    rw [herror] at h
    obtain ⟨hres, rfl⟩ := Prod.mk.inj h
    cases r with
    | error e => exact ⟨e, rfl, rfl⟩
    | ok u => simp [Except.mapError] at hres
  · right
    rw [hrun] at h
    cases r with
    | error e =>
      rcases Exec.bind_eq_error.mp h with h | ⟨_, _, -, h⟩
      · exact absurd h (unmapRangeRecursive_ne_err _ _ _ _ _ _ _)
      · simp at h
    | ok u =>
      obtain ⟨b, m₁, hcall, h⟩ := Exec.bind_eq_ok.mp h
      obtain rfl : m₁ = m' := congrArg Prod.snd h
      exact ⟨rfl, haccepted, b, hcall⟩

section

variable (hcodec : KeepsDirectories T limit)

include hcodec

theorem map_refines (hA : A.Fresh T limit) {config : MapConfig}
    (hlimit : config.paddr + config.size ≤ limit) {r : Except PagingError Unit}
    (h : PageTableRef.map T A root config m = (r.mapError .err, m')) (hm : Holds T limit root m t) :
    (¬ config.Accepted T ∧ (∃ error, r = .error error) ∧ m' = m) ∨
      config.Accepted T ∧ ∃ t', MapRun T A limit config.pte T.ptLevel (config.vaddr + config.size)
          config.vaddr config.paddr t m.log r t' m'.log ∧
        Holds T limit root m' t' ∧ Keeps m t m' t' := by
  rcases PageTableRef.map_eq T A root config m with
    ⟨hnot, error, herror⟩ | ⟨haccepted, hrun⟩
  · left
    rw [herror] at h
    obtain ⟨hres, rfl⟩ := Prod.mk.inj h
    cases r with
    | error e => exact ⟨hnot, ⟨e, rfl⟩, rfl⟩
    | ok u => simp [Except.mapError] at hres
  · right
    rw [hrun] at h
    refine ⟨haccepted, ?_⟩
    have hpage : OnPage T limit (config.vaddr + config.size) config.vaddr config.paddr := fun _ =>
      ⟨haccepted.vaddr_aligned, haccepted.paddr_aligned, by omega⟩
    obtain ⟨t', hmap, hrep, hkeeps⟩ := mapRangeRecursive_refines hcodec hA T.ptLevel
      (c := PageTableRef.rootConfig config) hpage haccepted.vaddr_fits hm.represents h
    exact ⟨t', hmap, ⟨hrep, hmap.wellFormed hcodec hA hm.wellFormed⟩, hkeeps⟩

theorem unmap_refines {startVaddr size : Nat} {r : Except PagingError Unit}
    (h : PageTableRef.unmap T root startVaddr size m = (r.mapError .err, m'))
    (hm : Holds T limit root m t) :
    (∃ error, r = .error error ∧ m' = m) ∨
      r = .ok () ∧ UnmapAccepted T startVaddr size ∧ ∃ b t',
        UnmapRun T T.ptLevel (startVaddr + size) startVaddr true t m.log b t' m'.log ∧
        Holds T limit root m' t' ∧ Keeps m t m' t' := by
  rcases unmap_cases h with hrefused | ⟨hr, haccepted, b, hcall⟩
  · exact .inl hrefused
  · obtain ⟨t', hunmap, hrep, hkeeps⟩ :=
      unmapRangeRecursive_refines hcodec T.ptLevel_pos hm.represents hcall
    exact .inr ⟨hr, haccepted, b, t', hunmap, ⟨hrep, hunmap.wellFormed hcodec hm.wellFormed⟩, hkeeps⟩

theorem new_holds (hA : A.Fresh T limit) {m₀ : Machine P} (hlog : m₀.log = [])
    (hnew : PageTableRef.new A m₀ = (.ok root, m)) :
    m.log = [.grant root] ∧ Holds T limit root m (Tree.fresh root) := by
  unfold PageTableRef.new Frame.new at hnew
  split at hnew
  · simp at hnew
  · rename_i frame halloc
    obtain ⟨hok, rfl⟩ := Prod.mk.inj hnew
    obtain rfl := Except.ok.inj hok
    refine ⟨by rw [Machine.alloc_log, hlog], ⟨?_, Tree.separated_fresh _,
      fun g hg => Or.inl (Tree.mem_frames_fresh.mp hg), ⟨(hA _ _ halloc).1, by rw [hlog]; trivial⟩⟩,
      wellFormed_fresh hcodec.zeroed _⟩
    obtain ⟨n, hn⟩ : ∃ n, T.ptLevel = n + 1 := Nat.exists_eq_add_one.mpr T.ptLevel_pos
    rw [hn]
    exact tableAt_fresh (Function.update_self _ _ _) hcodec.zeroed

theorem Reachable.holds (hA : A.Fresh T limit) (h : Reachable T A limit root m) :
    ∃ t, Holds T limit root m t := by
  induction h with
  | new hlog hnew => exact ⟨_, (new_holds hcodec hA hlog hnew).2⟩
  | map _ hlimit hmap hr ih =>
    obtain ⟨t, ht⟩ := ih
    obtain ⟨res, rfl⟩ := returned_iff.mp hr
    rcases map_refines hcodec hA hlimit hmap ht with ⟨-, -, rfl⟩ | ⟨-, t', -, ht', -⟩
    · exact ⟨t, ht⟩
    · exact ⟨t', ht'⟩
  | unmap _ hunmap hr ih =>
    obtain ⟨t, ht⟩ := ih
    obtain ⟨res, rfl⟩ := returned_iff.mp hr
    rcases unmap_refines hcodec hunmap ht with ⟨_, -, rfl⟩ | ⟨-, -, _, t', -, ht', -⟩
    · exact ⟨t, ht⟩
    · exact ⟨t', ht'⟩

end

end Sparreal.Paging
