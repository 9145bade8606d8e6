import OsPaging.Syscall.LoadElf
import OsPaging.Vm.Regions

/-!
# `runprogram` and the first region

`vm_fault` and `as_destroy` start with `KASSERT(as->start_region != NULL)`. `as_create` leaves the
list empty, and `load_elf` calls `as_define_region` once for each `PT_LOAD` header, so whether the
assertion can fail is decided by the executable: `runprogram_first_region_iff`.

The functions that `vm_fault` and `as_destroy` call have assertions of their own. `Avoids` says
that none of them is this one.
-/

namespace OsPaging.Vm

/-! ## Where the assertion can fail -/

/-- The call does not fail `KASSERT(as->start_region != NULL)`. -/
def Avoids {α : Type} (x : Except Panic α) : Prop := x ≠ .error .noFirstRegion

theorem avoids_ok {α : Type} (a : α) : Avoids (.ok a : Except Panic α) := fun h => by cases h

theorem avoids_error {α : Type} {p : Panic} (h : p ≠ .noFirstRegion) :
    Avoids (.error p : Except Panic α) := fun he => h (by cases he; rfl)

/-- A caller hands an error on. -/
@[elab_as_elim] theorem Avoids.cases {α : Type} {motive : Except Panic α → Prop}
    {x : Except Panic α} (h : Avoids x) (error : ∀ p, p ≠ .noFirstRegion → motive (.error p))
    (ok : ∀ a, motive (.ok a)) : motive x := by
  cases x with
  | error p => exact error p fun hp => h (by rw [hp])
  | ok a => exact ok a

theorem victimWhile_avoids {s : VmState} (nvictims : Int) :
    ∀ (passes i vf : Nat) (victim : Int), Avoids (victimWhile s nvictims passes i vf victim)
  | 0, i, vf, victim => avoids_error (by simp)
  | passes + 1, i, vf, victim => by
    unfold victimWhile
    simp only
    split
    · split
      · exact avoids_error (by simp)
      · split
        · exact avoids_ok _
        · exact victimWhile_avoids _ _ _ _ _
    · split
      · exact avoids_ok _
      · exact victimWhile_avoids _ _ _ _ _

theorem coremapVictimSelection_avoids (s : VmState) (nvictims : Int) :
    Avoids (coremapVictimSelection s nvictims) := by
  unfold coremapVictimSelection
  refine (victimWhile_avoids nvictims 2 (victimStart s) 0 (victimStart s)).cases
    (fun _ => avoids_error) fun r => ?_
  dsimp only
  split
  · exact avoids_ok _
  · exact avoids_error (by simp)

theorem swapOut_avoids (s : VmState) (page : Nat) : Avoids (swapOut s page) := by
  unfold swapOut
  split
  · exact avoids_error (by simp)
  · dsimp only
    split <;> exact avoids_ok _

theorem swapOutVictim_avoids (s : VmState) (victim : Int) : Avoids (swapOutVictim s victim) := by
  unfold swapOutVictim
  split
  · exact avoids_error (by simp)
  · dsimp only
    split
    · exact avoids_error (by simp)
    · split_ifs
      · exact avoids_error (by simp)
      · exact avoids_error (by simp)
      · refine (swapOut_avoids s (s.coremap victim.toNat).paddr).cases (fun _ => avoids_error) ?_
        rintro ⟨_ | index, s'⟩
        · exact avoids_error (by simp)
        · exact avoids_ok _

theorem getuserppage_avoids (s : VmState) : Avoids (getuserppage s) := by
  unfold getuserppage
  split
  · exact avoids_error (by simp)
  · split
    · exact avoids_ok _
    · refine (coremapVictimSelection_avoids s 1).cases (fun _ => avoids_error) fun r => ?_
      dsimp only
      exact (swapOutVictim_avoids r.2 r.1).cases (fun _ => avoids_error) fun _ => avoids_ok _

theorem swapOutRun_avoids (s : VmState) (victim : Int) : ∀ n, Avoids (swapOutRun s victim n)
  | 0 => avoids_ok _
  | n + 1 => by
    unfold swapOutRun
    refine (swapOutRun_avoids s victim n).cases (fun _ => avoids_error) fun s₁ => ?_
    dsimp only
    exact (swapOutVictim_avoids s₁ (victim + n)).cases (fun _ => avoids_error) fun _ => avoids_ok _

theorem getppages_avoids (s : VmState) (npages : Nat) : Avoids (getppages s npages) := by
  unfold getppages
  split
  · exact avoids_ok _
  · split
    · exact avoids_ok _
    · refine (coremapVictimSelection_avoids s (intOfUnsigned npages)).cases
        (fun _ => avoids_error) fun r => ?_
      dsimp only
      exact (swapOutRun_avoids r.2 r.1 npages).cases (fun _ => avoids_error) fun _ => avoids_ok _

theorem allocKpages_avoids (s : VmState) (npages : Nat) : Avoids (allocKpages s npages) := by
  unfold allocKpages
  refine (getppages_avoids s npages).cases (fun _ => avoids_error) fun r => ?_
  dsimp only
  split <;> exact avoids_ok _

theorem kmallocPages_avoids (s : VmState) : ∀ k, Avoids (kmallocPages s k)
  | 0 => avoids_ok _
  | k + 1 => by
    unfold kmallocPages
    refine (kmallocPages_avoids s k).cases (fun _ => avoids_error) fun r => ?_
    dsimp only
    refine (allocKpages_avoids r.2 1).cases (fun _ => avoids_error) fun r => ?_
    dsimp only
    split
    · exact avoids_error (by simp)
    · exact avoids_ok _

theorem faultLoad_avoids (s : VmState) (faultpage paddr : Nat) (addrs : List Nat) :
    Avoids (faultLoad s faultpage paddr addrs) := by
  unfold faultLoad
  split
  · exact avoids_error (by simp)
  · exact avoids_ok _

theorem faultFresh_avoids (s : VmState) (faultpage kpages : Nat) :
    Avoids (faultFresh s faultpage kpages) := by
  unfold faultFresh ptAdd
  refine (getuserppage_avoids s).cases (fun _ => avoids_error) fun r => ?_
  dsimp only
  split
  · exact avoids_error (by simp)
  · exact (kmallocPages_avoids (placePage r.2 (r.1 / pageSize) faultpage) kpages).cases
      (fun _ => avoids_error) fun _ => faultLoad_avoids _ _ _ _

theorem faultSwapped_avoids (s : VmState) (faultpage : Nat) (pte : PtEntry) :
    Avoids (faultSwapped s faultpage pte) := by
  unfold faultSwapped
  refine (getuserppage_avoids s).cases (fun _ => avoids_error) fun r => ?_
  dsimp only
  split
  · exact avoids_error (by simp)
  · exact faultLoad_avoids _ _ _ _

theorem faultServe_avoids (s : VmState) (faultaddress kpages : Nat) :
    Avoids (faultServe s faultaddress kpages) := by
  unfold faultServe
  split
  · exact faultFresh_avoids s _ kpages
  · split
    · exact faultSwapped_avoids s _ _
    · exact faultLoad_avoids _ _ _ _

/-- `vm_fault` fails the assertion only on an empty list. -/
theorem vmFault_avoids {s : VmState} {as : AddrSpace} (has : s.as = some as)
    (hr : as.regions ≠ []) (faulttype faultaddress kpages : Nat) :
    Avoids (vmFault s faulttype faultaddress kpages) := by
  have hcheck : Avoids (faultCheck s faulttype faultaddress) := by
    unfold faultCheck
    rw [has]
    dsimp only
    rw [if_neg hr]
    split_ifs <;> first | exact avoids_ok _ | exact avoids_error (by simp)
  rw [vmFault_eq_check]
  refine hcheck.cases (fun _ => avoids_error) ?_
  rintro (_ | err)
  · exact faultServe_avoids s faultaddress kpages
  · exact avoids_ok _

theorem ptDestroy_avoids : ∀ (es : List PtEntry) (s : VmState), Avoids (ptDestroy s es)
  | [], s => avoids_ok s
  | q :: qs, s => by
    have hentry : Avoids (ptDestroyEntry s q) := by
      unfold ptDestroyEntry swapUnmark freeuserppage
      split_ifs <;> first | exact avoids_ok _ | exact avoids_error (by simp)
    unfold ptDestroy
    exact hentry.cases (fun _ => avoids_error) fun s₁ => ptDestroy_avoids qs s₁

theorem asDestroy_avoids (s : VmState) {as : AddrSpace} (hr : as.regions ≠ []) :
    Avoids (asDestroy s as) := by
  unfold asDestroy
  rw [if_neg hr]
  exact (ptDestroy_avoids as.pt.entries s).cases (fun _ => avoids_error) fun _ => avoids_ok _

end OsPaging.Vm

namespace OsPaging.Syscall

open OsPaging.Vm

/-! ## `runprogram` -/

/-- The address space after some of the calls of `load_elf`: `as_define_region` is the only one
that changes the list of regions. The page table is not followed here. -/
def defined (as : AddrSpace) : List Action → AddrSpace
  | [] => as
  | .asDefineRegion vaddr sz :: acts => defined (asDefineRegion as vaddr sz) acts
  | _ :: acts => defined as acts

/-- How `runprogram` ends: the address space of the process, and the registers of
`enter_new_process`, if it gets that far. -/
structure Launched where
  err : Nat
  space : Option AddrSpace
  /-- `entrypoint` and `stackptr`. -/
  enters : Option (Nat × Nat)
deriving DecidableEq

/-- `runprogram` (`runprogram.c:54-108`): `opened` is the result of `vfs_open`, `created` tells
whether `as_create` got its memory. `none` is the panic of `uiomove`. -/
def runprogram (opened : Nat) (created : Bool) (env : LoadEnv) : Option Launched :=
  if opened ≠ 0 then some ⟨opened, none, none⟩
  else if created = false then some ⟨enomem, none, none⟩
  else
    match loadElf env with
    | none => none
    | some (err, acts, entry) =>
      let as := defined asCreate acts
      -- the address space goes away when the process is destroyed
      if err ≠ 0 then some ⟨err, some as, none⟩
      else some ⟨0, some as, entry.map fun entrypoint => (entrypoint, userSpaceTop)⟩

/-- The first header that `load_elf` does not skip is a `PT_LOAD` header, and its region got its
memory. -/
def loadsFirst (env : LoadEnv) (eh : Ehdr) : List Nat → Bool
  | [] => false
  | i :: is =>
    match readPhdr env.v eh i with
    | .error _ => false
    | .ok ph =>
      if ph.skipped then loadsFirst env eh is
      else ph.type == ptLoad && env.nomem i == false

/-- The executable gives its process a region. -/
def hasFirstRegion (env : LoadEnv) : Bool :=
  match readEhdr env.v with
  | .error _ => false
  | .ok eh => eh.accepted && loadsFirst env eh (List.range eh.phnum)

/-! ## The regions that `load_elf` leaves -/

theorem defined_regions_ne (as : AddrSpace) : ∀ (acts : List Action),
    (defined as acts).regions ≠ [] ↔
      as.regions ≠ [] ∨ ∃ vaddr sz, .asDefineRegion vaddr sz ∈ acts := by
  intro acts
  induction acts generalizing as with
  | nil => simp [defined]
  | cons a acts ih =>
    cases a with
    | asDefineRegion vaddr sz =>
      have hne : (asDefineRegion as vaddr sz).regions ≠ [] := by simp [asDefineRegion]
      simp only [defined, ih]
      grind
    | _ => simp [defined, ih]

theorem definePass_defines_iff (env : LoadEnv) (eh : Ehdr) : ∀ (is : List Nat),
    (∃ vaddr sz, .asDefineRegion vaddr sz ∈ (definePass env eh is).2) ↔
      loadsFirst env eh is = true := by
  intro is
  induction is with
  | nil => simp [definePass, loadsFirst]
  | cons i is ih =>
    unfold definePass loadsFirst
    cases readPhdr env.v eh i with
    | error err => simp
    | ok ph =>
      dsimp only
      by_cases hskip : ph.skipped = true
      · rw [if_pos hskip, if_pos hskip]
        exact ih
      · rw [if_neg hskip, if_neg hskip]
        by_cases htype : ph.type = ptLoad
        · rw [if_neg (not_not.mpr htype)]
          cases env.nomem i with
          | true => simp
          | false =>
            simp only [htype, beq_self_eq_true, Bool.and_self, iff_true]
            exact ⟨ph.vaddr, ph.memsz, List.mem_cons_self⟩
        · rw [if_pos htype]
          simp [htype]

theorem loadSegment_runs {env : LoadEnv} {ph : Phdr} {err : Nat} {stores : List Action} {a : Action}
    (h : loadSegment env ph = some (err, stores)) (ha : a ∈ stores) : ∃ e, a = .run e := by
  have hcopy : ∀ log : List Block, a ∈ log.flatMap (copyStores env ph) → ∃ e, a = .run e := by
    intro log hlog
    obtain ⟨b, -, hb⟩ := List.mem_flatMap.mp hlog
    unfold copyStores at hb
    grind
  unfold loadSegment at h
  grind

theorem loadPass_runs {env : LoadEnv} {eh : Ehdr} {a : Action} :
    ∀ {is : List Nat} {err : Nat} {acts : List Action}, loadPass env eh is = some (err, acts) →
      a ∈ acts → ∃ e, a = .run e
  | [], err, acts, h, ha => by
    obtain ⟨-, rfl⟩ := Prod.mk.inj (Option.some.inj h)
    exact absurd ha List.not_mem_nil
  | i :: is, err, acts, h, ha => by
    unfold loadPass at h
    split at h
    · obtain ⟨-, rfl⟩ := Prod.mk.inj (Option.some.inj h)
      exact absurd ha List.not_mem_nil
    · split_ifs at h
      · exact loadPass_runs h ha
      · obtain ⟨-, rfl⟩ := Prod.mk.inj (Option.some.inj h)
        exact absurd ha List.not_mem_nil
      · split at h
        · cases h
        · rename_i err' stores hseg
          split_ifs at h
          · obtain ⟨-, rfl⟩ := Prod.mk.inj (Option.some.inj h)
            exact loadSegment_runs hseg ha
          · obtain ⟨⟨err'', rest⟩, hrest, heq⟩ := Option.map_eq_some_iff.mp h
            obtain ⟨-, rfl⟩ := Prod.mk.inj heq
            rcases List.mem_append.mp ha with ha | ha
            · exact loadSegment_runs hseg ha
            · exact loadPass_runs hrest ha

/-- On every return path: `load_elf` has defined a region exactly if the executable gives one. -/
theorem loadElf_defines_iff {env : LoadEnv} {err : Nat} {acts : List Action} {entry : Option Nat}
    (h : loadElf env = some (err, acts, entry)) :
    (∃ vaddr sz, .asDefineRegion vaddr sz ∈ acts) ↔ hasFirstRegion env = true := by
  unfold loadElf at h
  unfold hasFirstRegion
  cases heh : readEhdr env.v with
  | error e =>
    grind
  | ok eh =>
    rw [heh] at h
    dsimp only at h ⊢
    by_cases hacc : eh.accepted = false
    · grind
    · rw [if_neg hacc] at h
      rw [Bool.not_eq_false] at hacc
      rw [hacc, Bool.true_and, ← definePass_defines_iff]
      split at h
      · rename_i regions hdef
        obtain ⟨⟨err', stores⟩, hload, heq⟩ := Option.map_eq_some_iff.mp h
        obtain ⟨-, rfl, -⟩ := by simpa using heq
        rw [hdef]
        constructor
        · rintro ⟨vaddr, sz, hmem⟩
          rcases List.mem_append.mp hmem with hmem | hmem
          · exact ⟨vaddr, sz, hmem⟩
          · obtain ⟨e, he⟩ := loadPass_runs hload hmem
            cases he
        · grind
      · grind

/-- **Whether an executable can panic the kernel by the missing first region**: for the address
space `runprogram` leaves behind on any of its return paths, with whatever pages it has got since,
`vm_fault` and `as_destroy` never fail the assertion exactly if the first header that is not skipped
is a `PT_LOAD` header whose region got its memory. -/
theorem runprogram_first_region_iff {opened : Nat} {created : Bool} {env : LoadEnv} {r : Launched}
    {as₀ : AddrSpace} (h : runprogram opened created env = some r) (hspace : r.space = some as₀)
    (as : AddrSpace) (has : as.regions = as₀.regions) :
    ((∀ s faulttype faultaddress kpages, s.as = some as →
        vmFault s faulttype faultaddress kpages ≠ .error .noFirstRegion) ∧
      ∀ s, asDestroy s as ≠ .error .noFirstRegion) ↔ hasFirstRegion env = true := by
  obtain ⟨err, acts, entry, helf, hregions⟩ : ∃ err acts entry,
      loadElf env = some (err, acts, entry) ∧ as₀ = defined asCreate acts := by
    unfold runprogram at h
    grind
  have hne : as.regions ≠ [] ↔ hasFirstRegion env = true := by
    rw [has, hregions, defined_regions_ne, ← loadElf_defines_iff helf]
    simp [asCreate]
  rw [← hne]
  constructor
  · rintro ⟨-, hdestroy⟩ hnil
    exact hdestroy (smallVm 8) (by unfold asDestroy; rw [if_pos hnil])
  · intro hr
    exact ⟨fun s faulttype faultaddress kpages hs => vmFault_avoids hs hr _ _ _,
      fun s => asDestroy_avoids s hr⟩

/-- `oneSegment` gives its process a region. -/
theorem runprogram_first_region_one_segment :
    (∃ r, runprogram 0 true oneSegment = some r ∧
      r.space = some { asCreate with regions := [⟨0x400000, 0x1000, 1⟩] }) ∧
    ∀ s faulttype faultaddress kpages,
      s.as = some { asCreate with regions := [⟨0x400000, 0x1000, 1⟩] } →
      vmFault s faulttype faultaddress kpages ≠ .error .noFirstRegion := by
  have hrun : runprogram 0 true oneSegment =
      some ⟨0, some { asCreate with regions := [⟨0x400000, 0x1000, 1⟩] },
        some (0x400000, userSpaceTop)⟩ := by
    decide
  exact ⟨⟨_, hrun, rfl⟩, ((runprogram_first_region_iff hrun rfl _ rfl).mpr (by decide)).1⟩

/-- An executable without program headers. -/
def noSegments : LoadEnv where
  v := {
    bytes := fun i => ([0x7f, 69, 76, 70, 1, 2, 1, 0, 0, 0, 0, 0, 0, 0, 0, 0, 0, 2, 0, 8, 0, 0, 0,
      1, 0, 0x40, 0, 0, 0, 0, 0, 52, 0, 0, 0, 0, 0, 0, 0, 0, 0, 52, 0, 32] : List UInt8).getD i 0
    vop := fun _ size => ⟨[size], 0⟩ }
  faults := fun _ => false
  nomem := fun _ => false

/-- It is loaded; then the fault of its first instruction panics. -/
theorem no_segments_panics :
    (∃ r, runprogram 0 true noSegments = some r ∧ r.space = some asCreate ∧
      r.enters = some (0x400000, userSpaceTop)) ∧
    vmFault { smallVm 8 with as := some asCreate } vmFaultRead 0x400000 0 =
      .error .noFirstRegion ∧
    asDestroy (smallVm 8) asCreate = .error .noFirstRegion := by
  have hrun : runprogram 0 true noSegments = some ⟨0, some asCreate,
      some (0x400000, userSpaceTop)⟩ := by decide
  exact ⟨⟨_, hrun, rfl, rfl⟩, rfl, rfl⟩

end OsPaging.Syscall
