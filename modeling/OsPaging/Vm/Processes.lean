import OsPaging.Vm.AddrSpace

/-!
# Processes

The system with any number of processes: the running one, whose address space the VM code reads
through `proc_getas`, and the address spaces of the others, by process. A kernel thread has no
address space. Beside the events of `System.lean` there are the switch to a thread of another
process (`thread_switch`, whose last act is `as_activate`), the creation of an address space and of
its regions by the running process (`runprogram`, `load_elf`), and its destruction by
`proc_destroy`, for the running process or for another.

Two fields record the past: `last` is the process that last ran with an address space, and
`released` counts the slots that `pt_destroy` has released.
-/

namespace OsPaging.Vm

open OsPaging.Lib

variable {pid : Nat} {l : List (Nat × AddrSpace)} {as : AddrSpace}

/-- The address space of process `pid`. -/
def spaceOf (spaces : List (Nat × AddrSpace)) (pid : Nat) : Option AddrSpace :=
  (spaces.find? (·.1 == pid)).map Prod.snd

/-- The address spaces but that of process `pid`. -/
def withoutSpace (spaces : List (Nat × AddrSpace)) (pid : Nat) : List (Nat × AddrSpace) :=
  spaces.eraseP (·.1 == pid)

/-- `parked` has the address spaces of the processes that do not run. -/
structure Machine extends Sys where
  parked : List (Nat × AddrSpace)
  current : Nat
  last : Nat
  released : Nat

inductive Action
  /-- An event of the running process or of the kernel. -/
  | run (e : Event)
  /-- `thread_switch` to a thread of process `pid`. -/
  | switch (pid : Nat)
  /-- `as_create` and `proc_setas`, for a process without an address space. -/
  | asCreate
  /-- `as_define_region`, in the address space of the running process. -/
  | asDefineRegion (vaddr sz : Nat)
  /-- `as_destroy` of the address space of process `pid`, in `proc_destroy`. -/
  | asDestroy (pid : Nat)
deriving DecidableEq, Repr

namespace Machine

/-- The address spaces with the running process's put back. -/
def spaces (m : Machine) : List (Nat × AddrSpace) :=
  match m.vm.as with
  | some as => (m.current, as) :: m.parked
  | none => m.parked

/-- Run one action. `proc_destroy` takes the running process's own address space away before it
destroys it. -/
def exec (m : Machine) : Action → Option Machine
  | .run e =>
    if m.vm.as.isNone && e.isUser then none
    else (m.toSys.exec e).map fun s => { m with toSys := s }
  | .switch pid => some { m with
      vm := asActivate { m.vm with as := spaceOf m.spaces pid }
      parked := withoutSpace m.spaces pid
      current := pid
      last := if m.vm.as.isSome then m.current else m.last }
  | .asCreate =>
    match m.vm.as with
    | some _ => none
    | none => some { m with vm := asActivate { m.vm with as := some asCreate } }
  | .asDefineRegion vaddr sz =>
    match m.vm.as with
    | some as => some { m with vm := { m.vm with as := some (asDefineRegion as vaddr sz) } }
    | none => none
  | .asDestroy pid =>
    if pid = m.current then
      match m.vm.as with
      | some as =>
        match asDestroy { m.vm with as := none } as with
        | .ok vm => some { m with
            vm := vm
            released := m.released + (slotsOf as.pt.entries).length }
        | .error _ => none
      | none => none
    else
      match spaceOf m.parked pid with
      | some as =>
        match asDestroy m.vm as with
        | .ok vm => some { m with
            vm := vm
            parked := withoutSpace m.parked pid
            released := m.released + (slotsOf as.pt.entries).length }
        | .error _ => none
      | none => none

/-- One action that `allowed` admits in the state it starts from. -/
def Step (allowed : Machine → Action → Prop) (m : Machine) (a : Action) (m' : Machine) : Prop :=
  allowed m a ∧ m.exec a = some m'

/-- After `coremap_init`, `swap_init` and `stats_init`, before the first process. -/
structure Booted (m : Machine) : Prop where
  vm : ∃ s₀ s, PowerOn s₀ ∧ coremapInit s₀ = .ok s ∧ m.vm = { swapInit s with stats := statsInit }
  held : m.held = []
  parked : m.parked = []
  released : m.released = 0

/-! ## What each action has done -/

section Exec

variable {m m' : Machine}

theorem exec_run {e : Event} (h : m.exec (.run e) = some m') :
    (m.vm.as = none → e.isUser = false) ∧ m.toSys.exec e = some m'.toSys ∧
      m'.parked = m.parked ∧ m'.current = m.current ∧ m'.last = m.last ∧
      m'.released = m.released := by
  simp only [exec] at h
  split at h
  · cases h
  · rename_i hu
    obtain ⟨s, hs, rfl⟩ := Option.map_eq_some_iff.mp h
    grind

theorem exec_switch (h : m.exec (.switch pid) = some m') :
    m' = { m with
      vm := { m.vm with as := spaceOf m.spaces pid }
      parked := withoutSpace m.spaces pid
      current := pid
      last := if m.vm.as.isSome then m.current else m.last } := by
  simp only [exec, asActivate_eq] at h
  exact (Option.some.inj h).symm

theorem exec_asCreate (h : m.exec .asCreate = some m') :
    m.vm.as = none ∧ m' = { m with vm := { m.vm with as := some asCreate } } := by
  simp only [exec, asActivate_eq] at h
  grind

theorem exec_asDefineRegion {vaddr sz : Nat} (h : m.exec (.asDefineRegion vaddr sz) = some m') :
    ∃ as, m.vm.as = some as ∧
      m' = { m with vm := { m.vm with as := some (asDefineRegion as vaddr sz) } } := by
  simp only [exec] at h
  grind

/-- The address space destroyed is one of the machine's, and is gone; its slots and frames are
released, and the TLB is empty. -/
theorem exec_asDestroy (h : m.exec (.asDestroy pid) = some m') :
    ∃ as tlb as', m'.vm = { unmapped m.vm as.pt.entries with tlb := tlb, as := as' } ∧
      (∀ i < numTlb, (tlb i).valid = false) ∧
      (∀ i ∈ slotsOf as.pt.entries, m.vm.swaptable i = false) ∧
      (∀ f ∈ framesOf as.pt.entries, (m.vm.coremap f).status ≠ .fixed) ∧
      ((∀ i ∈ slotsOf as.pt.entries, i < swapSlots) →
        occupied m.vm = occupied m'.vm + (slotsOf as.pt.entries).length) ∧
      m'.held = m.held ∧ m'.current = m.current ∧
      m'.released = m.released + (slotsOf as.pt.entries).length ∧
      (m.vm.as = some as ∧ as' = none ∧ m'.parked = m.parked ∨
        spaceOf m.parked pid = some as ∧ as' = m.vm.as ∧
          m'.parked = withoutSpace m.parked pid) := by
  simp only [exec] at h
  split at h
  · split at h
    · rename_i as has
      split at h
      · rename_i vm hd
        cases h
        obtain ⟨tlb, hvm, hf, h1, h2, h3⟩ := asDestroy_ok hd
        exact ⟨as, tlb, none, hvm, hf, h1, h2, h3, rfl, rfl, rfl, Or.inl ⟨has, rfl, rfl⟩⟩
      · cases h
    · cases h
  · split at h
    · rename_i as has
      split at h
      · rename_i vm hd
        cases h
        obtain ⟨tlb, hvm, hf, h1, h2, h3⟩ := asDestroy_ok hd
        exact ⟨as, tlb, m.vm.as, hvm, hf, h1, h2, h3, rfl, rfl, rfl, Or.inr ⟨has, rfl, rfl⟩⟩
      · cases h
    · cases h

end Exec

/-! ## The address spaces -/

theorem mem_of_spaceOf (h : spaceOf l pid = some as) : (pid, as) ∈ l := by
  obtain ⟨p, hp, rfl⟩ := Option.map_eq_some_iff.mp h
  grind

theorem perm_withoutSpace (h : spaceOf l pid = some as) :
    l.Perm ((pid, as) :: withoutSpace l pid) := by
  obtain ⟨p, hp, rfl⟩ := Option.map_eq_some_iff.mp h
  have hpid : p.1 = pid := by simpa using List.find?_some hp
  obtain ⟨l₁, l₂, rfl, hpp, hl₁, -⟩ := find_split hp
  rw [withoutSpace, List.eraseP_append_right _ (by simpa using hl₁),
    List.eraseP_cons_of_pos (p := fun x : Nat × AddrSpace => x.1 == pid) hpp, ← hpid]
  exact List.perm_middle

theorem withoutSpace_of_none (h : spaceOf l pid = none) : withoutSpace l pid = l := by
  refine List.eraseP_of_forall_not fun p hp => ?_
  rw [spaceOf, Option.map_eq_none_iff, List.find?_eq_none] at h
  exact h p hp

/-- A switch only changes which of them is the running process's. -/
theorem perm_spaces_switch {m m' : Machine} (h : m.exec (.switch pid) = some m') :
    m.spaces.Perm m'.spaces := by
  obtain rfl := exec_switch h
  cases hfind : spaceOf m.spaces pid with
  | none =>
    simp only [spaces]
    exact (withoutSpace_of_none hfind).symm ▸ .refl _
  | some as => exact perm_withoutSpace hfind

theorem perm_spaces_asDestroy {m m' : Machine} 
    {as' : Option AddrSpace} (has' : m'.vm.as = as') (hcur : m'.current = m.current)
    (h : m.vm.as = some as ∧ as' = none ∧ m'.parked = m.parked ∨
      spaceOf m.parked pid = some as ∧ as' = m.vm.as ∧
        m'.parked = withoutSpace m.parked pid) :
    ∃ p, m.spaces.Perm ((p, as) :: m'.spaces) := by
  unfold spaces
  rcases h with ⟨has, rfl, hp⟩ | ⟨hfind, rfl, hp⟩
  · rw [has, has', hp]
    exact ⟨m.current, .refl _⟩
  · rw [has', hp, hcur]
    have hperm := perm_withoutSpace hfind
    grind

theorem withoutSpace_subset : withoutSpace l pid ⊆ l :=
  List.eraseP_subset

/-! ## A small machine -/

/-- A machine of `n` frames before its first process. -/
def small (n : Nat) : Machine := ⟨⟨smallVm n, []⟩, [], 0, 0, 0⟩

theorem booted_small {n : Nat} (h1 : 2 ≤ n) (h2 : n ≤ 256) : (small n).Booted :=
  ⟨⟨_, _, powerOn_smallMachine h2, coremapInit_smallMachine h1 h2, rfl⟩, rfl, rfl, rfl⟩

/-- Run a list of actions, each admitted by `allowed`. -/
def runAll (allowed : Machine → Action → Prop) [∀ m a, Decidable (allowed m a)] (m : Machine)
    (as : List Action) : Option Machine :=
  as.foldlM (fun m a => if allowed m a then m.exec a else none) m

theorem exists_run {allowed : Machine → Action → Prop} [∀ m a, Decidable (allowed m a)]
    {m : Machine} {as : List Action} {p : Machine → Bool}
    (h : (m.runAll allowed as).any p = true) :
    ∃ m', Run (Step allowed) m as m' ∧ p m' = true :=
  Run.exists_of_allowed h

end Machine

end OsPaging.Vm
