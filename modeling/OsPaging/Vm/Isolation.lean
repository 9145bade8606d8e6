import OsPaging.Vm.Processes
import OsPaging.Vm.TlbCoherence

/-!
# Isolation of processes

The TLB has no address-space tags here, and a context switch leaves it as it is: `as_activate`
does nothing. So the translations of the process that ran before are still there when another
process runs (`stale_translation`), and it reads and writes the frames of the first.

`as_destroy` does invalidate the TLB. **`isolation`**: as long as the TLB is empty whenever an
address space other than the last one used starts to be used, every translation that a process
runs with is one of its own page table, and every access it makes is to a frame of its own.
-/

namespace OsPaging.Vm

open OsPaging.Lib

namespace Machine

/-- No TLB entry is valid. -/
def Flushed (m : Machine) : Prop := ∀ i < numTlb, (m.vm.tlb i).valid = false

instance (m : Machine) : Decidable m.Flushed := inferInstanceAs (Decidable (∀ i < numTlb, _))

/-- The process whose translations the TLB may hold: the last one with an address space. -/
def loadedPid (m : Machine) : Nat := if m.vm.as.isSome then m.current else m.last

/-- Its address space. -/
def loaded (m : Machine) : Option AddrSpace :=
  match m.vm.as with
  | some as => some as
  | none => spaceOf m.parked m.last

/-- Faults are TLB misses at user addresses, and the TLB is empty when another address space comes
into use. -/
def FlushedSwitch (m : Machine) : Action → Prop
  | .run e => UserFault m.toSys e
  | .switch pid => (spaceOf m.spaces pid).isSome → pid = m.loadedPid ∨ m.Flushed
  | .asCreate => m.Flushed
  | _ => True

instance (m : Machine) : ∀ a : Action, Decidable (m.FlushedSwitch a)
  | .run e => inferInstanceAs (Decidable (UserFault m.toSys e))
  | .switch _ => inferInstanceAs (Decidable (_ → _))
  | .asCreate => inferInstanceAs (Decidable m.Flushed)
  | .asDefineRegion _ _ => .isTrue trivial
  | .asDestroy _ => .isTrue trivial

end Machine

/-! ## The invariant -/

/-- The TLB is coherent with the page table of the process whose translations it may hold. -/
structure Isolated (m : Machine) : Prop where
  tlb : Sound { m.vm with as := m.loaded }
  tables : ∀ p ∈ m.parked, PtWf p.2.pt.entries

/-- With an empty TLB any page table will do. -/
theorem Sound.of_flushed {s : VmState} (h : Sound s) {t : VmState} (hs : Started t)
    (hslot : t.tlbNextVictim = s.tlbNextVictim) (hf : ∀ i < numTlb, (t.tlb i).valid = false)
    (hw : PtWf t.entries) : Sound t :=
  ⟨⟨hs, hw⟩, .of_invalid hf, by rw [hslot]; exact h.slot⟩

/-- The same registers and tables, with another address space that has the same entries. -/
theorem Sound.same_entries {s : VmState} (h : Sound s) {as : Option AddrSpace}
    (he : ({ s with as := as } : VmState).entries = s.entries) : Sound { s with as := as } :=
  ⟨⟨{ h with }, by rw [he]; exact h.table⟩,
    by rw [he]; exact h.tlb, h.slot⟩

/-- A kernel thread's requests change no page table and no translation. -/
theorem Sound.stable_kernel (as : Option AddrSpace) :
    AllocStable fun s => s.as = none ∧ Sound { s with as := as } where
  select := fun h hn => ⟨h.1, h.2.select hn⟩
  swapOutVictim := fun {s s' victim} h ho => by
    obtain ⟨_, _, _, -, has, -⟩ := swapOutVictim_ok ho
    rw [h.1] at has
    cases has
  modifyFrame := fun h f g => ⟨h.1, h.2.modifyFrame f g⟩

namespace Isolated

variable {m m' : Machine}

theorem started (h : Isolated m) : Started m.vm :=
  { h.tlb with }

theorem sound (h : Isolated m) (has : m.vm.as.isSome) : Sound m.vm := by
  obtain ⟨as, has⟩ := Option.isSome_iff_exists.mp has
  have hl : m.loaded = m.vm.as := by simp [Machine.loaded, has]
  have := h.tlb
  rw [hl] at this
  exact this

theorem of_booted (h : m.Booted) : Isolated m := by
  obtain ⟨⟨s₀, s, hp, hi, hvm⟩, -, hparked, -⟩ := h
  obtain ⟨hs, has, -⟩ := coremapInit_spec hp hi
  obtain ⟨_, _, -, -, -, -, rfl⟩ := coremapInit_ok hp hi
  have hl : m.loaded = none := by
    rw [Machine.loaded, hvm, hparked]
    simp [swapInit, hp.as, spaceOf]
  refine ⟨?_, by simp [hparked]⟩
  rw [hl, hvm]
  exact ⟨⟨{ hs with }, .nil⟩, .of_invalid hp.tlb,
    by simp [swapInit, hp.tlbVictim]⟩

/-- An event of the running process, or of a kernel thread. -/
theorem run {e : Event} (h : Isolated m) (he : UserFault m.toSys e)
    (hx : m.exec (.run e) = some m') : Isolated m' := by
  obtain ⟨huser, hexec, hparked, -, hlast, -⟩ := Machine.exec_run hx
  obtain ⟨-, hc⟩ := exec_started h.started hexec
  refine ⟨?_, by rw [hparked]; exact h.tables⟩
  cases has : m.vm.as with
  | some as =>
    have hs := (h.sound (by simp [has])).step he hexec
    obtain ⟨as', has'⟩ := Option.isSome_iff_exists.mp (hc.process.trans (by simp [has]))
    have hl : m'.loaded = m'.vm.as := by simp [Machine.loaded, has']
    rw [hl]
    exact hs
  | none =>
    have has' : m'.vm.as = none := by
      have := hc.process
      rw [has] at this
      simpa using this
    have hl : m'.loaded = m.loaded := by simp [Machine.loaded, has, has', hparked, hlast]
    rw [hl]
    have hI : m.vm.as = none ∧ Sound { m.vm with as := m.loaded } := ⟨has, h.tlb⟩
    cases e with
    | load va v | store va v => exact absurd (huser has) (by simp [Event.isUser])
    | fault faulttype va kpages =>
      obtain ⟨err, addrs, hf, -⟩ := exec_fault hexec
      rcases vmFault_ok h.started.pointer hf with ⟨-, -, hs⟩ | ⟨-, ⟨as, hsome, -⟩, -⟩
      · rw [hs]; exact h.tlb
      · grind
    | kalloc npages =>
      obtain ⟨-, -, addr, ha, -⟩ := exec_kalloc hexec
      exact ((Sound.stable_kernel m.loaded).allocKpages h.started hI ha).2
    | kfree addr =>
      obtain ⟨n, -, hf, -⟩ := exec_kfree hexec
      exact ((Sound.stable_kernel m.loaded).freeKpages h.started hI hf).2
    | kwrite paddr v =>
      obtain ⟨-, hs⟩ := exec_kwrite hexec
      rw [hs]
      exact h.tlb.ram _

theorem spaces (h : Isolated m) : ∀ p ∈ m.spaces, PtWf p.2.pt.entries := by
  unfold Machine.spaces
  cases has : m.vm.as with
  | none => exact h.tables
  | some as =>
    have hw := (h.sound (by simp [has])).table
    simp only [VmState.entries, has] at hw
    exact List.forall_mem_cons.mpr ⟨hw, h.tables⟩

/-- The process that the TLB belongs to is found among all of them. -/
theorem loaded_eq (m : Machine) : m.loaded = spaceOf m.spaces m.loadedPid := by
  unfold Machine.loaded Machine.loadedPid Machine.spaces
  cases has : m.vm.as with
  | some as => simp [spaceOf]
  | none => simp

variable (h : Isolated m)
include h

/-- A switch to the process that the TLB belongs to, to a kernel thread, or with an empty TLB. -/
theorem switch {pid : Nat} (ha : m.FlushedSwitch (.switch pid))
    (hx : m.exec (.switch pid) = some m') : Isolated m' := by
  obtain rfl := Machine.exec_switch hx
  refine ⟨?_, fun p hp => h.spaces p (Machine.withoutSpace_subset hp)⟩
  cases hfind : spaceOf m.spaces pid with
  | some as =>
    simp only [Machine.loaded]
    rcases ha (by simp [hfind]) with rfl | hflush
    · have hl := h.tlb
      rw [loaded_eq, hfind] at hl
      exact hl
    · exact h.tlb.of_flushed { h.started with }
        rfl hflush (h.spaces _ (Machine.mem_of_spaceOf hfind))
  | none =>
    have hl : spaceOf (withoutSpace m.spaces pid) (if m.vm.as.isSome then m.current else m.last) =
        m.loaded := by
      rw [Machine.withoutSpace_of_none hfind, loaded_eq]
      rfl
    simp only [Machine.loaded, hl]
    exact h.tlb

theorem asCreate (hf : m.Flushed) (hx : m.exec .asCreate = some m') : Isolated m' := by
  obtain ⟨-, rfl⟩ := Machine.exec_asCreate hx
  exact ⟨h.tlb.of_flushed { h.started with }
    rfl hf .nil, h.tables⟩

theorem asDefineRegion {vaddr sz : Nat} (hx : m.exec (.asDefineRegion vaddr sz) = some m') :
    Isolated m' := by
  obtain ⟨as, has, rfl⟩ := Machine.exec_asDefineRegion hx
  exact ⟨(h.sound (by simp [has])).same_entries (by simp [VmState.entries, has,
    Vm.asDefineRegion, Machine.loaded]), h.tables⟩

theorem asDestroy {pid : Nat} (hx : m.exec (.asDestroy pid) = some m') : Isolated m' := by
  obtain ⟨as, tlb, as', hvm, hflush, -, -, -, -, -, -, hcase⟩ := Machine.exec_asDestroy hx
  have hparked : m'.parked ⊆ m.parked ∧ (as' = none ∨ as' = m.vm.as) := by
    rcases hcase with ⟨-, rfl, hp⟩ | ⟨-, rfl, hp⟩
    · grind
    · exact ⟨by rw [hp]; exact Machine.withoutSpace_subset, Or.inr rfl⟩
  have htables : ∀ p ∈ m'.parked, PtWf p.2.pt.entries := fun p hp => h.tables p (hparked.1 hp)
  have hstart : Started { m'.vm with as := m'.loaded } := by
    rw [hvm]
    exact { h.started with }
  refine ⟨h.tlb.of_flushed hstart (by rw [hvm]; rfl) (by rw [hvm]; exact hflush) ?_, htables⟩
  -- what the TLB belongs to now is a page table that was there before, or none
  have hl : ∀ x, m'.loaded = some x → PtWf x.pt.entries := by
    intro x hx
    unfold Machine.loaded at hx
    split at hx
    · rename_i y hy
      rw [hvm] at hy
      rcases hparked.2 with rfl | rfl
      · cases hy
      · have hy : m.vm.as = some y := hy
        have hw := (h.sound (by rw [hy]; rfl)).table
        simp only [VmState.entries, hy] at hw
        exact Option.some.inj hx ▸ hw
    · exact htables _ (Machine.mem_of_spaceOf hx)
  cases hm : m'.loaded with
  | none => exact .nil
  | some x => exact hl x hm

theorem step {a : Action} (ha : m.FlushedSwitch a) (hx : m.exec a = some m') : Isolated m' := by
  cases a with
  | run e => exact h.run ha hx
  | switch pid => exact h.switch ha hx
  | asCreate => exact h.asCreate ha hx
  | asDefineRegion vaddr sz => exact h.asDefineRegion hx
  | asDestroy pid => exact h.asDestroy hx

end Isolated

/-- **Isolation**: in every state that is reached with the TLB empty at each change of address
space, a process that runs has translations from its own page table only, and what it accesses is
in a frame of its own. -/
theorem isolation {m₀ m : Machine} {acts : List Action} {as : AddrSpace} (hb : m₀.Booted)
    (hr : Run (Machine.Step Machine.FlushedSwitch) m₀ acts m) (has : m.vm.as = some as) :
    (∀ i < numTlb, (m.vm.tlb i).valid = true → ∃ e ∈ as.pt.entries, e.swapped = false ∧
        (m.vm.tlb i).vpage = e.vaddr ∧ (m.vm.tlb i).ppage = e.ppageIndex * pageSize) ∧
      ∀ va write paddr, tlbAccess m.vm.tlb va write = .hit paddr → ∃ e ∈ as.pt.entries,
        e.swapped = false ∧ e.vaddr = pageFrame va ∧ paddr / pageSize = e.ppageIndex := by
  have h := hr.invariant (P := Isolated) (.of_booted hb) fun _ _ _ h ht => h.step ht.1 ht.2
  have hs := h.sound (by simp [has])
  have hmaps := hs.tlb.maps
  simp only [VmState.entries, has] at hmaps
  refine ⟨fun i hi hv => ?_, fun va write paddr hacc => ?_⟩
  · grind
  · obtain ⟨t, ht, rfl⟩ := tlbAccess_hit hacc
    obtain ⟨i, hi, rfl, hv, hvp⟩ := tlbHit_some ht
    grind

/-- Faults are TLB misses at user addresses; switches are free. -/
def Machine.UserFaults (m : Machine) : Action → Prop
  | .run e => UserFault m.toSys e
  | _ => True

instance (m : Machine) : ∀ a : Action, Decidable (m.UserFaults a)
  | .run e => inferInstanceAs (Decidable (UserFault m.toSys e))
  | .switch _ => .isTrue trivial
  | .asCreate => .isTrue trivial
  | .asDefineRegion _ _ => .isTrue trivial
  | .asDestroy _ => .isTrue trivial

/-- Two processes with a region at the same address. -/
abbrev twoProcesses : List Action :=
  [.switch 1, .asCreate, .asDefineRegion 0x400000 0x1000,
    .switch 2, .asCreate, .asDefineRegion 0x400000 0x1000]

/-- Process 2 stores a byte; process 1, which has no page, reads it after the switch. -/
theorem stale_translation : (Machine.small 8).Booted ∧
    ∃ m, Run (Machine.Step Machine.UserFaults) (Machine.small 8)
        (twoProcesses ++ [.run (.fault vmFaultWrite 0x400000 0), .run (.store 0x400000 42),
          .switch 1, .run (.load 0x400000 42)]) m ∧
      m.current = 1 ∧ m.vm.as = some ⟨[⟨0x400000, 0x1000, 1⟩], ptInit⟩ ∧
      tlbAccess m.vm.tlb 0x400000 false = .hit (2 * pageSize) := by
  refine ⟨Machine.booted_small (by decide) (by decide), ?_⟩
  exact Run.exists_imp (Machine.exists_run (by decide)) fun _ _ => id

/-- A process that comes back after a kernel thread still has its own translation. -/
theorem isolation_two_processes : (Machine.small 8).Booted ∧
    ∃ m as, Run (Machine.Step Machine.FlushedSwitch) (Machine.small 8)
        (twoProcesses ++ [.run (.fault vmFaultWrite 0x400000 0), .switch 0, .switch 2]) m ∧
      m.vm.as = some as ∧ tlbAccess m.vm.tlb 0x400000 true = .hit (2 * pageSize) ∧
      ∃ e ∈ as.pt.entries, e.swapped = false ∧ e.ppageIndex = 2 := by
  have hb := Machine.booted_small (n := 8) (by decide) (by decide)
  simp only [exists_and_left]
  refine ⟨hb, Run.exists_imp (Q := fun m => m.vm.as.isSome ∧
    tlbAccess m.vm.tlb 0x400000 true = .hit (2 * pageSize))
    (Machine.exists_run (by decide)) ?_⟩
  rintro m hr ⟨has, hacc⟩
  obtain ⟨as, has⟩ := Option.isSome_iff_exists.mp has
  obtain ⟨e, he, hs, -, hf⟩ := (isolation hb hr has).2 _ _ _ hacc
  exact ⟨as, has, hacc, e, he, hs, hf.symm⟩

end OsPaging.Vm
