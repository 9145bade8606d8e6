import OsPaging.Vm.Processes

/-!
# The statistics

`print_stats` prints the counters together with the laws they should satisfy. `StatsLaws` is these
laws as a statement about numbers, with the number of occupied slots and of slots released by
`pt_destroy`; each change of the counters keeps it for a reason of arithmetic.

What makes the changes match the swap file is that a slot that `swap_out` takes was empty, and
that one that `swap_in` or `pt_destroy` empties was occupied. `swap_out` looks, `swap_unmark`
asserts, and `swap_in` does neither: there it is the invariant `Slots`, over the page tables of
all processes. It holds for any number of processes, kernel requests of any size and faults at
any address, and so does **`stats_laws`**.
-/

namespace OsPaging.Vm

open OsPaging.Lib Function

/-! ## The laws -/

/-- The laws of the counters, for `occ` occupied slots and `released` released ones. -/
structure StatsLaws (occ released : Nat) (st : Stats) : Prop where
  tlb : st.tlbFaults = st.tlbFaultsWFree + st.tlbFaultsWReplace
  kinds : st.tlbFaults = st.tlbReloads + st.pageFaultsDisk + st.pageFaultsZero
  disk : st.pageFaultsDisk = st.pageFaultsElf + st.pageFaultsSwapfile
  slots : occ + st.pageFaultsSwapfile + released = st.swapfileWrites
  invalidations : st.tlbInvalidation ≤ st.swapfileWrites

/-- The counters and the slots of a state. -/
def Accounts (released : Nat) (s : VmState) : Prop := StatsLaws (occupied s) released s.stats

theorem tlbLoad_stats (s : VmState) (faultpage paddr : Nat) :
    (tlbLoad s faultpage paddr).stats =
        { s.stats with tlbFaultsWFree := s.stats.tlbFaultsWFree + 1 } ∨
      (tlbLoad s faultpage paddr).stats =
        { s.stats with tlbFaultsWReplace := s.stats.tlbFaultsWReplace + 1 } := by
  unfold tlbLoad tlbGetRrVictim tlbWrite
  split
  · exact Or.inl rfl
  · exact Or.inr rfl

theorem tlbLoad_occupied (s : VmState) (st : Stats) (faultpage paddr : Nat) :
    occupied (tlbLoad { s with stats := st } faultpage paddr) = occupied s := by
  unfold occupied
  rw [tlbLoad_swaptable]

namespace Accounts

variable {released : Nat} {s s' s₁ : VmState} {f vaddr faultpage paddr : Nat}

theorem same (h : Accounts released s) (ht : s'.swaptable = s.swaptable)
    (hs : s'.stats = s.stats) : Accounts released s' := by
  unfold Accounts occupied
  rw [ht, hs]
  exact h

/-- `swap_out` takes an empty slot and drops at most one translation. -/
theorem swapOutVictim {victim : Int} (h : Accounts released s)
    (ho : Vm.swapOutVictim s victim = .ok s') : Accounts released s' := by
  obtain ⟨f, e, index, -, -, -, -, -, hlt, hempty, rfl⟩ := swapOutVictim_ok ho
  have hocc : occupied (swappedOut s e.vaddr (s.coremap f).paddr index) = occupied s + 1 := by
    have h1 := countP_update_true (t := update s.swaptable index false) hlt
      (update_self index false s.swaptable)
    rw [update_idem, ← hempty, update_eq_self] at h1
    exact h1
  have hdrop : tlbDropped s.tlb e.vaddr ≤ 1 := by
    unfold tlbDropped
    split <;> omega
  have h4 := h.slots
  have h5 := h.invalidations
  refine ⟨h.tlb, h.kinds, h.disk, ?_, ?_⟩
  · rw [hocc]
    simp only [swappedOut]
    omega
  · simp only [swappedOut]
    omega

theorem stable (released : Nat) : AllocStable (Accounts released) :=
  ⟨fun h _ => h, Accounts.swapOutVictim, fun h _ _ => h⟩

variable (h : Accounts released s)
include h

theorem fresh (faultpage paddr : Nat) :
    Accounts released (tlbLoad { s with stats := s.stats.fresh } faultpage paddr) := by
  obtain ⟨h1, h2, h3, h4, h5⟩ := h
  unfold Accounts
  rw [tlbLoad_occupied]
  rcases tlbLoad_stats { s with stats := s.stats.fresh } faultpage paddr with hst | hst <;>
  · rw [hst]
    simp only [Stats.fresh]
    constructor <;> simp only <;> omega

theorem reload (faultpage paddr : Nat) :
    Accounts released (tlbLoad { s with stats := s.stats.reload } faultpage paddr) := by
  obtain ⟨h1, h2, h3, h4, h5⟩ := h
  unfold Accounts
  rw [tlbLoad_occupied]
  rcases tlbLoad_stats { s with stats := s.stats.reload } faultpage paddr with hst | hst <;>
  · rw [hst]
    simp only [Stats.reload]
    constructor <;> simp only <;> omega

/-- The end of a fault on a page in the swap file, whose slot was occupied. -/
theorem swapin {index : Nat} (hlt : index < swapSlots) (hfull : s.swaptable index = false)
    (f faultpage paddr : Nat) :
    Accounts released (tlbLoad { pagedIn s f faultpage index with stats := s.stats.swapin }
      faultpage paddr) := by
  have hocc : occupied s = occupied (pagedIn s f faultpage index) + 1 :=
    countP_update_true hlt hfull
  obtain ⟨h1, h2, h3, h4, h5⟩ := h
  unfold Accounts
  rw [tlbLoad_occupied]
  rcases tlbLoad_stats { pagedIn s f faultpage index with stats := s.stats.swapin } faultpage paddr
    with hst | hst <;>
  · rw [hst]
    simp only [Stats.swapin]
    constructor <;> simp only <;> omega

theorem faulted (hs : Started s) {others : List Nat} (hsl : Slots others s) {kpages : Nat}
    {addrs : List Nat} (hf : Faulted s faultpage kpages addrs s') : Accounts released s' := by
  have hst := stable released
  cases hf with
  | @fresh f addrs s₁ s₂ hnone _ ht hk =>
    have hkm := hst.kmallocPages ((hs.taken ht).modifyFrame f _)
      (hst.modifyFrame (hst.taken h ht) f _) hk
    exact Accounts.fresh (s := linkEntry s₂ f faultpage) (hkm.same rfl rfl) faultpage _
  | @swapin f e e₁ s₁ he hsw ht he₁ hs₁ =>
    have hsl₁ := hsl.taken ht
    have hmem : e₁.swapIndex ∈ slotsOf s₁.entries :=
      mem_slotsOf.mpr ⟨e₁, List.mem_of_find?_eq_some he₁, hs₁, rfl⟩
    obtain ⟨hlt, hfull⟩ := hsl₁.full _ (List.mem_append_left _ hmem)
    exact (hst.taken h ht).swapin hlt hfull f faultpage _
  | reload he hsw => exact h.reload faultpage _

end Accounts

/-! ## The machine -/

namespace Machine

/-- The slots of the processes that do not run. -/
def parkedSlots (m : Machine) : List Nat := m.parked.flatMap fun p => slotsOf p.2.pt.entries

/-- The slots of all processes. -/
def slots (m : Machine) : List Nat := m.spaces.flatMap fun p => slotsOf p.2.pt.entries

theorem slots_eq (m : Machine) : slotsOf m.vm.entries ++ m.parkedSlots = m.slots := by
  unfold slots spaces parkedSlots VmState.entries
  cases m.vm.as with
  | none => rfl
  | some as => rw [List.flatMap_cons]

end Machine

/-- The counters obey their laws, and the slots of all page tables are distinct and occupied. -/
structure Accounted (m : Machine) : Prop where
  started : Started m.vm
  slots : Slots m.parkedSlots m.vm
  laws : Accounts m.released m.vm

namespace Accounted

variable {m m' : Machine}

theorem of_booted (h : m.Booted) : Accounted m := by
  obtain ⟨⟨s₀, s, hp, hi, hvm⟩, -, hparked, hrel⟩ := h
  obtain ⟨hs, has, -⟩ := coremapInit_spec hp hi
  have hslots : m.parkedSlots = [] := by simp [Machine.parkedSlots, hparked]
  have hent : m.vm.entries = [] := by simp [hvm, VmState.entries, swapInit, has]
  refine ⟨?_, ⟨by simp [hslots, hent, slotsOf], by simp [hslots, hent, slotsOf]⟩, ?_⟩
  · rw [hvm]
    exact { hs with }
  · rw [hrel, hvm]
    refine ⟨rfl, rfl, rfl, ?_, Nat.le_refl 0⟩
    simp [occupied, swapInit, statsInit]

variable (h : Accounted m)
include h

/-- The page tables may move between the running process and the others. -/
theorem move (hs : Started m'.vm) (hp : m.slots.Perm m'.slots)
    (ht : m'.vm.swaptable = m.vm.swaptable) (hst : m'.vm.stats = m.vm.stats)
    (hr : m'.released = m.released) : Accounted m' := by
  have hslots := h.slots
  refine ⟨hs, ⟨?_, fun i hi => ?_⟩, by rw [hr]; exact h.laws.same ht hst⟩
  · rw [m'.slots_eq]
    exact hp.nodup_iff.mp (m.slots_eq ▸ hslots.nodup)
  · rw [m'.slots_eq, ← hp.mem_iff, ← m.slots_eq] at hi
    rw [ht]
    exact hslots.full i hi

theorem run {e : Event} (hx : m.exec (.run e) = some m') : Accounted m' := by
  obtain ⟨-, hexec, hparked, -, -, hrel⟩ := Machine.exec_run hx
  obtain ⟨hs, -⟩ := exec_started h.started hexec
  have hps : m'.parkedSlots = m.parkedSlots := by simp [Machine.parkedSlots, hparked]
  suffices hboth : Slots m.parkedSlots m'.vm ∧ Accounts m.released m'.vm from
    ⟨hs, by rw [hps]; exact hboth.1, by rw [hrel]; exact hboth.2⟩
  exact ((Slots.stable m.parkedSlots).and (Accounts.stable m.released)).exec h.started
    ⟨h.slots, h.laws⟩ (fun _ => ⟨h.slots.same rfl rfl, h.laws⟩)
    (fun _ _ _ _ _ _ _ _ hf =>
      ⟨h.slots.faulted h.started hf, h.laws.faulted h.started h.slots hf⟩) hexec

theorem switch {pid : Nat} (hx : m.exec (.switch pid) = some m') : Accounted m' := by
  have hperm := (Machine.perm_spaces_switch hx).flatMap_right
    fun p : Nat × AddrSpace => slotsOf p.2.pt.entries
  obtain rfl := Machine.exec_switch hx
  exact h.move { h.started with } hperm rfl rfl rfl

/-- `as_destroy` empties the slots of the page table, and counts them. -/
theorem asDestroy {pid : Nat} (hx : m.exec (.asDestroy pid) = some m') : Accounted m' := by
  obtain ⟨as, tlb, as', hvm, -, -, -, hocc, -, hcur, hrel, hcase⟩ := Machine.exec_asDestroy hx
  obtain ⟨p, hsp⟩ := Machine.perm_spaces_asDestroy (by rw [hvm]) hcur hcase
  have hperm : m.slots.Perm (slotsOf as.pt.entries ++ m'.slots) :=
    hsp.flatMap_right fun p : Nat × AddrSpace => slotsOf p.2.pt.entries
  have hnodup := hperm.nodup_iff.mp (m.slots_eq ▸ h.slots.nodup)
  have hfull : ∀ i ∈ slotsOf as.pt.entries ++ m'.slots,
      i < swapSlots ∧ m.vm.swaptable i = false := fun i hi =>
    h.slots.full i (by rw [m.slots_eq]; exact hperm.mem_iff.mpr hi)
  obtain ⟨-, hrest, hdis⟩ := List.nodup_append.mp hnodup
  have hocc := hocc fun i hi => (hfull i (List.mem_append_left _ hi)).1
  refine ⟨?_, ⟨by rw [m'.slots_eq]; exact hrest, fun i hi => ?_⟩, ?_⟩
  · rw [hvm]
    exact { h.started with }
  · rw [m'.slots_eq] at hi
    obtain ⟨h1, h2⟩ := hfull i (List.mem_append_right _ hi)
    refine ⟨h1, ?_⟩
    rw [hvm]
    simp only [unmapped]
    grind
  · have hst : m'.vm.stats = m.vm.stats := by rw [hvm]; rfl
    have hslots := h.laws.slots
    refine ⟨hst ▸ h.laws.tlb, hst ▸ h.laws.kinds, hst ▸ h.laws.disk, ?_, hst ▸ h.laws.invalidations⟩
    rw [hrel, hst]
    omega

theorem step {a : Action} (hx : m.exec a = some m') : Accounted m' := by
  have hs := h.started
  cases a with
  | run e => exact h.run hx
  | switch pid => exact h.switch hx
  | asCreate =>
    obtain ⟨has, rfl⟩ := Machine.exec_asCreate hx
    refine h.move { hs with } ?_ rfl rfl rfl
    simp [Machine.slots, Machine.spaces, has, asCreate, ptInit, slotsOf]
  | asDefineRegion vaddr sz =>
    obtain ⟨as, has, rfl⟩ := Machine.exec_asDefineRegion hx
    refine h.move { hs with } ?_ rfl rfl rfl
    simp [Machine.slots, Machine.spaces, has, asDefineRegion]
  | asDestroy pid => exact h.asDestroy hx

end Accounted

/-- **The published laws of the statistics** hold in every state that is reached. -/
theorem stats_laws {m₀ m : Machine} {acts : List Action} (hb : m₀.Booted)
    (hr : Run (Machine.Step fun _ _ => True) m₀ acts m) :
    m.vm.stats.tlbFaults = m.vm.stats.tlbFaultsWFree + m.vm.stats.tlbFaultsWReplace ∧
      m.vm.stats.tlbFaults =
        m.vm.stats.tlbReloads + m.vm.stats.pageFaultsDisk + m.vm.stats.pageFaultsZero ∧
      m.vm.stats.pageFaultsDisk = m.vm.stats.pageFaultsElf + m.vm.stats.pageFaultsSwapfile ∧
      (m.vm.stats.pageFaultsSwapfile + m.released ≤ m.vm.stats.swapfileWrites ∧
        occupied m.vm =
          m.vm.stats.swapfileWrites - m.vm.stats.pageFaultsSwapfile - m.released) ∧
      m.vm.stats.tlbInvalidation ≤ m.vm.stats.swapfileWrites := by
  obtain ⟨-, -, h1, h2, h3, h4, h5⟩ := hr.invariant (P := Accounted) (.of_booted hb)
    fun _ _ _ h ht => h.step ht.2
  exact ⟨h1, h2, h3, by omega, h5⟩

/-- Four pages on three frames, one of them swapped out and in again, and the process destroyed
with a page in the swap file. -/
theorem stats_laws_three_frames : (Machine.small 5).Booted ∧
    ∃ m, Run (Machine.Step fun _ _ => True) (Machine.small 5)
        [.switch 1, .asCreate, .asDefineRegion 0x400000 0x8000,
          .run (.fault vmFaultWrite 0x400000 0), .run (.fault vmFaultRead 0x401000 0),
          .run (.fault vmFaultRead 0x402000 0), .run (.fault vmFaultRead 0x403000 0),
          .run (.fault vmFaultRead 0x400000 0), .switch 0, .asDestroy 1] m ∧
      (m.vm.stats.swapfileWrites = 2 ∧ m.released = 1) ∧ occupied m.vm = 0 := by
  have hb := Machine.booted_small (n := 5) (by decide) (by decide)
  refine ⟨hb, Run.exists_imp (Q := fun m => (m.vm.stats.swapfileWrites = 2 ∧ m.released = 1) ∧
    m.vm.stats.pageFaultsSwapfile = 1) (Machine.exists_run (by decide)) ?_⟩
  rintro m hr ⟨hm, hin⟩
  obtain ⟨-, -, -, ⟨-, hocc⟩, -⟩ := stats_laws hb hr
  rw [hm.1, hin, hm.2] at hocc
  exact ⟨hm, hocc⟩

end OsPaging.Vm
