import Mathlib.Data.Set.Function
import OsPaging.Vm.Coherent

/-!
# Page table, coremap and swap table agree

`Agreement` says how the four tables of the VM system fit together between two operations: which
entries there are, that entries and frames correspond, and that entries and slots do.

`pt_search` compares with `vaddr + PAGE_SIZE` in 32-bit arithmetic and never finds an entry for
the last page of the address space. A second fault there adds a second entry
(`last_page_twice`); the region bound of `vm_fault` admits the page when a region ends right below
it. **`agreement`**: in runs without a fault on that page, the tables agree.
-/

namespace OsPaging.Vm

open OsPaging.Lib

/-- How the tables fit together between two operations. -/
structure Agreement (s : VmState) : Prop where
  distinct : (s.entries.map PtEntry.vaddr).Nodup
  aligned : ∀ e ∈ s.entries, e.vaddr % pageSize = 0
  count : s.npages = s.entries.length
  frames : Set.BijOn PtEntry.ppageIndex {e | e ∈ s.entries ∧ e.swapped = false}
    {f | f < s.nRamFrames ∧ (s.coremap f).status = .dirty}
  owner : ∀ e ∈ s.entries, e.swapped = false →
    s.firstFreeFrame ≤ e.ppageIndex ∧ e.ppageIndex < s.nRamFrames ∧
      (s.coremap e.ppageIndex).vaddr = e.vaddr ∧
      (s.coremap e.ppageIndex).paddr = e.ppageIndex * pageSize
  slots : Set.BijOn PtEntry.swapIndex {e | e ∈ s.entries ∧ e.swapped = true}
    {i | i < swapSlots ∧ s.swaptable i = false}
  kernel : ∀ f < s.firstFreeFrame, (s.coremap f).status = .fixed

/-- Kernel requests are for one page. -/
abbrev Event.singlePage (e : Event) : Prop := e.Meets (fun _ _ => True) fun npages => npages = 1

theorem Event.singlePage.wholeBlock {s : Sys} {e : Event} (h : e.singlePage) : e.wholeBlock s := by
  cases e with
  | kalloc npages => exact Or.inl h
  | _ => trivial

/-! ## Every occupied slot keeps its entry -/

theorem SlotsOnto.of_booted {s : Sys} (h : Booted s) : SlotsOnto s.vm := by
  intro i _ hocc
  rw [(booted_spec h).2.2.2.2.2.2.1 i] at hocc
  cases hocc

theorem SlotsOnto.step {s t : Sys} {e : Event} (h : SlotsOnto s.vm)
    (hco : CoherentSys ∅ [] s)
    (he : e.belowLastPage) (h1 : e.singlePage) (hx : s.exec e = some t) : SlotsOnto t.vm := by
  rcases exec_cases hx with ⟨m, rfl⟩ | ⟨faulttype, va, kpages, err, addrs, rfl, hf, -⟩ |
    ⟨npages, addr, rfl, -, -, ha, -⟩ | ⟨addr, n, rfl, -, hf, -⟩
  · exact h.same rfl rfl
  · rcases vmFault_ok hco.vm.pointer hf with ⟨-, -, hs⟩ | ⟨-, -, hf⟩
    · rw [hs]; exact h
    · exact (hco.vm.faulted (.empty _) (pageFrame_aligned va) (pageFrame_lt he) hf).2 h
  · obtain rfl : npages = 1 := h1
    obtain ⟨f, s₁, -, hs', ht⟩ := allocKpages_one hco.vm.toStarted ha
    rw [hs']
    exact (h.taken hco.vm.toLinked ht (Set.notMem_empty f)).same rfl rfl
  · obtain ⟨-, hrel⟩ := freeKpages_ok hco.vm.active hf
    rw [hrel, releaseFrames_eq]
    exact h.same rfl rfl

/-! ## The result -/

theorem CoherentSys.toAgreement {s : Sys} (h : CoherentSys ∅ [] s) (ho : SlotsOnto s.vm) :
    Agreement s.vm where
  distinct := h.vm.table.distinct
  aligned := h.vm.table.aligned
  count := h.vm.count
  frames := by
    refine ⟨fun e he => ?_, fun e he x hx hf => ?_, fun f hf => ?_⟩
    · exact ⟨(h.vm.frames e he.1).2, (h.vm.resident e he.1 he.2).1⟩
    · exact h.vm.eq_of_frame he.1 hx.1 he.2 hx.2 hf
    · -- a `DIRTY` frame is not one of the kernel's
      have h1 : s.vm.firstFreeFrame ≤ f := by
        by_contra hlt
        have hk := h.vm.kernel f (by omega)
        rw [hf.2] at hk
        cases hk
      obtain ⟨e, he, hs, hp, -⟩ := h.vm.linked f h1 hf.1 hf.2 (Set.notMem_empty f)
      exact ⟨e, ⟨he, hs⟩, hp⟩
  owner := by
    intro e he hs
    obtain ⟨h1, h2⟩ := h.vm.frames e he
    obtain ⟨hd, hv, -⟩ := h.vm.resident e he hs
    exact ⟨h1, h2, hv, h.vm.paddrs _ h1 h2 hd⟩
  slots := by
    have hnodup : (slotsOf s.vm.entries).Nodup := by simpa using h.slots.nodup
    refine ⟨fun e he => ?_, fun e he x hx hi => ?_, fun i hi => ?_⟩
    · exact h.slots.full _ (List.mem_append_left _ (mem_slotsOf.mpr ⟨e, he.1, he.2, rfl⟩))
    · exact slotsOf_inj hnodup he.1 hx.1 he.2 hx.2 hi
    · obtain ⟨e, he, hs, hei⟩ := mem_slotsOf.mp (ho i hi.1 hi.2)
      exact ⟨e, ⟨he, hs⟩, hei⟩
  kernel := h.vm.kernel

/-- **The tables agree** in every state of a run of faults, single-page kernel requests and
releases, none of the faults being on the last page. -/
theorem agreement {s₀ s : Sys} {es : List Event} (hb : Booted s₀)
    (hr : Run (Sys.Step fun _ e => e.singlePage ∧ e.belowLastPage) s₀ es s) :
    Agreement s.vm := by
  have key : CoherentSys ∅ [] s ∧ SlotsOnto s.vm := by
    refine hr.invariant (P := fun s => CoherentSys ∅ [] s ∧ SlotsOnto s.vm)
      ⟨.of_booted hb, .of_booted hb⟩ ?_
    rintro s e t ⟨hco, ho⟩ ⟨⟨h1, he⟩, hx⟩
    exact ⟨hco.step (.empty s e) he h1.wholeBlock hx, ho.step hco he h1 hx⟩
  exact key.1.toAgreement key.2

/-- Four pages, two of them in the swap file, and a page that the kernel holds. -/
theorem agreement_four_pages :
    ∃ s, Run (Sys.Step fun _ e => e.singlePage ∧ e.belowLastPage)
        (smallSys 5 [⟨0x400000, 0x8000, 8⟩])
        [.fault vmFaultWrite 0x400000 0, .fault vmFaultWrite 0x401000 0, .kalloc 1,
          .fault vmFaultRead 0x402000 0, .fault vmFaultRead 0x403000 0] s ∧
      (slotsOf s.vm.entries).length = 2 ∧ Agreement s.vm := by
  exact Run.exists_imp (Q := fun s => (slotsOf s.vm.entries).length = 2)
    (Sys.exists_run (by decide)) fun s hr hs =>
      ⟨hs, agreement (booted_smallSys (by decide) (by decide) _) hr⟩

/-- A region that ends right below the last page lets `vm_fault` map it, and `pt_search` does not
find it again: a second fault gives it a second entry and a second frame. -/
theorem last_page_twice :
    ∃ s, Booted (smallSys 5 [⟨0xffffe000, 0x1000, 1⟩]) ∧
      Run (Sys.Step fun _ e => e.singlePage) (smallSys 5 [⟨0xffffe000, 0x1000, 1⟩])
        [.fault vmFaultWrite 0xfffff000 0, .fault vmFaultWrite 0xfffff000 0] s ∧
      s.vm.entries.map PtEntry.vaddr = [0xfffff000, 0xfffff000] ∧ ¬ Agreement s.vm := by
  refine exists_and_left.mpr ⟨booted_smallSys (by decide) (by decide) _, ?_⟩
  refine Run.exists_imp (Q := fun s => s.vm.entries.map PtEntry.vaddr = [0xfffff000, 0xfffff000])
    (Sys.exists_run (by decide)) fun s _ hv => ⟨hv, fun h => ?_⟩
  have := h.distinct
  rw [hv] at this
  exact absurd this (by decide)

end OsPaging.Vm
