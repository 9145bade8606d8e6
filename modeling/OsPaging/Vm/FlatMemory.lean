import OsPaging.Lib.Flat
import OsPaging.Vm.Accesses

/-!
# Demand paging refines flat memory

One process, with faults raised on TLB misses at user addresses, and a kernel that allocates and
frees single pages and writes in the pages it holds (`OneProcess`). The relation to flat memory
is: what a cell of flat memory holds is the process's byte at that address, wherever it is.
`paging_refines_flat` is the simulation, and **`load_returns_last_store`** its consequence for a
load.
-/

namespace OsPaging.Vm

open OsPaging.Lib

/-- The access that an event is. -/
def Event.access : Event → MemOp Nat UInt8
  | .load va v => .load va v
  | .store va v => .store va v
  | _ => .silent

/-- Faults are TLB misses at user addresses, and kernel requests are for one page. -/
abbrev OneProcess (s : Sys) (e : Event) : Prop :=
  e.Meets (fun va _ => va < userSpaceTop ∧ tlbHit s.vm.tlb va = none) fun npages => npages = 1

/-! ## The refinement -/

/-- What flat memory holds is what the process's pages hold. -/
structure Holds (s : Sys) (m : Nat → Option UInt8) : Prop where
  sys : CoherentSys ∅ [] s
  tlb : Sound s.vm
  bytes : ∀ va b, m va = some b → s.vm.userByte va = some b

/-- Every event of the system is the access of flat memory that it says it is. -/
theorem Holds.step {s t : Sys} {m : Nat → Option UInt8} {e : Event} (h : Holds s m)
    (he : OneProcess s e) (hx : s.exec e = some t) :
    ∃ m', Flat.Step m e.access m' ∧ Holds t m' := by
  have huser : UserFault s e := by
    cases e with
    | fault => exact he
    | _ => trivial
  have hbelow := belowLastPage_of_userFault huser
  have hwhole : e.wholeBlock s ∧ e.dirtyWindow s := by
    cases e with
    | kalloc npages =>
      obtain rfl : npages = 1 := he
      exact ⟨Or.inl rfl, dirtyWindow_one h.sys.vm.pointer⟩
    | _ => exact ⟨trivial, trivial⟩
  have hsys := h.sys.step (.empty s e) hbelow hwhole.1 hx
  have htlb := h.tlb.step huser hx
  have hquiet : (∀ va v, e ≠ .store va v) → Flat.write m e.access = m := by
    cases e with
    | store va v => exact fun hne => absurd rfl (hne va v)
    | _ => exact fun _ => rfl
  have hload : ∀ a v w, e.access = .load a v → m a = some w → v = w := by
    intro a v w hop hm
    cases e with
    | load va v' =>
      cases hop
      obtain ⟨-, -, te, hte, hv⟩ := exec_load hx
      have hb := h.bytes _ w hm
      rw [userByte_hit h.tlb hte, hv] at hb
      exact Option.some.inj hb
    | _ => exact absurd hop (by simp [Event.access])
  refine ⟨_, ⟨rfl, hload⟩, hsys, htlb, fun a b hb => ?_⟩
  obtain ⟨-, hstep⟩ := exec_bytes h.sys (by simp) (.empty _ _) (fun _ => h.tlb) hbelow hwhole.2 hx
  cases hstep with
  | store hst =>
    rw [hst]
    simp only [Event.access, Flat.write, Function.update_apply] at hb
    split_ifs at hb ⊢
    · exact hb
    · exact h.bytes a b hb
  | fresh hnone _ hnew =>
    have hold := h.bytes a b hb
    -- an address of the new page had no byte before
    rw [hnew, if_neg]
    · exact hold
    · intro hpage
      rw [userByte_none h.sys.vm.table] at hold
      · cases hold
      · rw [hpage, ← pageFrame_pageFrame]
        exact h.sys.vm.table.search_none.mp hnone
  | same hne hsame =>
    rw [hsame]
    rw [hquiet hne] at hb
    exact h.bytes a b hb

/-- **The simulation**: a run of the system is a run of flat memory over its accesses. -/
theorem paging_refines_flat {s₀ s : Sys} {es : List Event} (hb : Booted s₀)
    (hr : Run (Sys.Step OneProcess) s₀ es s) :
    ∃ m, Run Flat.Step (fun _ => none) (es.map Event.access) m ∧ Holds s m :=
  hr.sim (R := Holds) ⟨.of_booted hb, .of_booted hb, by simp⟩ fun _ _ _ _ h ht =>
    h.step ht.1 ht.2

/-- **A load returns the last value stored**, however often the page was swapped out and in and
its translation dropped and reloaded in between. -/
theorem load_returns_last_store {s₀ s : Sys} {es : List Event} {va : Nat} {v w : UInt8}
    (hb : Booted s₀) (hr : Run (Sys.Step OneProcess) s₀ (es ++ [.load va v]) s)
    (hw : Flat.lastStore (es.map Event.access) va = some w) : v = w := by
  obtain ⟨m, hm, -⟩ := paging_refines_flat hb hr
  rw [List.map_append] at hm
  exact Flat.load_last hm hw

/-- A page that is stored to, swapped out, and brought back. -/
abbrev swapAndReturn : List Event :=
  [.fault vmFaultWrite 0x400010 0, .store 0x400010 7, .fault vmFaultRead 0x401000 0, .kalloc 1,
    .fault vmFaultRead 0x402000 0, .fault vmFaultRead 0x400010 0]

/-- On three frames, the load after `swapAndReturn` is possible, and returns the value stored. -/
theorem load_returns_last_store_three_frames :
    (∃ s, Run (Sys.Step OneProcess) (smallSys 5 [⟨0x400000, 0x8000, 8⟩])
        (swapAndReturn ++ [.load 0x400010 7]) s ∧
      decide (s.vm.stats.pageFaultsSwapfile = 1) = true) ∧
    ∀ v s, Run (Sys.Step OneProcess) (smallSys 5 [⟨0x400000, 0x8000, 8⟩])
        (swapAndReturn ++ [.load 0x400010 v]) s → v = 7 :=
  ⟨Sys.exists_run (by decide), fun _ _ hr =>
    load_returns_last_store (booted_smallSys (by decide) (by decide) _) hr (by decide)⟩

end OsPaging.Vm
