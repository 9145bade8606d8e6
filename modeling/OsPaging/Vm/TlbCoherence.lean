import OsPaging.Vm.System

/-!
# The TLB and the page table

`Sound s`: the TLB is coherent with the running process's page table (`TlbCoherent`). Slots are
overwritten in round-robin order and pages are swapped out in another; coherence survives because
every swap-out invalidates the page's entry, also one inside a fault that has not loaded its
translation yet. Each write of the VM code keeps `Sound`, for kernel requests of any size; the
load at the end of a fault needs the fault to be for a user page that no valid entry maps
(`UserFault`), which is when the processor raises it.

**`tlb_coherent`** is the result for whole runs, **`fault_then_hit`** what the access that faulted
finds when it is made again.
-/

namespace OsPaging.Vm

open OsPaging.Lib

/-- The TLB agrees with the page table. -/
structure Sound (s : VmState) : Prop extends Ready s where
  tlb : TlbCoherent s.tlb s.entries
  slot : s.tlbNextVictim < numTlb

namespace Sound

variable {s s' s₁ t : VmState} {f n vaddr index page : Nat} {e : PtEntry}

theorem modifyFrame (h : Sound s) (f : Nat) (g : CoremapEntry → CoremapEntry) :
    Sound (s.modifyFrame f g) :=
  ⟨h.toReady.modifyFrame f g, h.tlb, h.slot⟩

theorem select (h : Sound s) {next : Nat} (hn : s.firstFreeFrame ≤ next) :
    Sound { s with nextVictim := next } :=
  ⟨h.toReady.select hn, h.tlb, h.slot⟩

/-- A swap-out drops the page's translation before the page stops being resident. -/
theorem swapOutVictim {victim : Int} (h : Sound s)
    (ho : Vm.swapOutVictim s victim = .ok s') : Sound s' := by
  have hr := h.toReady.swapOutVictim ho
  obtain ⟨_, e, index, -, -, hfind, -, hev, -, -, rfl⟩ := swapOutVictim_ok ho
  rw [← hev] at hfind
  have he := List.mem_of_find?_eq_some hfind
  obtain ⟨hd, hmiss⟩ := h.tlb.drop (h.table.aligned e he)
  refine ⟨hr, ?_, h.slot⟩
  rw [swappedOut_entries]
  refine hd.mono fun x hx _ => ?_
  rintro ⟨i, hi, hv, hvp⟩
  refine (h.table.mem_update hfind).mpr (Or.inr ⟨hx, ?_⟩)
  rw [← hvp]
  exact hmiss i hi hv

theorem stable : AllocStable Sound :=
  ⟨fun h hn => h.select hn, Sound.swapOutVictim, Sound.modifyFrame⟩

theorem taken (h : Sound s) (ht : FrameTaken s f s₁) : Sound s₁ := stable.taken h ht

theorem link (h : Sound s) (f vaddr : Nat) (hp : s.as.isSome)
    (hb : pageFrame vaddr + pageSize < wordSize)
    (hnew : s.entries.find? (ptMatch vaddr) = none) : Sound (linkEntry s f vaddr) := by
  refine ⟨h.toReady.link hp hb hnew, ?_, h.slot⟩
  rw [linkEntry_entries hp]
  exact h.tlb.mono fun x hx _ _ => List.mem_cons_of_mem _ hx

/-- The page brought in was swapped out, so no valid entry is for it. -/
theorem pagedIn (h : Sound s) (f index : Nat) (hfind : s.entries.find? (ptMatch vaddr) = some e)
    (hs : e.swapped = true) : Sound (Vm.pagedIn s f vaddr index) := by
  refine ⟨h.toReady.pagedIn f vaddr index, ?_, h.slot⟩
  rw [pagedIn_entries]
  refine h.tlb.mono fun x hx hsx _ => (h.table.mem_update hfind).mpr (Or.inr ⟨hx, ?_⟩)
  intro hv
  rw [h.table.eq_of_vaddr (List.mem_of_find?_eq_some hfind) hx hv, hs] at hsx
  cases hsx

/-- Loading the translation of a resident user page that misses. -/
theorem load (h : Sound s) (st : Stats) (he : e ∈ s.entries) (hs : e.swapped = false)
    (hu : e.vaddr < userSpaceTop) (hm : TlbMisses s.tlb e.vaddr) :
    Sound (tlbLoad { s with stats := st } e.vaddr (e.ppageIndex * pageSize)) := by
  have hsame := sameTables_tlbLoad s st e.vaddr (e.ppageIndex * pageSize)
  obtain ⟨k, hk, hbelow, htlb, hslot⟩ := tlbLoad_slot (s := { s with stats := st }) h.slot e.vaddr
    (e.ppageIndex * pageSize)
  have hvp : (TlbEntry.mk e.vaddr (e.ppageIndex * pageSize ||| tlbloDirty ||| tlbloValid)).vpage =
      e.vaddr :=
    pageFrame_of_aligned (h.table.aligned e he)
  refine ⟨h.toReady.same hsame, ?_, hslot⟩
  rw [htlb, hsame.entries]
  exact h.tlb.load he hs hvp (ppage_load _ (Nat.mul_mod_left _ _)) (dirty_load _)
    (by rw [hvp]; exact hu) hk hbelow (by rw [hvp]; exact hm)

end Sound

theorem FrameTaken.misses {s s₁ : VmState} {f page : Nat} (ht : FrameTaken s f s₁)
    (h : TlbMisses s.tlb page) : TlbMisses s₁.tlb page := by
  obtain ⟨-, -, ⟨-, rfl⟩ | ⟨-, -, hout⟩⟩ := ht
  · exact h
  · obtain ⟨_, e, index, -, -, -, -, -, -, -, rfl⟩ := swapOutVictim_ok hout
    exact h.drop e.vaddr

namespace Sound

variable {s s' : VmState} {n faultpage kpages : Nat} {addrs : List Nat}

theorem faulted (h : Sound s) (hp : s.as.isSome) (ha : faultpage % pageSize = 0)
    (hu : faultpage < userSpaceTop) (hm : TlbMisses s.tlb faultpage)
    (hf : Faulted s faultpage kpages addrs s') : Sound s' := by
  cases hf with
  | @fresh f addrs s₁ s₂ hnone _ ht hk =>
    -- along the pages `kmalloc` gets, the fault's page has no entry and no translation
    obtain ⟨-, h₂, hnone₂, hm₂, hp₂⟩ := kmallocPages_ind
      (I := fun _ t => Sound t ∧ t.entries.find? (ptMatch faultpage) = none ∧
        TlbMisses t.tlb faultpage ∧ t.as.isSome = true)
      ((h.taken ht).modifyFrame f _).toStarted
      ⟨(h.taken ht).modifyFrame f _, ht.find_none hnone, ht.misses hm,
        (ht.constants.process).trans hp⟩
      (fun _ t t₁ g _ hI htg => ⟨(hI.1.taken htg).modifyFrame g _, htg.find_none hI.2.1,
        htg.misses hI.2.2.1, (htg.constants.process).trans hI.2.2.2⟩) hk
    have hlink := h₂.link f faultpage hp₂ (by
      rw [pageFrame_of_aligned ha]
      simp only [pageSize, wordSize, userSpaceTop, mipsKseg0] at *
      omega) hnone₂
    have hmem : { vaddr := faultpage, ppageIndex := f, swapped := false, swapIndex := 0 } ∈
        (linkEntry s₂ f faultpage).entries := by
      rw [linkEntry_entries hp₂, pageFrame_of_aligned ha]
      exact List.mem_cons_self
    exact hlink.load s₂.stats.fresh hmem rfl hu hm₂
  | @swapin f e e₁ s₁ he hs ht he₁ hs₁ =>
    have hin := (h.taken ht).pagedIn f e₁.swapIndex he₁ hs₁
    have hv : e₁.vaddr = faultpage := by
      rw [((h.taken ht).table.search_some.mp he₁).2, pageFrame_of_aligned ha]
    have hmem : { e₁ with ppageIndex := f, swapped := false } ∈
        (Vm.pagedIn s₁ f faultpage e₁.swapIndex).entries := by
      rw [pagedIn_entries]
      exact ((h.taken ht).table.mem_update he₁).mpr (Or.inl rfl)
    have := hin.load s₁.stats.swapin hmem rfl (by rw [hv]; exact hu)
      (by rw [hv]; exact ht.misses hm)
    simpa only [hv] using this
  | @reload e he hs =>
    obtain ⟨hmem, hv⟩ := h.table.search_some.mp he
    rw [pageFrame_of_aligned ha] at hv
    have := h.load s.stats.reload hmem hs (by rw [hv]; exact hu) (by rw [hv]; exact hm)
    rwa [hv] at this

theorem ram (h : Sound s) (m : Nat → UInt8) : Sound { s with ram := m } :=
  ⟨h.toReady.same ⟨rfl, rfl, rfl, rfl, rfl, rfl⟩, h.tlb, h.slot⟩

end Sound

/-! ## Runs -/

/-- Faults are raised for user addresses that no valid entry translates. -/
abbrev UserFault (s : Sys) (e : Event) : Prop :=
  e.Meets (fun va _ => va < userSpaceTop ∧ tlbHit s.vm.tlb va = none) fun _ => True

theorem Sound.of_booted {s : Sys} (h : Booted s) : Sound s.vm := by
  obtain ⟨hr, -, -, -, -, -, -, hslot, htlb, -⟩ := booted_spec h
  exact ⟨hr, .of_invalid htlb, by rw [hslot]; decide⟩

theorem pageFrame_le (va : Nat) : pageFrame va ≤ va := Nat.div_mul_le_self va pageSize

theorem Sound.step {s t : Sys} {e : Event} (h : Sound s.vm) (he : UserFault s e)
    (hx : s.exec e = some t) : Sound t.vm := by
  refine Sound.stable.exec h.toStarted h h.ram (fun _ va _ _ as hva has _ hf => ?_) hx
  subst hva
  exact h.faulted (by rw [has]; rfl) (pageFrame_aligned va)
    (Nat.lt_of_le_of_lt (pageFrame_le va) he.1) (tlbHit_none.mp he.2) hf

theorem Sound.run {allowed : Sys → Event → Prop} (hle : ∀ s e, allowed s e → UserFault s e)
    {s₀ s : Sys} (hb : Booted s₀) {es : List Event} (hr : Run (Sys.Step allowed) s₀ es s) :
    Sound s.vm :=
  hr.invariant (P := fun s => Sound s.vm) (.of_booted hb) fun _ _ _ h ht =>
    h.step (hle _ _ ht.1) ht.2

/-- **TLB coherence**: in every state that a run reaches, each valid entry maps the page of an
entry that is not swapped out to that entry's frame, writable; no two valid entries have the same
page, none is for a page that is swapped out, and no write raises `VM_FAULT_READONLY`. -/
theorem tlb_coherent {s₀ s : Sys} {es : List Event} (hb : Booted s₀)
    (hr : Run (Sys.Step UserFault) s₀ es s) :
    (∀ i < numTlb, (s.vm.tlb i).valid = true → ∃ e ∈ s.vm.entries, e.swapped = false ∧
        (s.vm.tlb i).vpage = e.vaddr ∧ (s.vm.tlb i).ppage = e.ppageIndex * pageSize ∧
        (s.vm.tlb i).dirty = true) ∧
      (∀ i < numTlb, ∀ j < numTlb, (s.vm.tlb i).valid = true → (s.vm.tlb j).valid = true →
        (s.vm.tlb i).vpage = (s.vm.tlb j).vpage → i = j) ∧
      (∀ e ∈ s.vm.entries, e.swapped = true → TlbMisses s.vm.tlb e.vaddr) ∧
      ∀ va, tlbAccess s.vm.tlb va true ≠ .modify := by
  have h := Sound.run (fun _ _ h => h) hb hr
  refine ⟨h.tlb.maps, fun i hi j hj hvi hvj he => h.tlb.inj hi hj hvi hvj he, ?_, ?_⟩
  · intro e he hs i hi hv hvp
    obtain ⟨x, hx, hsx, hxv, -⟩ := h.tlb.maps i hi hv
    rw [h.table.eq_of_vaddr he hx (hxv.symm.trans hvp), hs] at hsx
    cases hsx
  · intro va hmod
    unfold tlbAccess at hmod
    split at hmod
    · cases hmod
    · rename_i t ht
      obtain ⟨i, hi, rfl, hv, -⟩ := tlbHit_some ht
      obtain ⟨_, -, -, -, -, hd⟩ := h.tlb.maps i hi hv
      simp [hd] at hmod

/-- Four faults and a kernel request on three frames: pages are swapped out, and in again. -/
theorem tlb_coherent_three_frames :
    ∃ s, Run (Sys.Step UserFault) (smallSys 5 [⟨0x400000, 0x8000, 8⟩])
        [.fault vmFaultWrite 0x400000 0, .fault vmFaultWrite 0x401000 0,
          .fault vmFaultRead 0x402000 0, .fault vmFaultRead 0x403000 0, .kalloc 1,
          .fault vmFaultRead 0x400000 0] s ∧
      ∀ va, tlbAccess s.vm.tlb va true ≠ .modify := by
  refine Run.exists_imp (Q := fun s => s.vm.stats.swapfileWrites = 3)
    (Sys.exists_run (by decide)) fun s hr _ => ?_
  exact (tlb_coherent (booted_smallSys (by decide) (by decide) _) hr).2.2.2

theorem tlbHit_load {s : VmState} (hslot : s.tlbNextVictim < numTlb) (va paddr : Nat) :
    tlbHit (tlbLoad s (pageFrame va) paddr).tlb va ≠ none := by
  obtain ⟨k, hk, -, htlb, -⟩ := tlbLoad_slot hslot (pageFrame va) paddr
  rw [htlb, Ne, tlbHit_none]
  intro hmiss
  have hloaded := hmiss k hk
  rw [Function.update_self] at hloaded
  refine hloaded ?_ (pageFrame_of_aligned (pageFrame_aligned va))
  simp only [TlbEntry.valid, Nat.testBit_or]
  grind

/-- A fault that succeeds leaves a translation for its page. -/
theorem Faulted.hits {s s' : VmState} {va kpages : Nat} {addrs : List Nat} (h : Sound s)
    (hf : Faulted s (pageFrame va) kpages addrs s') : tlbHit s'.tlb va ≠ none := by
  cases hf with
  | @fresh f addrs s₁ s₂ _ _ ht hk =>
    have hpage := (h.taken ht).modifyFrame f fun _ =>
      { status := .dirty, paddr := f * pageSize, vaddr := pageFrame va, size := 1 }
    have hslot : s₂.tlbNextVictim < numTlb :=
      (Sound.stable.kmallocPages hpage.toStarted hpage hk).slot
    exact tlbHit_load (s := { linkEntry s₂ f (pageFrame va) with stats := _ }) hslot va _
  | @swapin f e e₁ s₁ _ _ ht =>
    have hslot : s₁.tlbNextVictim < numTlb := (h.taken ht).slot
    exact tlbHit_load (s := { pagedIn s₁ f (pageFrame va) e₁.swapIndex with stats := _ }) hslot va _
  | @reload e =>
    exact tlbHit_load (s := { s with stats := s.stats.reload }) h.slot va (e.ppageIndex * pageSize)

/-- **A fault is not raised twice.** When `vm_fault` returns 0 in a state that a run reaches, the
access that faulted, read or write, goes through when it is made again, to the frame that the page
table has for its page. -/
theorem fault_then_hit {s₀ s : Sys} {es : List Event} {faulttype va kpages : Nat}
    {addrs : List Nat} {vm : VmState} (hb : Booted s₀) (hr : Run (Sys.Step UserFault) s₀ es s)
    (hu : UserFault s (.fault faulttype va kpages))
    (hf : vmFault s.vm faulttype va kpages = .ok (0, addrs, vm)) (write : Bool) :
    ∃ e ∈ vm.entries, e.swapped = false ∧ e.vaddr = pageFrame va ∧
      tlbAccess vm.tlb va write = .hit (e.ppageIndex * pageSize + va % pageSize) := by
  have h := Sound.run (fun _ _ h => h) hb hr
  obtain ⟨hne, -⟩ | ⟨-, ⟨as, has, -⟩, hfaulted⟩ := vmFault_ok h.pointer hf
  · exact absurd rfl hne
  have hvm : Sound vm := h.faulted (by rw [has]; rfl) (pageFrame_aligned va)
    (Nat.lt_of_le_of_lt (pageFrame_le va) hu.1) (tlbHit_none.mp hu.2) hfaulted
  obtain ⟨t, ht⟩ := Option.ne_none_iff_exists'.mp (hfaulted.hits h)
  obtain ⟨i, hi, rfl, hv, hvp⟩ := tlbHit_some ht
  obtain ⟨e, he, hs, hev, hpp, hd⟩ := hvm.tlb.maps i hi hv
  refine ⟨e, he, hs, hev.symm.trans hvp, ?_⟩
  simp [tlbAccess, ht, hd, hpp]

/-- A write to a page that was swapped out. -/
theorem fault_then_hit_swapped : ∃ s, Run (Sys.Step UserFault) (smallSys 4 [⟨0x400000, 0x8000, 8⟩])
    [.fault vmFaultWrite 0x400000 0, .fault vmFaultWrite 0x401000 0,
      .fault vmFaultRead 0x402000 0] s ∧
    ∃ addrs vm paddr, vmFault s.vm vmFaultWrite 0x400000 0 = .ok (0, addrs, vm) ∧
      tlbAccess vm.tlb 0x400000 true = .hit paddr := by
  refine Run.exists_imp (Q := fun s => UserFault s (.fault vmFaultWrite 0x400000 0) ∧
    (vmFault s.vm vmFaultWrite 0x400000 0).toOption.map (·.1) = some 0)
    (Sys.exists_run (by decide)) ?_
  rintro s hr ⟨hu, hf⟩
  obtain ⟨⟨err, addrs, vm⟩, hf, rfl⟩ := Option.map_eq_some_iff.mp hf
  have hf := toOption_eq_some.mp hf
  obtain ⟨e, -, -, -, hhit⟩ :=
    fault_then_hit (booted_smallSys (by decide) (by decide) _) hr hu hf true
  exact ⟨addrs, vm, _, hf, hhit⟩

end OsPaging.Vm
