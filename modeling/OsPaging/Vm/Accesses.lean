import OsPaging.Vm.Content

/-!
# What an event does to the processes' pages

`exec_bytes` says it for every event of the system, from states that are coherent and whose TLB
is: a store writes the byte it names, a fault on a page without an entry adds the bytes of the
frame it was given, and nothing else changes what the running process has at any address. The
frames and the slots of other processes are spared.

A kernel request for several pages may swap out a window of frames. That moves pages of the
running process as long as no frame of the window is free (`DirtyWindow`): the coremap entry of a
free frame may still have the address of a page that has long been in the swap file.
-/

namespace OsPaging.Vm

open OsPaging.Lib Function

variable {paddr : Nat} {b : Nat × Nat}

section Accesses

variable {P : Set Nat} {others : List Nat} {s s' : VmState} {va a addr n : Nat} {t : TlbEntry}
  {v : UInt8}

theorem Sound.hit (h : Sound s) (ht : tlbHit s.tlb va = some t) :
    ∃ e ∈ s.entries, e.swapped = false ∧ e.vaddr = pageFrame va ∧
      t.ppage = e.ppageIndex * pageSize := by
  obtain ⟨i, hi, rfl, hv, hvp⟩ := tlbHit_some ht
  obtain ⟨e, he, hs, hev, hpp, -⟩ := h.tlb.maps i hi hv
  exact ⟨e, he, hs, hev.symm.trans hvp, hpp⟩

/-- A load through the TLB reads the process's byte. -/
theorem userByte_hit (h : Sound s) (ht : tlbHit s.tlb va = some t) :
    s.userByte va = some (s.ram (t.ppage + va % pageSize)) := by
  obtain ⟨e, he, hs, hv, hpp⟩ := h.hit ht
  rw [userByte_of_mem h.table he hv, VmState.entryByte, hs, hpp]
  rfl

/-- Writing a byte of RAM changes the bytes of the resident page it is in, if there is one. -/
theorem userByte_update (hw : PtWf s.entries)
    (hne : ∀ e ∈ s.entries, e.vaddr = pageFrame a → e.swapped = false →
      e.ppageIndex * pageSize + a % pageSize ≠ paddr) :
    ({ s with ram := update s.ram paddr v } : VmState).userByte a = s.userByte a := by
  have hw' : PtWf ({ s with ram := update s.ram paddr v } : VmState).entries := hw
  cases hf : s.entries.find? (ptMatch a) with
  | none =>
    have hn := hw.search_none.mp hf
    rw [userByte_none hw hn, userByte_none hw' hn]
  | some e =>
    obtain ⟨he, hv⟩ := hw.search_some.mp hf
    rw [userByte_of_mem hw he hv, userByte_of_mem hw' he hv]
    unfold VmState.entryByte
    grind

/-- A store through the TLB writes the process's byte, and no other. -/
theorem userByte_store (h : Sound s) (hco : Coherent P s) (ht : tlbHit s.tlb va = some t) :
    ({ s with ram := update s.ram (t.ppage + va % pageSize) v } : VmState).userByte a =
      if a = va then some v else s.userByte a := by
  obtain ⟨e, he, hs, hv, hpp⟩ := h.hit ht
  split_ifs with hav
  · have hw' : PtWf ({ s with
      ram := update s.ram (t.ppage + va % pageSize) v } : VmState).entries := h.table
    rw [hav, userByte_of_mem hw' he hv, VmState.entryByte, hs, hpp]
    exact congrArg some (update_self _ _ _)
  · refine userByte_update h.table fun x hx hxv hxs hpa => hav ?_
    rw [hpp] at hpa
    obtain ⟨hpage, hoff⟩ := page_offset_inj (offset_lt a) (offset_lt va) hpa
    -- the same frame is the same page
    have hxe := hco.eq_of_frame hx he hxs hs hpage
    have hframe : pageFrame a = pageFrame va := by rw [← hxv, hxe, hv]
    unfold pageFrame at hframe
    simp only [pageSize] at hframe hoff
    omega

theorem blockHas_frame (h : blockHas b paddr = true) : InBlock b (paddr / pageSize) := by
  unfold blockHas at h
  simp only [decide_eq_true_eq] at h
  unfold InBlock
  simp only [pageSize] at *
  omega

/-- The kernel's own writes are not in the process's pages. -/
theorem userByte_kwrite (hco : Coherent P s) {held : List (Nat × Nat)} (hb : Blocks s held)
    (hmem : b ∈ held) (hp : blockHas b paddr = true) :
    ({ s with ram := update s.ram paddr v } : VmState).userByte a = s.userByte a := by
  refine userByte_update hco.table fun e he _ hs hpa => ?_
  have hin := blockHas_frame hp
  rw [← hpa, frame_offset _ (offset_lt a)] at hin
  have hd := (hco.resident e he hs).1
  rw [hb.fixed b hmem _ hin] at hd
  cases hd

theorem userByte_freeKpages (ha : s.allocTableActive = true) (hf : freeKpages s addr = .ok s') :
    s'.userByte a = s.userByte a := by
  obtain ⟨-, rfl⟩ := freeKpages_ok ha hf
  rw [releaseFrames_eq]
  exact userByte_same rfl rfl rfl

/-- A kernel request whose window, if it selects one, has user pages only. -/
theorem allocKpages_bytes (hco : Coherent P s) (hres : Reserved P s) (hsl : Slots others s)
    (hn : 0 < n) (hd : DirtyWindow s n)
    (ha : allocKpages s n = .ok (addr, s')) :
    Spares P others s s' ∧ ∀ a, s'.userByte a = s.userByte a := by
  obtain ⟨pa, hg, -⟩ := allocKpages_ok ha
  rcases getppages_ok hco.active hg with ⟨f, hr, -, rfl⟩ | ⟨v, s₁, s₂, hr, hsel, hrun, -, rfl⟩
  · -- the first frame of a free run
    obtain ⟨-, -, hfree⟩ := freeRun_some hn hr
    have hf : f ∉ P := fun hf => (isFree_iff.mp (hfree 0 hn)).1 (hres.dirty f hf)
    exact ⟨.modifyFrame s hf _, fun a => userByte_same rfl rfl rfl⟩
  · have hdw : ∀ i < n, (s.coremap (v + i).toNat).status = .dirty :=
      hd v (by simp [kernelWindow, hr, hsel])
    obtain ⟨-, ⟨next, rfl, hle, -⟩, -⟩ := victimSelection_spec hco.pointer hsel
    -- a round takes a page of the running process: the window is `DIRTY`, and not reserved
    have key := swapOutRun_ind (I := fun i t => i ≤ n → Coherent P t ∧ Reserved P t ∧
      Slots others t ∧ (∀ j : Nat, v + i ≤ (j : Int) → t.coremap j = s.coremap j) ∧
      Spares P others s t ∧ (∀ a, t.userByte a = s.userByte a) ∧ (0 < i → v.toNat ∉ P))
      (s := { s with nextVictim := next })
      (fun _ => ⟨hco.select hle, ⟨hres.dirty, hres.unnamed⟩, hsl.same rfl rfl, fun _ _ => rfl,
        .same rfl rfl rfl, fun a => userByte_same rfl rfl rfl, by omega⟩) ?_ hrun (le_refl n)
    · obtain ⟨-, -, -, -, hsp, hbyte, hv⟩ := key
      exact ⟨hsp.trans (.modifyFrame s₂ (hv hn) _), fun a =>
        (userByte_same (s := s₂) rfl rfl rfl).trans (hbyte a)⟩
    · intro i t t' f hI hf hout hi
      obtain ⟨hc, hr, hs, hcm, hsp, hbyte, hv⟩ := hI (by omega)
      obtain ⟨g, hg, h1, h2⟩ := hc.toLinked.swapOutVictim_frame hout
      obtain rfl : g = f := by omega
      have hgP := hr.victim hout rfl
      have hdi := hdw i (by omega)
      rw [hf, Int.toNat_natCast, ← hcm g (by omega)] at hdi
      refine ⟨hc.evict hout, (hr.swapOutVictim hout).modifyFrame hgP _,
        (hs.swapOutVictim hout).modifyFrame g _, fun j hj => ?_,
        (hsp.trans (.swapOutVictim hs hout)).trans (.modifyFrame t' hgP _), fun a => ?_,
        fun _ => ?_⟩
      · rw [VmState.modifyFrame_coremap, if_neg (by omega), swapOutVictim_coremap hout]
        exact hcm j (by omega)
      · exact ((userByte_same (s := t') rfl rfl rfl).trans
          (userByte_swapOutVictim hc hs h1 h2 hdi hgP hout)).trans (hbyte a)
      · rcases Nat.eq_zero_or_pos i with rfl | h0
        · obtain rfl : v = g := by omega
          exact hgP
        · exact hv h0

theorem Blocks.notMem {held : List (Nat × Nat)} (hb : Blocks s held)
    (hP : ∀ f ∈ P, (s.coremap f).status = .dirty) (hmem : b ∈ held) {f : Nat} (hf : InBlock b f) :
    f ∉ P := by
  intro hfP
  have hd := hP f hfP
  rw [hb.fixed b hmem f hf] at hd
  cases hd

end Accesses

/-! ## Events -/

/-- A kernel request that swaps out a window finds no free frame in it. -/
abbrev Event.dirtyWindow (s : Sys) (e : Event) : Prop :=
  e.Meets (fun _ _ => True) (DirtyWindow s.vm)

theorem belowLastPage_of_userFault {s : Sys} {e : Event} (h : UserFault s e) : e.belowLastPage := by
  cases e with
  | fault =>
    have h1 := h.1
    show _ < lastPage
    grind
  | _ => trivial

/-- What an event does to the bytes of the running process. -/
inductive ByteStep (s t : VmState) : Event → Prop
  | store {va : Nat} {v : UInt8} :
      (∀ a, t.userByte a = if a = va then some v else s.userByte a) → ByteStep s t (.store va v)
  | fresh {faulttype va kpages f : Nat} {s₁ : VmState} :
      s.entries.find? (ptMatch (pageFrame va)) = none →
      getuserppage s = .ok (f * pageSize, userFrame s₁ f) →
      (∀ a, t.userByte a = if pageFrame a = pageFrame va then
        some (s.ram (f * pageSize + a % pageSize)) else s.userByte a) →
      ByteStep s t (.fault faulttype va kpages)
  | same {e : Event} : (∀ va v, e ≠ .store va v) → (∀ a, t.userByte a = s.userByte a) →
      ByteStep s t e

/-- **What an event does to the processes' pages.** -/
theorem exec_bytes {P : Set Nat} {others : List Nat} {s t : Sys} {e : Event}
    (h : CoherentSys P others s) (hP : ∀ f ∈ P, (s.vm.coremap f).status = .dirty)
    (hres : e.reserves P s) (ht : e.isUser = true → Sound s.vm) (hb : e.belowLastPage)
    (hd : e.dirtyWindow s) (hx : s.exec e = some t) :
    Spares P others s.vm t.vm ∧ ByteStep s.vm t.vm e := by
  cases e with
  | load va v =>
    obtain ⟨rfl, -⟩ := exec_load hx
    exact ⟨.refl _, .same (by simp) fun _ => rfl⟩
  | store va v =>
    obtain ⟨-, te, hte, rfl⟩ := exec_store hx
    have ht := ht rfl
    obtain ⟨x, hxm, hxs, -, hpp⟩ := ht.hit hte
    refine ⟨.update _ ?_ v, .store fun a => userByte_store ht h.vm hte⟩
    rw [hpp, frame_offset _ (offset_lt va)]
    exact (h.vm.resident x hxm hxs).2.2
  | fault faulttype va kpages =>
    obtain ⟨err, addrs, hf, -⟩ := exec_fault hx
    rcases vmFault_ok h.vm.pointer hf with ⟨-, -, hs⟩ | ⟨-, -, hf⟩
    · rw [hs]
      exact ⟨.refl _, .same (by simp) fun _ => rfl⟩
    · obtain ⟨hsp, hsame | ⟨hnone, f, s₁, hu, hnew⟩⟩ := userByte_faulted h.vm hres h.slots
        (pageFrame_aligned va) (pageFrame_lt hb) hf
      · exact ⟨hsp, .same (by simp) hsame⟩
      · exact ⟨hsp, .fresh hnone hu hnew⟩
  | kalloc npages =>
    obtain ⟨hn, -, addr, ha, -⟩ := exec_kalloc hx
    obtain ⟨hsp, hsame⟩ := allocKpages_bytes h.vm hres h.slots hn hd ha
    exact ⟨hsp, .same (by simp) hsame⟩
  | kfree addr =>
    obtain ⟨n, hmem, hf, -⟩ := exec_kfree hx
    obtain ⟨-, -, hcm⟩ := h.blocks.freeKpages h.vm.toStarted hmem hf
    obtain ⟨-, hrel⟩ := freeKpages_ok h.vm.active hf
    refine ⟨⟨fun f hfP => ?_, ?_, ?_⟩, .same (by simp) fun a =>
      userByte_freeKpages h.vm.active hf⟩
    · rw [hcm, if_neg fun hin => h.blocks.notMem hP hmem hin hfP]
    · rw [hrel, releaseFrames_eq]
      exact fun _ _ _ _ => rfl
    · rw [hrel, releaseFrames_eq]
      exact fun _ _ _ _ => rfl
  | kwrite paddr v =>
    obtain ⟨⟨blk, hmem, hp⟩, rfl⟩ := exec_kwrite hx
    exact ⟨.update _ (h.blocks.notMem hP hmem (blockHas_frame hp)) v,
      .same (by simp) fun a => userByte_kwrite h.vm h.blocks hmem hp⟩

end OsPaging.Vm
