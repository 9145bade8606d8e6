import OsPaging.Vm.Owned

/-!
# Destroying an address space

`as_destroy` of `vm.c` with the `kfree` calls it makes: of every region, of every entry of the
page table after its slot or frame was released, of the page table and of the address space
itself. A `kfree` that empties a page of the kernel heap gives the page back by `free_kpages`;
`heap i` lists the pages that the `i`-th `kfree` gives back. `HeapPages` is what the heap
guarantees: the pages are live results of `alloc_kpages`, and no page is given back twice.

`TornDown` follows the calls: after any number of them, the coremap and the swap table differ from
the first state exactly by what was released. `as_destroy_releases` is the result for every state
of a single process that faults and single-page kernel requests lead to.
-/

namespace OsPaging.Vm

open OsPaging.Lib

variable {heap : Nat → List Nat}

/-! ## `as_destroy` with the kernel heap -/

/-- A `kfree` gives back these pages of the kernel heap, each a block of one page. -/
def kfreePages (s : Sys) : List Nat → Except Panic Sys
  | [] => .ok s
  | addr :: addrs =>
    match freeKpages s.vm addr with
    | .error p => .error p
    | .ok vm => kfreePages { vm := vm, held := s.held.erase (addr, 1) } addrs

/-- The loop over the regions (`vm.c:449-455`); `i` counts the `kfree` calls made. -/
def destroyRegions (heap : Nat → List Nat) (s : Sys) (i : Nat) : List Region → Except Panic Sys
  | [] => .ok s
  | _ :: rs =>
    match kfreePages s (heap i) with
    | .error p => .error p
    | .ok s => destroyRegions heap s (i + 1) rs

/-- The loop of `pt_destroy` (`pt.c:61-72`). -/
def destroyEntries (heap : Nat → List Nat) (s : Sys) (i : Nat) : List PtEntry → Except Panic Sys
  | [] => .ok s
  | q :: qs =>
    match ptDestroyEntry s.vm q with
    | .error p => .error p
    | .ok vm =>
      match kfreePages { s with vm := vm } (heap i) with
      | .error p => .error p
      | .ok s => destroyEntries heap s (i + 1) qs

/-- `as_destroy` (`vm.c:439-462`). -/
def asDestroyHeap (s : Sys) (as : AddrSpace) (heap : Nat → List Nat) : Except Panic Sys :=
  if as.regions = [] then .error .noFirstRegion
  else
    match destroyRegions heap s 0 as.regions with
    | .error p => .error p
    | .ok s =>
      match destroyEntries heap s as.regions.length as.pt.entries with
      | .error p => .error p
      | .ok s =>
        -- `kfree(*pt)`
        match kfreePages s (heap (as.regions.length + as.pt.entries.length)) with
        | .error p => .error p
        | .ok s =>
          -- the TLB, and `kfree(as)`
          kfreePages { s with vm := tlbInvalidateAll s.vm numTlb }
            (heap (as.regions.length + as.pt.entries.length + 1))

/-- The pages that the first `n` `kfree` calls give back. -/
def heapPages (heap : Nat → List Nat) (n : Nat) : List Nat := (List.range n).flatMap heap

/-- The number of `kfree` calls. -/
def AddrSpace.objects (as : AddrSpace) : Nat := as.regions.length + as.pt.entries.length + 2

/-- What `kfree` gives back are live pages, each of them once. -/
structure HeapPages (s : Sys) (as : AddrSpace) (heap : Nat → List Nat) : Prop where
  nodup : (heapPages heap as.objects).Nodup
  live : ∀ addr ∈ heapPages heap as.objects, (addr, 1) ∈ s.held

theorem heapPages_succ (heap : Nat → List Nat) (n : Nat) :
    heapPages heap (n + 1) = heapPages heap n ++ heap n := by
  simp [heapPages, List.range_succ]

theorem heapPages_le {held : List (Nat × Nat)} {n m : Nat} (h : n ≤ m)
    (hnodup : (heapPages heap m).Nodup) (hlive : ∀ addr ∈ heapPages heap m, (addr, 1) ∈ held) :
    (heapPages heap n).Nodup ∧ ∀ addr ∈ heapPages heap n, (addr, 1) ∈ held := by
  induction m, h using Nat.le_induction with
  | base => exact ⟨hnodup, hlive⟩
  | succ m _ ih =>
    rw [heapPages_succ] at hnodup hlive
    grind

/-! ## What has been released -/

/-- `s` is `s₀` after the entries `es` were released and the pages `ks` given back. -/
structure TornDown (s₀ : Sys) (es : List PtEntry) (ks : List Nat) (s : Sys) : Prop where
  started : Started s.vm
  blocks : Blocks s.vm s.held
  held : ∀ addr, (addr, 1) ∈ s.held ↔ (addr, 1) ∈ s₀.held ∧ addr ∉ ks
  coremap : ∀ f, s.vm.coremap f =
    if f ∈ framesOf es then { status := .free, paddr := 0, vaddr := 0, size := 0 }
    else if f ∈ ks.map kvaddrFrame then { s₀.vm.coremap f with status := .free, size := 0 }
    else s₀.vm.coremap f
  swaptable : ∀ i, s.vm.swaptable i = if i ∈ slotsOf es then true else s₀.vm.swaptable i

/-- Live blocks are disjoint and not empty, so none occurs twice. -/
theorem Blocks.nodup {s : VmState} {held : List (Nat × Nat)} (h : Blocks s held) : held.Nodup := by
  refine h.disjoint.imp_of_mem fun {b c} hb _ hdis => ?_
  rintro rfl
  have hin : InBlock b (Vm.kvaddrFrame b.1) :=
    ⟨le_refl _, by have := h.pos b hb; omega⟩
  exact hdis _ hin hin

namespace TornDown

variable {s₀ s : Sys} {es qs : List PtEntry} {ks addrs : List Nat} {q : PtEntry}

theorem start (h₀ : OwnedSys s₀) (x : Option AddrSpace) :
    TornDown s₀ [] [] { s₀ with vm := { s₀.vm with as := x } } where
  started := { h₀.vm with }
  blocks := h₀.blocks.with_as x
  held b := by simp
  coremap f := by simp [framesOf]
  swaptable i := by simp [slotsOf]

/-- The frames of the entries and of the kernel's pages are apart. -/
theorem frames_apart (h₀ : OwnedSys s₀) {addr f : Nat} (hlive : (addr, 1) ∈ s₀.held)
    (hf : f ∈ framesOf s₀.vm.entries) : f ≠ kvaddrFrame addr := by
  rintro rfl
  obtain ⟨e, he, hes, hef⟩ := mem_framesOf.mp hf
  have hd := (h₀.vm.resident e he hes).2.2.1
  rw [hef, h₀.blocks.fixed _ hlive _ ⟨le_refl _, Nat.lt_succ_self _⟩] at hd
  exact absurd hd (by decide)

theorem page (h : TornDown s₀ es ks s) (h₀ : OwnedSys s₀)
    (hes : framesOf es ⊆ framesOf s₀.vm.entries) {addr : Nat} (hlive : (addr, 1) ∈ s₀.held)
    (hnew : addr ∉ ks) :
    ∃ vm, freeKpages s.vm addr = .ok vm ∧
      TornDown s₀ es (ks ++ [addr]) ⟨vm, s.held.erase (addr, 1)⟩ := by
  have hmem : (addr, 1) ∈ s.held := (h.held _).mpr ⟨hlive, hnew⟩
  obtain ⟨vm, hf⟩ := h.blocks.freeKpages_isOk h.started hmem
  obtain ⟨-, hb, hcm⟩ := h.blocks.freeKpages h.started hmem hf
  have hsw : vm.swaptable = s.vm.swaptable := by
    obtain ⟨-, rfl⟩ := freeKpages_ok h.started.active hf
    rw [releaseFrames_eq]
  refine ⟨vm, hf, Started.stable.freeKpages h.started h.started hf, hb, fun a => ?_,
    fun f => ?_, fun i => by rw [hsw]; exact h.swaptable i⟩
  · rw [h.blocks.nodup.mem_erase_iff, h.held, List.mem_append, List.mem_singleton, not_or,
      ne_eq, Prod.mk.injEq]
    tauto
  · have hin : InBlock (addr, 1) f ↔ f = kvaddrFrame addr := by
      change kvaddrFrame addr ≤ f ∧ f < kvaddrFrame addr + 1 ↔ _
      omega
    simp only [hcm, hin, List.map_append, List.map_cons, List.map_nil, List.mem_append,
      List.mem_singleton]
    by_cases hfa : f = kvaddrFrame addr
    · have hnot : f ∉ framesOf es := fun hfe => frames_apart h₀ hlive (hes hfe) hfa
      rw [if_pos hfa, if_neg hnot, if_pos (Or.inr hfa), h.coremap, if_neg hnot]
      split_ifs <;> rfl
    · rw [if_neg hfa, h.coremap]
      simp only [hfa, or_false]

theorem pages (h₀ : OwnedSys s₀) (hes : framesOf es ⊆ framesOf s₀.vm.entries) :
    ∀ {addrs ks : List Nat} {s : Sys}, TornDown s₀ es ks s → (ks ++ addrs).Nodup →
      (∀ addr ∈ addrs, (addr, 1) ∈ s₀.held) →
      ∃ t, kfreePages s addrs = .ok t ∧ TornDown s₀ es (ks ++ addrs) t
  | [], ks, s, h, _, _ => ⟨s, rfl, by rw [List.append_nil]; exact h⟩
  | addr :: addrs, ks, s, h, hnodup, hlive => by
    have hnew : addr ∉ ks := fun hmem =>
      (List.nodup_append.mp hnodup).2.2 addr hmem addr List.mem_cons_self rfl
    obtain ⟨vm, hf, h'⟩ := h.page h₀ hes (hlive addr List.mem_cons_self) hnew
    have hassoc : ks ++ addr :: addrs = ks ++ [addr] ++ addrs := by simp
    obtain ⟨t, ht, hr⟩ := pages h₀ hes h' (by rw [← hassoc]; exact hnodup)
      fun a ha => hlive a (List.mem_cons_of_mem _ ha)
    refine ⟨t, ?_, by rw [hassoc]; exact hr⟩
    rw [kfreePages, hf]
    exact ht

/-- The body of the loop of `pt_destroy`: the slot or the frame of an entry is released. -/
theorem entry (h : TornDown s₀ es ks s) (h₀ : OwnedSys s₀)
    (hlive : ∀ addr ∈ ks, (addr, 1) ∈ s₀.held)
    (hes : s₀.vm.entries = es ++ q :: qs) :
    ∃ vm, ptDestroyEntry s.vm q = .ok vm ∧
      TornDown s₀ (es ++ [q]) ks { s with vm := vm } := by
  have hq : q ∈ s₀.vm.entries := by rw [hes]; simp
  have hsnodup := h₀.vm.slots.nodup
  have hfnodup := h₀.vm.frames
  simp only [List.append_nil, hes, slotsOf, framesOf, List.flatMap_append, List.flatMap_cons]
    at hsnodup hfnodup
  unfold ptDestroyEntry
  cases hsw : q.swapped with
  | true =>
    have hslots : slotsOf (es ++ [q]) = slotsOf es ++ [q.swapIndex] := by
      simp [slotsOf, PtEntry.slots, hsw]
    have hframes : framesOf (es ++ [q]) = framesOf es := by
      simp [framesOf, PtEntry.frames, hsw]
    have hnot : q.swapIndex ∉ slotsOf es := fun hmem =>
      (List.nodup_append.mp hsnodup).2.2 _ hmem q.swapIndex (by simp [PtEntry.slots, hsw]) rfl
    have hfull : s.vm.swaptable q.swapIndex = false := by
      rw [h.swaptable, if_neg hnot]
      exact (h₀.vm.slots.full _ (List.mem_append_left _ (mem_slotsOf.mpr ⟨q, hq, hsw, rfl⟩))).2
    refine ⟨{ s.vm with swaptable := Function.update s.vm.swaptable q.swapIndex true }, ?_, ?_⟩
    · simp [swapUnmark, hfull]
    · refine ⟨{ h.started with },
        { h.blocks with }, h.held, by rw [hframes]; exact h.coremap, fun i => ?_⟩
      simp only [hslots, List.mem_append, List.mem_singleton, Function.update_apply, h.swaptable]
      by_cases hi : i = q.swapIndex
      · simp [hi]
      · simp [hi]
  | false =>
    have hslots : slotsOf (es ++ [q]) = slotsOf es := by
      simp [slotsOf, PtEntry.slots, hsw]
    have hframes : framesOf (es ++ [q]) = framesOf es ++ [q.ppageIndex] := by
      simp [framesOf, PtEntry.frames, hsw]
    have hnot : q.ppageIndex ∉ framesOf es := fun hmem =>
      (List.nodup_append.mp hfnodup).2.2 _ hmem q.ppageIndex (by simp [PtEntry.frames, hsw]) rfl
    have hheap : q.ppageIndex ∉ ks.map kvaddrFrame := fun hmem => by
      obtain ⟨addr, ha, haq⟩ := List.mem_map.mp hmem
      exact frames_apart h₀ (hlive addr ha) (mem_framesOf.mpr ⟨q, hq, hsw, rfl⟩) haq.symm
    have hdirty : (s.vm.coremap q.ppageIndex).status = .dirty := by
      rw [h.coremap, if_neg hnot, if_neg hheap]
      exact (h₀.vm.resident q hq hsw).2.2.1
    refine ⟨s.vm.modifyFrame q.ppageIndex fun _ => ⟨.free, 0, 0, 0⟩, ?_, ?_⟩
    · simp only [freeuserppage, Bool.false_eq_true, if_false, Nat.mul_mod_left, ne_eq,
        not_true_eq_false, Nat.mul_div_cancel _ (show 0 < pageSize by decide), hdirty,
        reduceCtorEq]
    · have hnofix : (s.vm.coremap q.ppageIndex).status ≠ .fixed := by
        rw [hdirty]
        decide
      have hblocks : Blocks (s.vm.modifyFrame q.ppageIndex fun _ => ⟨.free, 0, 0, 0⟩) s.held :=
        h.blocks.keep (sameConstants_modifyFrame _ _ _) (.modifyFrame hnofix _)
      have hstart : Started (s.vm.modifyFrame q.ppageIndex fun _ => ⟨.free, 0, 0, 0⟩) :=
        h.started.modifyFrame _ _
      refine ⟨hstart, hblocks, h.held, fun f => ?_, by rw [hslots]; exact h.swaptable⟩
      simp only [VmState.modifyFrame_coremap, hframes, List.mem_append, List.mem_singleton,
        h.coremap]
      by_cases hf : f = q.ppageIndex
      · simp [hf]
      · simp [hf]

theorem regions (h₀ : OwnedSys s₀) :
    ∀ {rs : List Region} {i : Nat} {s : Sys}, TornDown s₀ [] (heapPages heap i) s →
      (heapPages heap (i + rs.length)).Nodup →
      (∀ addr ∈ heapPages heap (i + rs.length), (addr, 1) ∈ s₀.held) →
      ∃ t, destroyRegions heap s i rs = .ok t ∧
        TornDown s₀ [] (heapPages heap (i + rs.length)) t
  | [], i, s, h, _, _ => ⟨s, rfl, h⟩
  | _ :: rs, i, s, h, hnodup, hlive => by
    have hlen : i + (rs.length + 1) = i + 1 + rs.length := by omega
    rw [List.length_cons, hlen] at hnodup hlive
    obtain ⟨hn, hl⟩ := heapPages_le (Nat.le_add_right (i + 1) rs.length) hnodup hlive
    rw [heapPages_succ] at hn hl
    obtain ⟨t₁, ht₁, h₁⟩ := pages h₀ (by simp [framesOf]) h hn
      fun addr ha => hl addr (List.mem_append_right _ ha)
    rw [← heapPages_succ] at h₁
    obtain ⟨t, ht, hr⟩ := regions h₀ h₁ hnodup hlive
    refine ⟨t, ?_, by rw [List.length_cons, hlen]; exact hr⟩
    rw [destroyRegions, ht₁]
    exact ht

theorem entries (h₀ : OwnedSys s₀) :
    ∀ (qs : List PtEntry) {es : List PtEntry} {i : Nat} {s : Sys},
      TornDown s₀ es (heapPages heap i) s → s₀.vm.entries = es ++ qs →
        (heapPages heap (i + qs.length)).Nodup →
      (∀ addr ∈ heapPages heap (i + qs.length), (addr, 1) ∈ s₀.held) →
      ∃ t, destroyEntries heap s i qs = .ok t ∧
        TornDown s₀ (es ++ qs) (heapPages heap (i + qs.length)) t
  | [], es, i, s, h, _, _, _ => ⟨s, rfl, by rw [List.append_nil]; exact h⟩
  | q :: qs, es, i, s, h, hes, hnodup, hlive => by
    have hlen : i + (qs.length + 1) = i + 1 + qs.length := by omega
    rw [List.length_cons, hlen] at hnodup hlive
    obtain ⟨hn, hl⟩ := heapPages_le (Nat.le_add_right (i + 1) qs.length) hnodup hlive
    rw [heapPages_succ] at hn hl
    obtain ⟨vm, hvm, h₁⟩ := h.entry h₀ (fun addr ha => hl addr (List.mem_append_left _ ha)) hes
    have hes' : s₀.vm.entries = (es ++ [q]) ++ qs := by rw [hes]; simp
    have hsub : framesOf (es ++ [q]) ⊆ framesOf s₀.vm.entries := by
      have hcut : framesOf s₀.vm.entries = framesOf (es ++ [q]) ++ framesOf qs := by
        rw [hes']
        exact List.flatMap_append
      rw [hcut]
      exact List.subset_append_left _ _
    obtain ⟨t₁, ht₁, h₂⟩ := pages h₀ hsub h₁ hn
      fun addr ha => hl addr (List.mem_append_right _ ha)
    rw [← heapPages_succ] at h₂
    obtain ⟨t, ht, hr⟩ := entries h₀ qs h₂ hes' hnodup hlive
    refine ⟨t, ?_, ?_⟩
    · simp only [destroyEntries, hvm, ht₁]
      exact ht
    · rw [List.length_cons, hlen, List.append_cons]
      exact hr

theorem tlbInvalidateAll (h : TornDown s₀ es ks s) (n : Nat) :
    TornDown s₀ es ks { s with vm := Vm.tlbInvalidateAll s.vm n } := by
  rw [tlbInvalidateAll_eq]
  exact ⟨{ h.started with },
    h.blocks.same ⟨rfl, rfl, rfl, rfl, rfl, rfl⟩, h.held, h.coremap, h.swaptable⟩

end TornDown

theorem kfreePages_tlb : ∀ {addrs : List Nat} {s t : Sys}, Started s.vm →
    kfreePages s addrs = .ok t → t.vm.tlb = s.vm.tlb
  | [], s, t, _, h => by
    rw [kfreePages, Except.ok.injEq] at h
    rw [h]
  | addr :: addrs, s, t, hs, h => by
    rw [kfreePages] at h
    split at h
    · cases h
    · rename_i vm hf
      have hs' := Started.stable.freeKpages hs hs hf
      obtain ⟨-, rfl⟩ := freeKpages_ok hs.active hf
      rw [kfreePages_tlb hs' h, releaseFrames_eq]

/-- **`as_destroy` returns every resource of the process**: from every state of one process that
faults, single-page kernel requests and releases of such pages lead to, it returns; the frames
and the slots of the page table are then free, no `DIRTY` frame and no occupied slot is left, the
TLB has no valid entry, and every other frame and slot, apart from the pages of the kernel heap
that `kfree` has given back, is as before. -/
theorem as_destroy_releases {s₀ s : Sys} {es : List Event} (hb : Booted s₀)
    (hr : Run (Sys.Step fun _ e => e.singlePage) s₀ es s) {as : AddrSpace}
    (has : s.vm.as = some as) (hreg : as.regions ≠ []) {heap : Nat → List Nat}
    (hheap : HeapPages s as heap) :
    ∃ t, asDestroyHeap { s with vm := { s.vm with as := none } } as heap = .ok t ∧
      (∀ f ∈ framesOf as.pt.entries, (t.vm.coremap f).status = .free) ∧
      (∀ i ∈ slotsOf as.pt.entries, t.vm.swaptable i = true) ∧
      (∀ i < numTlb, (t.vm.tlb i).valid = false) ∧
      (∀ f, f ∉ framesOf as.pt.entries → f ∉ (heapPages heap as.objects).map kvaddrFrame →
        t.vm.coremap f = s.vm.coremap f) ∧
      (∀ i, i ∉ slotsOf as.pt.entries → t.vm.swaptable i = s.vm.swaptable i) ∧
      (∀ f, s.vm.firstFreeFrame ≤ f → f < s.vm.nRamFrames → (t.vm.coremap f).status ≠ .dirty) ∧
      ∀ i < swapSlots, t.vm.swaptable i = true := by
  have h₀ := OwnedSys.run hb hr
  have hes : s.vm.entries = as.pt.entries := by simp [VmState.entries, has]
  obtain ⟨hnodup, hlive⟩ := hheap
  have hle : ∀ {n : Nat}, n ≤ as.objects → (heapPages heap n).Nodup ∧
      ∀ addr ∈ heapPages heap n, (addr, 1) ∈ s.held := fun hn => heapPages_le hn hnodup hlive
  unfold AddrSpace.objects at hle
  -- the regions, the page table, and the two objects that hold them
  obtain ⟨hn₁, hl₁⟩ := hle (show 0 + as.regions.length ≤ _ by omega)
  have hstart : TornDown s [] (heapPages heap 0) { s with vm := { s.vm with as := none } } :=
    TornDown.start h₀ none
  obtain ⟨t₁, ht₁, h₁⟩ := TornDown.regions h₀ hstart hn₁ hl₁
  rw [Nat.zero_add] at h₁
  obtain ⟨hn₂, hl₂⟩ := hle (show as.regions.length + as.pt.entries.length ≤ _ by omega)
  obtain ⟨t₂, ht₂, h₂⟩ := TornDown.entries h₀ as.pt.entries h₁ (by simpa using hes) hn₂ hl₂
  rw [List.nil_append] at h₂
  have hsub : framesOf as.pt.entries ⊆ framesOf s.vm.entries := by rw [hes]; exact fun _ h => h
  obtain ⟨hn₃, hl₃⟩ := hle (show as.regions.length + as.pt.entries.length + 1 ≤ _ by omega)
  rw [heapPages_succ] at hn₃ hl₃
  obtain ⟨t₃, ht₃, h₃⟩ := TornDown.pages h₀ hsub h₂ hn₃
    fun addr ha => hl₃ addr (List.mem_append_right _ ha)
  rw [← heapPages_succ] at h₃
  obtain ⟨hn₄, hl₄⟩ := hle (show as.regions.length + as.pt.entries.length + 1 + 1 ≤ _ by omega)
  rw [heapPages_succ] at hn₄ hl₄
  obtain ⟨t, ht, h⟩ := TornDown.pages h₀ hsub (h₃.tlbInvalidateAll numTlb) hn₄
    fun addr ha => hl₄ addr (List.mem_append_right _ ha)
  rw [← heapPages_succ] at h
  have hcm := h.coremap
  refine ⟨t, ?_, fun f hf => ?_, fun i hi => ?_, fun i hi => ?_, fun f hf hk => ?_,
    fun i hi => ?_, fun f h1 h2 hd => ?_, fun i hi => ?_⟩
  · unfold asDestroyHeap
    grind
  · rw [hcm, if_pos hf]
  · rw [h.swaptable, if_pos hi]
  · have hst := (h₃.tlbInvalidateAll numTlb).started
    rw [kfreePages_tlb hst ht, tlbInvalidateAll_eq]
    simp only [if_pos hi]
    exact valid_invalid _
  · rw [hcm, if_neg hf]
    exact if_neg hk
  · rw [h.swaptable, if_neg hi]
  · rw [hcm] at hd
    split_ifs at hd with hf
    exact hf (hes ▸ h₀.vm.owned f h1 h2 hd (Set.notMem_empty f))
  · rw [h.swaptable]
    split_ifs with hmem
    · rfl
    · by_contra hocc
      exact hmem (hes ▸ h₀.vm.onto i hi (by simpa using hocc))

/-- A process with four pages, two of them in the swap file, and a page of the kernel heap that
the first `kfree` gives back. -/
theorem as_destroy_releases_four_pages :
    ∃ s as t, Run (Sys.Step fun _ e => e.singlePage) (smallSys 5 [⟨0x400000, 0x8000, 8⟩])
        [.fault vmFaultWrite 0x400000 0, .fault vmFaultWrite 0x401000 0, .kalloc 1,
          .fault vmFaultRead 0x402000 0, .fault vmFaultRead 0x403000 0] s ∧
      s.vm.as = some as ∧ as.pt.entries.length = 4 ∧ (slotsOf as.pt.entries).length = 2 ∧
      asDestroyHeap { s with vm := { s.vm with as := none } } as
        (fun i => if i = 0 then [0x80004000] else []) = .ok t ∧
      ∀ i < swapSlots, t.vm.swaptable i = true := by
  simp only [exists_and_left]
  refine Run.exists_imp (Q := fun s => s.held = [(0x80004000, 1)] ∧ (s.vm.as.map fun as =>
    (as.regions.length, as.pt.entries.length, (slotsOf as.pt.entries).length)) = some (1, 4, 2))
    (Sys.exists_run (by decide)) ?_
  rintro s hr ⟨hheld, hshape⟩
  obtain ⟨as, has, hlen⟩ := Option.map_eq_some_iff.mp hshape
  simp only [Prod.mk.injEq] at hlen
  obtain ⟨hreg, hent, hslots⟩ := hlen
  have hpages : heapPages (fun i => if i = 0 then [0x80004000] else []) as.objects =
      [0x80004000] := by
    rw [AddrSpace.objects, hreg, hent]
    rfl
  obtain ⟨t, ht, -, -, -, -, -, -, hfree⟩ := as_destroy_releases
    (booted_smallSys (by decide) (by decide) _) hr has
    (by rintro he; rw [he] at hreg; exact absurd hreg (by decide))
    ⟨by rw [hpages]; decide, by rw [hpages, hheld]; simp⟩
  exact ⟨as, has, hent, hslots, t, ht, hfree⟩

end OsPaging.Vm
