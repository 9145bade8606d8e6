import OsPaging.Vm.AddrSpace
import OsPaging.Vm.Agreement

/-!
# Resident entries and their frames, on every page

`Coherent` assumes that no fault is on the last page of the address space, since `pt_search`
never finds an entry for it. `Owned P s` is what holds without that assumption, in a system whose
kernel requests are for one page: the entries that are not swapped out have distinct `DIRTY`
frames, every other `DIRTY` frame is in `P`, and the slots in use are exactly those of the
swapped-out entries. The last page may have several entries; each keeps its frame, since a
swap-out that comes upon one of their frames fails its assertion.

`P` holds the frame that a fault in progress has taken, as in `Linked`.
-/

namespace OsPaging.Vm

open OsPaging.Lib

/-- A write to the entry that a search finds changes that entry's frame and no other. -/
theorem framesOf_update {es : List PtEntry} {p : PtEntry → Bool} {e : PtEntry}
    (h : es.find? p = some e) :
    ∃ rest, (framesOf es).Perm (e.frames ++ rest) ∧
      ∀ g, (framesOf (modifyFirst p g es)).Perm ((g e).frames ++ rest) :=
  flatMap_modifyFirst PtEntry.frames h

/-- The pages of the table are pages of the address space, and those below the last one are
distinct. -/
structure PtPages (es : List PtEntry) : Prop where
  aligned : ∀ e ∈ es, e.vaddr % pageSize = 0
  top : ∀ e ∈ es, e.vaddr ≤ lastPage
  distinct : ((es.map PtEntry.vaddr).filter fun v => decide (v < lastPage)).Nodup

namespace PtPages

variable {es : List PtEntry} {e x : PtEntry} {vaddr : Nat}

variable (h : PtPages es)
include h

theorem of_vaddrs {es' : List PtEntry} (hv : es'.map PtEntry.vaddr = es.map PtEntry.vaddr) :
    PtPages es' where
  aligned := forall_mem_of_map_eq (P := (· % pageSize = 0)) hv h.aligned
  top := forall_mem_of_map_eq (P := (· ≤ lastPage)) hv h.top
  distinct := hv ▸ h.distinct

/-- What the search finds is the page's entry, and not the last page's. -/
theorem found (ha : vaddr % pageSize = 0) (hf : es.find? (ptMatch vaddr) = some e) :
    e.vaddr = vaddr ∧ e.vaddr < lastPage := by
  have he := List.mem_of_find?_eq_some hf
  have hm := List.find?_some hf
  have h1 := h.aligned e he
  unfold ptMatch at hm
  grind

theorem eq_of_vaddr (he : e ∈ es) (hx : x ∈ es) (hv : x.vaddr = e.vaddr)
    (hlt : e.vaddr < lastPage) : x = e := by
  have hnodup := h.distinct
  rw [List.filter_map] at hnodup
  have hin : ∀ y ∈ es, y.vaddr < lastPage →
      y ∈ es.filter ((fun v => decide (v < lastPage)) ∘ PtEntry.vaddr) := fun y hy hyl =>
    List.mem_filter.mpr ⟨hy, by simpa using hyl⟩
  exact List.inj_on_of_nodup_map hnodup (hin x hx (hv ▸ hlt)) (hin e he hlt) hv

/-- Linking an entry for a page that the search does not find. -/
theorem cons (ha : e.vaddr % pageSize = 0) (ht : e.vaddr ≤ lastPage)
    (hnone : es.find? (ptMatch e.vaddr) = none) : PtPages (e :: es) := by
  refine ⟨List.forall_mem_cons.mpr ⟨ha, h.aligned⟩, List.forall_mem_cons.mpr ⟨ht, h.top⟩, ?_⟩
  rw [List.map_cons, List.filter_cons]
  split
  · rename_i hlt
    refine List.nodup_cons.mpr ⟨fun hmem => ?_, h.distinct⟩
    obtain ⟨x, hx, hv⟩ := List.mem_map.mp (List.mem_filter.mp hmem).1
    refine List.find?_eq_none.mp hnone x hx ?_
    unfold ptMatch
    grind
  · exact h.distinct

end PtPages

/-! ## The invariant -/

/-- Resident entries own distinct `DIRTY` frames outside `P`, every `DIRTY` frame outside `P` is
one of them, and the swapped-out entries hold exactly the occupied slots. -/
structure Owned (P : Set Nat) (s : VmState) : Prop extends Started s where
  process : s.as.isSome
  pages : PtPages s.entries
  frames : (framesOf s.entries).Nodup
  resident : ∀ e ∈ s.entries, e.swapped = false → s.firstFreeFrame ≤ e.ppageIndex ∧
    e.ppageIndex < s.nRamFrames ∧ (s.coremap e.ppageIndex).status = .dirty ∧
    (s.coremap e.ppageIndex).vaddr = e.vaddr ∧ e.ppageIndex ∉ P
  owned : ∀ f, s.firstFreeFrame ≤ f → f < s.nRamFrames → (s.coremap f).status = .dirty → f ∉ P →
    f ∈ framesOf s.entries
  slots : Slots [] s
  onto : SlotsOnto s

namespace Owned

variable {P Q : Set Nat} {s s' s₁ t : VmState} {f page : Nat} {e : PtEntry}

section

variable (h : Owned P s)
include h

theorem same (ht : SameTables s t) (hsw : t.swaptable = s.swaptable) :
    Owned P t where
  toStarted := h.toStarted.same ht
  process := ht.as ▸ h.process
  pages := ht.entries ▸ h.pages
  frames := ht.entries ▸ h.frames
  resident := by rw [ht.first, ht.nRam, ht.coremap, ht.entries]; exact h.resident
  owned := by rw [ht.first, ht.nRam, ht.coremap, ht.entries]; exact h.owned
  slots := h.slots.same ht.entries hsw
  onto := h.onto.same ht.entries hsw

theorem select {next : Nat} (hn : s.firstFreeFrame ≤ next) :
    Owned P { s with nextVictim := next } :=
  ⟨h.toStarted.select hn, h.process, h.pages, h.frames, h.resident, h.owned,
    h.slots.same rfl rfl, h.onto.same rfl rfl⟩

/-- The swap-out branches take the page of the entry that owns the victim. -/
theorem victim (h1 : s.firstFreeFrame ≤ f) (h2 : f < s.nRamFrames)
    (hd : (s.coremap f).status = .dirty) (hf : f ∉ P)
    (hfind : s.entries.find? (ptMatch (s.coremap f).vaddr) = some e) :
    e.swapped = false ∧ e.ppageIndex = f := by
  obtain ⟨x, hx, hxs, hxf⟩ := mem_framesOf.mp (h.owned f h1 h2 hd hf)
  have hv := (h.resident x hx hxs).2.2.2.1
  rw [hxf] at hv
  obtain ⟨hev, hlt⟩ := h.pages.found (hv ▸ h.pages.aligned x hx) hfind
  have hxe := h.pages.eq_of_vaddr (List.mem_of_find?_eq_some hfind) hx
    (hv.symm.trans hev.symm) hlt
  exact ⟨hxe ▸ hxs, hxe ▸ hxf⟩

theorem swapOutVictim (h1 : s.firstFreeFrame ≤ f) (h2 : f < s.nRamFrames)
    (hd : (s.coremap f).status = .dirty) (hf : f ∉ P) (ho : Vm.swapOutVictim s f = .ok s') :
    Owned (insert f P) s' := by
  have hstart := h.toStarted.swapOutVictim ho
  have hslots := h.slots.swapOutVictim ho
  obtain ⟨g, e, index, hg, -, hfind, hef, hev, -, -, rfl⟩ := swapOutVictim_ok ho
  obtain rfl : g = f := by omega
  obtain ⟨hes, -⟩ := h.victim h1 h2 hd hf hfind
  rw [← hev] at hfind
  obtain ⟨rest, hold, hnew⟩ := framesOf_update hfind
  have hnew := hnew fun e => { e with swapIndex := index, swapped := true }
  obtain ⟨srest, sold, snew⟩ := slotsOf_update hfind
  have snew := snew fun e => { e with swapIndex := index, swapped := true }
  rw [← swappedOut_entries s e.vaddr (s.coremap g).paddr index] at hnew snew
  -- the victim's frame leaves the list of owned frames, its new slot joins the slots
  have hold' : (framesOf s.entries).Perm (g :: rest) := by
    rw [PtEntry.frames, hes, hef] at hold
    exact hold
  have sold' : (slotsOf s.entries).Perm srest := by
    rw [PtEntry.slots, hes] at sold
    exact sold
  have hnew' : (framesOf (swappedOut s e.vaddr (s.coremap g).paddr index).entries).Perm rest :=
    hnew
  have snew' : (slotsOf (swappedOut s e.vaddr (s.coremap g).paddr index).entries).Perm
      (index :: srest) := snew
  obtain ⟨hgrest, hrest⟩ := List.nodup_cons.mp (hold'.nodup_iff.mp h.frames)
  refine ⟨hstart, by rw [swappedOut_isSome]; exact h.process, h.pages.of_vaddrs ?_,
    hnew'.nodup_iff.mpr hrest, fun x hx hxs => ?_, fun j hj1 hj2 hjd hj => ?_, hslots,
    fun i hi hocc => ?_⟩
  · rw [swappedOut_entries]
    exact map_modifyFirst fun _ => rfl
  · have hxf : x.ppageIndex ∈ rest :=
      hnew'.mem_iff.mp (mem_framesOf.mpr ⟨x, hx, hxs, rfl⟩)
    rw [swappedOut_entries] at hx
    rcases mem_of_mem_modifyFirst hfind hx with rfl | hx
    · cases hxs
    · obtain ⟨r1, r2, r3, r4, r5⟩ := h.resident x hx hxs
      refine ⟨r1, r2, r3, r4, ?_⟩
      grind
  · rw [Set.mem_insert_iff, not_or] at hj
    rcases List.mem_cons.mp (hold'.mem_iff.mp (h.owned j hj1 hj2 hjd hj.2)) with rfl | hmem
    · exact absurd rfl hj.1
    · exact hnew'.mem_iff.mpr hmem
  · rw [snew'.mem_iff]
    by_cases hii : i = index
    · rw [hii]
      exact List.mem_cons_self
    · simp only [swappedOut, Function.update_apply, if_neg hii] at hocc
      exact List.mem_cons_of_mem _ (sold'.mem_iff.mp (h.onto i hi hocc))

theorem taken (hres : Reserved P s) (ht : FrameTaken s f s₁) : Owned (insert f P) s₁ := by
  have hf := hres.notMem ht
  obtain ⟨h1, h2, ⟨hfree, rfl⟩ | ⟨-, hd, hout⟩⟩ := ht
  · refine { h with resident := fun e he hes => ?_, owned := fun j hj1 hj2 hjd hj => ?_ }
    · obtain ⟨r1, r2, r3, r4, r5⟩ := h.resident e he hes
      refine ⟨r1, r2, r3, r4, ?_⟩
      rintro (hef | heP)
      · exact (isFree_iff.mp hfree).1 (hef ▸ r3)
      · exact r5 heP
    · exact h.owned j hj1 hj2 hjd fun hjP => hj (Set.mem_insert_of_mem f hjP)
  · exact (h.select (Nat.le_succ_of_le h1)).swapOutVictim h1 h2 hd hf hout

end

section

variable (h : Owned (insert f P) s)
include h

theorem modifyFrame {g : CoremapEntry → CoremapEntry} (hPQ : P ⊆ Q) (hQ : Q ⊆ insert f P)
    (hd : (g (s.coremap f)).status = .dirty → f ∈ Q) : Owned Q (s.modifyFrame f g) := by
  refine ⟨h.toStarted.modifyFrame f g, h.process, h.pages, h.frames, fun e he hes => ?_,
    fun j hj1 hj2 hjd hj => ?_, h.slots.same rfl rfl, h.onto.same rfl rfl⟩
  · obtain ⟨r1, r2, r3, r4, r5⟩ := h.resident e he hes
    rw [VmState.modifyFrame_coremap, if_neg (by rintro rfl; exact r5 (Set.mem_insert _ _))]
    exact ⟨r1, r2, r3, r4, fun hq => r5 (hQ hq)⟩
  · rw [VmState.modifyFrame_coremap] at hjd
    split_ifs at hjd with hjf
    · exact absurd (hjf ▸ hd hjd) hj
    · refine h.owned j hj1 hj2 hjd ?_
      grind

theorem kernelBlock (n : Nat) : Owned P (Vm.kernelBlock s f n) :=
  h.modifyFrame (Set.Subset.refl P) (Set.subset_insert f P) fun hd => absurd hd (by simp)

theorem userPage (vaddr : Nat) : Owned (insert f P) (Vm.userPage s f vaddr) :=
  h.modifyFrame (Set.subset_insert f P) (Set.Subset.refl _) fun _ => Set.mem_insert f P

theorem link (h1 : s.firstFreeFrame ≤ f) (h2 : f < s.nRamFrames)
    (hd : (s.coremap f).status = .dirty) (hf : f ∉ P) (ha : page % pageSize = 0)
    (ht : page ≤ lastPage) (hnone : s.entries.find? (ptMatch page) = none) :
    Owned P (linkEntry s f page) := by
  have hpage := pageFrame_of_aligned ha
  have hes : (linkEntry s f page).entries = ⟨page, f, false, 0⟩ :: s.entries := by
    rw [linkEntry_entries h.process, hpage]
  have hframes : framesOf (linkEntry s f page).entries = f :: framesOf s.entries := by
    rw [hes]
    rfl
  have hslots : slotsOf (linkEntry s f page).entries = slotsOf s.entries := by
    rw [hes]
    rfl
  refine ⟨h.toStarted.link f page, ?_, ?_, ?_, fun x hx hxs => ?_, fun j hj1 hj2 hjd hj => ?_,
    h.slots.link f page, fun i hi hocc => ?_⟩
  · rw [(sameConstants_linkEntry s f page).process]
    exact h.process
  · rw [hes]
    exact h.pages.cons ha ht hnone
  · rw [hframes]
    refine List.nodup_cons.mpr ⟨fun hmem => ?_, h.frames⟩
    obtain ⟨x, hx, hxs, hxf⟩ := mem_framesOf.mp hmem
    exact (h.resident x hx hxs).2.2.2.2 (hxf ▸ Set.mem_insert f P)
  · rw [hes] at hx
    rcases List.mem_cons.mp hx with rfl | hx
    · rw [linkEntry_coremap, if_pos rfl, hpage]
      exact ⟨h1, h2, hd, rfl, hf⟩
    · obtain ⟨r1, r2, r3, r4, r5⟩ := h.resident x hx hxs
      rw [linkEntry_coremap, if_neg (by rintro rfl; exact r5 (Set.mem_insert _ _))]
      exact ⟨r1, r2, r3, r4, fun hq => r5 (Set.mem_insert_of_mem _ hq)⟩
  · rw [hframes]
    by_cases hjf : j = f
    · rw [hjf]
      exact List.mem_cons_self
    · rw [linkEntry_coremap, if_neg hjf] at hjd
      refine List.mem_cons_of_mem _ (h.owned j hj1 hj2 hjd ?_)
      grind
  · rw [hslots]
    exact h.onto i hi hocc

theorem pagedIn (h1 : s.firstFreeFrame ≤ f) (h2 : f < s.nRamFrames) (hf : f ∉ P)
    (ha : page % pageSize = 0) (hfind : s.entries.find? (ptMatch page) = some e)
    (hs : e.swapped = true) : Owned P (Vm.pagedIn s f page e.swapIndex) := by
  have hev := (h.pages.found ha hfind).1
  obtain ⟨rest, hold, hnew⟩ := framesOf_update hfind
  have hnew := hnew fun e => { e with ppageIndex := f, swapped := false }
  rw [← pagedIn_entries s f page e.swapIndex] at hnew
  have hold' : (framesOf s.entries).Perm rest := by
    rw [PtEntry.frames, if_pos hs] at hold
    exact hold
  have hnew' : (framesOf (Vm.pagedIn s f page e.swapIndex).entries).Perm (f :: rest) :=
    hnew
  refine ⟨h.toStarted.pagedIn f page _, ?_, h.pages.of_vaddrs ?_, ?_, fun x hx hxs => ?_,
    fun j hj1 hj2 hjd hj => ?_, (h.slots.pagedIn f hfind hs).1, h.onto.pagedIn f hfind hs⟩
  · rw [(sameConstants_pagedIn s f page _).process]
    exact h.process
  · rw [pagedIn_entries]
    exact map_modifyFirst fun _ => rfl
  · refine hnew'.nodup_iff.mpr (List.nodup_cons.mpr
      ⟨fun hmem => ?_, hold'.nodup_iff.mp h.frames⟩)
    obtain ⟨x, hx, hxs, hxf⟩ := mem_framesOf.mp (hold'.mem_iff.mpr hmem)
    exact (h.resident x hx hxs).2.2.2.2 (hxf ▸ Set.mem_insert f P)
  · rw [pagedIn_entries] at hx
    rcases mem_of_mem_modifyFirst hfind hx with rfl | hx
    · simp only [pagedIn_coremap, if_true]
      exact ⟨h1, h2, trivial, hev.symm, hf⟩
    · obtain ⟨r1, r2, r3, r4, r5⟩ := h.resident x hx hxs
      rw [pagedIn_coremap, if_neg (by rintro rfl; exact r5 (Set.mem_insert _ _))]
      exact ⟨r1, r2, r3, r4, fun hq => r5 (Set.mem_insert_of_mem _ hq)⟩
  · rw [hnew'.mem_iff]
    by_cases hjf : j = f
    · rw [hjf]
      exact List.mem_cons_self
    · rw [pagedIn_coremap, if_neg hjf] at hjd
      refine List.mem_cons_of_mem _ (hold'.mem_iff.mp (h.owned j hj1 hj2 hjd ?_))
      grind

/-! ### Whole calls -/

/-- The pages that `kmalloc` gets while the fault holds frame `f`. -/
theorem kmallocPages (hres : Reserved (insert f P) s) {k : Nat} {addrs : List Nat}
    (hnone : s.entries.find? (ptMatch page) = none) (hk : Vm.kmallocPages s k = .ok (addrs, s')) :
    Owned (insert f P) s' ∧ Reserved (insert f P) s' ∧ SameConstants s s' ∧
      s'.entries.find? (ptMatch page) = none := by
  refine (kmallocPages_ind (I := fun _ t => Owned (insert f P) t ∧ Reserved (insert f P) t ∧
    SameConstants s t ∧ t.entries.find? (ptMatch page) = none) h.toStarted
    ⟨h, hres, .refl s, hnone⟩ ?_ hk).2
  rintro _ t t₁ g - ⟨ho, hr, hc, hn⟩ ht
  exact ⟨(ho.taken hr ht).kernelBlock 1, (hr.taken ht).modifyFrame (hr.notMem ht) _,
    (hc.trans ht.constants).trans (sameConstants_modifyFrame _ _ _), ht.find_none hn⟩

end

theorem faulted (h : Owned ∅ s) {kpages : Nat} {addrs : List Nat} (ha : page % pageSize = 0)
    (ht : page ≤ lastPage) (hf : Faulted s page kpages addrs s') : Owned ∅ s' := by
  have hres := Reserved.empty s
  cases hf with
  | @fresh f addrs s₁ s₂ hnone _ htk hk =>
    have hc := htk.constants
    have hnone₁ := htk.find_none hnone
    have hres₁ := (hres.taken htk).userPage (hres.notMem htk) hnone₁
    have hpage := (h.taken hres htk).userPage page
    obtain ⟨ho, hr, hc₂, hnone₂⟩ := hpage.kmallocPages hres₁ hnone₁ hk
    refine Owned.same (s := linkEntry s₂ f page) ?_ (sameTables_tlbLoad _ _ _ _)
      (tlbLoad_swaptable _ _ _)
    refine ho.link ?_ ?_ (hr.dirty f (Set.mem_insert f ∅)) (Set.notMem_empty f) ha ht hnone₂
    · rw [hc₂.first]
      exact hc.first ▸ htk.1
    · rw [hc₂.nRam]
      exact hc.nRam ▸ htk.2.1
  | @swapin f e e₁ s₁ _ _ htk he₁ hs₁ =>
    have hc := htk.constants
    exact Owned.same ((h.taken hres htk).pagedIn (hc.first ▸ htk.1) (hc.nRam ▸ htk.2.1)
      (Set.notMem_empty f) ha he₁ hs₁) (sameTables_tlbLoad _ _ _ _) (tlbLoad_swaptable _ _ _)
  | reload _ _ => exact h.same (sameTables_tlbLoad _ _ _ _) (tlbLoad_swaptable _ _ _)

theorem allocKpages (h : Owned ∅ s) {addr : Nat}
    (hk : Vm.allocKpages s 1 = .ok (addr, s')) : Owned ∅ s' := by
  obtain ⟨f, s₁, -, rfl, ht⟩ := allocKpages_one h.toStarted hk
  exact (h.taken (Reserved.empty s) ht).kernelBlock 1

/-- `free_kpages` of a live block touches no user frame. -/
theorem freeKpages (h : Owned P s) {held : List (Nat × Nat)} {b : Nat × Nat}
    (hb : Blocks s held) (hmem : b ∈ held) (hf : Vm.freeKpages s b.1 = .ok s') :
    Owned P s' := by
  have hstart := Started.stable.freeKpages h.toStarted h.toStarted hf
  obtain ⟨hc, -, hcm⟩ := hb.freeKpages h.toStarted hmem hf
  obtain ⟨hes, hsw, has⟩ : s'.entries = s.entries ∧ s'.swaptable = s.swaptable ∧ s'.as = s.as := by
    obtain ⟨-, rfl⟩ := freeKpages_ok h.active hf
    rw [releaseFrames_eq]
    exact ⟨rfl, rfl, rfl⟩
  refine ⟨hstart, has ▸ h.process, hes ▸ h.pages, hes ▸ h.frames, fun x hx hxs => ?_,
    fun j hj1 hj2 hjd hj => ?_, h.slots.same hes hsw, h.onto.same hes hsw⟩
  · rw [hes] at hx
    obtain ⟨r1, r2, r3, r4, r5⟩ := h.resident x hx hxs
    have hnot : ¬ InBlock b x.ppageIndex := fun hin => by
      rw [hb.fixed b hmem _ hin] at r3
      cases r3
    rw [hcm, if_neg hnot, hc.first, hc.nRam]
    exact ⟨r1, r2, r3, r4, r5⟩
  · rw [hcm] at hjd
    rw [hc.first] at hj1
    rw [hc.nRam] at hj2
    rw [hes]
    split_ifs at hjd
    exact h.owned j hj1 hj2 hjd hj

theorem of_booted {s : Sys} (h : Booted s) : Owned ∅ s.vm := by
  obtain ⟨hr, -, has, hes, -, -, hsw, -, -, -, hu⟩ := booted_spec h
  refine ⟨hr.toStarted, has, ⟨by simp [hes], by simp [hes], by simp [hes]⟩,
    by simp [hes, framesOf], by simp [hes], fun f h1 h2 hd _ => ?_,
    ⟨by simp [hes, slotsOf], by simp [hes, slotsOf]⟩, fun i _ hocc => ?_⟩
  · grind
  · exact absurd ((hsw i).symm.trans hocc) (by decide)

end Owned

/-! ## The system -/

/-- `Owned` between events, with the kernel's blocks, all of one page. -/
structure OwnedSys (s : Sys) : Prop where
  vm : Owned ∅ s.vm
  blocks : Blocks s.vm s.held
  single : ∀ b ∈ s.held, b.2 = 1

namespace OwnedSys

variable {s t : Sys} {e : Event}

theorem of_booted (h : Booted s) : OwnedSys s := by
  obtain ⟨-, hheld, -⟩ := booted_spec h
  refine ⟨.of_booted h, ?_, by simp [hheld]⟩
  rw [hheld]
  exact .nil _

theorem ram (h : OwnedSys s) (m : Nat → UInt8) :
    OwnedSys { s with vm := { s.vm with ram := m } } :=
  ⟨h.vm.same ⟨rfl, rfl, rfl, rfl, rfl, rfl⟩ rfl, h.blocks.same ⟨rfl, rfl, rfl, rfl, rfl, rfl⟩,
    h.single⟩

/-- An admitted address is a 32-bit one. -/
theorem pageFrame_le_lastPage {as : AddrSpace} {va : Nat} (h : as.validAddress va = true) :
    pageFrame va ≤ lastPage := by
  unfold AddrSpace.validAddress at h
  rw [Bool.or_eq_true, List.any_eq_true, decide_eq_true_eq] at h
  have hva : va < wordSize := by
    rcases h with ⟨r, -, hadm⟩ | ⟨-, h2⟩
    · unfold Region.admits at hadm
      grind
    · grind
  unfold pageFrame
  simp only [pageSize, wordSize, lastPage] at *
  omega

theorem step (h : OwnedSys s) (he : e.singlePage) (hx : s.exec e = some t) : OwnedSys t := by
  rcases exec_cases hx with ⟨m, rfl⟩ | ⟨faulttype, va, kpages, err, addrs, rfl, hf, hheld⟩ |
    ⟨npages, addr, rfl, -, -, ha, hheld⟩ | ⟨addr, n, rfl, hmem, hf, hheld⟩
  · exact h.ram m
  · rcases vmFault_ok h.vm.pointer hf with ⟨-, rfl, hs⟩ | ⟨-, ⟨as, -, hv⟩, hf⟩
    · exact ⟨by rw [hs]; exact h.vm, by rw [hheld, hs]; exact h.blocks,
        by rw [hheld]; exact h.single⟩
    · refine ⟨h.vm.faulted (pageFrame_aligned va) (pageFrame_le_lastPage hv) hf, ?_, ?_⟩
      · rw [hheld]
        exact h.blocks.faulted h.vm.toStarted hf
      · rw [hheld]
        intro b hb
        rcases List.mem_append.mp hb with hb | hb
        · grind
        · exact h.single b hb
  · obtain rfl : npages = 1 := he
    obtain ⟨f, s₁, haddr, hvm, ht⟩ := allocKpages_one h.vm.toStarted ha
    have h0 := (h.vm.toStarted.kvaddrFrame ht.2.1).2
    rw [← haddr] at h0
    rw [if_neg h0] at hheld
    refine ⟨h.vm.allocKpages ha, ?_, ?_⟩
    · rw [hheld, hvm, haddr]
      exact h.blocks.addOne h.vm.toStarted ht
    · rw [hheld]
      exact List.forall_mem_cons.mpr ⟨rfl, h.single⟩
  · obtain ⟨-, hb, -⟩ := h.blocks.freeKpages h.vm.toStarted hmem hf
    refine ⟨h.vm.freeKpages h.blocks hmem hf, by rw [hheld]; exact hb, ?_⟩
    rw [hheld]
    exact fun b hb => h.single b (List.mem_of_mem_erase hb)

theorem run {s₀ : Sys} {es : List Event} (hb : Booted s₀)
    (hr : Run (Sys.Step fun _ e => e.singlePage) s₀ es s) : OwnedSys s :=
  hr.invariant (of_booted hb) fun _ _ _ h ht => h.step ht.1 ht.2

end OwnedSys

end OsPaging.Vm
