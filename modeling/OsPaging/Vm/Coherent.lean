import OsPaging.Vm.Blocks
import OsPaging.Vm.Linked
import OsPaging.Vm.Slots

/-!
# Entries and the frames they own

`Coherent P s` adds to `Linked P s` its converse: an entry that is not swapped out owns a `DIRTY`
frame that is not pending. Then entries and `DIRTY` frames correspond one to one, and a swap-out
takes a page that is not in the swap file already, so that every occupied slot keeps its entry.

The frames of `CoherentSys` are those of the user's pages and of the kernel's blocks; it is kept
by every event, as long as no fault is on the last page and every block is whole.
-/

namespace OsPaging.Vm

open OsPaging.Lib

/-! ## Occupied slots have entries -/

namespace SlotsOnto

variable {P : Set Nat} {s s' s₁ t : VmState} {f vaddr : Nat} {e : PtEntry}

variable (h : SlotsOnto s)
include h

theorem same (he : t.entries = s.entries) (hs : t.swaptable = s.swaptable) : SlotsOnto t := by
  unfold SlotsOnto
  rw [he, hs]
  exact h

/-- A page that is not in the swap file goes to a slot of its own. -/
theorem swapOutVictim (hl : Linked P s) (h1 : s.firstFreeFrame ≤ f) (h2 : f < s.nRamFrames)
    (hd : (s.coremap f).status = .dirty) (hf : f ∉ P) (ho : Vm.swapOutVictim s f = .ok s') :
    SlotsOnto s' := by
  obtain ⟨e₀, hfind₀, hown⟩ := hl.victim h1 h2 hd hf
  obtain ⟨g, e, index, hv, -, hfind, -, hev, -, -, rfl⟩ := swapOutVictim_ok ho
  obtain rfl : g = f := by omega
  obtain rfl := Option.some.inj (hfind.symm.trans hfind₀)
  rw [← hev] at hfind
  obtain ⟨rest, hold, hnew⟩ := slotsOf_update hfind
  have hnew := hnew fun e => { e with swapIndex := index, swapped := true }
  rw [← swappedOut_entries s e.vaddr (s.coremap g).paddr index] at hnew
  rw [PtEntry.slots, hown.2.1] at hold
  intro i hi hocc
  rw [hnew.mem_iff]
  by_cases hii : i = index
  · rw [hii]
    exact List.mem_cons_self
  · simp only [swappedOut, Function.update_apply, if_neg hii] at hocc
    have hmem := h i hi hocc
    grind

theorem taken (hl : Linked P s) (ht : FrameTaken s f s₁) (hf : f ∉ P) : SlotsOnto s₁ := by
  obtain ⟨h1, h2, ⟨-, rfl⟩ | ⟨-, hd, hout⟩⟩ := ht
  · exact h
  · exact SlotsOnto.swapOutVictim (s := { s with nextVictim := f + 1 }) (h.same rfl rfl)
      (hl.select (Nat.le_succ_of_le h1)) h1 h2 hd hf hout

theorem link (hp : s.as.isSome) (f vaddr : Nat) : SlotsOnto (linkEntry s f vaddr) := by
  intro i hi hocc
  rw [linkEntry_entries hp]
  exact h i hi hocc

/-- The slot that `swap_in` empties is the entry's own. -/
theorem pagedIn (f : Nat) (hfind : s.entries.find? (ptMatch vaddr) = some e)
    (hs : e.swapped = true) :
    SlotsOnto (Vm.pagedIn s f vaddr e.swapIndex) := by
  obtain ⟨rest, hold, hnew⟩ := slotsOf_update hfind
  have hnew := hnew fun e => { e with ppageIndex := f, swapped := false }
  rw [← pagedIn_entries s f vaddr e.swapIndex] at hnew
  rw [PtEntry.slots, if_pos hs] at hold
  intro i hi hocc
  simp only [Vm.pagedIn, Function.update_apply] at hocc
  split_ifs at hocc with hii
  have hmem := h i hi hocc
  grind

theorem tlbLoad (st : Stats) (faultpage paddr : Nat) :
    SlotsOnto (Vm.tlbLoad { s with stats := st } faultpage paddr) := by
  refine h.same (sameTables_tlbLoad s st faultpage paddr).entries ?_
  exact tlbLoad_swaptable _ _ _

end SlotsOnto

/-! ## Frames that the allocators leave alone -/

/-- The frames of `P` are `DIRTY`, and the search for the address of one of them finds no entry
that names it. So no allocator takes one: it is not free, and as a victim it fails an assertion of
the swap-out branches. -/
structure Reserved (P : Set Nat) (s : VmState) : Prop where
  dirty : ∀ f ∈ P, (s.coremap f).status = .dirty
  unnamed : ∀ f ∈ P, ∀ e, s.entries.find? (ptMatch (s.coremap f).vaddr) = some e →
    e.ppageIndex ≠ f

namespace Reserved

variable {P : Set Nat} {s s' s₁ : VmState} {f page : Nat}

theorem empty (s : VmState) : Reserved ∅ s := ⟨by simp, by simp⟩

variable (h : Reserved P s)
include h

theorem victim {victim : Int} (ho : Vm.swapOutVictim s victim = .ok s') (hv : victim = (f : Nat)) :
    f ∉ P := by
  obtain ⟨g, e, _, hg, -, hfind, hef, -⟩ := swapOutVictim_ok ho
  obtain rfl : g = f := by omega
  exact fun hf => h.unnamed g hf e hfind hef

theorem notMem (ht : FrameTaken s f s₁) : f ∉ P := by
  obtain ⟨-, -, ⟨hfree, -⟩ | ⟨-, -, hout⟩⟩ := ht
  · exact fun hf => (isFree_iff.mp hfree).1 (h.dirty f hf)
  · exact Reserved.victim (s := { s with nextVictim := f + 1 }) ⟨h.dirty, h.unnamed⟩ hout rfl

theorem swapOutVictim {victim : Int} (ho : Vm.swapOutVictim s victim = .ok s') : Reserved P s' := by
  obtain ⟨_, x, index, -, -, -, -, -, -, -, rfl⟩ := swapOutVictim_ok ho
  refine ⟨h.dirty, fun f hf e he => ?_⟩
  rw [swappedOut_entries, swappedOut_coremap] at he
  have hkeep : ∀ e : PtEntry, ptMatch (s.coremap f).vaddr
      { e with swapIndex := index, swapped := true } = ptMatch (s.coremap f).vaddr e :=
    ptMatch_keep fun _ => rfl
  cases hold : s.entries.find? (ptMatch (s.coremap f).vaddr) with
  | none =>
    rw [find_modifyFirst_none hkeep hold] at he
    cases he
  | some y =>
    obtain ⟨z, hz, hzy⟩ := find_modifyFirst (p := ptMatch x.vaddr) hkeep hold
    obtain rfl := Option.some.inj (hz.symm.trans he)
    rcases hzy with rfl | rfl
    · exact h.unnamed f hf z hold
    · exact h.unnamed f hf y hold

theorem taken (ht : FrameTaken s f s₁) : Reserved P s₁ := by
  obtain ⟨-, -, ⟨-, rfl⟩ | ⟨-, -, hout⟩⟩ := ht
  · exact h
  · exact Reserved.swapOutVictim (s := { s with nextVictim := f + 1 }) ⟨h.dirty, h.unnamed⟩ hout

theorem modifyFrame (hf : f ∉ P) (g : CoremapEntry → CoremapEntry) :
    Reserved P (s.modifyFrame f g) := by
  have hcm : ∀ j ∈ P, (s.modifyFrame f g).coremap j = s.coremap j := by
    intro j hj
    rw [VmState.modifyFrame_coremap, if_neg (by rintro rfl; exact hf hj)]
  refine ⟨fun j hj => by rw [hcm j hj]; exact h.dirty j hj, fun j hj e he => ?_⟩
  rw [hcm j hj] at he
  exact h.unnamed j hj e he

/-- The frame of a page that has no entry yet is reserved: its address is not found. -/
theorem userPage (hf : f ∉ P) (hnone : s.entries.find? (ptMatch page) = none) :
    Reserved (insert f P) (Vm.userPage s f page) := by
  have hrest := h.modifyFrame hf fun _ =>
    { status := .dirty, paddr := f * pageSize, vaddr := page, size := 1 }
  have hcm : (Vm.userPage s f page).coremap f =
      { status := .dirty, paddr := f * pageSize, vaddr := page, size := 1 } := by
    unfold Vm.userPage
    rw [VmState.modifyFrame_coremap, if_pos rfl]
  refine ⟨fun j hj => ?_, fun j hj e he => ?_⟩
  · rcases hj with rfl | hj
    · rw [hcm]
    · exact hrest.dirty j hj
  · rcases hj with rfl | hj
    · rw [hcm] at he
      exact absurd (hnone.symm.trans he) (by simp)
    · exact hrest.unnamed j hj e he

end Reserved

/-! ## Coherence -/

/-- Entries that are not swapped out own `DIRTY` frames outside `P`. -/
structure Coherent (P : Set Nat) (s : VmState) : Prop extends Linked P s where
  resident : ∀ e ∈ s.entries, e.swapped = false →
    (s.coremap e.ppageIndex).status = .dirty ∧ (s.coremap e.ppageIndex).vaddr = e.vaddr ∧
      e.ppageIndex ∉ P

namespace Coherent

variable {P : Set Nat} {s s' s₁ t : VmState} {f n vaddr index : Nat} {e x : PtEntry}

theorem same (h : Coherent P s) (ht : SameTables s t) : Coherent P t :=
  ⟨h.toLinked.same ht, by rw [ht.entries, ht.coremap]; exact h.resident⟩

theorem of_booted {s : Sys} (h : Booted s) : Coherent ∅ s.vm :=
  ⟨.of_booted h, by simp [(booted_spec h).2.2.2.1]⟩

section

variable (h : Coherent P s)
include h

theorem select {next : Nat} (hn : s.firstFreeFrame ≤ next) :
    Coherent P { s with nextVictim := next } :=
  ⟨h.toLinked.select hn, h.resident⟩

/-- A frame has at most one owner. -/
theorem eq_of_frame (he : e ∈ s.entries) (hx : x ∈ s.entries) (hes : e.swapped = false)
    (hxs : x.swapped = false) (hf : e.ppageIndex = x.ppageIndex) : e = x := by
  have h1 := (h.resident e he hes).2.1
  have h2 := (h.resident x hx hxs).2.1
  rw [hf] at h1
  exact h.table.eq_of_vaddr hx he (h1.symm.trans h2)

theorem swapOutVictim (ho : Vm.swapOutVictim s f = .ok s') : Coherent (insert f P) s' := by
  have hl := h.toLinked.swapOutVictim ho
  obtain ⟨g, e, index, hv, -, hfind, hef, hev, -, -, rfl⟩ := swapOutVictim_ok ho
  obtain rfl : g = f := by omega
  rw [← hev] at hfind
  refine ⟨hl, fun x hx hxs => ?_⟩
  rw [swappedOut_entries, h.table.mem_update hfind] at hx
  rcases hx with rfl | ⟨hx, hne⟩
  · cases hxs
  · obtain ⟨h1, h2, h3⟩ := h.resident x hx hxs
    refine ⟨h1, h2, ?_⟩
    grind

theorem insert_of_not_dirty (hf : (s.coremap f).status ≠ .dirty) : Coherent (insert f P) s := by
  refine ⟨h.toLinked.mono (Set.subset_insert f P), fun x hx hxs => ?_⟩
  obtain ⟨hd, hv, hP⟩ := h.resident x hx hxs
  grind

theorem taken (ht : FrameTaken s f s₁) : Coherent (insert f P) s₁ := by
  obtain ⟨h1, -, ⟨hfree, rfl⟩ | ⟨-, -, hout⟩⟩ := ht
  · exact h.insert_of_not_dirty (isFree_iff.mp hfree).1
  · exact (h.select (Nat.le_succ_of_le h1)).swapOutVictim hout

end

section

variable (h : Coherent (insert f P) s)
include h

theorem modifyFrame {Q : Set Nat} {g : CoremapEntry → CoremapEntry} (hQ : Q ⊆ insert f P)
    (hl : Linked Q (s.modifyFrame f g)) : Coherent Q (s.modifyFrame f g) := by
  refine ⟨hl, fun x hx hxs => ?_⟩
  obtain ⟨hd, hv, hP⟩ := h.resident x hx hxs
  rw [VmState.modifyFrame_coremap, if_neg (by rintro rfl; exact hP (Set.mem_insert _ _))]
  exact ⟨hd, hv, fun hq => hP (hQ hq)⟩

theorem kernelBlock (h1 : s.firstFreeFrame ≤ f) (hn : f + n ≤ s.nRamFrames) :
    Coherent P (Vm.kernelBlock s f n) :=
  h.modifyFrame (Set.subset_insert f P) (h.toLinked.kernelBlock h1 hn)

theorem userPage (vaddr : Nat) (h1 : s.firstFreeFrame ≤ f) (h2 : f < s.nRamFrames) :
    Coherent (insert f P) (Vm.userPage s f vaddr) :=
  h.modifyFrame (Set.Subset.refl _) (h.toLinked.userPage vaddr h1 h2)

/-- The new entry owns its frame, which must still be the user's. -/
theorem link (vaddr : Nat) (h1 : s.firstFreeFrame ≤ f) (h2 : f < s.nRamFrames)
    (hb : pageFrame vaddr + pageSize < wordSize) (hnew : s.entries.find? (ptMatch vaddr) = none)
    (hd : (s.coremap f).status = .dirty) (hf : f ∉ P) : Coherent P (linkEntry s f vaddr) := by
  refine ⟨h.toLinked.link vaddr h1 h2 hb hnew, fun x hx hxs => ?_⟩
  rw [linkEntry_entries h.process] at hx
  rcases List.mem_cons.mp hx with rfl | hx
  · rw [linkEntry_coremap, if_pos rfl]
    exact ⟨hd, rfl, hf⟩
  · obtain ⟨hd, hv, hP⟩ := h.resident x hx hxs
    rw [linkEntry_coremap, if_neg (by rintro rfl; exact hP (Set.mem_insert _ _))]
    grind

theorem pagedIn (index : Nat) (h1 : s.firstFreeFrame ≤ f) (h2 : f < s.nRamFrames)
    (hfind : s.entries.find? (ptMatch vaddr) = some e) (hs : e.swapped = true)
    (ha : vaddr % pageSize = 0) (hf : f ∉ P) : Coherent P (Vm.pagedIn s f vaddr index) := by
  refine ⟨h.toLinked.pagedIn index h1 h2 hfind hs ha, fun x hx hxs => ?_⟩
  rw [pagedIn_entries, h.table.mem_update hfind] at hx
  rcases hx with rfl | ⟨hx, -⟩
  · simp only [pagedIn_coremap, if_true]
    refine ⟨trivial, ?_, hf⟩
    rw [(h.table.search_some.mp hfind).2, pageFrame_of_aligned ha]
  · obtain ⟨hd, hv, hP⟩ := h.resident x hx hxs
    rw [pagedIn_coremap, if_neg (by rintro rfl; exact hP (Set.mem_insert _ _))]
    grind

/-- What the pages that `kmalloc` gets inside a fault keep: the fault's frame `f` stays as it is,
and each page is another frame. -/
theorem kmallocPages_ind {J : VmState → Prop} (hres : Reserved (insert f P) s) {k page : Nat}
    {addrs : List Nat} (hnone : s.entries.find? (ptMatch page) = none) (hJ : J s)
    (hstep : ∀ t t₁ g, Coherent (insert f P) t → FrameTaken t g t₁ → g ∉ insert f P → J t →
      J (Vm.kernelBlock t₁ g 1))
    (hk : kmallocPages s k = .ok (addrs, s')) :
    Coherent (insert f P) s' ∧ SameConstants s s' ∧ s'.coremap f = s.coremap f ∧
      s'.entries.find? (ptMatch page) = none ∧ J s' := by
  refine (Vm.kmallocPages_ind (I := fun _ t => Reserved (insert f P) t ∧
    Coherent (insert f P) t ∧ SameConstants s t ∧ t.coremap f = s.coremap f ∧
    t.entries.find? (ptMatch page) = none ∧ J t)
    h.toStarted ⟨hres, h, .refl s, rfl, hnone, hJ⟩ ?_ hk).2.2
  rintro as t t₁ g - ⟨hr, hc, hsc, hf, hn, hJt⟩ ht
  have htc := ht.constants
  have hg := hr.notMem ht
  have hgf : f ≠ g := fun he => hg (he ▸ Set.mem_insert f P)
  refine ⟨(hr.taken ht).modifyFrame hg _, (hc.taken ht).kernelBlock
    (by rw [htc.first]; exact ht.1) (by rw [htc.nRam]; exact ht.2.1),
    (hsc.trans htc).trans (sameConstants_modifyFrame _ _ _), ?_, ht.find_none hn,
    hstep t t₁ g hc ht hg hJt⟩
  rw [kernelBlock_coremap, if_neg hgf, ht.coremap]
  exact hf

end

variable (h : Coherent P s)
include h

/-- A fault on a page that has no entry: what the taking of frames and the writes to the coremap
keep, the linking of the entry finds. -/
theorem fresh {J : VmState → Prop} (hres : Reserved P s) {faultpage kpages : Nat} {addrs : List Nat}
    {s₂ : VmState} (hnone : s.entries.find? (ptMatch faultpage) = none) (ht : FrameTaken s f s₁)
    (hk : kmallocPages (Vm.userPage s₁ f faultpage) kpages = .ok (addrs, s₂))
    (hJ : J (Vm.userPage s₁ f faultpage))
    (hstep : ∀ t t₁ g, Coherent (insert f P) t → FrameTaken t g t₁ → g ∉ insert f P → J t →
      J (Vm.kernelBlock t₁ g 1)) :
    Coherent (insert f P) s₂ ∧ s₂.firstFreeFrame ≤ f ∧ f < s₂.nRamFrames ∧
      (s₂.coremap f).status = .dirty ∧ s₂.entries.find? (ptMatch faultpage) = none ∧ J s₂ := by
  have hc := ht.constants
  have h1 : s₁.firstFreeFrame ≤ f := by rw [hc.first]; exact ht.1
  have h2 : f < s₁.nRamFrames := by rw [hc.nRam]; exact ht.2.1
  have hnone₁ := ht.find_none hnone
  have hres₁ := (hres.taken ht).userPage (hres.notMem ht) hnone₁
  obtain ⟨hco, hc₂, hf₂, hnone₂, hJ₂⟩ := ((h.taken ht).userPage faultpage h1 h2).kmallocPages_ind
    hres₁ hnone₁ hJ hstep hk
  exact ⟨hco, by rw [hc₂.first]; exact h1, by rw [hc₂.nRam]; exact h2,
    by rw [hf₂]; exact hres₁.dirty f (Set.mem_insert f P), hnone₂, hJ₂⟩

theorem faulted (hres : Reserved P s) {faultpage kpages : Nat} {addrs : List Nat}
    (ha : faultpage % pageSize = 0) (hb : faultpage + pageSize < wordSize)
    (hf : Faulted s faultpage kpages addrs s') : Coherent P s' ∧ (SlotsOnto s → SlotsOnto s') := by
  cases hf with
  | @fresh f addrs s₁ s₂ hnone _ ht hk =>
    have hfP := hres.notMem ht
    obtain ⟨hco, h1, h2, hd, hnone₂, honto⟩ := h.fresh (J := fun t => SlotsOnto s → SlotsOnto t)
      hres hnone ht hk (fun ho => (ho.taken h.toLinked ht hfP).same rfl rfl)
      (fun t t₁ g hco htg hg hJ ho => ((hJ ho).taken hco.toLinked htg hg).same rfl rfl)
    exact ⟨(hco.link faultpage h1 h2 (by rw [pageFrame_of_aligned ha]; exact hb) hnone₂ hd
      hfP).same (sameTables_tlbLoad _ _ _ _),
      fun ho => ((honto ho).link hco.process f faultpage).tlbLoad _ _ _⟩
  | @swapin f e e₁ s₁ he hs ht he₁ hs₁ =>
    have hc := ht.constants
    have hfP := hres.notMem ht
    refine ⟨((h.taken ht).pagedIn e₁.swapIndex (by rw [hc.first]; exact ht.1)
      (by rw [hc.nRam]; exact ht.2.1) he₁ hs₁ ha hfP).same (sameTables_tlbLoad _ _ _ _),
      fun ho => ?_⟩
    exact ((ho.taken h.toLinked ht hfP).pagedIn f he₁ hs₁).tlbLoad _ _ _
  | reload he hs => exact ⟨h.same (sameTables_tlbLoad _ _ _ _), fun ho => ho.tlbLoad _ _ _⟩

theorem evict (hout : Vm.swapOutVictim s f = .ok s') :
    Coherent P (s'.modifyFrame f fun c => { c with status := .fixed }) := by
  obtain ⟨g, hg, h1, h2⟩ := h.toLinked.swapOutVictim_frame hout
  obtain rfl : g = f := by omega
  have hct := sameConstants_swapOutVictim hout
  have hout' := h.swapOutVictim hout
  refine hout'.modifyFrame (Set.subset_insert g P) (hout'.toLinked.modifyFrame
    (by rw [hct.first]; exact h1) ?_ (fun hd => absurd hd (by simp))
    (fun hd => absurd hd (by simp)))
  exact hout'.sizes g (by rw [hct.first]; exact h1) (by rw [hct.nRam]; exact h2)

theorem swapOutRun {victim : Int} (hr : Vm.swapOutRun s victim n = .ok s') : Coherent P s' :=
  swapOutRun_ind (I := fun _ t => Coherent P t) h (fun _ _ _ _ ht _ hout => ht.evict hout) hr

theorem getppages (hn : 0 < n) (hw : n < wordSize) {pa : Nat}
    (hg : Vm.getppages s n = .ok (pa, s')) :
    Coherent P s' := by
  obtain ⟨hl, hc, f, hpa, h1, h2⟩ := h.toLinked.getppages hn hw hg
  rcases getppages_ok h.active hg with ⟨f, hr, rfl, rfl⟩ | ⟨v, s₁, s₂, -, hsel, hrun, rfl, rfl⟩
  · obtain ⟨-, -, hfree⟩ := freeRun_some hn hr
    exact (h.insert_of_not_dirty (isFree_iff.mp (hfree 0 hn)).1).modifyFrame
      (Set.subset_insert f P) hl
  · obtain ⟨-, ⟨next, rfl, hle, -⟩, -⟩ := victimSelection_spec h.pointer hsel
    obtain ⟨g, rfl, -, -, -, hfix, -⟩ := swapOutRun_window hn (h.select hle).frames hrun
    rw [Int.toNat_natCast] at hl ⊢
    have hrun' := (h.select hle).swapOutRun hrun
    refine (hrun'.insert_of_not_dirty (f := g) ?_).modifyFrame (Set.subset_insert g P) hl
    rw [hfix g (le_refl g) (by omega)]
    simp

theorem allocKpages (hn : 0 < n) (hw : n < wordSize) {addr : Nat}
    (ha : Vm.allocKpages s n = .ok (addr, s')) : Coherent P s' := by
  obtain ⟨pa, hg, -⟩ := allocKpages_ok ha
  exact h.getppages hn hw hg

/-- `free_kpages` of a whole block touches no user frame. -/
theorem freeKpages {held : List (Nat × Nat)} {b : Nat × Nat} (hb : Blocks s held) (hmem : b ∈ held)
    (hf : Vm.freeKpages s b.1 = .ok s') : Coherent P s' := by
  obtain ⟨hl, -⟩ := h.toLinked.freeKpages (hb.range b hmem).1 hf
  obtain ⟨-, -, hcm⟩ := hb.freeKpages h.toStarted hmem hf
  have hes : s'.entries = s.entries := by
    obtain ⟨-, rfl⟩ := freeKpages_ok h.active hf
    rw [releaseFrames_eq]
    rfl
  refine ⟨hl, fun x hx hxs => ?_⟩
  rw [hes] at hx
  obtain ⟨hd, hv, hP⟩ := h.resident x hx hxs
  have hnot : ¬ InBlock b x.ppageIndex := fun hin => by
    rw [hb.fixed b hmem _ hin] at hd
    cases hd
  rw [hcm, if_neg hnot]
  exact ⟨hd, hv, hP⟩

end Coherent

/-! ## The system -/

/-- Kernel requests give back every frame they mark. -/
abbrev Event.wholeBlock (s : Sys) (e : Event) : Prop :=
  e.Meets (fun _ _ => True) (WholeBlock s.vm)

/-- Frames that the allocators must leave alone are reserved when one is called. -/
abbrev Event.reserves (P : Set Nat) (s : Sys) (e : Event) : Prop :=
  e.Meets (fun _ _ => Reserved P s.vm) fun _ => Reserved P s.vm

theorem Event.reserves.empty (s : Sys) (e : Event) : e.reserves ∅ s := by
  cases e with
  | fault | kalloc => exact Reserved.empty s.vm
  | _ => trivial

/-- The page table, the coremap, the swap table and the kernel's blocks agree; `P` and `others` are
the frames and the slots of other processes. -/
structure CoherentSys (P : Set Nat) (others : List Nat) (s : Sys) : Prop where
  vm : Coherent P s.vm
  slots : Slots others s.vm
  blocks : Blocks s.vm s.held

namespace CoherentSys

variable {P : Set Nat} {others : List Nat} {s t : Sys} {e : Event}

theorem of_booted (h : Booted s) : CoherentSys ∅ [] s := by
  obtain ⟨-, hheld, -, hes, -⟩ := booted_spec h
  refine ⟨.of_booted h, ⟨by simp [hes, slotsOf], by simp [hes, slotsOf]⟩, ?_⟩
  rw [hheld]
  exact .nil _

theorem ram (h : CoherentSys P others s) (m : Nat → UInt8) :
    CoherentSys P others { s with vm := { s.vm with ram := m } } :=
  ⟨h.vm.same ⟨rfl, rfl, rfl, rfl, rfl, rfl⟩, h.slots.same rfl rfl,
    h.blocks.same ⟨rfl, rfl, rfl, rfl, rfl, rfl⟩⟩

theorem step (h : CoherentSys P others s) (hres : e.reserves P s) (he : e.belowLastPage)
    (hw : e.wholeBlock s) (hx : s.exec e = some t) : CoherentSys P others t := by
  rcases exec_cases hx with ⟨m, rfl⟩ | ⟨faulttype, va, kpages, err, addrs, rfl, hf, hheld⟩ |
    ⟨npages, addr, rfl, hn, hlt, ha, hheld⟩ | ⟨addr, n, rfl, hmem, hf, hheld⟩
  · exact h.ram m
  · rcases vmFault_ok h.vm.pointer hf with ⟨-, rfl, hs⟩ | ⟨-, -, hf⟩
    · exact ⟨by rw [hs]; exact h.vm, by rw [hs]; exact h.slots,
        by rw [hheld, hs]; exact h.blocks⟩
    · refine ⟨(h.vm.faulted hres (pageFrame_aligned va) (pageFrame_lt he) hf).1,
        h.slots.faulted h.vm.toStarted hf, ?_⟩
      rw [hheld]
      exact h.blocks.faulted h.vm.toStarted hf
  · obtain ⟨-, -, _, -, h0, -⟩ := h.vm.toLinked.allocKpages hn hlt ha
    have hco := h.vm.allocKpages hn hlt ha
    obtain ⟨pa, hg, haddr⟩ := allocKpages_ok ha
    obtain ⟨f, rfl, -, -, -, hb, -⟩ := h.blocks.getppages h.vm.toStarted h.vm.frames hn hlt hw hg
    refine ⟨hco, (Slots.stable others).allocKpages h.vm.toStarted h.slots ha, ?_⟩
    grind
  · obtain ⟨-, hb, -⟩ := h.blocks.freeKpages h.vm.toStarted hmem hf
    refine ⟨h.vm.freeKpages h.blocks hmem hf, ?_, by rw [hheld]; exact hb⟩
    obtain ⟨-, hrel⟩ := freeKpages_ok h.vm.active hf
    rw [hrel, releaseFrames_eq]
    exact h.slots.same rfl rfl

theorem run {allowed : Sys → Event → Prop}
    (hle : ∀ s e, allowed s e → e.belowLastPage ∧ e.wholeBlock s) {s₀ : Sys} (hb : Booted s₀)
    {es : List Event} (hr : Run (Sys.Step allowed) s₀ es s) : CoherentSys ∅ [] s :=
  hr.invariant (of_booted hb) fun s _ _ h ht =>
    h.step (.empty s _) (hle _ _ ht.1).1 (hle _ _ ht.1).2 ht.2

end CoherentSys

end OsPaging.Vm
