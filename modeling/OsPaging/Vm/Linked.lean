import Mathlib.Data.Set.Insert
import OsPaging.Vm.System

/-!
# Frames and the entries that own them

`Linked P s`: every `DIRTY` frame that is not in `P` is owned by an entry of the page table that
is not swapped out, and the coremap names that entry's address. `P` holds the frames a call in
progress has taken and not yet given to a page or to the kernel: `vm_fault` takes a frame before
`pt_add` links its entry, and `pt_add` may take further frames for the kernel in between.

This is what the assertions of the swap-out branches need (`Linked.victim`), and it holds for
kernel requests of any size. `Coherent` adds the converse, that an entry that is not swapped out
owns a `DIRTY` frame; that half needs the kernel's blocks not to overlap the user's frames.
-/

namespace OsPaging.Vm

open OsPaging.Lib

/-- The entry `e` owns frame `f`. -/
def Owns (s : VmState) (e : PtEntry) (f : Nat) : Prop :=
  e ∈ s.entries ∧ e.swapped = false ∧ e.ppageIndex = f ∧ e.vaddr = (s.coremap f).vaddr

/-- Every `DIRTY` frame outside `P` has an owner. -/
structure Linked (P : Set Nat) (s : VmState) : Prop extends Ready s where
  process : s.as.isSome
  kernel : ∀ f < s.firstFreeFrame, (s.coremap f).status = .fixed
  count : s.npages = s.entries.length
  frames : ∀ e ∈ s.entries, s.firstFreeFrame ≤ e.ppageIndex ∧ e.ppageIndex < s.nRamFrames
  sizes : ∀ f, s.firstFreeFrame ≤ f → f < s.nRamFrames → f + (s.coremap f).size ≤ s.nRamFrames
  paddrs : ∀ f, s.firstFreeFrame ≤ f → f < s.nRamFrames → (s.coremap f).status = .dirty →
    (s.coremap f).paddr = f * pageSize
  linked : ∀ f, s.firstFreeFrame ≤ f → f < s.nRamFrames → (s.coremap f).status = .dirty →
    f ∉ P → ∃ e, Owns s e f

namespace Linked

variable {P Q : Set Nat} {s s' s₁ t : VmState} {f n vaddr index : Nat} {e : PtEntry}

theorem mono (h : Linked P s) (hPQ : P ⊆ Q) : Linked Q s :=
  { h with linked := fun f h1 h2 h3 h4 => h.linked f h1 h2 h3 fun hp => h4 (hPQ hp) }

theorem same (h : Linked P s) (ht : SameTables s t) : Linked P t where
  toReady := h.toReady.same ht
  process := ht.as ▸ h.process
  kernel := by rw [ht.first, ht.coremap]; exact h.kernel
  count := by rw [ht.npages, ht.entries]; exact h.count
  frames := by rw [ht.first, ht.nRam, ht.entries]; exact h.frames
  sizes := by rw [ht.first, ht.nRam, ht.coremap]; exact h.sizes
  paddrs := by rw [ht.first, ht.nRam, ht.coremap]; exact h.paddrs
  linked := by
    unfold Owns
    rw [ht.first, ht.nRam, ht.coremap, ht.entries]
    exact h.linked

theorem of_booted {s : Sys} (h : Booted s) : Linked ∅ s.vm := by
  obtain ⟨hr, -, has, hes, hn, -, -, -, -, hk, hu⟩ := booted_spec h
  refine ⟨hr, has, hk, by rw [hn, hes]; rfl, by simp [hes], fun f h1 h2 => ?_,
    fun f h1 h2 hd => ?_, fun f h1 h2 hd => ?_⟩
  · rw [(hu f h1 h2).2]; omega
  · rw [(hu f h1 h2).1] at hd; exact absurd hd (by simp)
  · rw [(hu f h1 h2).1] at hd; exact absurd hd (by simp)

section

variable (h : Linked P s)
include h

/-- **The assertions of the swap-out branches hold** for a `DIRTY` victim that is not pending. -/
theorem victim (h1 : s.firstFreeFrame ≤ f) (h2 : f < s.nRamFrames)
    (hd : (s.coremap f).status = .dirty) (hf : f ∉ P) :
    ∃ e, s.entries.find? (ptMatch (s.coremap f).vaddr) = some e ∧ Owns s e f := by
  obtain ⟨e, he⟩ := h.linked f h1 h2 hd hf
  refine ⟨e, h.table.search_some.mpr ⟨he.1, ?_⟩, he⟩
  rw [← he.2.2.2]
  exact (pageFrame_of_aligned (h.table.aligned e he.1)).symm

theorem select {next : Nat} (hn : s.firstFreeFrame ≤ next) :
    Linked P { s with nextVictim := next } :=
  { h with toReady := h.toReady.select hn }

/-- A victim that passed the assertions is a user frame. -/
theorem swapOutVictim_frame {victim : Int} (ho : Vm.swapOutVictim s victim = .ok s') :
    ∃ f : Nat, victim = f ∧ s.firstFreeFrame ≤ f ∧ f < s.nRamFrames := by
  obtain ⟨f, e, index, hv, -, hfind, hef, -⟩ := swapOutVictim_ok ho
  obtain ⟨h1, h2⟩ := h.frames e (List.mem_of_find?_eq_some hfind)
  exact ⟨f, hv, hef ▸ h1, hef ▸ h2⟩

/-- Swapping out the page of `f` leaves `f` pending. -/
theorem swapOutVictim (ho : Vm.swapOutVictim s f = .ok s') : Linked (insert f P) s' := by
  have hr := h.toReady.swapOutVictim ho
  obtain ⟨g, e, index, hv, -, hfind, hef, hev, -, -, rfl⟩ := swapOutVictim_ok ho
  obtain rfl : g = f := by omega
  rw [← hev] at hfind
  have hmem := fun x => h.table.mem_update (x := x)
    (g := fun e => { e with swapIndex := index, swapped := true }) hfind
  refine ⟨hr, by rw [swappedOut_isSome]; exact h.process, h.kernel, ?_, ?_, h.sizes, h.paddrs, ?_⟩
  · rw [swappedOut_npages, swappedOut_entries, length_modifyFirst]
    exact h.count
  · intro x hx
    rw [swappedOut_entries, hmem] at hx
    rcases hx with rfl | ⟨hx, -⟩
    · exact h.frames e (List.mem_of_find?_eq_some hfind)
    · exact h.frames x hx
  · intro f' h1 h2 hd hf'
    rw [Set.mem_insert_iff, not_or] at hf'
    obtain ⟨x, hx, hs, hp, hvx⟩ := h.linked f' h1 h2 hd hf'.2
    refine ⟨x, ?_, hs, hp, hvx⟩
    rw [swappedOut_entries, hmem]
    refine Or.inr ⟨hx, fun heq => hf'.1 ?_⟩
    have hxe := h.table.eq_of_vaddr (List.mem_of_find?_eq_some hfind) hx heq
    rw [← hp, hxe, hef]

theorem taken (ht : FrameTaken s f s₁) : Linked (insert f P) s₁ := by
  obtain ⟨h1, -, ⟨-, rfl⟩ | ⟨-, -, hout⟩⟩ := ht
  · exact h.mono (Set.subset_insert f P)
  · exact (h.select (Nat.le_succ_of_le h1)).swapOutVictim hout

end

section

variable (h : Linked (insert f P) s)
include h

/-- Rewriting the coremap entry of a pending frame: it leaves `P` if it is not `DIRTY` any more. -/
theorem modifyFrame (h1 : s.firstFreeFrame ≤ f) {g : CoremapEntry → CoremapEntry}
    (hsize : f + (g (s.coremap f)).size ≤ s.nRamFrames)
    (hpaddr : (g (s.coremap f)).status = .dirty → (g (s.coremap f)).paddr = f * pageSize)
    (hd : (g (s.coremap f)).status = .dirty → f ∈ P) : Linked P (s.modifyFrame f g) := by
  refine ⟨h.toReady.modifyFrame f g, h.process, fun j hj => ?_, h.count, h.frames,
    fun j hj1 hj2 => ?_, fun j hj1 hj2 hjd => ?_, fun j hj1 hj2 hjd hjP => ?_⟩
  · rw [VmState.modifyFrame_coremap, if_neg (fun he => by subst he; exact absurd hj (by
      simpa [VmState.modifyFrame] using h1))]
    exact h.kernel j hj
  · rw [VmState.modifyFrame_coremap]
    split_ifs with he
    · rw [he]; exact hsize
    · exact h.sizes j hj1 hj2
  · rw [VmState.modifyFrame_coremap] at hjd ⊢
    split_ifs at hjd ⊢ with he
    · rw [he]; exact hpaddr hjd
    · exact h.paddrs j hj1 hj2 hjd
  · rw [VmState.modifyFrame_coremap] at hjd
    split_ifs at hjd with he
    · exact absurd (he ▸ hd hjd) hjP
    · obtain ⟨e, hm, hs, hp, hv⟩ := h.linked j hj1 hj2 hjd (by
        rw [Set.mem_insert_iff, not_or]; exact ⟨he, hjP⟩)
      refine ⟨e, hm, hs, hp, ?_⟩
      rw [VmState.modifyFrame_coremap, if_neg he]
      exact hv

theorem kernelBlock (h1 : s.firstFreeFrame ≤ f) (hn : f + n ≤ s.nRamFrames) :
    Linked P (Vm.kernelBlock s f n) :=
  h.modifyFrame h1 hn (fun hd => absurd hd (by simp)) (fun hd => absurd hd (by simp))

/-- A frame given to a page stays pending until the page's entry is linked. -/
theorem userPage (vaddr : Nat) (h1 : s.firstFreeFrame ≤ f) (h2 : f < s.nRamFrames) :
    Linked (insert f P) (Vm.userPage s f vaddr) :=
  (h.mono (Set.subset_insert f _)).modifyFrame h1 h2 (fun _ => rfl) fun _ => Set.mem_insert f P

theorem link (vaddr : Nat) (h1 : s.firstFreeFrame ≤ f) (h2 : f < s.nRamFrames)
    (hb : pageFrame vaddr + pageSize < wordSize) (hnew : s.entries.find? (ptMatch vaddr) = none) :
    Linked P (linkEntry s f vaddr) := by
  have hes := linkEntry_entries h.process f vaddr
  have hc := linkEntry_coremap s f vaddr
  refine ⟨h.toReady.link h.process hb hnew, ?_, fun j hj => ?_, ?_, ?_, fun j hj1 hj2 => ?_,
    fun j hj1 hj2 hd => ?_, fun j hj1 hj2 hd hj => ?_⟩
  · rw [(sameConstants_linkEntry s f vaddr).process]; exact h.process
  · have hj' : j < s.firstFreeFrame := hj
    rw [hc, if_neg (by omega)]
    exact h.kernel j hj'
  · rw [linkEntry_npages h.process, hes, List.length_cons, h.count]
  · rw [hes]
    exact List.forall_mem_cons.mpr ⟨⟨h1, h2⟩, h.frames⟩
  · rw [hc]
    split_ifs with he
    · rw [he]; exact h.sizes f h1 h2
    · exact h.sizes j hj1 hj2
  · rw [hc] at hd ⊢
    split_ifs at hd ⊢ with he
    · rw [he]; exact h.paddrs f h1 h2 hd
    · exact h.paddrs j hj1 hj2 hd
  · unfold Owns
    rw [hes, hc]
    split_ifs with he
    · exact ⟨_, List.mem_cons_self, rfl, he.symm, rfl⟩
    · rw [hc, if_neg he] at hd
      obtain ⟨e, hm, hs, hp, hv⟩ := h.linked j hj1 hj2 hd (by
        rw [Set.mem_insert_iff, not_or]; exact ⟨he, hj⟩)
      exact ⟨e, List.mem_cons_of_mem _ hm, hs, hp, hv⟩

theorem pagedIn (index : Nat) (h1 : s.firstFreeFrame ≤ f) (h2 : f < s.nRamFrames)
    (hfind : s.entries.find? (ptMatch vaddr) = some e) (hs : e.swapped = true)
    (ha : vaddr % pageSize = 0) : Linked P (Vm.pagedIn s f vaddr index) := by
  have hev : e.vaddr = vaddr := by
    rw [(h.table.search_some.mp hfind).2, pageFrame_of_aligned ha]
  have hmem := fun x => h.table.mem_update (x := x)
    (g := fun e => { e with ppageIndex := f, swapped := false }) hfind
  have hc := pagedIn_coremap s f vaddr index
  refine ⟨h.toReady.pagedIn f vaddr index, ?_, fun j hj => ?_, ?_, ?_, fun j hj1 hj2 => ?_,
    fun j hj1 hj2 hd => ?_, fun j hj1 hj2 hd hj => ?_⟩
  · rw [(sameConstants_pagedIn s f vaddr index).process]; exact h.process
  · have hj' : j < s.firstFreeFrame := hj
    rw [hc, if_neg (by omega)]
    exact h.kernel j hj'
  · rw [pagedIn_npages, pagedIn_entries, length_modifyFirst]
    exact h.count
  · intro x hx
    rw [pagedIn_entries, hmem] at hx
    rcases hx with rfl | ⟨hx, -⟩
    · exact ⟨h1, h2⟩
    · exact h.frames x hx
  · rw [hc]
    split_ifs with he
    · rw [he]; exact h2
    · exact h.sizes j hj1 hj2
  · rw [hc] at hd ⊢
    split_ifs at hd ⊢ with he
    · rw [he]
    · exact h.paddrs j hj1 hj2 hd
  · unfold Owns
    rw [pagedIn_entries, hc]
    split_ifs with he
    · exact ⟨_, (hmem _).mpr (Or.inl rfl), rfl, he.symm, hev⟩
    · rw [hc, if_neg he] at hd
      obtain ⟨x, hx, hsx, hp, hv⟩ := h.linked j hj1 hj2 hd (by
        rw [Set.mem_insert_iff, not_or]; exact ⟨he, hj⟩)
      refine ⟨x, (hmem x).mpr (Or.inr ⟨hx, fun heq => ?_⟩), hsx, hp, hv⟩
      -- an owner is not swapped out, the page brought in is
      rw [h.table.eq_of_vaddr (List.mem_of_find?_eq_some hfind) hx heq, hs] at hsx
      cases hsx

end

/-! ### Whole calls -/

variable (h : Linked P s)
include h

/-- The pages `kmalloc` gets while `vm_fault` holds the pending frames. -/
theorem kmallocPages {k : Nat} {addrs : List Nat} (hk : Vm.kmallocPages s k = .ok (addrs, s')) :
    Linked P s' ∧ SameConstants s s' ∧
      ∀ addr ∈ addrs, s.firstFreeFrame ≤ Vm.kvaddrFrame addr := by
  refine (kmallocPages_ind (I := fun addrs t => Linked P t ∧ SameConstants s t ∧
    ∀ addr ∈ addrs, s.firstFreeFrame ≤ Vm.kvaddrFrame addr) h.toStarted
    ⟨h, .refl s, by simp⟩ ?_ hk).2
  rintro as t t₁ f hrt ⟨hl, hc, has⟩ ht
  have hc₁ := hc.trans ht.constants
  have hcs := ht.constants
  refine ⟨(hl.taken ht).kernelBlock (by rw [hcs.first]; exact ht.1)
    (by rw [hcs.nRam]; exact ht.2.1), hc₁.trans (sameConstants_modifyFrame _ _ _), ?_⟩
  intro addr haddr
  rcases List.mem_append.mp haddr with ha | ha
  · exact has addr ha
  · rw [List.mem_singleton.mp ha, (hrt.kvaddrFrame ht.2.1).1, ← hc.first]
    exact ht.1

theorem faulted {faultpage kpages : Nat} {addrs : List Nat} (ha : faultpage % pageSize = 0)
    (hb : faultpage + pageSize < wordSize) (hf : Faulted s faultpage kpages addrs s') :
    Linked P s' ∧ SameConstants s s' ∧
      ∀ addr ∈ addrs, s.firstFreeFrame ≤ Vm.kvaddrFrame addr := by
  cases hf with
  | @fresh f addrs s₁ s₂ hnone _ ht hk =>
    have hc := ht.constants
    have h1 : s₁.firstFreeFrame ≤ f := by rw [hc.first]; exact ht.1
    have h2 : f < s₁.nRamFrames := by rw [hc.nRam]; exact ht.2.1
    have hpage := (h.taken ht).userPage faultpage h1 h2
    obtain ⟨hl, hc₂, has⟩ := hpage.kmallocPages hk
    have hnone₂ : s₂.entries.find? (ptMatch faultpage) = none :=
      (kmallocPages_ind (I := fun _ t => t.entries.find? (ptMatch faultpage) = none)
        hpage.toStarted (ht.find_none hnone)
        (fun _ t t₁ g _ hn htg => htg.find_none hn) hk).2
    have hlink := hl.link faultpage (by rw [hc₂.first]; exact h1)
      (by rw [hc₂.nRam]; exact h2) (by rw [pageFrame_of_aligned ha]; exact hb) hnone₂
    have hsame := sameTables_tlbLoad (linkEntry s₂ f faultpage) s₂.stats.fresh faultpage
      (f * pageSize)
    refine ⟨hlink.same hsame, ?_, fun addr haddr => hc.first ▸ has addr haddr⟩
    exact ((hc.trans (sameConstants_modifyFrame s₁ f _)).trans hc₂).trans
      ((sameConstants_linkEntry s₂ f faultpage).trans hsame.constants)
  | @swapin f e e₁ s₁ he hs ht he₁ hs₁ =>
    have hc := ht.constants
    have hin := (h.taken ht).pagedIn e₁.swapIndex (by rw [hc.first]; exact ht.1)
      (by rw [hc.nRam]; exact ht.2.1) he₁ hs₁ ha
    have hsame := sameTables_tlbLoad (Vm.pagedIn s₁ f faultpage e₁.swapIndex)
      s₁.stats.swapin faultpage (f * pageSize)
    exact ⟨hin.same hsame, (hc.trans (sameConstants_pagedIn s₁ f faultpage _)).trans
      hsame.constants, by simp⟩
  | @reload e he hs =>
    have hsame := sameTables_tlbLoad s s.stats.reload faultpage (e.ppageIndex * pageSize)
    exact ⟨h.same hsame, hsame.constants, by simp⟩

/-- The swap-out loop of `getppages`, after any number of rounds. -/
theorem swapOutRun {victim : Int} (hr : Vm.swapOutRun s victim n = .ok s') :
    Linked P s' ∧ SameConstants s s' ∧ (0 < n → (s.firstFreeFrame : Int) ≤ victim) := by
  refine swapOutRun_ind (I := fun i t => Linked P t ∧ SameConstants s t ∧
    (0 < i → (s.firstFreeFrame : Int) ≤ victim)) ⟨h, .refl s, by omega⟩ ?_ hr
  rintro i t t' f ⟨hl, hc, hv⟩ hf hout
  obtain ⟨g, hg, h1, h2⟩ := hl.swapOutVictim_frame hout
  obtain rfl : g = f := by omega
  have hct := sameConstants_swapOutVictim hout
  have hout' := hl.swapOutVictim hout
  refine ⟨hout'.modifyFrame (by rw [hct.first]; exact h1) ?_ (fun hd => absurd hd (by simp))
    (fun hd => absurd hd (by simp)), (hc.trans hct).trans (sameConstants_modifyFrame _ _ _), ?_⟩
  · exact hout'.sizes g (by rw [hct.first]; exact h1) (by rw [hct.nRam]; exact h2)
  · intro _
    rcases Nat.eq_zero_or_pos i with rfl | hi
    · rw [hc.first] at h1
      omega
    · exact hv hi

theorem getppages (hn : 0 < n) (hw : n < wordSize) {pa : Nat}
    (hg : Vm.getppages s n = .ok (pa, s')) :
    Linked P s' ∧ SameConstants s s' ∧
      ∃ f, pa = f * pageSize ∧ s.firstFreeFrame ≤ f ∧ f + n ≤ s.nRamFrames := by
  rcases getppages_ok h.active hg with ⟨f, hr, rfl, rfl⟩ | ⟨v, s₁, s₂, -, hsel, hrun, rfl, rfl⟩
  · obtain ⟨h1, h2, -⟩ := freeRun_some hn hr
    exact ⟨(h.mono (Set.subset_insert f P)).kernelBlock h1 h2, sameConstants_modifyFrame _ _ _,
      f, rfl, h1, h2⟩
  · obtain ⟨h0, ⟨next, rfl, hle, -, hnext⟩, hwin⟩ := victimSelection_spec h.pointer hsel
    rw [intOfUnsigned_of_nonneg hw h0] at hnext hwin
    obtain ⟨hl, hc, hv⟩ := (h.select hle).swapOutRun hrun
    have hv' : (s.firstFreeFrame : Int) ≤ v := hv hn
    obtain ⟨f, rfl⟩ : ∃ f : Nat, v = f := ⟨v.toNat, by omega⟩
    -- the last frame of the window is in RAM
    obtain ⟨hlast, -⟩ := hwin (f + n - 1) (by omega) (by omega) (by omega)
    rw [Int.toNat_natCast]
    refine ⟨(hl.mono (Set.subset_insert f P)).kernelBlock ?_ ?_,
      SameConstants.trans (t := { s with nextVictim := next }) ⟨rfl, rfl, rfl, rfl⟩
        (hc.trans (sameConstants_modifyFrame _ _ _)), f, rfl, by omega, by omega⟩
    · rw [hc.first]
      show s.firstFreeFrame ≤ f
      omega
    · rw [hc.nRam]
      show f + n ≤ s.nRamFrames
      omega

theorem allocKpages (hn : 0 < n) (hw : n < wordSize) {addr : Nat}
    (ha : Vm.allocKpages s n = .ok (addr, s')) :
    Linked P s' ∧ SameConstants s s' ∧
      ∃ f, addr = paddrToKvaddr (f * pageSize) ∧ addr ≠ 0 ∧ s.firstFreeFrame ≤ f ∧
        f + n ≤ s.nRamFrames := by
  obtain ⟨pa, hg, haddr⟩ := allocKpages_ok ha
  obtain ⟨hl, hc, f, rfl, h1, h2⟩ := h.getppages hn hw hg
  have hf : 0 < f := Nat.lt_of_lt_of_le h.booted h1
  rw [if_neg (Nat.mul_ne_zero hf.ne' (by decide))] at haddr
  exact ⟨hl, hc, f, haddr, by rw [haddr]; exact (h.toStarted.kvaddrFrame (by omega)).2, h1, h2⟩

/-- `free_kpages` of a block above the kernel's own frames. -/
theorem freeKpages {addr : Nat} (h1 : s.firstFreeFrame ≤ Vm.kvaddrFrame addr)
    (hf : Vm.freeKpages s addr = .ok s') : Linked P s' ∧ SameConstants s s' := by
  obtain ⟨h2, rfl⟩ := freeKpages_ok h.active hf
  have hsize := h.sizes _ h1 h2
  generalize Vm.kvaddrFrame addr = f at *
  clear hf
  generalize (s.coremap f).size = n at *
  induction n with
  | zero => exact ⟨h, .refl s⟩
  | succ n ih =>
    obtain ⟨hl, hc⟩ := ih (by omega)
    refine ⟨(hl.mono (Set.subset_insert (f + n) P)).modifyFrame ?_ ?_
      (fun hd => absurd hd (by simp)) (fun hd => absurd hd (by simp)),
      hc.trans (sameConstants_modifyFrame _ _ _)⟩
    · rw [hc.first]; omega
    · rw [hc.nRam]; simp only; omega

end Linked

/-! ## The system -/

/-- The fault, if it is one, is not on the page that `pt_search` never finds. -/
abbrev Event.belowLastPage (e : Event) : Prop :=
  e.Meets (fun va _ => va < lastPage) fun _ => True

/-- `Linked` between events, with the live blocks above the kernel's own frames. -/
structure LinkedSys (s : Sys) : Prop where
  vm : Linked ∅ s.vm
  held : ∀ b ∈ s.held, s.vm.firstFreeFrame ≤ kvaddrFrame b.1

namespace LinkedSys

variable {s t : Sys} {e : Event}

theorem of_booted (h : Booted s) : LinkedSys s :=
  ⟨.of_booted h, by simp [(booted_spec h).2.1]⟩

theorem same (h : LinkedSys s) (ht : SameTables s.vm t.vm) (hh : t.held = s.held) : LinkedSys t :=
  ⟨h.vm.same ht, by rw [hh, ht.first]; exact h.held⟩

theorem step (h : LinkedSys s) (he : e.belowLastPage) (hx : s.exec e = some t) : LinkedSys t := by
  rcases exec_cases hx with ⟨m, rfl⟩ | ⟨faulttype, va, kpages, err, addrs, rfl, hf, hheld⟩ |
    ⟨npages, addr, rfl, hn, hw, ha, hheld⟩ | ⟨addr, n, rfl, hmem, hf, hheld⟩
  · exact h.same ⟨rfl, rfl, rfl, rfl, rfl, rfl⟩ rfl
  · rcases vmFault_ok h.vm.pointer hf with ⟨-, rfl, hs⟩ | ⟨-, -, hf⟩
    · exact ⟨by rw [hs]; exact h.vm, by rw [hheld, hs]; simpa using h.held⟩
    · obtain ⟨hl, hc, has⟩ := h.vm.faulted (pageFrame_aligned va) (pageFrame_lt he) hf
      refine ⟨hl, fun b hb => ?_⟩
      rw [hc.first]
      rw [hheld, List.mem_append, List.mem_map] at hb
      rcases hb with ⟨addr, ha, rfl⟩ | hb
      · exact has addr ha
      · exact h.held b hb
  · obtain ⟨hl, hc, f, haddr, h0, h1, h2⟩ := h.vm.allocKpages hn hw ha
    refine ⟨hl, fun b hb => ?_⟩
    rw [hc.first]
    rw [hheld, if_neg h0] at hb
    rcases List.mem_cons.mp hb with rfl | hb
    · rw [haddr, (h.vm.toStarted.kvaddrFrame (by omega)).1]
      exact h1
    · exact h.held b hb
  · obtain ⟨hl, hc⟩ := h.vm.freeKpages (h.held _ hmem) hf
    refine ⟨hl, fun b hb => ?_⟩
    rw [hc.first]
    rw [hheld] at hb
    exact h.held b (List.mem_of_mem_erase hb)

/-- `Linked` holds along every run without a fault on the last page. -/
theorem run {allowed : Sys → Event → Prop} (hle : ∀ s e, allowed s e → e.belowLastPage)
    {s₀ : Sys} (hb : Booted s₀) {es : List Event} (hr : Run (Sys.Step allowed) s₀ es s) :
    LinkedSys s :=
  hr.invariant (of_booted hb) fun _ _ _ h ht => h.step (hle _ _ ht.1) ht.2

end LinkedSys

end OsPaging.Vm
