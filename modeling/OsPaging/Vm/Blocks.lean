import Mathlib.Data.List.Perm.Basic
import OsPaging.Vm.System

/-!
# The kernel's blocks

`Blocks s held`: the live results of `alloc_kpages` are intervals of `FIXED` frames, inside
`[firstFreeFrame, nRamFrames)` and disjoint, and the coremap has the size of each at its first
frame. `getppages` marks every frame of a window it swaps out, but only the first frame of a run
that its free-frame scan finds, so this holds as long as a request for two or more pages is not
served by the scan (`WholeBlock`).

`FIXED` frames are left alone by everything but `free_kpages` (`KeepsFixed`), so most operations
keep the blocks for one reason (`Blocks.keep`).
-/

namespace OsPaging.Vm

open OsPaging.Lib

/-- `f` is one of the frames of the block `(addr, npages)`. -/
def InBlock (b : Nat × Nat) (f : Nat) : Prop :=
  kvaddrFrame b.1 ≤ f ∧ f < kvaddrFrame b.1 + b.2

instance (b : Nat × Nat) (f : Nat) : Decidable (InBlock b f) :=
  inferInstanceAs (Decidable (_ ∧ _))

/-- The live blocks: in range, `FIXED`, of the recorded size, and disjoint. -/
structure Blocks (s : VmState) (held : List (Nat × Nat)) : Prop where
  pos : ∀ b ∈ held, 0 < b.2
  addr : ∀ b ∈ held, b.1 = paddrToKvaddr (kvaddrFrame b.1 * pageSize)
  range : ∀ b ∈ held,
    s.firstFreeFrame ≤ kvaddrFrame b.1 ∧ kvaddrFrame b.1 + b.2 ≤ s.nRamFrames
  fixed : ∀ b ∈ held, ∀ f, InBlock b f → (s.coremap f).status = .fixed
  size : ∀ b ∈ held, (s.coremap (kvaddrFrame b.1)).size = b.2
  disjoint : held.Pairwise fun b c => ∀ f, InBlock b f → ¬ InBlock c f

/-- What is `FIXED` in `s` is in `t`, with the same size. -/
def KeepsFixed (s t : VmState) : Prop :=
  ∀ f, (s.coremap f).status = .fixed →
    (t.coremap f).status = .fixed ∧ (t.coremap f).size = (s.coremap f).size

/-- Every entry is for a frame that `coremap_init` left to the allocators. -/
def PtFrames (s : VmState) : Prop :=
  ∀ e ∈ s.entries, s.firstFreeFrame ≤ e.ppageIndex ∧ e.ppageIndex < s.nRamFrames

/-- A request that gives back every frame it marks: one page, or no run of free frames. -/
def WholeBlock (s : VmState) (npages : Nat) : Prop := npages = 1 ∨ freeRun s npages = none

instance (s : VmState) (n : Nat) : Decidable (WholeBlock s n) :=
  inferInstanceAs (Decidable (_ ∨ _))

theorem Blocks.with_as {s : VmState} {held : List (Nat × Nat)} (h : Blocks s held)
    (x : Option AddrSpace) : Blocks { s with as := x } held :=
  { h with }

theorem KeepsFixed.of_coremap {s t : VmState} (h : t.coremap = s.coremap) : KeepsFixed s t := by
  intro f hf
  rw [h]
  exact ⟨hf, rfl⟩

theorem KeepsFixed.trans {s t u : VmState} (h : KeepsFixed s t) (h' : KeepsFixed t u) :
    KeepsFixed s u := by
  intro f hf
  obtain ⟨h1, h2⟩ := h f hf
  obtain ⟨h3, h4⟩ := h' f h1
  exact ⟨h3, h4.trans h2⟩

theorem KeepsFixed.modifyFrame {s : VmState} {f : Nat} (hf : (s.coremap f).status ≠ .fixed)
    (g : CoremapEntry → CoremapEntry) : KeepsFixed s (s.modifyFrame f g) := by
  intro j hj
  rw [VmState.modifyFrame_coremap, if_neg (by rintro rfl; exact hf hj)]
  exact ⟨hj, rfl⟩

theorem KeepsFixed.modifyFrame_same {s : VmState} {f : Nat} {g : CoremapEntry → CoremapEntry}
    (h1 : ∀ c, c.status = .fixed → (g c).status = .fixed) (h2 : ∀ c, (g c).size = c.size) :
    KeepsFixed s (s.modifyFrame f g) := by
  intro j hj
  rw [VmState.modifyFrame_coremap]
  grind

theorem swapOutVictim_coremap {s s' : VmState} {victim : Int}
    (h : swapOutVictim s victim = .ok s') : s'.coremap = s.coremap := by
  obtain ⟨_, e, index, -, -, -, -, -, -, -, rfl⟩ := swapOutVictim_ok h
  rfl

theorem FrameTaken.coremap {s s₁ : VmState} {f : Nat} (h : FrameTaken s f s₁) :
    s₁.coremap = s.coremap := by
  obtain ⟨-, -, ⟨-, rfl⟩ | ⟨-, -, hout⟩⟩ := h
  · rfl
  · have := swapOutVictim_coremap hout
    exact this

theorem FrameTaken.not_fixed {s s₁ : VmState} {f : Nat} (h : FrameTaken s f s₁) :
    (s.coremap f).status ≠ .fixed := by
  obtain ⟨-, -, ⟨hf, -⟩ | ⟨-, hd, -⟩⟩ := h
  · exact (isFree_iff.mp hf).2
  · rw [hd]; simp

/-- A swap-out changes no entry's frame. -/
theorem PtFrames.swapOutVictim {s s' : VmState} {victim : Int} (h : PtFrames s)
    (ho : swapOutVictim s victim = .ok s') : PtFrames s' := by
  obtain ⟨_, e, index, -, -, hfind, -, hev, -, -, rfl⟩ := swapOutVictim_ok ho
  intro x hx
  have hmap := map_modifyFirst (p := ptMatch e.vaddr) (l := s.entries) (f := PtEntry.ppageIndex)
    (g := fun e => { e with swapIndex := index, swapped := true }) fun _ => rfl
  rw [swappedOut_entries] at hx
  have hx' := List.mem_map_of_mem (f := PtEntry.ppageIndex) hx
  rw [hmap] at hx'
  obtain ⟨y, hy, hyx⟩ := List.mem_map.mp hx'
  rw [← hyx]
  exact h y hy

theorem PtFrames.stable : AllocStable PtFrames :=
  ⟨fun h _ => h, PtFrames.swapOutVictim, fun h _ _ => h⟩

theorem kernelBlock_coremap (s : VmState) (f n j : Nat) :
    (kernelBlock s f n).coremap j =
      if j = f then
        { status := .fixed, paddr := f * pageSize, vaddr := paddrToKvaddr (f * pageSize),
          size := n }
      else s.coremap j :=
  s.modifyFrame_coremap f _ j

/-! ## The window that `getppages` swaps out -/

/-- A window that was swapped out lies above the kernel's frames and is `FIXED`; the other frames
are as they were. -/
theorem swapOutRun_window {s s' : VmState} {v : Int} {n : Nat} (hn : 0 < n) (hp : PtFrames s)
    (hr : swapOutRun s v n = .ok s') :
    ∃ f : Nat, v = f ∧ s.firstFreeFrame ≤ f ∧ SameConstants s s' ∧ KeepsFixed s s' ∧
      (∀ j, f ≤ j → j < f + n → (s'.coremap j).status = .fixed) ∧
      ∀ j, j < f ∨ f + n ≤ j → s'.coremap j = s.coremap j := by
  have key := swapOutRun_ind (I := fun i t => SameConstants s t ∧ PtFrames t ∧ KeepsFixed s t ∧
    (0 < i → (s.firstFreeFrame : Int) ≤ v) ∧
    (∀ j : Nat, v ≤ j → (j : Int) < v + i → (t.coremap j).status = .fixed) ∧
    ∀ j : Nat, (j : Int) < v ∨ v + i ≤ (j : Int) → t.coremap j = s.coremap j)
    ⟨.refl s, hp, .of_coremap rfl, by omega, fun j h1 h2 => by omega, fun j _ => rfl⟩ ?_ hr
  · obtain ⟨hc, -, hk, hv, hfix, hrest⟩ := key
    exact ⟨v.toNat, by omega, by omega, hc, hk, fun j h1 h2 => hfix j (by omega) (by omega),
      fun j hj => hrest j (by omega)⟩
  · rintro i t t' f ⟨hc, hpt, hk, hv, hfix, hrest⟩ hf hout
    have hct := sameConstants_swapOutVictim hout
    have hcm := swapOutVictim_coremap hout
    refine ⟨(hc.trans hct).trans (sameConstants_modifyFrame _ _ _), fun e he =>
      hpt.swapOutVictim hout e he,
      (hk.trans (.of_coremap hcm)).trans (.modifyFrame_same (fun _ _ => rfl) fun _ => rfl), ?_,
      fun j h1 h2 => ?_, fun j hj => ?_⟩
    · intro _
      -- the entry of the first victim is for a frame that belongs to the allocators
      rcases Nat.eq_zero_or_pos i with rfl | hi
      · obtain ⟨g, e, _, hg, -, hfind, hef, -⟩ := swapOutVictim_ok hout
        have := (hpt e (List.mem_of_find?_eq_some hfind)).1
        rw [hc.first] at this
        omega
      · exact hv hi
    · rw [VmState.modifyFrame_coremap]
      grind
    · rw [VmState.modifyFrame_coremap, if_neg (by omega), hcm]
      exact hrest j (by omega)

namespace Blocks

variable {s t s' s₁ : VmState} {held held' : List (Nat × Nat)} {b : Nat × Nat} {f n : Nat}

theorem nil (s : VmState) : Blocks s [] :=
  ⟨by simp, by simp, by simp, by simp, by simp, .nil⟩

variable (h : Blocks s held)
include h

/-- What leaves `FIXED` frames alone keeps the blocks. -/
theorem keep (hc : SameConstants s t) (hk : KeepsFixed s t) : Blocks t held := by
  refine ⟨h.pos, h.addr, by rw [hc.first, hc.nRam]; exact h.range,
    fun b hb f hf => (hk f (h.fixed b hb f hf)).1, fun b hb => ?_, h.disjoint⟩
  have hfix := h.fixed b hb (Vm.kvaddrFrame b.1) ⟨le_refl _, by have := h.pos b hb; omega⟩
  rw [(hk _ hfix).2]
  exact h.size b hb

theorem perm (hp : held.Perm held') : Blocks s held' := by
  refine ⟨fun b hb => h.pos b (hp.mem_iff.mpr hb), fun b hb => h.addr b (hp.mem_iff.mpr hb),
    fun b hb => h.range b (hp.mem_iff.mpr hb),
    fun b hb => h.fixed b (hp.mem_iff.mpr hb), fun b hb => h.size b (hp.mem_iff.mpr hb), ?_⟩
  refine (hp.pairwise_iff ?_).mp h.disjoint
  intro b c hbc f hf hf'
  exact hbc f hf' hf

section

variable (hs : Started s)
include hs

theorem add (hc : SameConstants s t) (hk : KeepsFixed s t) (hn : 0 < n) (h1 : s.firstFreeFrame ≤ f)
    (h2 : f + n ≤ s.nRamFrames) (hnew : ∀ j, f ≤ j → j < f + n → (s.coremap j).status ≠ .fixed)
    (hfix : ∀ j, f ≤ j → j < f + n → (t.coremap j).status = .fixed)
    (hsize : (t.coremap f).size = n) :
    Blocks t ((paddrToKvaddr (f * pageSize), n) :: held) := by
  have ht := h.keep hc hk
  have hf : Vm.kvaddrFrame (paddrToKvaddr (f * pageSize)) = f :=
    (hs.kvaddrFrame (by omega)).1
  refine ⟨?_, ?_, ?_, ?_, ?_, List.pairwise_cons.mpr ⟨fun c hcm j hj hjc => ?_, h.disjoint⟩⟩
  · exact List.forall_mem_cons.mpr ⟨hn, h.pos⟩
  · exact List.forall_mem_cons.mpr ⟨by rw [hf], h.addr⟩
  · refine List.forall_mem_cons.mpr ⟨?_, ht.range⟩
    rw [hc.first, hc.nRam, hf]
    exact ⟨h1, h2⟩
  · refine List.forall_mem_cons.mpr ⟨fun j hj => ?_, ht.fixed⟩
    unfold InBlock at hj
    rw [hf] at hj
    exact hfix j hj.1 hj.2
  · exact List.forall_mem_cons.mpr ⟨by rwa [hf], ht.size⟩
  · unfold InBlock at hj
    rw [hf] at hj
    exact hnew j hj.1 hj.2 (h.fixed c hcm j hjc)

theorem addOne (ht : FrameTaken s f s₁) :
    Blocks (kernelBlock s₁ f 1) ((paddrToKvaddr (f * pageSize), 1) :: held) := by
  have hcm := ht.coremap
  have hone : ∀ j, f ≤ j → j < f + 1 → j = f := by omega
  refine h.add hs (ht.constants.trans (sameConstants_modifyFrame _ _ _))
    ((KeepsFixed.of_coremap hcm).trans (.modifyFrame (by rw [hcm]; exact ht.not_fixed) _))
    Nat.one_pos ht.1 ht.2.1 ?_ ?_ ?_
  · intro j h1 h2
    rw [hone j h1 h2]
    exact ht.not_fixed
  · intro j h1 h2
    rw [kernelBlock_coremap, if_pos (hone j h1 h2)]
  · rw [kernelBlock_coremap, if_pos rfl]

theorem kmallocPages {k : Nat} {addrs : List Nat} (hk : Vm.kmallocPages s k = .ok (addrs, s')) :
    Blocks s' (addrs.map (·, 1) ++ held) := by
  refine (kmallocPages_ind (I := fun addrs t => Blocks t (addrs.map (·, 1) ++ held)) hs h
    ?_ hk).2
  intro as t t₁ f hst hb ht
  refine (hb.addOne hst ht).perm ?_
  rw [List.map_append, List.append_assoc]
  exact List.perm_middle.symm

/-- A kernel request that is not served by the free-frame scan, or is for one page. -/
theorem getppages (hp : PtFrames s) (hn : 0 < n) (hw : n < wordSize) (hwhole : WholeBlock s n)
    {pa : Nat} (hg : Vm.getppages s n = .ok (pa, s')) :
    ∃ f, pa = f * pageSize ∧ s.firstFreeFrame ≤ f ∧ f + n ≤ s.nRamFrames ∧
      SameConstants s s' ∧ Blocks s' ((paddrToKvaddr (f * pageSize), n) :: held) ∧
      (∀ j, f ≤ j → j < f + n → (s.coremap j).status ≠ .fixed) ∧
      ∀ j, j < f ∨ f + n ≤ j → s'.coremap j = s.coremap j := by
  rcases getppages_ok hs.active hg with ⟨f, hr, rfl, rfl⟩ | ⟨v, s₁, s₂, -, hsel, hrun, rfl, rfl⟩
  · -- the scan found the run, so the request is for one page
    obtain rfl : n = 1 := by
      rcases hwhole with h1 | h1
      · exact h1
      · rw [hr] at h1; exact absurd h1 (by simp)
    obtain ⟨h1, h2, hfree⟩ := freeRun_some hn hr
    have ht : FrameTaken s f s := ⟨h1, by omega, Or.inl ⟨hfree 0 Nat.one_pos, rfl⟩⟩
    refine ⟨f, rfl, h1, h2, sameConstants_modifyFrame _ _ _, h.addOne hs ht, ?_, ?_⟩
    · intro j hj1 hj2
      rw [show j = f by omega]
      exact ht.not_fixed
    · intro j hj
      rw [kernelBlock_coremap, if_neg (by omega)]
  · obtain ⟨h0, ⟨next, rfl, hle, -, hnext⟩, hwin⟩ := victimSelection_spec hs.pointer hsel
    rw [intOfUnsigned_of_nonneg hw h0] at hnext hwin
    obtain ⟨f, rfl, h1, hc, hk, hfix, hout⟩ :=
      swapOutRun_window (s := { s with nextVictim := next })
      hn hp hrun
    have h1 : s.firstFreeFrame ≤ f := h1
    obtain ⟨hlast, -⟩ := hwin (f + n - 1) (by omega) (by omega) (by omega)
    have hnot : ∀ j, f ≤ j → j < f + n → (s.coremap j).status ≠ .fixed := fun j h1 h2 =>
      (hwin j (by omega) (by omega) (by omega)).2
    rw [Int.toNat_natCast]
    have hc' : SameConstants s (kernelBlock s₂ f n) :=
      SameConstants.trans (t := { s with nextVictim := next }) ⟨rfl, rfl, rfl, rfl⟩
        (hc.trans (sameConstants_modifyFrame _ _ _))
    have hout' : ∀ j, j < f ∨ f + n ≤ j → (kernelBlock s₂ f n).coremap j = s.coremap j := by
      intro j hj
      rw [kernelBlock_coremap, if_neg (by omega)]
      exact hout j hj
    refine ⟨f, rfl, h1, by omega, hc', h.add hs hc' ?_ hn h1 (by omega) hnot ?_ ?_, hnot, hout'⟩
    · intro j hj
      grind
    · intro j hj1 hj2
      rw [kernelBlock_coremap]
      split_ifs
      · rfl
      · exact hfix j hj1 hj2
    · rw [kernelBlock_coremap, if_pos rfl]

/-- `free_kpages` of a live block passes its assertions. -/
theorem freeKpages_isOk (hb : b ∈ held) : ∃ s', Vm.freeKpages s b.1 = .ok s' := by
  have hpos := h.pos b hb
  obtain ⟨-, h2⟩ := h.range b hb
  have haddr := h.addr b hb
  unfold Vm.freeKpages
  rw [if_neg (by simp [hs.active]), if_neg, if_neg (by omega)]
  · exact ⟨_, rfl⟩
  · rw [haddr]
    unfold paddrToKvaddr
    grind

/-- **`free_kpages` releases exactly the block**, and the other blocks stay. -/
theorem freeKpages (hb : b ∈ held) (hf : Vm.freeKpages s b.1 = .ok s') :
    SameConstants s s' ∧ Blocks s' (held.erase b) ∧
      ∀ f, s'.coremap f =
        if InBlock b f then { s.coremap f with status := .free, size := 0 } else s.coremap f := by
  obtain ⟨h2, rfl⟩ := freeKpages_ok hs.active hf
  rw [h.size b hb]
  have hcm : ∀ f, (releaseFrames s (Vm.kvaddrFrame b.1) b.2).coremap f =
      if InBlock b f then { s.coremap f with status := .free, size := 0 } else s.coremap f :=
    fun f => releaseFrames_coremap s _ _ f
  have hc : SameConstants s (releaseFrames s (Vm.kvaddrFrame b.1) b.2) := by
    rw [releaseFrames_eq]
    exact ⟨rfl, rfl, rfl, rfl⟩
  have hp := h.perm (List.perm_cons_erase hb)
  obtain ⟨hdis, hpair⟩ := List.pairwise_cons.mp hp.disjoint
  refine ⟨hc, ⟨fun c hcm => hp.pos c (List.mem_cons_of_mem _ hcm),
    fun c hcm => hp.addr c (List.mem_cons_of_mem _ hcm), fun c hcm => ?_,
    fun c hce f hfc => ?_, fun c hce => ?_, hpair⟩, hcm⟩
  · rw [hc.first, hc.nRam]
    exact hp.range c (List.mem_cons_of_mem _ hcm)
  · rw [hcm, if_neg fun hin => hdis c hce f hin hfc]
    exact hp.fixed c (List.mem_cons_of_mem _ hce) f hfc
  · have hhead : InBlock c (Vm.kvaddrFrame c.1) :=
      ⟨le_refl _, by have := hp.pos c (List.mem_cons_of_mem _ hce); omega⟩
    rw [hcm, if_neg fun hin => hdis c hce _ hin hhead]
    exact hp.size c (List.mem_cons_of_mem _ hce)

end

theorem same (ht : SameTables s t) : Blocks t held :=
  h.keep ht.constants (.of_coremap ht.coremap)

theorem faulted (hs : Started s) {faultpage kpages : Nat} {addrs : List Nat}
    (hf : Faulted s faultpage kpages addrs s') : Blocks s' (addrs.map (·, 1) ++ held) := by
  have htaken : ∀ {f : Nat} {s₁ : VmState}, FrameTaken s f s₁ →
      Blocks s₁ held ∧ (s₁.coremap f).status ≠ .fixed := fun {f s₁} ht =>
    ⟨h.keep ht.constants (.of_coremap ht.coremap), by rw [ht.coremap]; exact ht.not_fixed⟩
  cases hf with
  | @fresh f addrs s₁ s₂ hnone _ ht hk =>
    obtain ⟨hb, hnot⟩ := htaken ht
    have hpage : Blocks (userPage s₁ f faultpage) held :=
      hb.keep (sameConstants_modifyFrame _ _ _) (.modifyFrame hnot _)
    have hkm := hpage.kmallocPages ((hs.taken ht).modifyFrame f _) hk
    have hlink : KeepsFixed s₂ (linkEntry s₂ f faultpage) := by
      intro j hj
      rw [linkEntry_coremap]
      grind
    exact (hkm.keep (sameConstants_linkEntry s₂ f faultpage) hlink).same
      (sameTables_tlbLoad _ _ _ _)
  | @swapin f e e₁ s₁ he hs ht he₁ hs₁ =>
    obtain ⟨hb, hnot⟩ := htaken ht
    have hin : KeepsFixed s₁ (pagedIn s₁ f faultpage e₁.swapIndex) := by
      intro j hj
      rw [pagedIn_coremap, if_neg (by rintro rfl; exact hnot hj)]
      exact ⟨hj, rfl⟩
    exact (hb.keep (sameConstants_pagedIn s₁ f faultpage _) hin).same (sameTables_tlbLoad _ _ _ _)
  | reload he hs => exact h.same (sameTables_tlbLoad _ _ _ _)

end Blocks

end OsPaging.Vm
