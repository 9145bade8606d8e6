import OsPaging.Vm.Fault

/-!
# What every operation of the running kernel can rely on

`Started`: the coremap is active, its constants are those `coremap_init` left, and the victim
pointer is unset or above the kernel's frames. `Ready` adds that the page table of the running
process is one that `pt_search` can tell apart. Every operation keeps them, and none changes a
constant.

The operations are cut into the writes their inversion lemmas name (`FrameTaken`, `userPage`,
`kernelBlock`, `linkEntry`, `pagedIn`, the TLB load); an invariant of the development has one
lemma for each of them. The loops of `getppages` and of the `kmalloc` in `pt_add` have one
induction rule each (`swapOutRun_ind`, `kmallocPages_ind`). An invariant that the allocators'
writes keep whatever the frame (`AllocStable`) is kept by whole calls of them.
-/

namespace OsPaging.Vm

open OsPaging.Lib

variable {victim : Int} {addr : Nat}

/-! ## States with the same tables -/

/-- `t` differs from `s` at most in RAM, the swap file, the TLB and the statistics. -/
structure SameTables (s t : VmState) : Prop where
  coremap : t.coremap = s.coremap
  first : t.firstFreeFrame = s.firstFreeFrame
  nRam : t.nRamFrames = s.nRamFrames
  active : t.allocTableActive = s.allocTableActive
  pointer : t.nextVictim = s.nextVictim
  as : t.as = s.as

theorem SameTables.entries {s t : VmState} (h : SameTables s t) : t.entries = s.entries := by
  unfold VmState.entries
  rw [h.as]

theorem SameTables.npages {s t : VmState} (h : SameTables s t) : t.npages = s.npages := by
  unfold VmState.npages
  rw [h.as]

theorem sameTables_tlbLoad (s : VmState) (st : Stats) (faultpage paddr : Nat) :
    SameTables s (tlbLoad { s with stats := st } faultpage paddr) := by
  unfold tlbLoad tlbGetRrVictim tlbWrite
  simp only
  split <;> exact ⟨rfl, rfl, rfl, rfl, rfl, rfl⟩

theorem tlbLoad_swaptable (s : VmState) (faultpage paddr : Nat) :
    (tlbLoad s faultpage paddr).swaptable = s.swaptable := by
  unfold tlbLoad tlbGetRrVictim tlbWrite
  simp only
  split <;> rfl

/-! ## The invariant -/

/-- The state of a kernel after `coremap_init`. -/
structure Started (s : VmState) : Prop where
  active : s.allocTableActive = true
  booted : 0 < s.firstFreeFrame
  fits : s.nRamFrames * pageSize ≤ ramMax
  pointer : VictimPtr s

/-- The same, with the running process's page table. -/
structure Ready (s : VmState) : Prop extends Started s where
  table : PtWf s.entries

/-- `t` keeps the constants of `s`, and whether there is a page table. -/
structure SameConstants (s t : VmState) : Prop where
  first : t.firstFreeFrame = s.firstFreeFrame
  nRam : t.nRamFrames = s.nRamFrames
  active : t.allocTableActive = s.allocTableActive
  process : t.as.isSome = s.as.isSome

theorem SameConstants.refl (s : VmState) : SameConstants s s := ⟨rfl, rfl, rfl, rfl⟩

theorem SameConstants.trans {s t u : VmState} (h : SameConstants s t) (h' : SameConstants t u) :
    SameConstants s u :=
  ⟨h'.first.trans h.first, h'.nRam.trans h.nRam, h'.active.trans h.active,
    h'.process.trans h.process⟩

theorem SameTables.constants {s t : VmState} (h : SameTables s t) : SameConstants s t :=
  ⟨h.first, h.nRam, h.active, by rw [h.as]⟩

/-- Writing a coremap entry keeps the page table and the constants. -/
theorem sameConstants_modifyFrame (s : VmState) (f : Nat) (g : CoremapEntry → CoremapEntry) :
    SameConstants s (s.modifyFrame f g) :=
  ⟨rfl, rfl, rfl, rfl⟩

theorem sameConstants_swapOutVictim {s s' : VmState} (h : swapOutVictim s victim = .ok s') :
    SameConstants s s' := by
  obtain ⟨_, e, index, -, -, -, -, -, -, -, rfl⟩ := swapOutVictim_ok h
  exact ⟨rfl, rfl, rfl, swappedOut_isSome _ _ _ _⟩

theorem FrameTaken.constants {s s₁ : VmState} {f : Nat} (h : FrameTaken s f s₁) :
    SameConstants s s₁ := by
  obtain ⟨-, -, ⟨-, rfl⟩ | ⟨-, -, hout⟩⟩ := h
  · exact .refl s₁
  · exact SameConstants.trans (t := { s with nextVictim := f + 1 }) ⟨rfl, rfl, rfl, rfl⟩
      (sameConstants_swapOutVictim hout)

theorem sameConstants_pagedIn (s : VmState) (f vaddr index : Nat) :
    SameConstants s (pagedIn s f vaddr index) :=
  ⟨rfl, rfl, rfl, by simp [pagedIn]⟩

theorem sameConstants_linkEntry (s : VmState) (f vaddr : Nat) :
    SameConstants s (linkEntry s f vaddr) :=
  ⟨rfl, rfl, rfl, by simp [linkEntry, VmState.modifyPt, VmState.modifyFrame]⟩

/-! ## The tables after each write -/

theorem linkEntry_entries {s : VmState} (h : s.as.isSome) (f vaddr : Nat) :
    (linkEntry s f vaddr).entries =
      { vaddr := pageFrame vaddr, ppageIndex := f, swapped := false, swapIndex := 0 } ::
        s.entries := by
  obtain ⟨as, has⟩ := Option.isSome_iff_exists.mp h
  simp [linkEntry, VmState.entries, VmState.modifyPt, VmState.modifyFrame, has]

theorem linkEntry_npages {s : VmState} (h : s.as.isSome) (f vaddr : Nat) :
    (linkEntry s f vaddr).npages = s.npages + 1 := by
  obtain ⟨as, has⟩ := Option.isSome_iff_exists.mp h
  simp [linkEntry, VmState.npages, VmState.modifyPt, VmState.modifyFrame, has]

theorem linkEntry_coremap (s : VmState) (f vaddr j : Nat) :
    (linkEntry s f vaddr).coremap j =
      if j = f then { s.coremap f with vaddr := pageFrame vaddr } else s.coremap j :=
  s.modifyFrame_coremap f (fun c => { c with vaddr := pageFrame vaddr }) j

theorem pagedIn_coremap (s : VmState) (f vaddr index j : Nat) :
    (pagedIn s f vaddr index).coremap j = if j = f then
      { status := .dirty, paddr := f * pageSize, vaddr := vaddr, size := 1 } else s.coremap j :=
  s.modifyFrame_coremap f
    (fun _ => { status := .dirty, paddr := f * pageSize, vaddr := vaddr, size := 1 }) j

@[simp] theorem pagedIn_entries (s : VmState) (f vaddr index : Nat) :
    (pagedIn s f vaddr index).entries =
      modifyFirst (ptMatch vaddr) (fun e => { e with ppageIndex := f, swapped := false })
        s.entries :=
  entries_modifyPt_update s vaddr _

@[simp] theorem pagedIn_npages (s : VmState) (f vaddr index : Nat) :
    (pagedIn s f vaddr index).npages = s.npages :=
  npages_modifyPt_update s vaddr _

namespace Started

variable {s s' s₁ t : VmState} {f vaddr index : Nat}

variable (h : Started s)
include h

theorem same (ht : SameTables s t) : Started t where
  active := ht.active.trans h.active
  booted := ht.first ▸ h.booted
  fits := ht.nRam ▸ h.fits
  pointer := by unfold VictimPtr; rw [ht.pointer, ht.first]; exact h.pointer

theorem modifyFrame (f : Nat) (g : CoremapEntry → CoremapEntry) : Started (s.modifyFrame f g) :=
  { h with }

theorem select {next : Nat} (hn : s.firstFreeFrame ≤ next) :
    Started { s with nextVictim := next } :=
  ⟨h.active, h.booted, h.fits, Or.inr hn⟩

theorem swapOutVictim (ho : Vm.swapOutVictim s victim = .ok s') : Started s' := by
  obtain ⟨_, e, index, -, -, -, -, -, -, -, rfl⟩ := swapOutVictim_ok ho
  exact { h with }

theorem taken (ht : FrameTaken s f s₁) : Started s₁ := by
  obtain ⟨h1, -, ⟨-, rfl⟩ | ⟨-, -, hout⟩⟩ := ht
  · exact h
  · exact (h.select (Nat.le_succ_of_le h1)).swapOutVictim hout

theorem link (f vaddr : Nat) : Started (linkEntry s f vaddr) :=
  { h with }

theorem pagedIn (f vaddr index : Nat) : Started (Vm.pagedIn s f vaddr index) :=
  { h with }

/-- The kernel address of a frame does not wrap, and leads back to the frame. -/
theorem kvaddrFrame (hf : f < s.nRamFrames) :
    kvaddrFrame (paddrToKvaddr (f * pageSize)) = f ∧ paddrToKvaddr (f * pageSize) ≠ 0 := by
  have := h.fits
  unfold Vm.kvaddrFrame paddrToKvaddr
  grind

end Started

namespace Ready

variable {s s' s₁ t : VmState} {f vaddr index : Nat}

variable (h : Ready s)
include h

theorem same (ht : SameTables s t) : Ready t :=
  ⟨h.toStarted.same ht, ht.entries ▸ h.table⟩

theorem modifyFrame (f : Nat) (g : CoremapEntry → CoremapEntry) : Ready (s.modifyFrame f g) :=
  ⟨h.toStarted.modifyFrame f g, h.table⟩

theorem select {next : Nat} (hn : s.firstFreeFrame ≤ next) : Ready { s with nextVictim := next } :=
  ⟨h.toStarted.select hn, h.table⟩

theorem swapOutVictim (ho : Vm.swapOutVictim s victim = .ok s') : Ready s' := by
  refine ⟨h.toStarted.swapOutVictim ho, ?_⟩
  obtain ⟨_, e, index, -, -, -, -, -, -, -, rfl⟩ := swapOutVictim_ok ho
  rw [swappedOut_entries]
  exact h.table.update fun _ => rfl

theorem link (hp : s.as.isSome) (hb : pageFrame vaddr + pageSize < wordSize)
    (hnew : s.entries.find? (ptMatch vaddr) = none) : Ready (linkEntry s f vaddr) := by
  refine ⟨h.toStarted.link f vaddr, ?_⟩
  rw [linkEntry_entries hp]
  exact h.table.cons (pageFrame_aligned vaddr) hb (h.table.search_none.mp hnew)

theorem pagedIn (f vaddr index : Nat) : Ready (Vm.pagedIn s f vaddr index) := by
  refine ⟨h.toStarted.pagedIn f vaddr index, ?_⟩
  rw [pagedIn_entries]
  exact h.table.update fun _ => rfl

end Ready

/-! ## The loops -/

/-- What every round of the swap-out loop of `getppages` keeps. -/
theorem swapOutRun_ind {I : Nat → VmState → Prop} {s : VmState} (h0 : I 0 s)
    (hstep : ∀ (i : Nat) (t t' : VmState) (f : Nat), I i t → victim + i = f →
      swapOutVictim t f = .ok t' →
      I (i + 1) (t'.modifyFrame f fun c => { c with status := .fixed })) :
    ∀ {n : Nat} {s' : VmState}, swapOutRun s victim n = .ok s' → I n s'
  | 0, s', h => by
    simp only [swapOutRun, Except.ok.injEq] at h
    exact h ▸ h0
  | i + 1, s', h => by
    simp only [swapOutRun] at h
    split at h
    · cases h
    · rename_i t ht
      split at h
      · cases h
      · rename_i t' hout
        obtain ⟨f, _, _, hv, -⟩ := swapOutVictim_ok hout
        rw [hv] at h hout
        simp only [Except.ok.injEq, Int.toNat_natCast] at h
        exact h ▸ hstep i t t' f (swapOutRun_ind h0 hstep ht) hv hout

/-- The rounds of the loop leave the frames they have not reached as they were. -/
theorem swapOutRun_coremap {s t : VmState} {v : Int} {i : Nat}
    (h : swapOutRun s v i = .ok t) (j : Nat) (hj : v + i ≤ (j : Int)) :
    t.coremap j = s.coremap j := by
  refine swapOutRun_ind (I := fun i t => ∀ j : Nat, v + i ≤ (j : Int) →
    t.coremap j = s.coremap j) (fun j _ => rfl) ?_ h j hj
  intro i u u' f hI hf hout j hj
  obtain ⟨_, e, index, -, -, -, -, -, -, -, rfl⟩ := swapOutVictim_ok hout
  rw [VmState.modifyFrame_coremap, if_neg (by omega), swappedOut_coremap]
  exact hI j (by omega)

/-- What a single-page `alloc_kpages` that returned has done. -/
theorem allocKpages_one {s s' : VmState} (hr : Started s) (h : allocKpages s 1 = .ok (addr, s')) :
    ∃ f s₁, addr = paddrToKvaddr (f * pageSize) ∧ s' = kernelBlock s₁ f 1 ∧
      FrameTaken s f s₁ := by
  obtain ⟨pa, hg, haddr⟩ := allocKpages_ok h
  obtain ⟨f, s₁, rfl, hs', ht⟩ := getppages_one hr.pointer hr.active hg
  have hf : 0 < f := Nat.lt_of_lt_of_le hr.booted ht.1
  grind

/-- What every page `kmalloc` gets keeps, beside `Started`. -/
theorem kmallocPages_ind {I : List Nat → VmState → Prop} {s : VmState} (hr : Started s)
    (h0 : I [] s)
    (hstep : ∀ (addrs : List Nat) (t t₁ : VmState) (f : Nat), Started t → I addrs t →
      FrameTaken t f t₁ → I (addrs ++ [paddrToKvaddr (f * pageSize)]) (kernelBlock t₁ f 1)) :
    ∀ {k : Nat} {addrs : List Nat} {s' : VmState}, kmallocPages s k = .ok (addrs, s') →
      Started s' ∧ I addrs s'
  | 0, addrs, s', h => by
    simp only [kmallocPages, Except.ok.injEq, Prod.mk.injEq] at h
    obtain ⟨rfl, rfl⟩ := h
    exact ⟨hr, h0⟩
  | k + 1, addrs, s', h => by
    simp only [kmallocPages] at h
    split at h
    · cases h
    · rename_i as t hk
      obtain ⟨hrt, hI⟩ := kmallocPages_ind hr h0 hstep hk
      split at h
      · cases h
      · rename_i addr t' ha
        obtain ⟨f, t₁, hf, ht', ht⟩ := allocKpages_one hrt ha
        split at h
        · cases h
        · simp only [Except.ok.injEq, Prod.mk.injEq] at h
          obtain ⟨rfl, rfl⟩ := h
          rw [hf, ht']
          exact ⟨(hrt.taken ht).modifyFrame _ _, hstep as t t₁ f hrt hI ht⟩

/-! ## Invariants that do not look at the frame -/

/-- `I` is kept by the writes the allocators are made of. -/
structure AllocStable (I : VmState → Prop) : Prop where
  select : ∀ {s : VmState} {next : Nat}, I s → s.firstFreeFrame ≤ next →
    I { s with nextVictim := next }
  swapOutVictim : ∀ {s s' : VmState} {victim : Int}, I s →
    Vm.swapOutVictim s victim = .ok s' → I s'
  modifyFrame : ∀ {s : VmState}, I s → ∀ (f : Nat) (g : CoremapEntry → CoremapEntry),
    I (s.modifyFrame f g)

namespace AllocStable

variable {I : VmState → Prop} {s s' s₁ : VmState} {f n : Nat}

variable (hI : AllocStable I)
include hI

theorem taken (h : I s) (ht : FrameTaken s f s₁) : I s₁ := by
  obtain ⟨h1, -, ⟨-, rfl⟩ | ⟨-, -, hout⟩⟩ := ht
  · exact h
  · exact hI.swapOutVictim (hI.select h (Nat.le_succ_of_le h1)) hout

theorem kmallocPages (hs : Started s) (h : I s) {k : Nat} {addrs : List Nat}
    (hk : Vm.kmallocPages s k = .ok (addrs, s')) : I s' :=
  (kmallocPages_ind (I := fun _ t => I t) hs h
    (fun _ _ _ g _ h ht => hI.modifyFrame (hI.taken h ht) g _) hk).2

theorem allocKpages (hs : Started s) (h : I s) (ha : Vm.allocKpages s n = .ok (addr, s')) :
    I s' := by
  obtain ⟨pa, hg, -⟩ := allocKpages_ok ha
  rcases getppages_ok hs.active hg with ⟨f, -, -, rfl⟩ | ⟨v, s₁, s₂, -, hsel, hrun, -, rfl⟩
  · exact hI.modifyFrame h f _
  · obtain ⟨-, ⟨next, rfl, hle, -⟩, -⟩ := victimSelection_spec hs.pointer hsel
    have hrun' : I s₂ := swapOutRun_ind (I := fun _ t => I t) (hI.select h hle)
      (fun _ t t' g h _ hout => hI.modifyFrame (hI.swapOutVictim h hout) g _) hrun
    exact hI.modifyFrame hrun' _ _

theorem and {J : VmState → Prop} (hJ : AllocStable J) : AllocStable fun s => I s ∧ J s where
  select h hle := ⟨hI.select h.1 hle, hJ.select h.2 hle⟩
  swapOutVictim h ho := ⟨hI.swapOutVictim h.1 ho, hJ.swapOutVictim h.2 ho⟩
  modifyFrame h f g := ⟨hI.modifyFrame h.1 f g, hJ.modifyFrame h.2 f g⟩

theorem releaseFrames (h : I s) (first n : Nat) : I (Vm.releaseFrames s first n) := by
  induction n with
  | zero => exact h
  | succ n ih => exact hI.modifyFrame ih _ _

theorem freeKpages (hs : Started s) (h : I s) (hf : Vm.freeKpages s addr = .ok s') : I s' := by
  obtain ⟨-, rfl⟩ := freeKpages_ok hs.active hf
  exact hI.releaseFrames h _ _

end AllocStable

theorem Started.stable : AllocStable Started :=
  ⟨fun h hn => h.select hn, Started.swapOutVictim, Started.modifyFrame⟩

theorem SameConstants.stable (s : VmState) : AllocStable (SameConstants s) where
  select := fun h _ => h.trans ⟨rfl, rfl, rfl, rfl⟩
  swapOutVictim := fun h hout => h.trans (sameConstants_swapOutVictim hout)
  modifyFrame := fun h _ _ => h.trans (sameConstants_modifyFrame _ _ _)

theorem Started.faulted {s s' : VmState} (h : Started s) {faultpage kpages : Nat}
    {addrs : List Nat} (hf : Faulted s faultpage kpages addrs s') :
    Started s' ∧ SameConstants s s' := by
  cases hf with
  | @fresh f addrs s₁ s₂ hnone _ ht hk =>
    have hpage := (h.taken ht).modifyFrame f fun _ =>
      { status := .dirty, paddr := f * pageSize, vaddr := faultpage, size := 1 }
    have hsame := sameTables_tlbLoad (linkEntry s₂ f faultpage) s₂.stats.fresh faultpage
      (f * pageSize)
    have hc := (SameConstants.stable s).kmallocPages hpage
      (ht.constants.trans (sameConstants_modifyFrame s₁ f _)) hk
    exact ⟨((Started.stable.kmallocPages hpage hpage hk).link f faultpage).same hsame,
      (hc.trans (sameConstants_linkEntry s₂ f faultpage)).trans hsame.constants⟩
  | @swapin f e e₁ s₁ he hs ht he₁ hs₁ =>
    have hsame := sameTables_tlbLoad (Vm.pagedIn s₁ f faultpage e₁.swapIndex)
      s₁.stats.swapin faultpage (f * pageSize)
    exact ⟨((h.taken ht).pagedIn f faultpage _).same hsame,
      (ht.constants.trans (sameConstants_pagedIn s₁ f faultpage _)).trans hsame.constants⟩
  | @reload e he hs =>
    have hsame := sameTables_tlbLoad s s.stats.reload faultpage (e.ppageIndex * pageSize)
    exact ⟨h.same hsame, hsame.constants⟩

end OsPaging.Vm
