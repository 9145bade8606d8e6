import OsPaging.Vm.Coremap
import OsPaging.Vm.Swapfile
import OsPaging.Vm.Tlb

/-!
# Physical frames

`getuserppage`, `getppages`, `freeuserppage`, `alloc_kpages` and `free_kpages` of `vm.c`.

Both allocators fall back to swapping out when no frame is free. The body of the two swap-out
branches is the same (`swapOutVictim`): look up the owner page in the page table of the running
process, assert that it owns the frame, write the frame to a swap slot, mark the page swapped and
drop its TLB entry. `getppages` does so for each frame of the run it selected and makes it
`FIXED`; the frames of a run found by its free-frame scan stay as they are, except the first.

Each function has one lemma that says what a call that returned has done.
-/

namespace OsPaging.Vm

open OsPaging.Lib

variable {s' : VmState} {f npages : Nat}

/-! ## Fields that the page-table and TLB writes leave alone -/

section Fields

variable (s : VmState) (vaddr : Nat)

@[simp] theorem entries_modifyPt_update (g : PtEntry → PtEntry) :
    (s.modifyPt fun pt => pt.update vaddr g).entries =
      modifyFirst (ptMatch vaddr) g s.entries := by
  unfold VmState.entries VmState.modifyPt
  cases s.as <;> rfl

@[simp] theorem npages_modifyPt_update (g : PtEntry → PtEntry) :
    (s.modifyPt fun pt => pt.update vaddr g).npages = s.npages := by
  unfold VmState.npages VmState.modifyPt
  cases s.as <;> rfl

end Fields

/-! ## The swap-out branches -/

/-- The body of the swap-out branches (`vm.c:298-308`, `vm.c:355-367`) for one victim. The index
is an `int`; a selection may put it below `0` (see `Coremap.lean`), and then one of the first two
assertions fails whatever memory holds there, so reading entry `0` instead does not matter. -/
def swapOutVictim (s : VmState) (victim : Int) : Except Panic VmState :=
  match s.as with
  | none => .error .nullAddrspace
  | some as =>
    let c := s.coremap victim.toNat
    match ptSearch as.pt c.vaddr with
    | none => .error .victimNotMapped
    | some ptvictim =>
      if (ptvictim.ppageIndex : Int) ≠ victim then .error .victimWrongFrame
      else if ptvictim.vaddr ≠ c.vaddr then .error .victimWrongVaddr
      else
        match swapOut s c.paddr with
        | .error p => .error p
        | .ok (none, _) => .error .swapOutFailed
        | .ok (some swapIndex, s) =>
          let s := s.modifyPt fun pt => pt.update c.vaddr fun e =>
            { e with swapIndex := swapIndex, swapped := true }
          .ok (tlbInvalidateEntry s ptvictim.vaddr)

/-- The state after the page at `vaddr` went from the frame at `page` to slot `index`. -/
def swappedOut (s : VmState) (vaddr page index : Nat) : VmState :=
  { s with
    nvop := s.nvop + 1
    swapspace := blit s.swapspace (index * pageSize) s.ram page pageSize
    swaptable := Function.update s.swaptable index false
    tlb := tlbDrop s.tlb vaddr
    stats := { s.stats with
      swapfileWrites := s.stats.swapfileWrites + 1
      tlbInvalidation := s.stats.tlbInvalidation + tlbDropped s.tlb vaddr }
    as := s.as.map fun as => { as with pt := as.pt.update vaddr fun e =>
      { e with swapIndex := index, swapped := true } } }

/-- What a swap-out that did not panic has done. -/
theorem swapOutVictim_ok {s : VmState} {victim : Int} (h : swapOutVictim s victim = .ok s') :
    ∃ f e index, victim = (f : Nat) ∧ s.as.isSome ∧
      s.entries.find? (ptMatch (s.coremap f).vaddr) = some e ∧ e.ppageIndex = f ∧
      e.vaddr = (s.coremap f).vaddr ∧ index < swapSlots ∧ s.swaptable index = true ∧
      s' = swappedOut s e.vaddr (s.coremap f).paddr index := by
  unfold swapOutVictim at h
  split at h
  · cases h
  · rename_i as has
    simp only at h
    split at h
    · cases h
    · rename_i e he
      split at h
      · cases h
      · rename_i hf
        split at h
        · cases h
        · rename_i hv
          split at h
          · cases h
          · cases h
          · rename_i index s₁ hout
            obtain ⟨hlt, hempty, rfl⟩ := swapOut_ok hout
            have hf' := not_not.mp hf
            have hv' := not_not.mp hv
            subst hf'
            simp only [Int.toNat_natCast] at he hv' h
            refine ⟨e.ppageIndex, e, index, rfl, by simp [has], ?_, rfl, hv', hlt, hempty, ?_⟩
            · simpa [VmState.entries, has, ptSearch] using he
            · simp only [Except.ok.injEq] at h
              rw [← h, hv', tlbInvalidateEntry_eq]
              rfl

section SwappedOut

variable (s : VmState) (vaddr page index : Nat)

@[simp] theorem swappedOut_entries : (swappedOut s vaddr page index).entries =
    modifyFirst (ptMatch vaddr) (fun e => { e with swapIndex := index, swapped := true })
      s.entries :=
  entries_modifyPt_update s vaddr _

@[simp] theorem swappedOut_npages : (swappedOut s vaddr page index).npages = s.npages :=
  npages_modifyPt_update s vaddr _

@[simp] theorem swappedOut_isSome : (swappedOut s vaddr page index).as.isSome = s.as.isSome := by
  simp [swappedOut]

@[simp] theorem swappedOut_coremap : (swappedOut s vaddr page index).coremap = s.coremap := rfl

end SwappedOut

/-! ## User frames -/

/-- The scan of `getuserppage`: the lowest frame that is `FREE` or `CLEAN`. -/
def freeFrame (s : VmState) : Option Nat :=
  (List.range' s.firstFreeFrame (s.nRamFrames - s.firstFreeFrame)).find? fun f =>
    (s.coremap f).isFree

/-- The coremap writes at the end of `getuserppage`. -/
def userFrame (s : VmState) (f : Nat) : VmState :=
  s.modifyFrame f fun c => { c with status := .dirty, paddr := f * pageSize, size := 1 }

/-- `getuserppage` (`vm.c:279-315`): the physical address of the frame. -/
def getuserppage (s : VmState) : Except Panic (Nat × VmState) :=
  if s.allocTableActive = false then .error .tableNotActive
  else
    match freeFrame s with
    | some victim => .ok (victim * pageSize, userFrame s victim)
    | none =>
      match coremapVictimSelection s 1 with
      | .error p => .error p
      | .ok (victim, s) =>
        match swapOutVictim s victim with
        | .error p => .error p
        | .ok s => .ok (victim.toNat * pageSize, userFrame s victim.toNat)

/-- `freeuserppage` (`vm.c:379-394`). -/
def freeuserppage (s : VmState) (addr : Nat) : Except Panic VmState :=
  if addr % pageSize ≠ 0 then .error .unaligned
  else if (s.coremap (addr / pageSize)).status = .fixed then .error .freeFixed
  else .ok (s.modifyFrame (addr / pageSize) fun _ =>
    { status := .free, paddr := 0, vaddr := 0, size := 0 })

theorem freeFrame_some {s : VmState} (h : freeFrame s = some f) :
    s.firstFreeFrame ≤ f ∧ f < s.nRamFrames ∧ (s.coremap f).isFree = true := by
  obtain ⟨h1, h2, -⟩ := List.find?_range'_eq_some.mp h
  grind

theorem freeFrame_none {s : VmState} (h : freeFrame s = none) (h1 : s.firstFreeFrame ≤ f)
    (h2 : f < s.nRamFrames) : (s.coremap f).isFree = false := by
  have := List.find?_range'_eq_none.mp h f h1 (by omega)
  simpa using this

theorem isFree_iff {c : CoremapEntry} :
    c.isFree = true ↔ c.status ≠ .dirty ∧ c.status ≠ .fixed := by
  unfold CoremapEntry.isFree
  cases c.status <;> simp

/-- When no frame is free, one that is not `FIXED` holds a user page. -/
theorem dirty_of_freeFrame_none {s : VmState} (h : freeFrame s = none) (h1 : s.firstFreeFrame ≤ f)
    (h2 : f < s.nRamFrames) (hfix : (s.coremap f).status ≠ .fixed) :
    (s.coremap f).status = .dirty := by
  by_contra hd
  have := freeFrame_none h h1 h2
  rw [isFree_iff.mpr ⟨hd, hfix⟩] at this
  cases this

/-- Frame `f` became available to an allocator, leaving `s₁`: it was free, or, when no frame was,
its page was swapped out. -/
def FrameTaken (s : VmState) (f : Nat) (s₁ : VmState) : Prop :=
  s.firstFreeFrame ≤ f ∧ f < s.nRamFrames ∧
    ((s.coremap f).isFree = true ∧ s₁ = s ∨
      freeFrame s = none ∧ (s.coremap f).status = .dirty ∧
        swapOutVictim { s with nextVictim := f + 1 } f = .ok s₁)

/-- A selected single victim, when no frame is free, holds a user page. -/
theorem frameTaken_of_victim {s s₁ s₂ : VmState} {victim : Int} (hp : VictimPtr s)
    (hnone : freeFrame s = none) (hsel : coremapVictimSelection s 1 = .ok (victim, s₁))
    (hout : swapOutVictim s₁ victim = .ok s₂) :
    ∃ f : Nat, victim = f ∧ FrameTaken s f s₂ := by
  obtain ⟨f, rfl, h1, h2, hfix, rfl⟩ := victimSelection_one hp hsel
  exact ⟨f, rfl, h1, h2, Or.inr ⟨hnone, dirty_of_freeFrame_none hnone h1 h2 hfix, hout⟩⟩

/-- What a `getuserppage` that returned has done. -/
theorem getuserppage_ok {s : VmState} {paddr : Nat} (hp : VictimPtr s)
    (h : getuserppage s = .ok (paddr, s')) :
    ∃ f s₁, paddr = f * pageSize ∧ s' = userFrame s₁ f ∧ FrameTaken s f s₁ := by
  unfold getuserppage at h
  split at h
  · cases h
  · split at h
    · rename_i f hf
      simp only [Except.ok.injEq, Prod.mk.injEq] at h
      obtain ⟨rfl, rfl⟩ := h
      obtain ⟨h1, h2, h3⟩ := freeFrame_some hf
      exact ⟨f, s, rfl, rfl, h1, h2, Or.inl ⟨h3, rfl⟩⟩
    · rename_i hnone
      split at h
      · cases h
      · rename_i victim s₁ hsel
        split at h
        · cases h
        · rename_i s₂ hout
          simp only [Except.ok.injEq, Prod.mk.injEq] at h
          obtain ⟨rfl, rfl⟩ := h
          obtain ⟨f, rfl, ht⟩ := frameTaken_of_victim hp hnone hsel hout
          exact ⟨f, s₂, rfl, rfl, ht⟩

/-! ## Kernel blocks -/

/-- The loop of the free-run scan (`vm.c:337-347`) from frame `i`: `freePages` at its end and,
if it broke off, `index`. -/
def freeRunFrom (s : VmState) (npages : Nat) : Nat → Nat → Nat → Nat × Option Nat
  | 0, _, freePages => (freePages, none)
  | fuel + 1, i, freePages =>
    let freePages := if (s.coremap i).isFree then freePages + 1 else 0
    if freePages = npages then (freePages, some (i + 1 - npages))
    else freeRunFrom s npages fuel (i + 1) freePages

/-- The free-run scan of `getppages`: `none` sends it to the swap-out branch. -/
def freeRun (s : VmState) (npages : Nat) : Option Nat :=
  let r := freeRunFrom s npages (s.nRamFrames - s.firstFreeFrame) s.firstFreeFrame 0
  if r.1 = npages then some (r.2.getD 0) else none

/-- The first `i` rounds of the swap-out loop of `getppages` (`vm.c:353-368`). -/
def swapOutRun (s : VmState) (victim : Int) : Nat → Except Panic VmState
  | 0 => .ok s
  | i + 1 =>
    match swapOutRun s victim i with
    | .error p => .error p
    | .ok s =>
      match swapOutVictim s (victim + i) with
      | .error p => .error p
      | .ok s => .ok (s.modifyFrame (victim + i).toNat fun c => { c with status := .fixed })

/-- The coremap writes at the end of `getppages` (`vm.c:371-374`). -/
def kernelBlock (s : VmState) (index npages : Nat) : VmState :=
  s.modifyFrame index fun _ =>
    { status := .fixed, paddr := index * pageSize, vaddr := paddrToKvaddr (index * pageSize),
      size := npages }

/-- `getppages` (`vm.c:320-376`). `coremap_victim_selection` takes an `int`; for a count it
cannot hold the selection fails its own assertion, so the loop below never runs for one. -/
def getppages (s : VmState) (npages : Nat) : Except Panic (Nat × VmState) :=
  if s.allocTableActive = false then .ok (ramStealmem s npages)
  else
    match freeRun s npages with
    | some index => .ok (index * pageSize, kernelBlock s index npages)
    | none =>
      match coremapVictimSelection s (intOfUnsigned npages) with
      | .error p => .error p
      | .ok (victim, s) =>
        match swapOutRun s victim npages with
        | .error p => .error p
        | .ok s => .ok (victim.toNat * pageSize, kernelBlock s victim.toNat npages)

/-- The first frame of the window that `getppages` selects, if it gets to its swap-out branch. -/
def kernelWindow (s : VmState) (npages : Nat) : Option Int :=
  if freeRun s npages = none then
    match coremapVictimSelection s (intOfUnsigned npages) with
    | .ok (victim, _) => some victim
    | .error _ => none
  else none

/-- The window holds no free frame. -/
def DirtyWindow (s : VmState) (npages : Nat) : Prop :=
  ∀ victim ∈ kernelWindow s npages, ∀ i < npages,
    (s.coremap (victim + i).toNat).status = .dirty

instance (s : VmState) (npages : Nat) : Decidable (DirtyWindow s npages) :=
  inferInstanceAs (Decidable (∀ victim ∈ kernelWindow s npages, _))

/-- `alloc_kpages` (`vm.c:396-404`). -/
def allocKpages (s : VmState) (npages : Nat) : Except Panic (Nat × VmState) :=
  match getppages s npages with
  | .error p => .error p
  | .ok (pa, s) => if pa = 0 then .ok (0, s) else .ok (paddrToKvaddr pa, s)

/-- The loop of `free_kpages` (`vm.c:419-422`): its first `i` rounds. -/
def releaseFrames (s : VmState) (first : Nat) : Nat → VmState
  | 0 => s
  | i + 1 => (releaseFrames s first i).modifyFrame (first + i) fun c =>
      { c with status := .free, size := 0 }

/-- `addr - MIPS_KSEG0`, as an index of the coremap. -/
def kvaddrFrame (addr : Nat) : Nat := (addr + (wordSize - mipsKseg0)) % wordSize / pageSize

/-- `free_kpages` (`vm.c:406-424`). -/
def freeKpages (s : VmState) (addr : Nat) : Except Panic VmState :=
  if s.allocTableActive = false then .ok s
  else if (addr + (wordSize - mipsKseg0)) % wordSize % pageSize ≠ 0 then .error .unaligned
  else if s.nRamFrames ≤ kvaddrFrame addr then .error .frameOutOfRange
  else .ok (releaseFrames s (kvaddrFrame addr) (s.coremap (kvaddrFrame addr)).size)

/-- What a `free_kpages` that returned has done, once the coremap is active. -/
theorem freeKpages_ok {s : VmState} {addr : Nat} (ha : s.allocTableActive = true)
    (h : freeKpages s addr = .ok s') :
    kvaddrFrame addr < s.nRamFrames ∧
      s' = releaseFrames s (kvaddrFrame addr) (s.coremap (kvaddrFrame addr)).size := by
  unfold freeKpages at h
  rw [if_neg (by simp [ha])] at h
  split_ifs at h with h1 h2
  simp only [Except.ok.injEq] at h
  exact ⟨by omega, h.symm⟩

theorem releaseFrames_coremap (s : VmState) (first n j : Nat) :
    (releaseFrames s first n).coremap j =
      if first ≤ j ∧ j < first + n then { s.coremap j with status := .free, size := 0 }
      else s.coremap j := by
  induction n with
  | zero => rw [if_neg (by omega)]; rfl
  | succ n ih =>
    simp only [releaseFrames, VmState.modifyFrame_coremap]
    grind

theorem releaseFrames_eq (s : VmState) (first n : Nat) :
    releaseFrames s first n = { s with coremap := (releaseFrames s first n).coremap } := by
  induction n with
  | zero => rfl
  | succ n ih =>
    simp only [releaseFrames, VmState.modifyFrame]
    rw [ih]

/-- What the free-run scan found: `npages` frames that are all `FREE` or `CLEAN`. -/
theorem freeRunFrom_some {s : VmState} (hn : 0 < npages) :
    ∀ {fuel i freePages : Nat} {k index : Nat}, freePages ≤ i - s.firstFreeFrame →
      s.firstFreeFrame ≤ i → (∀ j, j < i → i ≤ j + freePages → (s.coremap j).isFree = true) →
      freeRunFrom s npages fuel i freePages = (k, some index) →
      s.firstFreeFrame ≤ index ∧ index + npages ≤ i + fuel ∧
        ∀ j, j < npages → (s.coremap (index + j)).isFree = true
  | 0, i, fp, k, index, _, _, _, h => by simp [freeRunFrom] at h
  | fuel + 1, i, fp, k, index, hle, hi, hfree, h => by
    simp only [freeRunFrom] at h
    by_cases hf : (s.coremap i).isFree = true
    · simp only [hf, if_true] at h
      have hfree' : ∀ j, j < i + 1 → i + 1 ≤ j + (fp + 1) → (s.coremap j).isFree = true := by
        intro j hj hj'
        rcases Nat.lt_succ_iff_lt_or_eq.mp hj with hlt | rfl
        · exact hfree j hlt (by omega)
        · exact hf
      split at h
      · rename_i he
        simp only [Prod.mk.injEq, Option.some.injEq] at h
        obtain ⟨-, rfl⟩ := h
        exact ⟨by omega, by omega, fun j hj => hfree' _ (by omega) (by omega)⟩
      · obtain ⟨h1, h2, h3⟩ := freeRunFrom_some hn (by omega) (by omega) hfree' h
        exact ⟨h1, by omega, h3⟩
    · rw [Bool.not_eq_true] at hf
      simp only [hf, Bool.false_eq_true, if_false, if_neg hn.ne] at h
      obtain ⟨h1, h2, h3⟩ := freeRunFrom_some hn (Nat.zero_le _) (by omega)
        (fun j _ _ => by omega) h
      exact ⟨h1, by omega, h3⟩

/-- A scan that ran to its end did not stop on a full count. -/
theorem freeRunFrom_none {s : VmState} :
    ∀ {fuel i freePages k : Nat}, freePages ≠ npages →
      freeRunFrom s npages fuel i freePages = (k, none) → k ≠ npages
  | 0, i, fp, k, hne, h => by
    simp only [freeRunFrom, Prod.mk.injEq, and_true] at h
    exact h ▸ hne
  | fuel + 1, i, fp, k, hne, h => by
    simp only [freeRunFrom] at h
    generalize (if (s.coremap i).isFree then fp + 1 else 0) = fp' at h
    split at h
    · cases h
    · rename_i hne'
      exact freeRunFrom_none hne' h

theorem freeRun_some {s : VmState} {index : Nat} (hn : 0 < npages)
    (h : freeRun s npages = some index) :
    s.firstFreeFrame ≤ index ∧ index + npages ≤ s.nRamFrames ∧
      ∀ j, j < npages → (s.coremap (index + j)).isFree = true := by
  obtain ⟨⟨k, o⟩, hr⟩ : ∃ r, freeRunFrom s npages (s.nRamFrames - s.firstFreeFrame)
    s.firstFreeFrame 0 = r := ⟨_, rfl⟩
  simp only [freeRun, hr] at h
  split at h
  · rename_i hk
    cases o with
    | none => exact absurd hk (freeRunFrom_none hn.ne hr)
    | some i =>
      simp only [Option.getD_some, Option.some.injEq] at h
      subst h
      obtain ⟨h1, h2, h3⟩ := freeRunFrom_some hn (Nat.zero_le _) (le_refl _)
        (fun j _ _ => by omega) hr
      grind
  · cases h

/-- For one page, the scan that fails has met no free frame. -/
theorem freeRunFrom_one {s : VmState} :
    ∀ {fuel i k : Nat} {o : Option Nat}, freeRunFrom s 1 fuel i 0 = (k, o) → k ≠ 1 →
      ∀ j, i ≤ j → j < i + fuel → (s.coremap j).isFree = false
  | 0, _, _, _, _, _, _, _, _ => by omega
  | fuel + 1, i, k, o, h, hk, j, hij, hj => by
    simp only [freeRunFrom] at h
    cases hf : (s.coremap i).isFree with
    | true =>
      simp only [hf, if_true, Prod.mk.injEq] at h
      exact absurd h.1.symm hk
    | false =>
      simp only [hf, Bool.false_eq_true, if_false, Nat.zero_ne_one] at h
      rcases Nat.eq_or_lt_of_le hij with rfl | hlt
      · exact hf
      · exact freeRunFrom_one h hk j hlt (by omega)

theorem freeFrame_none_of_freeRun {s : VmState} (h : freeRun s 1 = none) : freeFrame s = none := by
  obtain ⟨⟨k, o⟩, hr⟩ : ∃ r, freeRunFrom s 1 (s.nRamFrames - s.firstFreeFrame)
    s.firstFreeFrame 0 = r := ⟨_, rfl⟩
  simp only [freeRun, hr] at h
  split at h
  · cases h
  · rename_i hk
    unfold freeFrame
    rw [List.find?_range'_eq_none]
    intro i h1 h2
    rw [freeRunFrom_one hr hk i h1 h2]
    rfl

/-- What a `getppages` that returned has done, once the coremap is active. -/
theorem getppages_ok {s : VmState} {pa : Nat} (ha : s.allocTableActive = true)
    (h : getppages s npages = .ok (pa, s')) :
    (∃ index, freeRun s npages = some index ∧ pa = index * pageSize ∧
        s' = kernelBlock s index npages) ∨
      ∃ victim s₁ s₂, freeRun s npages = none ∧
        coremapVictimSelection s (intOfUnsigned npages) = .ok (victim, s₁) ∧
        swapOutRun s₁ victim npages = .ok s₂ ∧ pa = victim.toNat * pageSize ∧
        s' = kernelBlock s₂ victim.toNat npages := by
  unfold getppages at h
  grind

/-- A block's first entry is written whole, whatever was there. -/
theorem kernelBlock_modifyFrame (s : VmState) (f n : Nat) (g : CoremapEntry → CoremapEntry) :
    kernelBlock (s.modifyFrame f g) f n = kernelBlock s f n := by
  unfold kernelBlock VmState.modifyFrame
  simp only [Function.update_idem]

/-- What a single-page `getppages` that returned has done. -/
theorem getppages_one {s : VmState} {pa : Nat} (hp : VictimPtr s) (ha : s.allocTableActive = true)
    (h : getppages s 1 = .ok (pa, s')) :
    ∃ f s₁, pa = f * pageSize ∧ s' = kernelBlock s₁ f 1 ∧ FrameTaken s f s₁ := by
  rcases getppages_ok ha h with ⟨f, hr, rfl, rfl⟩ | ⟨victim, s₁, s₂, hr, hsel, hrun, rfl, rfl⟩
  · obtain ⟨h1, h2, h3⟩ := freeRun_some Nat.one_pos hr
    exact ⟨f, s, rfl, rfl, h1, by omega, Or.inl ⟨h3 0 Nat.one_pos, rfl⟩⟩
  · simp only [swapOutRun] at hrun
    split at hrun
    · cases hrun
    · rename_i s₃ hout
      rw [Int.natCast_zero, Int.add_zero] at hout hrun
      obtain ⟨f, rfl, ht⟩ := frameTaken_of_victim hp (freeFrame_none_of_freeRun hr) hsel hout
      simp only [Except.ok.injEq] at hrun
      subst hrun
      exact ⟨f, s₃, rfl, kernelBlock_modifyFrame _ _ _ _, ht⟩

theorem dirtyWindow_one {s : VmState} (hp : VictimPtr s) : DirtyWindow s 1 := by
  intro victim hv i hi
  unfold kernelWindow at hv
  split at hv
  · rename_i hr
    split at hv
    · rename_i v s₁ hsel
      cases hv
      obtain ⟨f, rfl, h1, h2, hfix, -⟩ := victimSelection_one hp hsel
      obtain rfl : i = 0 := by omega
      rw [Int.natCast_zero, Int.add_zero, Int.toNat_natCast]
      exact dirty_of_freeFrame_none (freeFrame_none_of_freeRun hr) h1 h2 hfix
    · cases hv
  · cases hv

/-- What an `alloc_kpages` that returned has done. -/
theorem allocKpages_ok {s : VmState} {addr : Nat} (h : allocKpages s npages = .ok (addr, s')) :
    ∃ pa, getppages s npages = .ok (pa, s') ∧ addr = if pa = 0 then 0 else paddrToKvaddr pa := by
  unfold allocKpages at h
  grind

end OsPaging.Vm
