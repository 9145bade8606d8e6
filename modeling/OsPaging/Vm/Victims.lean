import OsPaging.Vm.Linked

/-!
# Which frames are swapped out

Both swap-out branches assert that the running process's page table has an entry for the victim's
address and that the entry is for the victim's frame. `swapPoints` lists every place where an
event reaches such a branch, with the victim and the state there: the round of the loop in
`getppages`, the call of `getuserppage` in `vm_fault`, and the kernel requests that the `kmalloc`
in `pt_add` makes while the new page is not linked yet. `Evictable` is what the branches assert,
and that the entry is not swapped out already.

The victim search skips `FIXED` frames only, so it does not always hold: inside `pt_add` the
search may return the frame that the fault has just taken (`nested_victim_unmapped`), and a
window of several frames may contain free ones. `SafeRequest` says that neither happens;
`swapPoints_evictable` is the result for the runs that keep to it.
-/

namespace OsPaging.Vm

open OsPaging.Lib

/-! ## The swap-out points of an event -/

/-- The rounds of the swap-out loop of `getppages`: the victim and the state at its start. -/
def kernelPoints (s : VmState) (npages : Nat) : List (Int × VmState) :=
  if freeRun s npages = none then
    match coremapVictimSelection s (intOfUnsigned npages) with
    | .ok (victim, s) => (List.range npages).filterMap fun i =>
        (swapOutRun s victim i).toOption.map fun t => (victim + i, t)
    | .error _ => []
  else []

/-- The swap-out branch of `getuserppage`. -/
def userPoints (s : VmState) : List (Int × VmState) :=
  if freeFrame s = none then
    match coremapVictimSelection s 1 with
    | .ok (victim, s) => [(victim, s)]
    | .error _ => []
  else []

/-- The frame that a fault on a new page has taken, and the state in which the `kmalloc` of
`pt_add` asks for its page number `j`. -/
def pendingFault (s : VmState) (faultpage j : Nat) : Option (Nat × VmState) :=
  match getuserppage s with
  | .error _ => none
  | .ok (paddr, s) =>
    match kmallocPages (placePage s (paddr / pageSize) faultpage) j with
    | .error _ => none
    | .ok (_, s) => some (paddr / pageSize, s)

/-- The checks of `vm_fault` pass. -/
def faultPasses (s : VmState) (faulttype faultaddress : Nat) : Bool :=
  match s.as with
  | none => false
  | some as => (faulttype == vmFaultRead || faulttype == vmFaultWrite) && !as.regions.isEmpty &&
      as.validAddress faultaddress

/-- Every place where the event gets to a swap-out branch. -/
def swapPoints (s : VmState) : Event → List (Int × VmState)
  | .kalloc npages => if npages < wordSize then kernelPoints s npages else []
  | .fault faulttype va kpages =>
    if faultPasses s faulttype va then
      match s.entries.find? (ptMatch (pageFrame va)) with
      | none => userPoints s ++ (List.range kpages).flatMap fun j =>
          ((pendingFault s (pageFrame va) j).map fun p => kernelPoints p.2 1).getD []
      | some pte => if pte.swapped then userPoints s else []
    else []
  | _ => []

/-- The page table has an entry for the victim's address that is not swapped out and is for the
victim's frame. -/
def Evictable (t : VmState) (victim : Int) : Prop :=
  ∃ e ∈ t.entries.find? (ptMatch (t.coremap victim.toNat).vaddr),
    e.swapped = false ∧ (e.ppageIndex : Int) = victim ∧
      e.vaddr = (t.coremap victim.toNat).vaddr

instance (t : VmState) (victim : Int) : Decidable (Evictable t victim) :=
  inferInstanceAs (Decidable (∃ e ∈ t.entries.find? (ptMatch (t.coremap victim.toNat).vaddr),
    e.swapped = false ∧ (e.ppageIndex : Int) = victim ∧
      e.vaddr = (t.coremap victim.toNat).vaddr))

/-- A fault is not on the last page, and no kernel request inside its `pt_add` selects the frame
the fault has taken; a kernel request that gets to the swap-out branch selects no free frame. -/
abbrev SafeRequest (s : Sys) (e : Event) : Prop :=
  e.Meets
    (fun va kpages => va < lastPage ∧ ∀ j < kpages, ∀ p ∈ pendingFault s.vm (pageFrame va) j,
      kernelWindow p.2 1 ≠ some (p.1 : Int))
    (DirtyWindow s.vm)

theorem SafeRequest.belowLastPage {s : Sys} {e : Event} (h : SafeRequest s e) :
    e.belowLastPage := by
  cases e with
  | fault => exact h.1
  | _ => trivial

section Points

variable {P : Set Nat} {s t : VmState} {victim : Int} {n : Nat}

theorem mem_kernelPoints (h : (victim, t) ∈ kernelPoints s n) :
    ∃ v s₁ i, kernelWindow s n = some v ∧ freeRun s n = none ∧
      coremapVictimSelection s (intOfUnsigned n) = .ok (v, s₁) ∧ i < n ∧ victim = v + (i : Nat) ∧
      swapOutRun s₁ v i = .ok t := by
  unfold kernelPoints at h
  split at h
  · rename_i hfree
    split at h
    · rename_i v s₁ hsel
      obtain ⟨i, hi, hrun⟩ := List.mem_filterMap.mp h
      obtain ⟨u, hu, he⟩ := Option.map_eq_some_iff.mp hrun
      simp only [Prod.mk.injEq] at he
      obtain ⟨rfl, rfl⟩ := he
      refine ⟨v, s₁, i, by simp [kernelWindow, hfree, hsel], hfree, hsel, List.mem_range.mp hi,
        rfl, ?_⟩
      cases hr : swapOutRun s₁ v i with
      | error p => simp [hr, Except.toOption] at hu
      | ok w => simpa [hr, Except.toOption] using hu
    · cases h
  · cases h

/-- A `DIRTY` victim that is not pending is evictable. -/
theorem Linked.evictable (h : Linked P t) {f : Nat} (hd : (t.coremap f).status = .dirty)
    (h2 : f < t.nRamFrames) (hf : f ∉ P) : Evictable t f := by
  have h1 : t.firstFreeFrame ≤ f := by
    by_contra hlt
    rw [h.kernel f (by omega)] at hd
    cases hd
  obtain ⟨e, hfind, he⟩ := h.victim h1 h2 hd hf
  exact ⟨e, hfind, he.2.1, by rw [he.2.2.1], he.2.2.2⟩

/-- One victim: it is a user frame, so only the pending frame can be wrong. -/
theorem Linked.evictable_one (h : Linked P s) (hnone : freeFrame s = none)
    (hsel : coremapVictimSelection s 1 = .ok (victim, t)) (hP : ∀ f ∈ P, victim ≠ (f : Nat)) :
    Evictable t victim := by
  obtain ⟨f, rfl, h1, h2, hfix, rfl⟩ := victimSelection_one h.pointer hsel
  exact (h.select (Nat.le_succ_of_le h1)).evictable
    (dirty_of_freeFrame_none hnone h1 h2 hfix) h2 fun hf => hP f hf rfl

/-- The rounds of a request whose window holds no free frame. -/
theorem Linked.evictable_window (h : Linked ∅ s) (hw : n < wordSize)
    (hd : DirtyWindow s n)
    (hp : (victim, t) ∈ kernelPoints s n) : Evictable t victim := by
  obtain ⟨v, s₁, i, hwin, -, hsel, hi, rfl, hrun⟩ := mem_kernelPoints hp
  obtain ⟨h0, ⟨next, rfl, hle, -, hnext⟩, hrange⟩ := victimSelection_spec h.pointer hsel
  rw [intOfUnsigned_of_nonneg hw h0] at hrange
  have hdi := hd v hwin i hi
  -- a `DIRTY` frame is not one of the kernel's, so the window starts above them
  have h1 : s.firstFreeFrame ≤ (v + i).toNat := by
    by_contra hlt
    rw [h.kernel _ (by omega)] at hdi
    cases hdi
  obtain ⟨f, hf⟩ : ∃ f : Nat, v + i = f := ⟨(v + i).toNat, by have := h.booted; omega⟩
  rw [hf, Int.toNat_natCast] at hdi h1
  rw [hf]
  obtain ⟨hl, hc, -⟩ := (h.select hle).swapOutRun hrun
  refine hl.evictable ?_ ?_ (by simp)
  · rw [swapOutRun_coremap hrun f (by omega)]
    exact hdi
  · rw [hc.nRam]
    exact (hrange f h1 (by omega) (by omega)).1

/-- Inside `pt_add` only the frame of the fault is pending. -/
theorem Linked.pendingFault (h : Linked ∅ s) {faultpage j f : Nat}
    (hp : pendingFault s faultpage j = some (f, t)) : Linked {f} t := by
  unfold Vm.pendingFault at hp
  split at hp
  · cases hp
  · rename_i paddr su hu
    obtain ⟨g, s₁, rfl, rfl, ht⟩ := getuserppage_ok h.pointer hu
    rw [Nat.mul_div_cancel g (by decide), placePage_userFrame] at hp
    split at hp
    · cases hp
    · rename_i addrs s₂ hk
      simp only [Option.some.injEq, Prod.mk.injEq] at hp
      obtain ⟨rfl, rfl⟩ := hp
      have hc := ht.constants
      have hpage := (h.taken ht).userPage faultpage
        (by rw [hc.first]; exact ht.1) (by rw [hc.nRam]; exact ht.2.1)
      rw [← insert_empty_eq]
      exact (hpage.kmallocPages hk).1

end Points

theorem LinkedSys.evictable {s : Sys} {e : Event} (h : LinkedSys s) (hs : SafeRequest s e)
    {victim : Int} {t : VmState}
    (hp : (victim, t) ∈ swapPoints s.vm e) : Evictable t victim := by
  have huser : (victim, t) ∈ userPoints s.vm → Evictable t victim := by
    intro hu
    unfold userPoints at hu
    split at hu
    · rename_i hnone
      split at hu
      · rename_i v s₁ hsel
        simp only [List.mem_singleton, Prod.mk.injEq] at hu
        obtain ⟨rfl, rfl⟩ := hu
        exact h.vm.evictable_one hnone hsel (by simp)
      · cases hu
    · cases hu
  cases e with
  | kalloc n =>
    simp only [swapPoints] at hp
    split at hp
    · rename_i hw
      exact h.vm.evictable_window hw hs hp
    · cases hp
  | fault faulttype va kpages =>
    simp only [swapPoints] at hp
    split at hp
    · split at hp
      · rcases List.mem_append.mp hp with hu | hk
        · exact huser hu
        · obtain ⟨j, hj, hk⟩ := List.mem_flatMap.mp hk
          cases hpend : pendingFault s.vm (pageFrame va) j with
          | none => simp [hpend] at hk
          | some p =>
            simp only [hpend, Option.map_some, Option.getD_some] at hk
            obtain ⟨v, s₁, i, hwin, hfree, hsel, hi, rfl, hrun⟩ := mem_kernelPoints hk
            obtain rfl : i = 0 := by omega
            simp only [swapOutRun, Except.ok.injEq] at hrun
            subst hrun
            rw [Int.natCast_zero, Int.add_zero]
            refine (h.vm.pendingFault hpend).evictable_one (freeFrame_none_of_freeRun hfree)
              hsel fun f hf => ?_
            rw [Set.mem_singleton_iff.mp hf]
            intro hv
            exact hs.2 j (List.mem_range.mp hj) p hpend (hv ▸ hwin)
      · grind
    · cases hp
  | load va v | store va v | kfree addr | kwrite paddr v => exact absurd hp (by simp [swapPoints])

end OsPaging.Vm
