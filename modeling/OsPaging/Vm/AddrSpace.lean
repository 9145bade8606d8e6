import OsPaging.Vm.Slots

/-!
# Address spaces

`as_create`, `as_define_region`, `as_activate` and `as_destroy` of `vm.c`, and `pt_destroy` of
`kern/vm/pt.c`. `as_destroy` may be called for the address space of a process that does not run,
so the page table it releases is an argument; the `kfree` calls it makes are steps of their own
(`System.lean`).

`as_activate` reads the running process's address space and does nothing with it, although every
context switch calls it. `as_destroy` invalidates the whole TLB.
-/

namespace OsPaging.Vm

open OsPaging.Lib Function

/-! ## Creating and activating -/

/-- `as_create` (`vm.c:427-437`). -/
def asCreate : AddrSpace := ⟨[], ptInit⟩

/-- `as_define_region` (`vm.c:482-525`): the new region goes to the end of the list. The sizes are
32-bit. -/
def asDefineRegion (as : AddrSpace) (vaddr sz : Nat) : AddrSpace :=
  let sz := (sz + vaddr % pageSize) % wordSize
  let vaddr := pageFrame vaddr
  let sz := pageFrame ((sz + pageSize - 1) % wordSize)
  { as with regions := as.regions ++ [{ start := vaddr, size := sz, npages := sz / pageSize }] }

/-- `as_activate` (`vm.c:464-474`). -/
def asActivate (s : VmState) : VmState :=
  match s.as with
  | none => s
  | some _ => s

@[simp] theorem asActivate_eq (s : VmState) : asActivate s = s := by
  unfold asActivate
  split <;> rfl

/-! ## Destroying -/

/-- The body of the loop of `pt_destroy` for the entry `q`. -/
def ptDestroyEntry (s : VmState) (q : PtEntry) : Except Panic VmState :=
  if q.swapped then swapUnmark s q.swapIndex else freeuserppage s (q.ppageIndex * pageSize)

/-- The loop of `pt_destroy` (`pt.c:57-75`). -/
def ptDestroy (s : VmState) : List PtEntry → Except Panic VmState
  | [] => .ok s
  | q :: qs =>
    match ptDestroyEntry s q with
    | .error p => .error p
    | .ok s => ptDestroy s qs

/-- The first `n` rounds of the TLB loop of `as_destroy` (`vm.c:457-458`). -/
def tlbInvalidateAll (s : VmState) : Nat → VmState
  | 0 => s
  | i + 1 => tlbWrite (tlbInvalidateAll s i) (tlbhiInvalid i) tlbloInvalid i

/-- `as_destroy` (`vm.c:439-462`). -/
def asDestroy (s : VmState) (as : AddrSpace) : Except Panic VmState :=
  if as.regions = [] then .error .noFirstRegion
  else
    match ptDestroy s as.pt.entries with
    | .error p => .error p
    | .ok s => .ok (tlbInvalidateAll s numTlb)

/-! ## What `as_destroy` has done -/

/-- The frame of an entry, if it is resident. -/
def PtEntry.frames (e : PtEntry) : List Nat := if e.swapped then [] else [e.ppageIndex]

/-- The frames a page table holds. -/
def framesOf (es : List PtEntry) : List Nat := es.flatMap PtEntry.frames

theorem mem_framesOf {es : List PtEntry} {f : Nat} :
    f ∈ framesOf es ↔ ∃ e ∈ es, e.swapped = false ∧ e.ppageIndex = f := by
  unfold framesOf PtEntry.frames
  grind

/-- The number of occupied slots of the swap file. -/
def occupied (s : VmState) : Nat := (List.range swapSlots).countP fun i => !s.swaptable i

theorem swapUnmark_ok {s s' : VmState} {index : Nat} (h : swapUnmark s index = .ok s') :
    s.swaptable index = false ∧
      s' = { s with swaptable := update s.swaptable index true } := by
  unfold swapUnmark at h
  grind

theorem freeuserppage_ok {s s' : VmState} {f : Nat} (h : freeuserppage s (f * pageSize) = .ok s') :
    (s.coremap f).status ≠ .fixed ∧ s' = s.modifyFrame f fun _ =>
      { status := .free, paddr := 0, vaddr := 0, size := 0 } := by
  unfold freeuserppage at h
  grind

/-- The state after the slots and the frames of a page table were released. -/
def unmapped (s : VmState) (es : List PtEntry) : VmState :=
  { s with
    coremap := fun f =>
      if f ∈ framesOf es then { status := .free, paddr := 0, vaddr := 0, size := 0 }
      else s.coremap f
    swaptable := fun i => if i ∈ slotsOf es then true else s.swaptable i }

/-- `pt_destroy` empties the slots of the page table, each of which was occupied, and frees its
frames, none of which was the kernel's; nothing else changes. -/
theorem ptDestroy_ok : ∀ {es : List PtEntry} {s s' : VmState}, ptDestroy s es = .ok s' →
    s' = unmapped s es ∧ (∀ i ∈ slotsOf es, s.swaptable i = false) ∧
    (∀ f ∈ framesOf es, (s.coremap f).status ≠ .fixed) ∧
    ((∀ i ∈ slotsOf es, i < swapSlots) → occupied s = occupied s' + (slotsOf es).length)
  | [], s, s', h => by
    rw [ptDestroy, Except.ok.injEq] at h
    subst h
    simp [unmapped, framesOf, slotsOf]
  | q :: qs, s, s', h => by
    rw [ptDestroy] at h
    split at h
    · cases h
    · rename_i s₁ hq
      obtain ⟨hs', hfull, hfix, hocc⟩ := ptDestroy_ok h
      unfold ptDestroyEntry at hq
      split at hq
      · rename_i hsw
        obtain ⟨hq0, rfl⟩ := swapUnmark_ok hq
        have hslots : slotsOf (q :: qs) = q.swapIndex :: slotsOf qs := by
          simp [slotsOf, PtEntry.slots, hsw]
        have hframes : framesOf (q :: qs) = framesOf qs := by
          simp [framesOf, PtEntry.frames, hsw]
        rw [unmapped, hslots, hframes]
        refine ⟨?_, fun i hi => ?_, hfix, fun hlt => ?_⟩
        · rw [hs', unmapped]
          congr 1
          funext i
          simp only [List.mem_cons, update_apply]
          split_ifs <;> simp_all
        · rcases List.mem_cons.mp hi with rfl | hi
          · exact hq0
          · have := hfull i hi
            simp only [update_apply] at this
            split_ifs at this
            exact this
        · have h1 := hocc fun i hi => hlt i (List.mem_cons_of_mem _ hi)
          have h2 := countP_update_true (hlt _ List.mem_cons_self) hq0
          simp only [occupied, List.length_cons] at *
          omega
      · rename_i hsw
        obtain ⟨hq0, rfl⟩ := freeuserppage_ok hq
        have hslots : slotsOf (q :: qs) = slotsOf qs := by
          simp [slotsOf, PtEntry.slots, hsw]
        have hframes : framesOf (q :: qs) = q.ppageIndex :: framesOf qs := by
          simp [framesOf, PtEntry.frames, hsw]
        rw [unmapped, hslots, hframes]
        refine ⟨?_, hfull, fun f hf => ?_, hocc⟩
        · rw [hs', unmapped]
          congr 1
          funext f
          rw [VmState.modifyFrame_coremap]
          simp only [List.mem_cons]
          split_ifs <;> simp_all
        · rcases List.mem_cons.mp hf with rfl | hf
          · exact hq0
          · have := hfix f hf
            rw [VmState.modifyFrame_coremap] at this
            split_ifs at this with he
            · rw [he]; exact hq0
            · exact this

theorem tlbInvalidateAll_eq (s : VmState) (n : Nat) : tlbInvalidateAll s n =
    { s with tlb := fun i => if i < n then ⟨tlbhiInvalid i, tlbloInvalid⟩ else s.tlb i } := by
  induction n with
  | zero => simp [tlbInvalidateAll]
  | succ n ih =>
    rw [tlbInvalidateAll, ih, tlbWrite]
    congr 1
    grind

/-- **What an `as_destroy` that returned has done.** -/
theorem asDestroy_ok {s s' : VmState} {as : AddrSpace} (h : asDestroy s as = .ok s') :
    ∃ tlb, s' = { unmapped s as.pt.entries with tlb := tlb } ∧
      (∀ i < numTlb, (tlb i).valid = false) ∧
      (∀ i ∈ slotsOf as.pt.entries, s.swaptable i = false) ∧
      (∀ f ∈ framesOf as.pt.entries, (s.coremap f).status ≠ .fixed) ∧
      ((∀ i ∈ slotsOf as.pt.entries, i < swapSlots) →
        occupied s = occupied s' + (slotsOf as.pt.entries).length) := by
  unfold asDestroy at h
  split_ifs at h
  split at h
  · cases h
  · rename_i s₁ hs₁
    obtain ⟨rfl, hfull, hfix, hocc⟩ := ptDestroy_ok hs₁
    rw [tlbInvalidateAll_eq, Except.ok.injEq] at h
    refine ⟨_, h.symm, fun i hi => ?_, hfull, hfix, fun hlt => ?_⟩
    · simp only [if_pos hi]
      exact valid_invalid _
    · rw [hocc hlt, ← h]
      rfl

end OsPaging.Vm
