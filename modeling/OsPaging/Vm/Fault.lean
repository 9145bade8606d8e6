import OsPaging.Vm.Frames

/-!
# Page faults

`pt_add` of `kern/vm/pt.c` and `vm_fault` of `vm.c`. The body of `vm_fault` after its checks has
three branches: a page without an entry (`faultFresh`), a page in the swap file (`faultSwapped`)
and a resident page (`faultReload`); all three end in the TLB load.

`pt_add` calls `kmalloc` between the taking of the frame and the linking of the entry, and
`kmalloc` may need pages of its own (a page of blocks, and a page of page references): `kpages`
is the number of `alloc_kpages(1)` calls it makes, and the addresses they return are part of the
result. What the kernel stores in its pages is a step of its own (`System.lean`).

`vmFault_ok` says what a fault that returned has done.
-/

namespace OsPaging.Vm

open OsPaging.Lib Function

variable {s s' : VmState} {faultpage f err : Nat} {addrs : List Nat}

/-! ## `pt_add` -/

/-- The pages `kmalloc` gets for itself, one call of `alloc_kpages(1)` after another. -/
def kmallocPages (s : VmState) : Nat → Except Panic (List Nat × VmState)
  | 0 => .ok ([], s)
  | k + 1 =>
    match kmallocPages s k with
    | .error p => .error p
    | .ok (addrs, s) =>
      match allocKpages s 1 with
      | .error p => .error p
      | .ok (addr, s) => if addr = 0 then .error .noMemory else .ok (addrs ++ [addr], s)

/-- The writes of `pt_add` after its `kmalloc`: the coremap's `vaddr`, and the new entry at the
head of the list. -/
def linkEntry (s : VmState) (ppindex vaddr : Nat) : VmState :=
  let s := s.modifyFrame ppindex fun c => { c with vaddr := pageFrame vaddr }
  s.modifyPt fun pt =>
    { entries := { vaddr := pageFrame vaddr, ppageIndex := ppindex, swapped := false,
                   swapIndex := 0 } :: pt.entries
      npages := pt.npages + 1 }

/-- `pt_add` (`pt.c:35-55`); the `int` it returns is never `-1`. -/
def ptAdd (s : VmState) (paddr vaddr kpages : Nat) : Except Panic (List Nat × VmState) :=
  match kmallocPages s kpages with
  | .error p => .error p
  | .ok (addrs, s) => .ok (addrs, linkEntry s (paddr / pageSize) vaddr)

/-! ## `vm_fault` -/

/-- The test of the region loop (`vm.c:171-173`). The bound `vtop` is included. -/
def Region.admits (r : Region) (faultaddress : Nat) : Bool :=
  decide (r.start ≤ faultaddress ∧ faultaddress ≤ (r.start + r.npages * pageSize) % wordSize)

abbrev stackBase : Nat := userSpaceTop - dumbvmStackPages * pageSize

/-- `valid` (`vm.c:167-182`): in a region or on the stack, both with the upper bound included. -/
def AddrSpace.validAddress (as : AddrSpace) (faultaddress : Nat) : Bool :=
  as.regions.any (·.admits faultaddress) ||
    decide (stackBase ≤ faultaddress ∧ faultaddress ≤ userSpaceTop)

/-- The alignment assertion and the TLB load that end `vm_fault`. -/
def faultLoad (s : VmState) (faultpage paddr : Nat) (addrs : List Nat) :
    Except Panic (Nat × List Nat × VmState) :=
  if pageFrame paddr ≠ paddr then .error .unaligned
  else .ok (0, addrs, tlbLoad s faultpage paddr)

/-- `coremap[index].vaddr = faultpage`. -/
def placePage (s : VmState) (index faultpage : Nat) : VmState :=
  s.modifyFrame index fun c => { c with vaddr := faultpage }

/-- The counters of the fresh-page branch. -/
def Stats.fresh (st : Stats) : Stats :=
  { st with
    tlbFaults := st.tlbFaults + 1
    pageFaultsDisk := st.pageFaultsDisk + 1
    pageFaultsElf := st.pageFaultsElf + 1 }

/-- The counters of the swap-in branch. -/
def Stats.swapin (st : Stats) : Stats :=
  { st with
    tlbFaults := st.tlbFaults + 1
    pageFaultsDisk := st.pageFaultsDisk + 1
    pageFaultsSwapfile := st.pageFaultsSwapfile + 1 }

/-- The counters of the resident branch. -/
def Stats.reload (st : Stats) : Stats :=
  { st with tlbFaults := st.tlbFaults + 1, tlbReloads := st.tlbReloads + 1 }

/-- The page has no entry (`vm.c:195-210`). -/
def faultFresh (s : VmState) (faultpage kpages : Nat) :
    Except Panic (Nat × List Nat × VmState) :=
  match getuserppage s with
  | .error p => .error p
  | .ok (paddr, s) =>
    let s := placePage s (paddr / pageSize) faultpage
    if paddr = 0 then .error .paddrZero
    else
      match ptAdd s paddr faultpage kpages with
      | .error p => .error p
      | .ok (addrs, s) =>
        faultLoad { s with stats := s.stats.fresh } faultpage paddr addrs

/-- The page is in the swap file (`vm.c:212-225`). The entry is read through the pointer again
after `getuserppage`, which may have written it. -/
def faultSwapped (s : VmState) (faultpage : Nat) (pte : PtEntry) :
    Except Panic (Nat × List Nat × VmState) :=
  match getuserppage s with
  | .error p => .error p
  | .ok (paddr, s) =>
    let pte := (s.entries.find? (ptMatch faultpage)).getD pte
    match swapIn s pte.swapIndex paddr with
    | (false, _) => .error .swapInFailed
    | (true, s) =>
      let s := placePage s (paddr / pageSize) faultpage
      let s := s.modifyPt fun pt => pt.update faultpage fun e =>
        { e with ppageIndex := paddr / pageSize, swapped := false }
      faultLoad { s with stats := s.stats.swapin } faultpage paddr []

/-- The page is in memory (`vm.c:227-233`). -/
def faultReload (s : VmState) (faultpage : Nat) (pte : PtEntry) :
    Except Panic (Nat × List Nat × VmState) :=
  faultLoad { s with stats := s.stats.reload } faultpage (pte.ppageIndex * pageSize) []

/-- `vm_fault` (`vm.c:122-274`): the error code, and the pages `kmalloc` kept. -/
def vmFault (s : VmState) (faulttype faultaddress kpages : Nat) :
    Except Panic (Nat × List Nat × VmState) :=
  match s.as with
  | none => .ok (efault, [], s)
  | some as =>
    if faulttype = vmFaultReadonly then .error .readonlyFault
    else if faulttype ≠ vmFaultWrite ∧ faulttype ≠ vmFaultRead then .ok (einval, [], s)
    else if as.regions = [] then .error .noFirstRegion
    else if as.validAddress faultaddress = false then .ok (efault, [], s)
    else
      match ptSearch as.pt (pageFrame faultaddress) with
      | none => faultFresh s (pageFrame faultaddress) kpages
      | some pte =>
        if pte.swapped then faultSwapped s (pageFrame faultaddress) pte
        else faultReload s (pageFrame faultaddress) pte

/-! ## What a fault that returned has done -/

/-- Frame `f` as `vm_fault` leaves it in the coremap: it holds the user page at `vaddr`. -/
def userPage (s : VmState) (f vaddr : Nat) : VmState :=
  s.modifyFrame f fun _ => { status := .dirty, paddr := f * pageSize, vaddr := vaddr, size := 1 }

theorem placePage_userFrame (s : VmState) (f vaddr : Nat) :
    placePage (userFrame s f) f vaddr = userPage s f vaddr := by
  simp only [placePage, userFrame, userPage, VmState.modifyFrame, update_idem, update_self]

/-- The page at `vaddr` moved from slot `index` to frame `f`. -/
def pagedIn (s : VmState) (f vaddr index : Nat) : VmState :=
  { userPage s f vaddr with
    nvop := s.nvop + 1
    ram := blit s.ram (f * pageSize) s.swapspace (index * pageSize) pageSize
    swaptable := update s.swaptable index true
    as := s.as.map fun as => { as with pt := as.pt.update vaddr fun e =>
      { e with ppageIndex := f, swapped := false } } }

/-- The three ways `vm_fault` succeeds on `faultpage`. -/
inductive Faulted (s : VmState) (faultpage kpages : Nat) : List Nat → VmState → Prop
  | fresh {f : Nat} {addrs : List Nat} {s₁ s₂ : VmState} :
      s.entries.find? (ptMatch faultpage) = none →
      getuserppage s = .ok (f * pageSize, userFrame s₁ f) → FrameTaken s f s₁ →
      kmallocPages (userPage s₁ f faultpage) kpages = .ok (addrs, s₂) →
      Faulted s faultpage kpages addrs
        (tlbLoad { linkEntry s₂ f faultpage with stats := s₂.stats.fresh } faultpage
          (f * pageSize))
  | swapin {f : Nat} {e e₁ : PtEntry} {s₁ : VmState} :
      s.entries.find? (ptMatch faultpage) = some e → e.swapped = true → FrameTaken s f s₁ →
      s₁.entries.find? (ptMatch faultpage) = some e₁ → e₁.swapped = true →
      Faulted s faultpage kpages []
        (tlbLoad { pagedIn s₁ f faultpage e₁.swapIndex with stats := s₁.stats.swapin } faultpage
          (f * pageSize))
  | reload {e : PtEntry} :
      s.entries.find? (ptMatch faultpage) = some e → e.swapped = false →
      Faulted s faultpage kpages []
        (tlbLoad { s with stats := s.stats.reload } faultpage (e.ppageIndex * pageSize))

theorem faultLoad_ok {addrs' : List Nat}
    (h : faultLoad s faultpage (f * pageSize) addrs = .ok (err, addrs', s')) :
    err = 0 ∧ addrs' = addrs ∧ s' = tlbLoad s faultpage (f * pageSize) := by
  unfold faultLoad at h
  grind

/-- The running process's page is still in the swap file after a frame was taken. -/
theorem FrameTaken.find_swapped {s₁ : VmState} {vaddr : Nat} {e : PtEntry} (h : FrameTaken s f s₁)
    (he : s.entries.find? (ptMatch vaddr) = some e) (hs : e.swapped = true) :
    ∃ e₁, s₁.entries.find? (ptMatch vaddr) = some e₁ ∧ e₁.swapped = true := by
  obtain ⟨-, -, ⟨-, rfl⟩ | ⟨-, -, hout⟩⟩ := h
  · exact ⟨e, he, hs⟩
  · obtain ⟨_, x, index, -, -, -, -, -, -, -, rfl⟩ := swapOutVictim_ok hout
    rw [swappedOut_entries]
    obtain ⟨y, hy, rfl | rfl⟩ := find_modifyFirst (p := ptMatch x.vaddr)
      (g := fun e => { e with swapIndex := index, swapped := true }) (fun z => ptMatch_keep
        (g := fun e => { e with swapIndex := index, swapped := true }) (fun _ => rfl) z) he
    · exact ⟨y, hy, hs⟩
    · exact ⟨_, hy, rfl⟩

/-- A page without an entry still has none after a frame was taken. -/
theorem FrameTaken.find_none {s₁ : VmState} {vaddr : Nat} (h : FrameTaken s f s₁)
    (hn : s.entries.find? (ptMatch vaddr) = none) :
    s₁.entries.find? (ptMatch vaddr) = none := by
  obtain ⟨-, -, ⟨-, rfl⟩ | ⟨-, -, hout⟩⟩ := h
  · exact hn
  · obtain ⟨_, x, index, -, -, -, -, -, -, -, rfl⟩ := swapOutVictim_ok hout
    rw [swappedOut_entries]
    exact find_modifyFirst_none (fun z => ptMatch_keep
      (g := fun e => { e with swapIndex := index, swapped := true }) (fun _ => rfl) z) hn

theorem faultFresh_ok {kpages : Nat} (hp : VictimPtr s)
    (hnone : s.entries.find? (ptMatch faultpage) = none)
    (h : faultFresh s faultpage kpages = .ok (err, addrs, s')) :
    err = 0 ∧ Faulted s faultpage kpages addrs s' := by
  unfold faultFresh at h
  split at h
  · cases h
  · rename_i paddr su hu
    obtain ⟨f, s₁, rfl, rfl, ht⟩ := getuserppage_ok hp hu
    rw [Nat.mul_div_cancel f (by decide), placePage_userFrame] at h
    simp only [ptAdd] at h
    split at h
    · cases h
    · split at h
      · cases h
      · rename_i addrs' su' hadd
        split at hadd
        · cases hadd
        · rename_i ks s₂ hk
          simp only [Except.ok.injEq, Prod.mk.injEq] at hadd
          obtain ⟨rfl, rfl⟩ := hadd
          obtain ⟨rfl, rfl, rfl⟩ := faultLoad_ok h
          rw [Nat.mul_div_cancel f (by decide)]
          exact ⟨rfl, .fresh hnone hu ht hk⟩

theorem faultSwapped_ok {e : PtEntry} (kpages : Nat) (hp : VictimPtr s)
    (he : s.entries.find? (ptMatch faultpage) = some e) (hs : e.swapped = true)
    (h : faultSwapped s faultpage e = .ok (err, addrs, s')) :
    err = 0 ∧ Faulted s faultpage kpages addrs s' := by
  unfold faultSwapped at h
  split at h
  · cases h
  · rename_i paddr su hu
    obtain ⟨f, s₁, rfl, rfl, ht⟩ := getuserppage_ok hp hu
    obtain ⟨e₁, he₁, hs₁⟩ := ht.find_swapped he hs
    have hfind : (userFrame s₁ f).entries.find? (ptMatch faultpage) = some e₁ := he₁
    simp only [hfind, Option.getD_some] at h
    split at h
    · cases h
    · rename_i sl hin
      obtain rfl := swapIn_ok hin
      rw [Nat.mul_div_cancel f (by decide)] at h
      obtain ⟨rfl, rfl, rfl⟩ := faultLoad_ok h
      refine ⟨rfl, ?_⟩
      have : Faulted s faultpage kpages [] _ := .swapin he hs ht he₁ hs₁
      rw [pagedIn, ← placePage_userFrame] at this
      exact this

/-- What a `vm_fault` that returned has done. -/
theorem vmFault_ok {faulttype faultaddress kpages : Nat} (hp : VictimPtr s)
    (h : vmFault s faulttype faultaddress kpages = .ok (err, addrs, s')) :
    err ≠ 0 ∧ addrs = [] ∧ s' = s ∨
      err = 0 ∧ (∃ as, s.as = some as ∧ as.validAddress faultaddress = true) ∧
        Faulted s (pageFrame faultaddress) kpages addrs s' := by
  unfold vmFault at h
  have herr : ∀ {n : Nat}, n ≠ 0 → Except.ok (ε := Panic) (n, ([] : List Nat), s) =
      .ok (err, addrs, s') → err ≠ 0 ∧ addrs = [] ∧ s' = s := by
    grind
  split at h
  · exact Or.inl (herr (by decide) h)
  · rename_i as has
    split_ifs at h with h1 h2 h3 h4
    · exact Or.inl (herr (by decide) h)
    · exact Or.inl (herr (by decide) h)
    · right
      have hent : as.pt.entries = s.entries := by simp [VmState.entries, has]
      rw [Bool.not_eq_false] at h4
      rw [ptSearch, hent] at h
      split at h
      · rename_i hnone
        obtain ⟨he, hf⟩ := faultFresh_ok hp hnone h
        exact ⟨he, ⟨as, has, h4⟩, hf⟩
      · rename_i e he
        split at h
        · rename_i hs
          obtain ⟨h0, hf⟩ := faultSwapped_ok kpages hp he hs h
          exact ⟨h0, ⟨as, has, h4⟩, hf⟩
        · rename_i hs
          obtain ⟨rfl, rfl, rfl⟩ := faultLoad_ok h
          exact ⟨rfl, ⟨as, has, h4⟩, .reload he (by simpa using hs)⟩

end OsPaging.Vm
