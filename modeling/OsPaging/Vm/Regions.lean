import OsPaging.Vm.Processes

/-!
# Regions, and the faults they admit

`as_define_region` rounds the range of a program header to pages, and `vm_fault` looks the fault
address up in the regions and on the stack.

* The two additions of `as_define_region` are 32-bit (`as_define_region_covers_iff`).
* `vm_fault` tests `faultaddress <= vtop` and `faultaddress <= stacktop`, so the first address
  after a region or after the stack is admitted (`AtEnd`), and a region that ends at `2 ^ 32` has
  `vtop == 0` and admits nothing. It fails an assertion if there is no region.
  `vm_fault_admits_iff` says for which addresses it is right, and that in a run whose faults are
  all of that kind every page with an entry is in a region or on the stack.
-/

namespace OsPaging.Vm

open OsPaging.Lib

variable {addr faultaddress : Nat}

/-! ## `as_define_region` -/

abbrev enomem : Nat := 3

/-- `as_define_region` (`vm.c:482-525`) with the result of its `kmalloc`: the error code and the
address space. Both branches return `ENOMEM` before they write to the list. -/
def asDefineRegionWith (as : AddrSpace) (vaddr sz : Nat) (kmalloc : Bool) : Nat × AddrSpace :=
  if kmalloc then (0, asDefineRegion as vaddr sz) else (enomem, as)

/-- The end of the region's pages, without wrapping. -/
def Region.stop (r : Region) : Nat := r.start + r.npages * pageSize

/-- `[r.start, r.stop)` is the smallest page interval that contains `[vaddr, vaddr + sz)`; for an
empty range, that contains its two ends. -/
structure Region.Covers (r : Region) (vaddr sz : Nat) : Prop where
  aligned : r.start % pageSize = 0
  start_le : r.start ≤ vaddr
  le_stop : vaddr + sz ≤ r.stop
  least : ∀ a b, a % pageSize = 0 → b % pageSize = 0 → a ≤ vaddr → vaddr + sz ≤ b →
    a ≤ r.start ∧ r.stop ≤ b

/-- For a range that is not empty, as sets of addresses. -/
theorem Region.covers_iff_sets {r : Region} {vaddr sz : Nat} (hsz : 0 < sz)
    (ha : r.start % pageSize = 0) :
    r.Covers vaddr sz ↔ (∀ x, vaddr ≤ x → x < vaddr + sz → r.start ≤ x ∧ x < r.stop) ∧
      ∀ a b, a % pageSize = 0 → b % pageSize = 0 →
        (∀ x, vaddr ≤ x → x < vaddr + sz → a ≤ x ∧ x < b) →
          ∀ x, r.start ≤ x → x < r.stop → a ≤ x ∧ x < b := by
  constructor
  · rintro ⟨-, h1, h2, hleast⟩
    refine ⟨fun x _ _ => ⟨by omega, by omega⟩, fun a b ha hb hin x _ _ => ?_⟩
    obtain ⟨hav, -⟩ := hin vaddr (le_refl _) (by omega)
    obtain ⟨-, hvb⟩ := hin (vaddr + sz - 1) (by omega) (by omega)
    obtain ⟨h3, h4⟩ := hleast a b ha hb hav (by omega)
    exact ⟨by omega, by omega⟩
  · rintro ⟨hin, hleast⟩
    obtain ⟨h1, h1'⟩ := hin vaddr (le_refl _) (by omega)
    obtain ⟨-, h2⟩ := hin (vaddr + sz - 1) (by omega) (by omega)
    refine ⟨ha, h1, by omega, fun a b ha hb hav hvb => ?_⟩
    have hsub := hleast a b ha hb fun x _ _ => ⟨by omega, by omega⟩
    grind

/-- What `as_define_region` is for: an error and the list as it was, or one more region that
covers the range. -/
def DefinesRegion (as : AddrSpace) (vaddr sz : Nat) (result : Nat × AddrSpace) : Prop :=
  result.1 ≠ 0 ∧ result.2 = as ∨
    result.1 = 0 ∧ ∃ r, result.2 = { as with regions := as.regions ++ [r] } ∧ r.Covers vaddr sz

/-- The region that `as_define_region` appends. -/
def newRegion (vaddr sz : Nat) : Region :=
  let size := pageFrame (((sz + vaddr % pageSize) % wordSize + pageSize - 1) % wordSize)
  { start := pageFrame vaddr, size := size, npages := size / pageSize }

theorem asDefineRegion_eq (as : AddrSpace) (vaddr sz : Nat) :
    asDefineRegion as vaddr sz = { as with regions := as.regions ++ [newRegion vaddr sz] } := rfl

theorem newRegion_covers_iff {vaddr sz : Nat} :
    (newRegion vaddr sz).Covers vaddr sz ↔
      vaddr % pageSize + sz + (pageSize - 1) < wordSize := by
  constructor
  · rintro ⟨-, -, hstop, -⟩
    -- the size is below `2 ^ 32`, the range rounded up is not
    by_contra hwrap
    simp only [Region.stop, newRegion, pageFrame, pageSize, wordSize] at hstop hwrap
    omega
  · intro h
    simp only [pageSize, wordSize] at h
    refine ⟨?_, ?_, ?_, fun a b ha hb hav hvb => ⟨?_, ?_⟩⟩ <;>
      simp only [Region.stop, newRegion, pageFrame, pageSize, wordSize] at * <;> omega

/-- **What `as_define_region` covers**: it does what it is for exactly if `kmalloc` fails or no
addition wraps. -/
theorem as_define_region_covers_iff (as : AddrSpace) (vaddr sz : Nat) (kmalloc : Bool) :
    DefinesRegion as vaddr sz (asDefineRegionWith as vaddr sz kmalloc) ↔
      kmalloc = false ∨ vaddr % pageSize + sz + (pageSize - 1) < wordSize := by
  cases kmalloc with
  | false =>
    refine ⟨fun _ => Or.inl rfl, fun _ => Or.inl ⟨?_, rfl⟩⟩
    simp [asDefineRegionWith]
  | true =>
    rw [← newRegion_covers_iff, DefinesRegion, asDefineRegionWith, if_pos rfl, asDefineRegion_eq]
    constructor
    · rintro (⟨h, -⟩ | ⟨-, r, hr, hcov⟩)
      · exact absurd rfl h
      · have hlist : as.regions ++ [newRegion vaddr sz] = as.regions ++ [r] :=
          congrArg AddrSpace.regions hr
        obtain rfl : newRegion vaddr sz = r := by simpa using hlist
        exact Or.inr hcov
    · grind

/-- A header with `p_vaddr = 0x400000` and `p_memsz = 0xfffff001` is given a region without
pages. -/
theorem region_without_pages :
    asDefineRegionWith asCreate 0x400000 0xfffff001 true =
        (0, { asCreate with regions := [⟨0x400000, 0, 0⟩] }) ∧
      ¬ DefinesRegion asCreate 0x400000 0xfffff001
        (asDefineRegionWith asCreate 0x400000 0xfffff001 true) := by
  refine ⟨by decide, ?_⟩
  rintro (⟨h, -⟩ | ⟨-, r, hr, hcov⟩)
  · exact h rfl
  · have hlist : [(⟨0x400000, 0, 0⟩ : Region)] = [r] := congrArg AddrSpace.regions hr
    obtain rfl : (⟨0x400000, 0, 0⟩ : Region) = r := by simpa using hlist
    exact absurd hcov.le_stop (by decide)

/-! ## The checks of `vm_fault` -/

/-- `[r.start, r.stop)` contains the address. -/
def Region.Spans (r : Region) (addr : Nat) : Prop := r.start ≤ addr ∧ addr < r.stop

/-- The address is in a region, or in the stack pages below `USERSTACK`. -/
def AddrSpace.Mapped (as : AddrSpace) (addr : Nat) : Prop :=
  (∃ r ∈ as.regions, r.Spans addr) ∨ stackBase ≤ addr ∧ addr < userSpaceTop

/-- The address is the first one after a region, or `USERSTACK`. -/
def AddrSpace.AtEnd (as : AddrSpace) (addr : Nat) : Prop :=
  (∃ r ∈ as.regions, addr = r.stop) ∨ addr = userSpaceTop

/-- The address is in a region whose end `vtop` can hold, or on the stack. -/
def AddrSpace.Reached (as : AddrSpace) (addr : Nat) : Prop :=
  (∃ r ∈ as.regions, r.Spans addr ∧ r.stop < wordSize) ∨ stackBase ≤ addr ∧ addr < userSpaceTop

instance (as : AddrSpace) (addr : Nat) : Decidable (as.Mapped addr) :=
  inferInstanceAs (Decidable ((∃ r ∈ as.regions, r.start ≤ addr ∧ addr < r.stop) ∨
    stackBase ≤ addr ∧ addr < userSpaceTop))

instance (as : AddrSpace) (addr : Nat) : Decidable (as.AtEnd addr) :=
  inferInstanceAs (Decidable ((∃ r ∈ as.regions, addr = r.stop) ∨ addr = userSpaceTop))

instance (as : AddrSpace) (addr : Nat) : Decidable (as.Reached addr) :=
  inferInstanceAs (Decidable ((∃ r ∈ as.regions,
    (r.start ≤ addr ∧ addr < r.stop) ∧ r.stop < wordSize) ∨
      stackBase ≤ addr ∧ addr < userSpaceTop))

/-- The region lies in the 32-bit address space. -/
structure Region.Fits (r : Region) : Prop where
  size : r.npages * pageSize < wordSize
  stop : r.stop ≤ wordSize

/-- What `vm_fault` does before it looks for the page (`vm.c:150-182`, and the test of `as`): a
failed check, an error code, or nothing. -/
def faultCheck (s : VmState) (faulttype faultaddress : Nat) : Except Panic (Option Nat) :=
  match s.as with
  | none => .ok (some efault)
  | some as =>
    if faulttype = vmFaultReadonly then .error .readonlyFault
    else if faulttype ≠ vmFaultWrite ∧ faulttype ≠ vmFaultRead then .ok (some einval)
    else if as.regions = [] then .error .noFirstRegion
    else if as.validAddress faultaddress = false then .ok (some efault)
    else .ok none

/-- The rest of `vm_fault`, for an address it has admitted. -/
def faultServe (s : VmState) (faultaddress kpages : Nat) :
    Except Panic (Nat × List Nat × VmState) :=
  match s.entries.find? (ptMatch (pageFrame faultaddress)) with
  | none => faultFresh s (pageFrame faultaddress) kpages
  | some pte =>
    if pte.swapped then faultSwapped s (pageFrame faultaddress) pte
    else faultReload s (pageFrame faultaddress) pte

/-- `vm_fault` makes its checks first; an error code is returned with nothing changed. -/
theorem vmFault_eq_check (s : VmState) (faulttype faultaddress kpages : Nat) :
    vmFault s faulttype faultaddress kpages =
      match faultCheck s faulttype faultaddress with
      | .error p => .error p
      | .ok (some err) => .ok (err, [], s)
      | .ok none => faultServe s faultaddress kpages := by
  unfold vmFault faultCheck faultServe
  cases has : s.as with
  | none => rfl
  | some as =>
    have hent : s.entries = as.pt.entries := by simp [VmState.entries, has]
    simp only [ptSearch, hent]
    split_ifs <;> rfl

/-- The loop over the regions and the test of the stack: besides the addresses reached, those at
an end. -/
theorem validAddress_iff {as : AddrSpace} (hfit : ∀ r ∈ as.regions, r.Fits)
    (haddr : addr < wordSize) :
    as.validAddress addr = true ↔ as.Reached addr ∨ as.AtEnd addr := by
  have hregion : ∀ r ∈ as.regions, r.admits addr = true ↔
      r.Spans addr ∧ r.stop < wordSize ∨ addr = r.stop := by
    intro r hr
    obtain ⟨hsize, hstop⟩ := hfit r hr
    unfold Region.admits Region.Spans Region.stop at *
    grind
  unfold AddrSpace.validAddress AddrSpace.Reached AddrSpace.AtEnd
  grind

/-- What is admitted is mapped or at an end, whatever the regions are. -/
theorem mapped_of_validAddress {as : AddrSpace} (h : as.validAddress addr = true) :
    as.Mapped addr ∨ as.AtEnd addr := by
  unfold AddrSpace.validAddress at h
  rw [Bool.or_eq_true, List.any_eq_true, decide_eq_true_eq] at h
  rcases h with ⟨r, hr, hadm⟩ | ⟨h1, h2⟩
  · have hcase : r.Spans addr ∨ addr = r.stop := by
      unfold Region.admits at hadm
      unfold Region.Spans Region.stop
      grind
    rcases hcase with h | h
    · exact Or.inl (Or.inl ⟨r, hr, h⟩)
    · exact Or.inr (Or.inl ⟨r, hr, h⟩)
  · rcases Nat.lt_or_eq_of_le h2 with hlt | heq
    · exact Or.inl (Or.inr ⟨h1, hlt⟩)
    · exact Or.inr (Or.inr heq)

theorem AddrSpace.Reached.mapped {as : AddrSpace} (h : as.Reached addr) : as.Mapped addr := by
  rcases h with ⟨r, hr, h, -⟩ | h
  · exact Or.inl ⟨r, hr, h⟩
  · exact Or.inr h

/-- What the checks are for: they let exactly the mapped addresses through, and any other address
is answered by `EFAULT` with nothing changed. -/
def AdmitsExactly (s : VmState) (as : AddrSpace) (faulttype faultaddress kpages : Nat) : Prop :=
  (as.Mapped faultaddress → faultCheck s faulttype faultaddress = .ok none) ∧
    (¬ as.Mapped faultaddress → vmFault s faulttype faultaddress kpages = .ok (efault, [], s))

/-- There is a region; an end of a region or of the stack is mapped by something else; and an
address of a region that ends at `2 ^ 32` is reached by something else. -/
structure AddressOk (as : AddrSpace) (addr : Nat) : Prop where
  regions : as.regions ≠ []
  ends : as.AtEnd addr → as.Mapped addr
  reached : as.Mapped addr → as.Reached addr ∨ as.AtEnd addr

instance (as : AddrSpace) (addr : Nat) : Decidable (AddressOk as addr) :=
  decidable_of_iff (as.regions ≠ [] ∧ (as.AtEnd addr → as.Mapped addr) ∧
      (as.Mapped addr → as.Reached addr ∨ as.AtEnd addr))
    ⟨fun h => ⟨h.1, h.2.1, h.2.2⟩, fun h => ⟨h.regions, h.ends, h.reached⟩⟩

/-- Past the checks no error code is returned. -/
theorem faultServe_err {s s' : VmState} {kpages err : Nat} {addrs : List Nat}
    (h : faultServe s faultaddress kpages = .ok (err, addrs, s')) : err = 0 := by
  have hload : ∀ {t : VmState} {page paddr : Nat} {l : List Nat},
      faultLoad t page paddr l = .ok (err, addrs, s') → err = 0 := by
    intro t page paddr l hl
    unfold faultLoad at hl
    grind
  unfold faultServe at h
  split at h
  · unfold faultFresh at h
    grind
  · split at h
    · unfold faultSwapped at h
      grind
    · exact hload h

section Checked

variable {s : VmState} {as : AddrSpace} {faulttype : Nat}

theorem faultCheck_access (has : s.as = some as)
    (hty : faulttype = vmFaultRead ∨ faulttype = vmFaultWrite) (faultaddress : Nat) :
    faultCheck s faulttype faultaddress =
      if as.regions = [] then .error .noFirstRegion
      else if as.validAddress faultaddress = false then .ok (some efault)
      else .ok none := by
  unfold faultCheck
  rw [has]
  rcases hty with rfl | rfl <;> rfl

theorem admitsExactly_iff (has : s.as = some as)
    (hty : faulttype = vmFaultRead ∨ faulttype = vmFaultWrite) (hfit : ∀ r ∈ as.regions, r.Fits)
    (haddr : faultaddress < wordSize) (kpages : Nat) :
    AdmitsExactly s as faulttype faultaddress kpages ↔ AddressOk as faultaddress := by
  have hcheck := faultCheck_access has hty faultaddress
  have hvalid := validAddress_iff hfit haddr
  unfold AdmitsExactly
  rw [vmFault_eq_check, hcheck]
  by_cases hreg : as.regions = []
  · simp only [hreg, if_true]
    refine ⟨fun ⟨h1, h2⟩ => ?_, fun h => absurd hreg h.regions⟩
    grind
  · simp only [if_neg hreg]
    by_cases hv : as.validAddress faultaddress = true
    · simp only [hv, Bool.true_eq_false, if_false]
      constructor
      · rintro ⟨-, h2⟩
        refine ⟨hreg, fun _ => ?_, fun _ => hvalid.mp hv⟩
        by_contra hm
        exact absurd (faultServe_err (h2 hm)) (by decide)
      · intro h
        refine ⟨fun _ => trivial, fun hm => absurd ?_ hm⟩
        exact (hvalid.mp hv).elim AddrSpace.Reached.mapped h.ends
    · rw [Bool.not_eq_true] at hv
      have hnot : ¬ (as.Reached faultaddress ∨ as.AtEnd faultaddress) := by
        rw [← hvalid, hv]
        simp
      simp only [hv, if_true]
      constructor
      · rintro ⟨h1, -⟩
        refine ⟨hreg, fun h => absurd (Or.inr h) hnot, fun hm => ?_⟩
        exact absurd (h1 hm) (by simp)
      · intro h
        exact ⟨fun hm => absurd (h.reached hm) hnot, fun _ => trivial⟩

end Checked

/-! ## The pages that get an entry -/

/-- Every page with an entry has a mapped address in it. -/
def AddrSpace.PagesMapped (as : AddrSpace) : Prop :=
  ∀ e ∈ as.pt.entries, ∃ addr, pageFrame addr = e.vaddr ∧ as.Mapped addr

theorem AddrSpace.PagesMapped.of_vaddr {as as' : AddrSpace} (h : as.PagesMapped)
    (hr : ∀ r ∈ as.regions, r ∈ as'.regions)
    (he : ∀ e ∈ as'.pt.entries, e.vaddr ∈ as.pt.entries.map PtEntry.vaddr) : as'.PagesMapped := by
  intro e hmem
  obtain ⟨e₀, he₀, hv⟩ := List.mem_map.mp (he e hmem)
  obtain ⟨addr, haddr, hmap⟩ := h e₀ he₀
  refine ⟨addr, haddr.trans hv, ?_⟩
  rcases hmap with ⟨r, hmr, hspan⟩ | hst
  · exact Or.inl ⟨r, hr r hmr, hspan⟩
  · exact Or.inr hst

/-- The running process has these regions, and its pages are mapped. -/
def RunsMapped (regions : List Region) (s : VmState) : Prop :=
  ∃ as, s.as = some as ∧ as.regions = regions ∧ as.PagesMapped

namespace RunsMapped

variable {regions : List Region} {s t s₁ : VmState} {f vaddr index : Nat}

theorem same (h : RunsMapped regions s) (ht : t.as = s.as) : RunsMapped regions t := by
  unfold RunsMapped
  rw [ht]
  exact h

/-- A write through a pointer that `pt_search` returned keeps the addresses. -/
theorem update (h : RunsMapped regions s) {g : PtEntry → PtEntry}
    (hg : ∀ e, (g e).vaddr = e.vaddr)
    (ht : t.as = s.as.map fun as => { as with pt := as.pt.update vaddr g }) :
    RunsMapped regions t := by
  obtain ⟨as, has, hreg, hm⟩ := h
  rw [has] at ht
  refine ⟨_, ht, hreg, hm.of_vaddr (fun r hr => hr) fun e he => ?_⟩
  have hmap : (as.pt.update vaddr g).entries.map PtEntry.vaddr =
      as.pt.entries.map PtEntry.vaddr := map_modifyFirst hg
  rw [← hmap]
  exact List.mem_map_of_mem he

theorem swapOutVictim {victim : Int} (h : RunsMapped regions s)
    (ho : Vm.swapOutVictim s victim = .ok t) : RunsMapped regions t := by
  obtain ⟨_, e, i, -, -, -, -, -, -, -, rfl⟩ := swapOutVictim_ok ho
  exact h.update (g := fun e => { e with swapIndex := i, swapped := true }) (fun _ => rfl) rfl

theorem stable (regions : List Region) : AllocStable (RunsMapped regions) :=
  ⟨fun h _ => h.same rfl, swapOutVictim, fun h _ _ => h.same rfl⟩

theorem faulted (h : RunsMapped regions s) (hs : Started s) {kpages : Nat} {addrs : List Nat}
    (hmap : ∀ as, s.as = some as → as.Mapped faultaddress)
    (hf : Faulted s (pageFrame faultaddress) kpages addrs t) : RunsMapped regions t := by
  have hin : ∀ as : AddrSpace, as.regions = regions → as.Mapped faultaddress := by
    intro as hreg
    obtain ⟨as₀, has₀, hreg₀, -⟩ := h
    have hm := hmap as₀ has₀
    unfold AddrSpace.Mapped at hm ⊢
    rw [hreg, ← hreg₀]
    exact hm
  cases hf with
  | @fresh f addrs s₁ s₂ _ _ ht hk =>
    have hpage := (hs.taken ht).modifyFrame f fun _ =>
      { status := .dirty, paddr := f * pageSize, vaddr := pageFrame faultaddress, size := 1 }
    obtain ⟨as, has, hreg, hm⟩ := (stable regions).kmallocPages hpage
      ((stable regions).modifyFrame ((stable regions).taken h ht) f _) hk
    refine RunsMapped.same (s := linkEntry s₂ f (pageFrame faultaddress)) ?_
      (sameTables_tlbLoad _ _ _ _).as
    refine ⟨{ as with pt := ⟨⟨pageFrame (pageFrame faultaddress), f, false, 0⟩ :: as.pt.entries,
      as.pt.npages + 1⟩ }, ?_, hreg, ?_⟩
    · change s₂.as.map _ = _
      rw [has]
      rfl
    refine List.forall_mem_cons.mpr ⟨⟨faultaddress, ?_, hin _ hreg⟩, hm⟩
    exact (pageFrame_of_aligned (pageFrame_aligned faultaddress)).symm
  | @swapin f e e₁ s₁ _ _ ht _ _ =>
    refine RunsMapped.same (s := Vm.pagedIn s₁ f (pageFrame faultaddress) e₁.swapIndex)
      ?_ (sameTables_tlbLoad _ _ _ _).as
    exact ((stable regions).taken h ht).update
      (g := fun e => { e with ppageIndex := f, swapped := false }) (fun _ => rfl) rfl
  | reload _ _ => exact h.same (sameTables_tlbLoad _ _ _ _).as

end RunsMapped

/-- Each fault is at an address on which the checks are right. -/
def FaultsOk (m : Machine) : Action → Prop
  | .run (.fault _ va _) => ∀ as ∈ m.vm.as, AddressOk as va
  | _ => True

instance (m : Machine) : ∀ a : Action, Decidable (FaultsOk m a)
  | .run (.fault _ va _) => inferInstanceAs (Decidable (∀ as ∈ m.vm.as, AddressOk as va))
  | .run (.load _ _) => .isTrue trivial
  | .run (.store _ _) => .isTrue trivial
  | .run (.kalloc _) => .isTrue trivial
  | .run (.kfree _) => .isTrue trivial
  | .run (.kwrite _ _) => .isTrue trivial
  | .switch _ => .isTrue trivial
  | .asCreate => .isTrue trivial
  | .asDefineRegion _ _ => .isTrue trivial
  | .asDestroy _ => .isTrue trivial

/-- Every process's pages are mapped. -/
structure AllMapped (m : Machine) : Prop where
  started : Started m.vm
  mapped : ∀ p ∈ m.spaces, p.2.PagesMapped

namespace AllMapped

variable {m m' : Machine}

theorem of_booted (h : m.Booted) : AllMapped m := by
  obtain ⟨⟨s₀, s, hp, hi, hvm⟩, -, hparked, -⟩ := h
  obtain ⟨hs, has, -⟩ := coremapInit_spec hp hi
  refine ⟨?_, fun p hmem => ?_⟩
  · rw [hvm]
    exact { hs with }
  · have hnone : m.vm.as = none := by rw [hvm]; exact has
    simp [Machine.spaces, hnone, hparked] at hmem

/-- An event changes the running process's pages only. -/
theorem run {e : Event} (h : AllMapped m) (ha : FaultsOk m (.run e))
    (hx : m.exec (.run e) = some m') : AllMapped m' := by
  obtain ⟨-, hexec, hparked, hcur, -, -⟩ := Machine.exec_run hx
  obtain ⟨hs, hc⟩ := exec_started h.started hexec
  refine ⟨hs, ?_⟩
  have hpark : ∀ p ∈ m.parked, p.2.PagesMapped := fun p hp => h.mapped p (by
    unfold Machine.spaces
    split
    · exact List.mem_cons_of_mem _ hp
    · exact hp)
  unfold Machine.spaces
  rw [hparked]
  cases has : m.vm.as with
  | none =>
    have hnone : m'.vm.as = none := by simpa [has] using hc.process
    rw [hnone]
    exact hpark
  | some as =>
    have hold : RunsMapped as.regions m.vm :=
      ⟨as, has, rfl, h.mapped (m.current, as) (by simp [Machine.spaces, has])⟩
    suffices hnew : RunsMapped as.regions m'.vm by
      obtain ⟨as', has', -, hm⟩ := hnew
      rw [has']
      exact List.forall_mem_cons.mpr ⟨hm, hpark⟩
    refine (RunsMapped.stable _).exec h.started hold (fun _ => hold.same rfl)
      (fun _ _ _ _ as₁ he has₁ hv hfd => ?_) hexec
    subst he
    refine hold.faulted h.started (fun as₂ has₂ => ?_) hfd
    obtain rfl := Option.some.inj (has₁.symm.trans has₂)
    exact (mapped_of_validAddress hv).elim id (ha as₁ has₁).ends

theorem step {a : Action} (h : AllMapped m) (ha : FaultsOk m a) (hx : m.exec a = some m') :
    AllMapped m' := by
  have hs := h.started
  cases a with
  | run e => exact h.run ha hx
  | switch pid =>
    have hperm := Machine.perm_spaces_switch hx
    obtain rfl := Machine.exec_switch hx
    exact ⟨{ hs with },
      fun p hp => h.mapped p (hperm.mem_iff.mpr hp)⟩
  | asCreate =>
    obtain ⟨has, rfl⟩ := Machine.exec_asCreate hx
    refine ⟨{ hs with }, fun p hp => ?_⟩
    rcases List.mem_cons.mp hp with rfl | hp
    · intro e he
      exact absurd he (by simp [asCreate, ptInit])
    · exact h.mapped p (by simpa [Machine.spaces, has] using hp)
  | asDefineRegion vaddr sz =>
    obtain ⟨as, has, rfl⟩ := Machine.exec_asDefineRegion hx
    refine ⟨{ hs with }, fun p hp => ?_⟩
    rcases List.mem_cons.mp hp with rfl | hp
    · have hold := h.mapped (m.current, as) (by simp [Machine.spaces, has])
      exact hold.of_vaddr (fun r hr => List.mem_append_left _ hr)
        fun e he => List.mem_map_of_mem he
    · exact h.mapped p (by rw [Machine.spaces, has]; exact List.mem_cons_of_mem _ hp)
  | asDestroy pid =>
    obtain ⟨as, tlb, as', hvm, -, -, -, -, -, hcur, -, hcase⟩ := Machine.exec_asDestroy hx
    obtain ⟨p, hsp⟩ := Machine.perm_spaces_asDestroy (by rw [hvm]) hcur hcase
    refine ⟨?_, fun q hq => h.mapped q (hsp.mem_iff.mpr (List.mem_cons_of_mem _ hq))⟩
    rw [hvm]
    exact { hs with }

end AllMapped

/-- **Which addresses `vm_fault` admits**: the checks are right exactly on the addresses of
`AddressOk`; and in a run whose faults are all at such addresses, no page outside the regions and
the stack gets an entry. -/
theorem vm_fault_admits_iff (s : VmState) (as : AddrSpace) (faulttype faultaddress kpages : Nat)
    (has : s.as = some as) (hty : faulttype = vmFaultRead ∨ faulttype = vmFaultWrite)
    (hfit : ∀ r ∈ as.regions, r.Fits) (haddr : faultaddress < wordSize) :
    (AdmitsExactly s as faulttype faultaddress kpages ↔ AddressOk as faultaddress) ∧
    ∀ (m₀ m : Machine) (acts : List Action), m₀.Booted → Run (Machine.Step FaultsOk) m₀ acts m →
      ∀ p ∈ m.spaces, p.2.PagesMapped := by
  refine ⟨admitsExactly_iff has hty hfit haddr kpages, fun m₀ m acts hb hr => ?_⟩
  exact (hr.invariant (P := AllMapped) (.of_booted hb) fun _ _ _ h ht => h.step ht.1 ht.2).mapped

/-- An address space with the page at `0x400000`. -/
def onePage : AddrSpace := asDefineRegion asCreate 0x400000 0x1000

/-- Its last word is admitted; and in a run with faults in the region and on the stack, the pages
that got an entry are mapped. -/
theorem vm_fault_admits_one_page :
    AdmitsExactly { smallVm 8 with as := some onePage } onePage vmFaultRead 0x400ffc 0 ∧
      ∃ m, Run (Machine.Step FaultsOk) (Machine.small 8)
          [.switch 1, .asCreate, .asDefineRegion 0x400000 0x1000,
            .run (.fault vmFaultRead 0x400ffc 0), .run (.fault vmFaultWrite 0x7ffffff0 0)] m ∧
        m.vm.npages = 2 ∧ ∀ p ∈ m.spaces, p.2.PagesMapped := by
  have hfit : ∀ r ∈ onePage.regions, r.Fits := by
    intro r hr
    rw [show onePage.regions = [⟨0x400000, 0x1000, 1⟩] by decide] at hr
    obtain rfl := List.mem_singleton.mp hr
    exact ⟨by decide, by decide⟩
  obtain ⟨hiff, hruns⟩ := vm_fault_admits_iff { smallVm 8 with as := some onePage } onePage
    vmFaultRead 0x400ffc 0 rfl (Or.inl rfl) hfit (by decide)
  refine ⟨hiff.mpr (by decide), ?_⟩
  exact Run.exists_imp (Q := fun m => m.vm.npages = 2) (Machine.exists_run (by decide))
    fun m hr hm => ⟨hm, hruns _ m _ (Machine.booted_small (by decide) (by decide)) hr⟩

/-- The first address after the region is admitted, and its page gets an entry. -/
theorem end_of_region_admitted :
    ((vmFault { smallVm 8 with as := some onePage } vmFaultWrite 0x401000 0).toOption.map
        fun r => (r.1, r.2.2.entries.map PtEntry.vaddr)) = some (0, [0x401000]) ∧
      ¬ onePage.Mapped 0x401000 ∧
      ¬ AdmitsExactly { smallVm 8 with as := some onePage } onePage vmFaultWrite 0x401000 0 := by
  have hserved : ((vmFault { smallVm 8 with as := some onePage } vmFaultWrite 0x401000
      0).toOption.map fun r => (r.1, r.2.2.entries.map PtEntry.vaddr)) =
        some (0, [0x401000]) := by
    decide
  refine ⟨hserved, by decide, fun h => ?_⟩
  rw [h.2 (by decide)] at hserved
  exact absurd hserved (by decide)

end OsPaging.Vm
