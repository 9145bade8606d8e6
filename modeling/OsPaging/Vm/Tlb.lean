import OsPaging.Vm.PageTable

/-!
# The TLB

The TLB words of `arch/mips/include/tlb.h`, the access functions of `tlb-mips161.S`,
`tlb_get_rr_victim` (`kern/vm/vm_tlb.c`), `tlb_invalidate_entry` (`vm.c:109-120`) and the tail of
`vm_fault` that loads a translation (`vm.c:247-273`).

`tlb_probe` matches on the virtual page alone, also entries that are not valid; of several
matching entries the lowest index answers. The processor translates by the valid entries
(`tlbHit`); an access without one raises a TLB miss, a store through an entry without the
`DIRTY` bit raises the modify exception that reaches `vm_fault` as `VM_FAULT_READONLY`.

`TlbCoherent` is the invariant of the TLB against a page table: every valid entry maps the page
of a resident entry to its frame, writable, and is the first entry for that page, so that
`tlb_probe` finds it.
-/

namespace OsPaging.Vm

open OsPaging.Lib Function

variable {t : TlbEntry} {vaddr k : Nat}

/-! ## Entries and access functions -/

/-- `TLBLO_DIRTY`: a write is permitted. -/
abbrev tlbloDirty : Nat := 0x400

abbrev tlbloValid : Nat := 0x200

/-- `elo & TLBLO_VALID`. -/
def TlbEntry.valid (t : TlbEntry) : Bool := t.elo.testBit 9

/-- `elo & TLBLO_DIRTY`. -/
def TlbEntry.dirty (t : TlbEntry) : Bool := t.elo.testBit 10

/-- `ehi & TLBHI_VPAGE`. -/
def TlbEntry.vpage (t : TlbEntry) : Nat := pageFrame t.ehi

/-- `elo & TLBLO_PPAGE`. -/
def TlbEntry.ppage (t : TlbEntry) : Nat := pageFrame t.elo

/-- `TLBHI_INVALID(entryno)`. -/
def tlbhiInvalid (entryno : Nat) : Nat := (0x80000 + entryno) * pageSize

/-- `TLBLO_INVALID()`. -/
abbrev tlbloInvalid : Nat := 0

def tlbWrite (s : VmState) (ehi elo index : Nat) : VmState :=
  { s with tlb := update s.tlb index ⟨ehi, elo⟩ }

/-- `tlb_probe`: the index of the entry for the page of `ehi`, valid or not. -/
def tlbProbe (tlb : Nat → TlbEntry) (ehi : Nat) : Option Nat :=
  (List.range' 0 numTlb).find? fun i => (tlb i).vpage == pageFrame ehi

def tlbGetRrVictim (s : VmState) : Nat × VmState :=
  (s.tlbNextVictim, { s with tlbNextVictim := (s.tlbNextVictim + 1) % numTlb })

/-- `tlb_invalidate_entry` (`vm.c:109-120`). -/
def tlbInvalidateEntry (s : VmState) (vaddr : Nat) : VmState :=
  match tlbProbe s.tlb vaddr with
  | some index =>
    let s := tlbWrite s (tlbhiInvalid index) tlbloInvalid index
    { s with stats := { s.stats with tlbInvalidation := s.stats.tlbInvalidation + 1 } }
  | none => s

/-- The TLB after `tlb_invalidate_entry`. -/
def tlbDrop (tlb : Nat → TlbEntry) (vaddr : Nat) : Nat → TlbEntry :=
  match tlbProbe tlb vaddr with
  | some index => update tlb index ⟨tlbhiInvalid index, tlbloInvalid⟩
  | none => tlb

/-- What `tlb_invalidate_entry` adds to `tlb_invalidation`. -/
def tlbDropped (tlb : Nat → TlbEntry) (vaddr : Nat) : Nat :=
  if (tlbProbe tlb vaddr).isSome then 1 else 0

theorem tlbInvalidateEntry_eq (s : VmState) (vaddr : Nat) : tlbInvalidateEntry s vaddr =
    { s with
      tlb := tlbDrop s.tlb vaddr
      stats := { s.stats with
        tlbInvalidation := s.stats.tlbInvalidation + tlbDropped s.tlb vaddr } } := by
  unfold tlbInvalidateEntry tlbDrop tlbDropped
  cases tlbProbe s.tlb vaddr <;> rfl

/-- The first entry that is not valid, as the loop of `vm_fault` finds it. -/
def tlbFree (tlb : Nat → TlbEntry) : Option Nat :=
  (List.range' 0 numTlb).find? fun i => !(tlb i).valid

/-- The tail of `vm_fault` (`vm.c:244-273`): load `faultpage -> paddr`, writable, into a free
slot or over the round-robin victim. -/
def tlbLoad (s : VmState) (faultpage paddr : Nat) : VmState :=
  let elo := paddr ||| tlbloDirty ||| tlbloValid
  match tlbFree s.tlb with
  | some i =>
    let s := tlbWrite s faultpage elo i
    { s with stats := { s.stats with tlbFaultsWFree := s.stats.tlbFaultsWFree + 1 } }
  | none =>
    let (i, s) := tlbGetRrVictim s
    let s := tlbWrite s faultpage elo i
    { s with stats := { s.stats with tlbFaultsWReplace := s.stats.tlbFaultsWReplace + 1 } }

/-- Which slot the load overwrites: every slot below it is valid. -/
theorem tlbLoad_slot {s : VmState} (hr : s.tlbNextVictim < numTlb) (faultpage paddr : Nat) :
    ∃ k < numTlb, (∀ j < k, (s.tlb j).valid = true) ∧
      (tlbLoad s faultpage paddr).tlb =
        update s.tlb k ⟨faultpage, paddr ||| tlbloDirty ||| tlbloValid⟩ ∧
      (tlbLoad s faultpage paddr).tlbNextVictim < numTlb := by
  cases hf : tlbFree s.tlb with
  | some k =>
    obtain ⟨-, h2, h3⟩ := List.find?_range'_eq_some.mp hf
    refine ⟨k, by simpa using h2, fun j hj => by simpa using h3 j (Nat.zero_le j) hj, ?_, ?_⟩
    · simp only [tlbLoad, hf, tlbWrite]
    · simpa only [tlbLoad, hf, tlbWrite] using hr
  | none =>
    have hall : ∀ j < numTlb, (s.tlb j).valid = true := fun j hj => by
      simpa using List.find?_range'_eq_none.mp hf j (Nat.zero_le j) (by simpa using hj)
    refine ⟨s.tlbNextVictim, hr, fun j hj => hall j (hj.trans hr), ?_, ?_⟩
    · simp only [tlbLoad, hf, tlbGetRrVictim, tlbWrite]
    · simp only [tlbLoad, hf, tlbGetRrVictim, tlbWrite]
      exact Nat.mod_lt _ (by decide)

/-! ## Translation by the processor -/

/-- The valid entry the processor translates `va` by. -/
def tlbHit (tlb : Nat → TlbEntry) (va : Nat) : Option TlbEntry :=
  ((List.range' 0 numTlb).find? fun i => (tlb i).valid && (tlb i).vpage == pageFrame va).map tlb

/-- What the processor does with a user access. -/
inductive Access
  /-- The physical address accessed. -/
  | hit (paddr : Nat)
  /-- No valid entry: `EX_TLBL` or `EX_TLBS`. -/
  | miss
  /-- A store through an entry without `TLBLO_DIRTY`: `EX_MOD`. -/
  | modify
deriving DecidableEq, Repr

/-- A user access at `va`. -/
def tlbAccess (tlb : Nat → TlbEntry) (va : Nat) (write : Bool) : Access :=
  match tlbHit tlb va with
  | none => .miss
  | some t => if write && !t.dirty then .modify else .hit (t.ppage + va % pageSize)

theorem tlbHit_some {tlb : Nat → TlbEntry} {va : Nat} (h : tlbHit tlb va = some t) :
    ∃ i, i < numTlb ∧ tlb i = t ∧ t.valid = true ∧ t.vpage = pageFrame va := by
  unfold tlbHit at h
  obtain ⟨i, hi, rfl⟩ := Option.map_eq_some_iff.mp h
  grind

theorem tlbHit_none {tlb : Nat → TlbEntry} {va : Nat} :
    tlbHit tlb va = none ↔
      ∀ i < numTlb, (tlb i).valid = true → (tlb i).vpage ≠ pageFrame va := by
  unfold tlbHit
  rw [Option.map_eq_none_iff, List.find?_range'_eq_none]
  grind

/-! ## The words `vm_fault` writes -/

section Words

variable {paddr : Nat}

theorem dirty_load (ehi : Nat) : (TlbEntry.mk ehi (paddr ||| tlbloDirty ||| tlbloValid)).dirty := by
  simp only [TlbEntry.dirty, Nat.testBit_or]
  grind

theorem ppage_load (ehi : Nat) (h : paddr % pageSize = 0) :
    (TlbEntry.mk ehi (paddr ||| tlbloDirty ||| tlbloValid)).ppage = paddr := by
  have e : (paddr ||| tlbloDirty ||| tlbloValid) / 2 ^ 12 = paddr / 2 ^ 12 := by
    rw [Nat.or_div_two_pow, Nat.or_div_two_pow]
    simp [tlbloDirty, tlbloValid]
  simp only [TlbEntry.ppage, pageFrame]
  grind

theorem valid_invalid (ehi : Nat) : (TlbEntry.mk ehi tlbloInvalid).valid = false := by
  simp [TlbEntry.valid]

theorem vpage_invalid (i elo : Nat) : (TlbEntry.mk (tlbhiInvalid i) elo).vpage = tlbhiInvalid i :=
  pageFrame_of_aligned (by simp [tlbhiInvalid])

theorem userSpaceTop_le_tlbhiInvalid (i : Nat) : userSpaceTop ≤ tlbhiInvalid i := by
  unfold tlbhiInvalid
  simp only [pageSize, userSpaceTop, mipsKseg0]
  omega

end Words

/-! ## Coherence -/

/-- No valid entry maps `page`. -/
def TlbMisses (tlb : Nat → TlbEntry) (page : Nat) : Prop :=
  ∀ i < numTlb, (tlb i).valid = true → (tlb i).vpage ≠ page

theorem tlbDrop_none {tlb : Nat → TlbEntry} (h : tlbProbe tlb vaddr = none) :
    tlbDrop tlb vaddr = tlb := by
  simp only [tlbDrop, h]

theorem tlbDrop_some {tlb : Nat → TlbEntry} (h : tlbProbe tlb vaddr = some k) :
    tlbDrop tlb vaddr = update tlb k ⟨tlbhiInvalid k, tlbloInvalid⟩ := by
  simp only [tlbDrop, h]

theorem tlbDrop_valid {tlb : Nat → TlbEntry} {i : Nat} (h : (tlbDrop tlb vaddr i).valid = true) :
    tlbDrop tlb vaddr i = tlb i := by
  cases hp : tlbProbe tlb vaddr with
  | none => rw [tlbDrop_none hp]
  | some k =>
    rw [tlbDrop_some hp] at h ⊢
    by_cases hik : i = k
    · rw [hik, update_self, valid_invalid] at h
      exact absurd h Bool.false_ne_true
    · exact update_of_ne hik _ _

theorem TlbMisses.drop {tlb : Nat → TlbEntry} {page : Nat} (h : TlbMisses tlb page)
    (vaddr : Nat) : TlbMisses (tlbDrop tlb vaddr) page := by
  intro i hi hv
  have he := tlbDrop_valid hv
  rw [he] at hv ⊢
  exact h i hi hv

/-- Every valid TLB entry maps a user page that is resident in `es` to its frame, writable, and
is the first entry of the TLB for its page. -/
structure TlbCoherent (tlb : Nat → TlbEntry) (es : List PtEntry) : Prop where
  maps : ∀ i < numTlb, (tlb i).valid = true → ∃ e ∈ es, e.swapped = false ∧
    (tlb i).vpage = e.vaddr ∧ (tlb i).ppage = e.ppageIndex * pageSize ∧ (tlb i).dirty = true
  user : ∀ i < numTlb, (tlb i).valid = true → (tlb i).vpage < userSpaceTop
  first : ∀ i < numTlb, (tlb i).valid = true → ∀ j < i, (tlb j).vpage ≠ (tlb i).vpage

namespace TlbCoherent

variable {tlb : Nat → TlbEntry} {es es' : List PtEntry}

/-- A TLB without a valid entry is coherent with any table. -/
theorem of_invalid (h : ∀ i < numTlb, (tlb i).valid = false) : TlbCoherent tlb es :=
  ⟨fun i hi hv => absurd hv (by simp [h i hi]), fun i hi hv => absurd hv (by simp [h i hi]),
    fun i hi hv => absurd hv (by simp [h i hi])⟩

variable (h : TlbCoherent tlb es)
include h

theorem inj {i j : Nat} (hi : i < numTlb) (hj : j < numTlb) (hvi : (tlb i).valid = true)
    (hvj : (tlb j).valid = true) (he : (tlb i).vpage = (tlb j).vpage) : i = j := by
  rcases Nat.lt_trichotomy i j with hlt | heq | hgt
  · exact absurd he (h.first j hj hvj i hlt)
  · exact heq
  · exact absurd he.symm (h.first i hi hvi j hgt)

/-- Only the resident entries of the table matter. -/
theorem mono
    (hes : ∀ e ∈ es, e.swapped = false →
      (∃ i < numTlb, (tlb i).valid = true ∧ (tlb i).vpage = e.vaddr) → e ∈ es') :
    TlbCoherent tlb es' := by
  refine ⟨fun i hi hv => ?_, h.user, h.first⟩
  obtain ⟨e, he, hs, hvp, hpp, hd⟩ := h.maps i hi hv
  grind

/-- Overwriting slot `k` with an entry that is not valid, for a page outside user space. -/
theorem invalidate (ht : t.valid = false) (hp : userSpaceTop ≤ t.vpage) :
    TlbCoherent (update tlb k t) es := by
  have hne : ∀ i, (update tlb k t i).valid = true →
      i ≠ k ∧ update tlb k t i = tlb i := by
    grind
  refine ⟨fun i hi hv => ?_, fun i hi hv => ?_, fun i hi hv j hj => ?_⟩
  · obtain ⟨-, he⟩ := hne i hv
    rw [he] at hv ⊢
    exact h.maps i hi hv
  · obtain ⟨-, he⟩ := hne i hv
    rw [he] at hv ⊢
    exact h.user i hi hv
  · obtain ⟨-, he⟩ := hne i hv
    rw [he] at hv ⊢
    by_cases hk : j = k
    · rw [hk, update_self]
      have := h.user i hi hv
      omega
    · rw [update_of_ne hk]
      exact h.first i hi hv j hj

/-- Loading a translation of a resident user page that no valid entry maps, into slot `k`, when
every slot below `k` is valid or every slot is. -/
theorem load {e : PtEntry} (he : e ∈ es) (hs : e.swapped = false) (hvp : t.vpage = e.vaddr)
    (hpp : t.ppage = e.ppageIndex * pageSize) (hd : t.dirty = true) (huser : t.vpage < userSpaceTop)
    (hk : k < numTlb) (hbelow : ∀ j < k, (tlb j).valid = true)
    (hmiss : ∀ i < numTlb, (tlb i).valid = true → (tlb i).vpage ≠ t.vpage) :
    TlbCoherent (update tlb k t) es := by
  refine ⟨fun i hi hv => ?_, fun i hi hv => ?_, fun i hi hv j hj => ?_⟩
  · by_cases hik : i = k
    · grind
    · rw [update_of_ne hik] at hv ⊢
      exact h.maps i hi hv
  · by_cases hik : i = k
    · rw [hik, update_self]; exact huser
    · rw [update_of_ne hik] at hv ⊢
      exact h.user i hi hv
  · by_cases hik : i = k
    · rw [hik] at hj ⊢
      rw [update_self, update_of_ne (by omega)]
      exact hmiss j (hj.trans hk) (hbelow j hj)
    · rw [update_of_ne hik] at hv ⊢
      by_cases hjk : j = k
      · grind
      · rw [update_of_ne hjk]
        exact h.first i hi hv j hj

/-- After `tlb_invalidate_entry` no valid entry maps the page. -/
theorem drop (ha : vaddr % pageSize = 0) :
    TlbCoherent (tlbDrop tlb vaddr) es ∧ TlbMisses (tlbDrop tlb vaddr) vaddr := by
  cases hp : tlbProbe tlb vaddr with
  | none =>
    rw [tlbDrop_none hp]
    refine ⟨h, fun i hi _ => ?_⟩
    have := List.find?_range'_eq_none.mp hp i (Nat.zero_le i) (by simpa using hi)
    simpa [pageFrame_of_aligned ha] using this
  | some k =>
    rw [tlbDrop_some hp]
    obtain ⟨hk, -, hfirst⟩ := List.find?_range'_eq_some.mp hp
    rw [beq_iff_eq, pageFrame_of_aligned ha] at hk
    refine ⟨h.invalidate (valid_invalid _) ?_, fun i hi hv he => ?_⟩
    · rw [vpage_invalid]
      exact userSpaceTop_le_tlbhiInvalid k
    · by_cases hik : i = k
      · rw [hik, update_self, valid_invalid] at hv
        exact absurd hv Bool.false_ne_true
      · rw [update_of_ne hik] at hv he
        -- the probe answered with the first entry for the page, and a valid entry is first
        rcases Nat.lt_or_gt_of_ne hik with hlt | hgt
        · have := hfirst i (Nat.zero_le i) hlt
          simp [pageFrame_of_aligned ha, he] at this
        · exact h.first i hi hv k hgt (hk.trans he.symm)

end TlbCoherent

end OsPaging.Vm
