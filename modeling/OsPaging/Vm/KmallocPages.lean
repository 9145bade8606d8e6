import Mathlib.Data.Finset.Card
import Mathlib.Data.Fintype.Prod
import OsPaging.Vm.Kmalloc

/-!
# Blocks and descriptors of the subpage allocator

The arithmetic of the blocks of a page, what `allocpageref` and `freepageref` do to the roots
(`RootsOk`), and the free list of a new page.

A root without a page can have descriptors in use: `allocpageref` sets the bit first, and does not
clear it when there is no page. The order of the roots (`RootsOk.order`) is kept as long as no root
without a page is full.
-/

namespace OsPaging.Vm

open OsPaging.Lib
open Function (update update_self update_of_ne)

/-! ## Blocks -/

/-- `a` is a block of the page `v` with blocks of `size` bytes. -/
def BlockAt (v size a : Nat) : Prop := ∃ k < pageSize / size, a = v + k * size

theorem sizes_dvd {b : Nat} (hb : b < 8) : sizes b ∣ pageSize ∧ 16 ≤ sizes b ∧ sizes b ≤ 2048 := by
  have h : ∀ b < 8, sizes b ∣ pageSize ∧ 16 ≤ sizes b ∧ sizes b ≤ 2048 := by decide
  exact h b hb

namespace BlockAt

variable {v w size size' a a' x : Nat}

variable (h : BlockAt v size a)
include h

theorem bounds (hd : size ∣ pageSize) : v ≤ a ∧ a + size ≤ v + pageSize := by
  obtain ⟨k, hk, rfl⟩ := h
  refine ⟨Nat.le_add_right _ _, ?_⟩
  have hle : (k + 1) * size ≤ pageSize / size * size := Nat.mul_le_mul_right _ hk
  rw [Nat.div_mul_cancel hd] at hle
  rw [Nat.add_mul] at hle
  omega

theorem pageFrame_eq (hd : size ∣ pageSize) (hs : 0 < size) (hv : v % pageSize = 0) :
    pageFrame a = v := by
  obtain ⟨h1, h2⟩ := h.bounds hd
  unfold pageFrame
  simp only [pageSize] at *
  omega

/-- Different blocks of one page do not overlap. -/
theorem apart (h' : BlockAt v size a') (hne : a ≠ a') : a + size ≤ a' ∨ a' + size ≤ a := by
  obtain ⟨k, -, rfl⟩ := h
  obtain ⟨k', -, rfl⟩ := h'
  have hk : k ≠ k' := by
    rintro rfl
    exact hne rfl
  rcases Nat.lt_or_gt_of_ne hk with hlt | hlt
  · have := Nat.mul_le_mul_right size (Nat.succ_le_of_lt hlt)
    rw [Nat.succ_mul] at this
    omega
  · have := Nat.mul_le_mul_right size (Nat.succ_le_of_lt hlt)
    rw [Nat.succ_mul] at this
    omega

/-- Neither do blocks of different pages. -/
theorem apart_of_ne (h' : BlockAt w size' a') (hd : size ∣ pageSize) (hd' : size' ∣ pageSize)
    (hv : v % pageSize = 0) (hw : w % pageSize = 0) (hne : v ≠ w) :
    a + size ≤ a' ∨ a' + size' ≤ a := by
  have h1 := h.bounds hd
  have h2 := h'.bounds hd'
  simp only [pageSize] at *
  omega

theorem offset : (a - v) % size = 0 := by
  obtain ⟨k, -, rfl⟩ := h
  rw [Nat.add_sub_cancel_left, Nat.mul_mod_left]

end BlockAt

/-! ## The free list of a new page -/

/-- The blocks of a page from the `n`-th down. -/
def blocksDown (page size : Nat) : Nat → List Nat
  | 0 => []
  | n + 1 => (page + n * size) :: blocksDown page size n

theorem mem_blocksDown {page size n a : Nat} :
    a ∈ blocksDown page size n ↔ ∃ k < n, a = page + k * size := by
  induction n with
  | zero => simp [blocksDown]
  | succ n ih =>
    rw [blocksDown, List.mem_cons, ih]
    constructor
    · rintro (rfl | ⟨k, hk, rfl⟩)
      · exact ⟨n, Nat.lt_succ_self n, rfl⟩
      · exact ⟨k, Nat.lt_succ_of_lt hk, rfl⟩
    · rintro ⟨k, hk, rfl⟩
      grind

@[simp] theorem length_blocksDown (page size n : Nat) : (blocksDown page size n).length = n := by
  induction n with
  | zero => rfl
  | succ n ih => rw [blocksDown, List.length_cons, ih]

theorem threadBlocks_of_notMem {mem : Nat → Nat} {page size n a : Nat}
    (h : a ∉ blocksDown page size n) : Kheap.threadBlocks mem page size n a = mem a := by
  induction n using Kheap.threadBlocks.induct with
  | case1 => rfl
  | case2 =>
    refine update_of_ne ?_ _ _
    rintro rfl
    exact h (by simp [blocksDown])
  | case3 n ih =>
    rw [blocksDown, List.mem_cons, not_or] at h
    rw [Kheap.threadBlocks, update_of_ne h.1]
    exact ih h.2

/-- The loop leaves the blocks chained from the last one down. -/
theorem chained_threadBlocks (mem : Nat → Nat) {page size : Nat} (hpage : page ≠ 0)
    (hsize : 0 < size) (n : Nat) :
    Chained (Kheap.threadBlocks mem page size (n + 1)) 0 (page + n * size)
      (blocksDown page size (n + 1)) := by
  induction n with
  | zero =>
    refine ⟨by simp, by simpa using hpage, ?_⟩
    simp [Kheap.threadBlocks, blocksDown]
  | succ n ih =>
    refine ih.push (by omega) ?_
    rw [mem_blocksDown]
    rintro ⟨k, hk, he⟩
    have hlt := Nat.mul_lt_mul_of_pos_right hk hsize
    omega

/-! ## Roots -/

/-- `p` is a descriptor in use. -/
def IsRef (roots : Nat → KheapRoot) (p : Nat) : Prop :=
  ∃ r < numPagerefpages, ∃ j < npagerefsPerPage, (roots r).page ≠ 0 ∧
    p = (roots r).page + j * sizeofPageref ∧ (roots r).inuse j = true

structure RootsOk (roots : Nat → KheapRoot) : Prop where
  count : ∀ r < numPagerefpages,
    (roots r).numinuse = (List.range npagerefsPerPage).countP (roots r).inuse
  aligned : ∀ r < numPagerefpages, (roots r).page % pageSize = 0
  apart : ∀ r < numPagerefpages, ∀ r' < numPagerefpages, (roots r).page ≠ 0 →
    (roots r).page = (roots r').page → r = r'
  /-- A root is not used before the earlier ones have their pages. -/
  order : ∀ r' < numPagerefpages, 0 < (roots r').numinuse → ∀ r < r', (roots r).page ≠ 0

/-- No root has all its descriptors in use and no page for them. -/
def FullHavePages (roots : Nat → KheapRoot) : Prop :=
  ∀ r < numPagerefpages, (roots r).numinuse = npagerefsPerPage → (roots r).page ≠ 0

namespace RootsOk

variable {roots : Nat → KheapRoot} {r j p v : Nat}

section

variable (h : RootsOk roots) (hr : r < numPagerefpages)
include h hr

theorem numinuse_le : (roots r).numinuse ≤ npagerefsPerPage := by
  rw [h.count r hr]
  exact List.countP_le_length.trans (by rw [List.length_range])

/-- A root that is not full has a descriptor that is not in use. -/
theorem firstUnused_some (hlt : (roots r).numinuse < npagerefsPerPage) :
    ∃ j < npagerefsPerPage, Kheap.KheapRoot.firstUnused (roots r) = some j ∧
      (roots r).inuse j = false := by
  cases hf : Kheap.KheapRoot.firstUnused (roots r) with
  | some j =>
    have hj := List.mem_of_find?_eq_some hf
    have hin := List.find?_some hf
    grind
  | none =>
    exfalso
    have hall : ∀ j ∈ List.range npagerefsPerPage, (roots r).inuse j = true := by
      simpa using List.find?_eq_none.mp hf
    rw [h.count r hr, List.countP_eq_length.mpr hall, List.length_range] at hlt
    exact lt_irrefl _ hlt

theorem ref_inj {r' j' : Nat} (hr' : r' < numPagerefpages) (hj : j < npagerefsPerPage)
    (hj' : j' < npagerefsPerPage) (hp : (roots r).page ≠ 0)
    (he : (roots r).page + j * sizeofPageref = (roots r').page + j' * sizeofPageref) :
    r = r' ∧ j = j' := by
  have h1 := h.aligned r hr
  have h2 := h.aligned r' hr'
  simp only [sizeofPageref, npagerefsPerPage, pageSize] at *
  have hpage : (roots r).page = (roots r').page := by omega
  exact ⟨h.apart r hr r' hr' hp hpage, by omega⟩

end

theorem isRef_ne_zero (h : IsRef roots p) : p ≠ 0 := by
  obtain ⟨r, -, j, -, hpage, rfl, -⟩ := h
  omega

/-- There are no more descriptors than the roots have room for. -/
theorem length_le {l : List Nat} (hl : l.Nodup) (href : ∀ p ∈ l, IsRef roots p) :
    l.length ≤ totalPagerefs := by
  let addr : Fin numPagerefpages × Fin npagerefsPerPage → Nat := fun q =>
    (roots q.1).page + q.2 * sizeofPageref
  have hsub : l.toFinset ⊆ Finset.univ.image addr := by
    intro p hp
    obtain ⟨r, hr, j, hj, -, rfl, -⟩ := href p (List.mem_toFinset.mp hp)
    exact Finset.mem_image.mpr ⟨(⟨r, hr⟩, ⟨j, hj⟩), Finset.mem_univ _, rfl⟩
  calc l.length = l.toFinset.card := (List.toFinset_card_of_nodup hl).symm
    _ ≤ (Finset.univ.image addr).card := Finset.card_le_card hsub
    _ ≤ Fintype.card (Fin numPagerefpages × Fin npagerefsPerPage) := Finset.card_image_le
    _ = totalPagerefs := by rw [Fintype.card_prod, Fintype.card_fin, Fintype.card_fin]; rfl

/-- One more descriptor of root `r` is in use, and the root has the page `v`. -/
theorem take (h : RootsOk roots) (hr : r < numPagerefpages) (hj : j < npagerefsPerPage)
    (hin : (roots r).inuse j = false) (hearlier : ∀ r' < r, (roots r').page ≠ 0)
    (hpage : (roots r).page ≠ 0 → v = (roots r).page) (hv : v % pageSize = 0)
    (hapart : v ≠ 0 → ∀ r' < numPagerefpages, r' ≠ r → (roots r').page ≠ v) :
    RootsOk (update roots r
      ⟨v, update (roots r).inuse j true, (roots r).numinuse + 1⟩) := by
  have hmono : ∀ r', (roots r').page ≠ 0 → ∀ root : KheapRoot, root.page = v →
      (update roots r root r').page ≠ 0 := by
    grind
  constructor
  · intro r' hr'
    by_cases hrr : r' = r
    · subst hrr
      rw [update_self]
      have hset := countP_update_false (t := update (roots r').inuse j true) hj (update_self ..)
      have hsame : update (roots r').inuse j false = (roots r').inuse := by
        rw [← hin, Function.update_eq_self]
      rw [Function.update_idem, hsame, ← h.count r' hr'] at hset
      exact hset.symm
    · rw [update_of_ne hrr]
      exact h.count r' hr'
  · intro r' hr'
    by_cases hrr : r' = r
    · subst hrr
      rw [update_self]
      exact hv
    · rw [update_of_ne hrr]
      exact h.aligned r' hr'
  · intro r₁ h₁ r₂ h₂ hne he
    by_cases hr₁ : r₁ = r
    · by_cases hr₂ : r₂ = r
      · rw [hr₁, hr₂]
      · subst hr₁
        rw [update_self] at hne he
        rw [update_of_ne hr₂] at he
        exact absurd he.symm (hapart hne r₂ h₂ hr₂)
    · rw [update_of_ne hr₁] at hne he
      by_cases hr₂ : r₂ = r
      · subst hr₂
        rw [update_self] at he
        have he : (roots r₁).page = v := he
        exact absurd he (hapart (he ▸ hne) r₁ h₁ hr₁)
      · rw [update_of_ne hr₂] at he
        exact h.apart r₁ h₁ r₂ h₂ hne he
  · intro r' hr' hpos r₁ h₁
    by_cases hrr : r' = r
    · subst hrr
      exact hmono r₁ (hearlier r₁ h₁) _ rfl
    · rw [update_of_ne hrr] at hpos
      exact hmono r₁ (h.order r' hr' hpos r₁ h₁) _ rfl

theorem release (h : RootsOk roots) (hr : r < numPagerefpages) (hj : j < npagerefsPerPage)
    (hin : (roots r).inuse j = true) :
    RootsOk (update roots r
      ⟨(roots r).page, update (roots r).inuse j false, (roots r).numinuse - 1⟩) := by
  have hpage : ∀ r', (update roots r ⟨(roots r).page, update (roots r).inuse j false,
      (roots r).numinuse - 1⟩ r').page = (roots r').page := by
    grind
  constructor
  · intro r' hr'
    by_cases hrr : r' = r
    · subst hrr
      rw [update_self]
      have hclear := countP_update_false hj hin
      rw [← h.count r' hr'] at hclear
      simp only
      omega
    · rw [update_of_ne hrr]
      exact h.count r' hr'
  · intro r' hr'
    rw [hpage]
    exact h.aligned r' hr'
  · intro r₁ h₁ r₂ h₂
    rw [hpage, hpage]
    exact h.apart r₁ h₁ r₂ h₂
  · intro r' hr' hpos r₁ h₁
    rw [hpage]
    refine h.order r' hr' ?_ r₁ h₁
    grind

end RootsOk

/-! ## `allocpageref` and `freepageref` -/

section Refs

variable {s : Kheap} {va : Option Nat} {r p : Nat}

/-- What `allocpageref` leaves, with the pointer it returns. -/
structure Allocated (va : Option Nat) (s : Kheap) (res : Nat × Kheap) : Prop where
  rest : res.2 = { s with roots := res.2.roots, held := res.2.held }
  ok : RootsOk res.2.roots
  mono : ∀ p, IsRef s.roots p → IsRef res.2.roots p
  new : res.1 ≠ 0 → IsRef res.2.roots res.1 ∧ ¬ IsRef s.roots res.1
  pages : (res.2.held = s.held ∧ ∀ r, (res.2.roots r).page = (s.roots r).page) ∨
    ∃ v, va = some v ∧ res.2.held = v :: s.held ∧ ∃ r < numPagerefpages, (s.roots r).page = 0 ∧
      ∀ r', (res.2.roots r').page = if r' = r then v else (s.roots r').page

/-- The descriptors of a root stay in use when one more is. -/
theorem isRef_take {roots : Nat → KheapRoot} {j v : Nat}
    (hpage : (roots r).page ≠ 0 → v = (roots r).page) {n : Nat} (hp : IsRef roots p) :
    IsRef (update roots r ⟨v, update (roots r).inuse j true, n⟩) p := by
  obtain ⟨r', hr', j', hj', hne, rfl, hin⟩ := hp
  refine ⟨r', hr', j', hj', ?_⟩
  by_cases hrr : r' = r
  · subst hrr
    rw [update_self]
    grind
  · rw [update_of_ne hrr]
    exact ⟨hne, rfl, hin⟩

/-- The other descriptors stay in use when one is released. -/
theorem isRef_release {roots : Nat → KheapRoot} {j n : Nat}
    (hne : p ≠ (roots r).page + j * sizeofPageref) (hp : IsRef roots p) :
    IsRef (update roots r ⟨(roots r).page, update (roots r).inuse j false, n⟩) p := by
  obtain ⟨r', hr', j', hj', hpage, rfl, hin⟩ := hp
  refine ⟨r', hr', j', hj', ?_⟩
  by_cases hrr : r' = r
  · subst hrr
    rw [update_self]
    grind
  · rw [update_of_ne hrr]
    exact ⟨hpage, rfl, hin⟩

/-- A descriptor that was not in use is no descriptor in use. -/
theorem not_isRef_of_unused {roots : Nat → KheapRoot} {j : Nat} (h : RootsOk roots)
    (hr : r < numPagerefpages) (hj : j < npagerefsPerPage) (hp : (roots r).page ≠ 0)
    (hin : (roots r).inuse j = false) : ¬ IsRef roots ((roots r).page + j * sizeofPageref) := by
  rintro ⟨r', hr', j', hj', -, he, hin'⟩
  obtain ⟨rfl, rfl⟩ := h.ref_inj hr hr' hj hj' hp he
  exact absurd (hin'.symm.trans hin) (by simp)

theorem allocpageref_allocated (va : Option Nat) (h : RootsOk s.roots)
    (hfull : FullHavePages s.roots)
    (hva : ∀ v, va = some v → v ≠ 0 ∧ v % pageSize = 0 ∧
      ∀ r < numPagerefpages, (s.roots r).page ≠ v) {n : Nat} (hn : r + n = numPagerefpages)
    (hearlier : ∀ r' < r, (s.roots r').page ≠ 0) :
    Allocated va s (s.allocpageref va (List.range' r n)) := by
  induction n generalizing r with
  | zero =>
    exact ⟨rfl, h, fun _ => id, fun hne => absurd rfl hne, .inl ⟨rfl, fun _ => rfl⟩⟩
  | succ n ih =>
    have hr : r < numPagerefpages := by omega
    rw [List.range'_succ, Kheap.allocpageref]
    by_cases hle : npagerefsPerPage ≤ (s.roots r).numinuse
    · -- a full root is passed, and has a page
      simp only [hle, if_true]
      refine ih (by omega) fun r' hr' => ?_
      rcases Nat.lt_succ_iff_lt_or_eq.mp hr' with hr' | rfl
      · exact hearlier r' hr'
      · exact hfull r' hr (le_antisymm (h.numinuse_le hr) hle)
    · obtain ⟨j, hj, hfirst, hin⟩ := h.firstUnused_some hr (Nat.lt_of_not_le hle)
      simp only [hle, if_false, hfirst]
      by_cases hpage : (s.roots r).page = 0
      · simp only [hpage, ne_eq, not_true_eq_false, if_false]
        have hzero : ∀ v, (s.roots r).page ≠ 0 → v = (s.roots r).page := fun v hv =>
          absurd hpage hv
        cases va with
        | none =>
          refine ⟨rfl, ?_, fun p hp => isRef_take (hzero 0) hp, fun hne => absurd rfl hne,
            .inl ⟨rfl, fun r' => ?_⟩⟩
          · exact h.take hr hj hin hearlier (hzero 0) rfl fun hv => absurd rfl hv
          · grind
        | some v =>
          obtain ⟨hv0, hv, hvr⟩ := hva v rfl
          refine ⟨rfl, ?_, fun p hp => isRef_take (hzero v) hp, fun _ => ⟨?_, ?_⟩,
            .inr ⟨v, rfl, rfl, r, hr, hpage, fun r' => ?_⟩⟩
          · exact h.take hr hj hin hearlier (hzero v) hv fun _ r' hr' _ => hvr r' hr'
          · exact ⟨r, hr, j, hj, by simpa using hv0, by simp, by simp⟩
          · -- the descriptors in use are on other pages
            rintro ⟨r', hr', j', hj', hne, he, -⟩
            have h1 := h.aligned r' hr'
            simp only [sizeofPageref, npagerefsPerPage, pageSize] at *
            exact hvr r' hr' (by omega)
          · grind
      · simp only [hpage, ne_eq, not_false_eq_true, if_true]
        refine ⟨rfl, ?_, fun p hp => isRef_take (fun _ => rfl) hp, fun _ => ⟨?_, ?_⟩,
          .inl ⟨rfl, fun r' => ?_⟩⟩
        · exact h.take hr hj hin hearlier (fun _ => rfl) (h.aligned r hr) fun _ r' hr' hrr he =>
            hrr (h.apart r hr r' hr' hpage he.symm).symm
        · exact ⟨r, hr, j, hj, by simpa using hpage, by simp, by simp⟩
        · exact not_isRef_of_unused h hr hj hpage hin
        · grind

/-- What `freepageref` leaves. -/
structure Released (p : Nat) (s s' : Kheap) : Prop where
  rest : s' = { s with roots := s'.roots }
  ok : RootsOk s'.roots
  mono : ∀ q, q ≠ p → IsRef s.roots q → IsRef s'.roots q
  pages : ∀ r, (s'.roots r).page = (s.roots r).page

theorem freepageref_released (h : RootsOk s.roots) {r₀ j : Nat} (hr₀ : r₀ < numPagerefpages)
    (hj : j < npagerefsPerPage) (hpage : (s.roots r₀).page ≠ 0)
    (hin : (s.roots r₀).inuse j = true) (hp : p = (s.roots r₀).page + j * sizeofPageref) {n : Nat}
    (hn : r + n = numPagerefpages) (hle : r ≤ r₀) :
    ∃ s', s.freepageref p (List.range' r n) = .ok s' ∧ Released p s s' := by
  have hpos : 0 < (s.roots r₀).numinuse := by
    rw [h.count r₀ hr₀]
    exact List.countP_pos_iff.mpr ⟨j, List.mem_range.mpr hj, hin⟩
  induction n generalizing r with
  | zero => omega
  | succ n ih =>
    have hr : r < numPagerefpages := by omega
    rw [List.range'_succ, Kheap.freepageref]
    by_cases hrr : r = r₀
    · subst hrr
      have hjp : (p - (s.roots r).page) / sizeofPageref = j := by
        rw [hp, Nat.add_sub_cancel_left]
        exact Nat.mul_div_cancel _ (by decide)
      simp only [hpage, if_false, hjp, hj, and_true, hin, hpos, and_self, if_true]
      rw [if_pos (by omega)]
      refine ⟨_, rfl, rfl, h.release hr hj hin, fun q hq hqr => ?_, fun r' => ?_⟩
      · exact isRef_release (hp ▸ hq) hqr
      · grind
    · -- an earlier root has a page, and the descriptor is not on it
      have hne := h.order r₀ hr₀ hpos r (by omega)
      have hapart : (s.roots r).page ≠ (s.roots r₀).page := fun he =>
        hrr (h.apart r hr r₀ hr₀ hne he)
      have hoff : ¬ ((s.roots r).page ≤ p ∧ (p - (s.roots r).page) / sizeofPageref <
          npagerefsPerPage) := by
        have h1 := h.aligned r hr
        have h2 := h.aligned r₀ hr₀
        simp only [sizeofPageref, npagerefsPerPage, pageSize] at *
        omega
      simp only [hne, if_false, hoff]
      exact ih (by omega) (by omega)

end Refs

end OsPaging.Vm
