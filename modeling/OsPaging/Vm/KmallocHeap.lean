import Mathlib.Data.List.Perm.Subperm
import OsPaging.Lib.Run
import OsPaging.Vm.KmallocShape

/-!
# The subpage heap never hands out overlapping memory

Every `kmalloc` and `kfree` of `Vm.Kmalloc` keeps the shape of the heap (`Vm.KmallocShape`), every
page of the heap has a block that is handed out, and the pages held are those pages and the pages of
the roots.

There is one way to break it. `allocpageref` marks a descriptor as used before there is a page for
it, and leaves the mark when `alloc_kpages` fails. After 256 such failures the first root is full
and has no page, the second root comes into use, and the next `freepageref` finds a root without a
page whose count is not zero: the kernel stops in an assertion and does not give the page back
(`descriptors_lost`).
**`subpage_heap_sound`** is for runs in which no root without a page is full.
-/

namespace OsPaging.Vm

open OsPaging.Lib
open Function (update update_self update_of_ne)

variable {sz k : Nat}

/-! ## Pages -/

/-- The pages held: those of the descriptors on the list, those of the roots, and `extra`. -/
structure HeldOk (s : Kheap) (all extra : List Nat) : Prop where
  nodup : s.held.Nodup
  mem_iff : ∀ v, v ∈ s.held ↔ v ∈ extra ∨ (∃ p ∈ all, s.prPageaddr p = v) ∨
    (v ≠ 0 ∧ ∃ r < numPagerefpages, (s.roots r).page = v)
  apart : ∀ p ∈ all, ∀ r < numPagerefpages, (s.roots r).page ≠ s.prPageaddr p

/-- Between the calls. -/
structure KheapInv (s : Kheap) (all : List Nat) (bySize free : Nat → List Nat) : Prop extends
    KheapShape s all bySize free where
  someLive : ∀ p ∈ all, ∃ x ∈ s.live, s.IsBlock p x.1
  heldOk : HeldOk s all []

namespace KheapShape

variable {s : Kheap} {all : List Nat} {bySize free : Nat → List Nat} {p a : Nat}

variable (h : KheapShape s all bySize free)
include h

theorem subset_blocks (hp : p ∈ all) :
    free p ⊆ blocksDown (s.prPageaddr p) (s.blockSize p) (pageSize / s.blockSize p) := by
  intro a ha
  exact mem_blocksDown.mpr ((h.mem_free p hp a).mp ha).1

theorem nfree_le (hp : p ∈ all) : s.nfree p ≤ pageSize / s.blockSize p := by
  have hsub := List.subperm_of_subset (h.chain p hp).nodup (h.subset_blocks hp)
  simpa [h.nfree p hp] using hsub.length_le

/-- All blocks of a page are free exactly when none is handed out. -/
theorem nfree_eq_iff (hp : p ∈ all) :
    s.nfree p = pageSize / s.blockSize p ↔ ∀ x ∈ s.live, ¬ s.IsBlock p x.1 := by
  have hsub := List.subperm_of_subset (h.chain p hp).nodup (h.subset_blocks hp)
  constructor
  · intro he x hx hb
    have hperm := hsub.perm_of_length_le (by simp [h.nfree p hp, he])
    have hfree := hperm.mem_iff.mpr (mem_blocksDown.mpr hb)
    exact ((h.mem_free p hp _).mp hfree).2 (List.mem_map_of_mem hx)
  · intro hnone
    have hback : blocksDown (s.prPageaddr p) (s.blockSize p) (pageSize / s.blockSize p) ⊆
        free p := by
      intro a ha
      refine (h.mem_free p hp a).mpr ⟨mem_blocksDown.mp ha, fun hl => ?_⟩
      obtain ⟨x, hx, rfl⟩ := List.mem_map.mp hl
      exact hnone x hx (mem_blocksDown.mp ha)
    have hnd : (blocksDown (s.prPageaddr p) (s.blockSize p)
        (pageSize / s.blockSize p)).Nodup := by
      have hpos := (h.size_dvd hp).2.1
      obtain ⟨n, hn⟩ : ∃ n, pageSize / s.blockSize p = n + 1 :=
        Nat.exists_eq_add_one.mpr (Nat.div_pos (Nat.le_of_dvd (by decide) (h.size_dvd hp).1)
          (by omega))
      rw [hn]
      exact (chained_threadBlocks s.mem (h.pageNe p hp) (by omega) n).nodup
    have hle := (List.subperm_of_subset hnd hback).length_le
    rw [length_blocksDown, h.nfree p hp] at hle
    exact le_antisymm (h.nfree_le hp) hle

/-- The roots may change as long as the descriptors on the lists stay in use. -/
theorem setRoots {roots : Nat → KheapRoot} (held : List Nat) (hok : RootsOk roots)
    (hmono : ∀ p, IsRef s.roots p → IsRef roots p) :
    KheapShape { s with roots := roots, held := held } all bySize free :=
  { h with roots := hok, ref := fun p hp => hmono p (h.ref p hp) }

end KheapShape

theorem blocktype_some (hsz : sz < largestSubpageSize) :
    ∃ b < 8, blocktype sz = some b ∧ sz ≤ sizes b := by
  cases hb : blocktype sz with
  | none =>
    exfalso
    have := List.find?_eq_none.mp hb 7 (by decide)
    simp only [sizes, largestSubpageSize] at this hsz
    exact this (by simpa using Nat.le_of_lt hsz)
  | some b =>
    have hmem := List.mem_of_find?_eq_some hb
    have hle := List.find?_some hb
    grind

/-! ## Calls -/

/-- A call keeps the invariant, or was not made. -/
def KheapSoundStep : Except KheapFault Kheap → Prop
  | .ok s => ∃ all bySize free, KheapInv s all bySize free
  | .error f => f = .disabled

namespace KheapInv

variable {s : Kheap} {all : List Nat} {bySize free : Nat → List Nat} {p a : Nat}

theorem doalloc_sound (h : KheapShape s all bySize free) (hheld : HeldOk s all []) (hp : p ∈ all)
    (hpos : 0 < s.nfree p) (hsz : sz ≤ s.blockSize p)
    (hsome : ∀ q ∈ all, q ≠ p → ∃ x ∈ s.live, s.IsBlock q x.1) :
    KheapSoundStep (s.doalloc p sz) := by
  obtain ⟨s', a, free', he, hs', hb, hl, hheld', hroots, hpab⟩ := h.doalloc_ok hp hpos hsz
  rw [he]
  have haddr : ∀ q, s'.prPageaddr q = s.prPageaddr q := fun q => by
    simp only [Kheap.prPageaddr, hpab]
  have hblock : ∀ q x, s'.IsBlock q x ↔ s.IsBlock q x := fun q x => by
    simp only [Kheap.IsBlock, Kheap.blockSize, Kheap.prBlocktype, Kheap.prPageaddr, hpab]
  refine ⟨all, bySize, free', hs', ?_, ?_⟩
  · intro q hq
    rw [hl]
    by_cases hqp : q = p
    · subst hqp
      exact ⟨_, List.mem_cons_self, (hblock q a).mpr hb⟩
    · grind
  · exact ⟨hheld' ▸ hheld.nodup, by simpa only [hheld', haddr, hroots] using hheld.mem_iff,
      by simpa only [haddr, hroots] using hheld.apart⟩

theorem heldOk_allocated {va : Option Nat} {extra : List Nat} {res : Nat × Kheap}
    (h : HeldOk s all extra) (hva : ∀ v, va = some v → v ≠ 0 ∧ v ∉ s.held)
    (hres : Allocated va s res) : HeldOk res.2 all extra := by
  have haddr : ∀ q, res.2.prPageaddr q = s.prPageaddr q := fun q => by
    rw [hres.rest]
    rfl
  rcases hres.pages with ⟨hheld, hpages⟩ | ⟨v, hv, hheld, r, hr, hzero, hpages⟩
  · exact ⟨hheld ▸ h.nodup, by simpa only [hheld, haddr, hpages] using h.mem_iff,
      by simpa only [haddr, hpages] using h.apart⟩
  · obtain ⟨hv0, hvh⟩ := hva v hv
    refine ⟨hheld ▸ List.nodup_cons.mpr ⟨hvh, h.nodup⟩, fun w => ?_, fun p hp r' hr' => ?_⟩
    · rw [hheld, List.mem_cons, h.mem_iff]
      simp only [haddr, hpages]
      constructor
      · grind
      · grind
    · rw [hpages, haddr]
      by_cases hrr : r' = r
      · rw [if_pos hrr]
        rintro rfl
        exact hvh ((h.mem_iff _).mpr (.inr (.inl ⟨p, hp, rfl⟩)))
      · rw [if_neg hrr]
        exact h.apart p hp r' hr'

/-- A page that was got and not used is given back. -/
theorem freeKpages_extra {v : Nat} (h : HeldOk s all [v]) (hp : ∀ p ∈ all, s.prPageaddr p ≠ v)
    (hr : ∀ r < numPagerefpages, (s.roots r).page ≠ v) :
    s.freeKpages v = .ok { s with held := s.held.erase v } ∧
      HeldOk { s with held := s.held.erase v } all [] := by
  have hmem : v ∈ s.held := (h.mem_iff v).mpr (.inl List.mem_cons_self)
  refine ⟨if_pos hmem, h.nodup.erase v, fun w => ?_, h.apart⟩
  simp only [h.nodup.mem_erase_iff, h.mem_iff, List.mem_singleton, List.not_mem_nil, false_or]
  constructor
  · rintro ⟨hne, hw | hw | hw⟩
    · exact absurd hw hne
    · exact .inl hw
    · exact .inr hw
  · rintro (⟨p, hpa, rfl⟩ | ⟨hw0, r, hrr, rfl⟩)
    · exact ⟨hp p hpa, .inr (.inl ⟨p, hpa, rfl⟩)⟩
    · grind

section

variable (h : KheapInv s all bySize free)
include h

theorem kmalloc_sound (hfull : FullHavePages s.roots) {page refPage : Option Nat}
    (hsz : sz < largestSubpageSize) (hfresh : s.FreshPages (page.toList ++ refPage.toList)) :
    KheapSoundStep (s.subpageKmalloc sz page refPage) := by
  obtain ⟨b, hb, hbt, hle⟩ := blocktype_some hsz
  simp only [Kheap.subpageKmalloc, hbt, h.findSpace_eq hb]
  cases hfind : (bySize b).find? fun p => 0 < s.nfree p with
  | some p =>
    have hmem := (h.mem_bySize b hb p).mp (List.mem_of_find?_eq_some hfind)
    have hpos := List.find?_some hfind
    refine doalloc_sound h.toKheapShape h.heldOk hmem.1 (by simpa using hpos) ?_
      fun q hq _ => h.someLive q hq
    rw [Kheap.blockSize, hmem.2]
    exact hle
  | none =>
    cases page with
    | none => exact ⟨all, bySize, free, h⟩
    | some prpage =>
      obtain ⟨hfr, hnd⟩ := hfresh
      obtain ⟨hv0, hva, hvh⟩ := hfr prpage (by simp)
      -- neither the heap nor the roots have the page
      have hnew : ∀ q ∈ all, s.prPageaddr q ≠ prpage := by
        rintro q hq rfl
        exact hvh ((h.heldOk.mem_iff _).mpr (.inr (.inl ⟨q, hq, rfl⟩)))
      have hnewr : ∀ r < numPagerefpages, (s.roots r).page ≠ prpage := by
        rintro r hr rfl
        exact hvh ((h.heldOk.mem_iff _).mpr (.inr (.inr ⟨hv0, r, hr, rfl⟩)))
      have hheld : HeldOk { s with held := prpage :: s.held } all [prpage] := by
        refine ⟨List.nodup_cons.mpr ⟨hvh, h.heldOk.nodup⟩, fun v => ?_, h.heldOk.apart⟩
        rw [List.mem_cons, h.heldOk.mem_iff]
        simp only [List.not_mem_nil, false_or, List.mem_singleton]
        exact Iff.rfl
      have hrefPage : ∀ v, refPage = some v → v ≠ 0 ∧ v % pageSize = 0 ∧ v ≠ prpage ∧
          v ∉ s.held := by
        grind
      have hres := allocpageref_allocated (s := { s with held := prpage :: s.held }) refPage
        (r := 0) (n := numPagerefpages) h.roots hfull (fun v hv => by
          obtain ⟨h1, h2, -, h3⟩ := hrefPage v hv
          refine ⟨h1, h2, ?_⟩
          rintro r hr rfl
          exact h3 ((h.heldOk.mem_iff _).mpr (.inr (.inr ⟨h1, r, hr, rfl⟩)))) (by simp) (by simp)
      rw [← List.range_eq_range'] at hres
      have hheld' := heldOk_allocated hheld (fun v hv => by
        obtain ⟨h1, -, h2, h3⟩ := hrefPage v hv
        exact ⟨h1, by simp [h2, h3]⟩) hres
      have hrootPages : ∀ r < numPagerefpages,
          ((Kheap.allocpageref { s with held := prpage :: s.held }
          refPage (List.range numPagerefpages)).2.roots r).page ≠ prpage := by
        intro r hr
        rcases hres.pages with ⟨-, hp⟩ | ⟨v, hv, -, r', -, -, hp⟩
        · rw [hp]
          exact hnewr r hr
        · grind
      dsimp only
      generalize Kheap.allocpageref { s with held := prpage :: s.held } refPage
        (List.range numPagerefpages) = res at hres hheld' hrootPages ⊢
      obtain ⟨pr, s₂⟩ := res
      have hrest : s₂ = { s with roots := s₂.roots, held := s₂.held } := hres.rest
      have haddr : ∀ q, s₂.prPageaddr q = s.prPageaddr q := fun q => by
        rw [hrest]
        rfl
      have hblock : ∀ q x, s₂.IsBlock q x ↔ s.IsBlock q x := fun q x => by
        rw [hrest]
        exact Iff.rfl
      have hlive : s₂.live = s.live := by rw [hrest]
      have hshape : KheapShape s₂ all bySize free := by
        rw [hrest]
        exact h.toKheapShape.setRoots _ hres.ok hres.mono
      have hnew₂ : ∀ q ∈ all, s₂.prPageaddr q ≠ prpage := fun q hq => by
        rw [haddr]
        exact hnew q hq
      cases pr with
      | zero =>
        obtain ⟨hfree, hheld''⟩ := freeKpages_extra hheld' hnew₂ hrootPages
        simp only [hfree]
        refine ⟨all, bySize, free, hshape.setRoots _ hshape.roots fun _ => id, ?_, hheld''⟩
        intro q hq
        obtain ⟨x, hx, hxb⟩ := h.someLive q hq
        exact ⟨x, hlive.symm ▸ hx, (hblock q _).mpr hxb⟩
      | succ pr =>
        obtain ⟨href, hnref⟩ := hres.new (Nat.succ_ne_zero pr)
        have hnotin : pr + 1 ∉ all := fun hm => hnref (h.ref _ hm)
        obtain ⟨hpa, hpt⟩ := KheapShape.pab_newPage_self (s := s₂) (p := pr + 1) hva hb
        have hother : ∀ q ∈ all, (s₂.newPage (pr + 1) prpage b).prPageaddr q = s₂.prPageaddr q ∧
            (s₂.newPage (pr + 1) prpage b).prBlocktype q = s₂.prBlocktype q := fun q hq =>
          KheapShape.pab_newPage_of_ne fun he => hnotin (he ▸ hq)
        refine doalloc_sound (hshape.newPage hb hnotin href hv0 hva hnew₂) ⟨hheld'.nodup, ?_, ?_⟩
          List.mem_cons_self ?_ ?_ ?_
        · intro v
          refine (hheld'.mem_iff v).trans ?_
          constructor
          · rintro (hv | ⟨q, hq, hqv⟩ | hv)
            · grind
            · grind
            · exact .inr (.inr hv)
          · rintro (hv | ⟨q, hq, hqv⟩ | hv)
            · exact absurd hv List.not_mem_nil
            · grind
            · exact .inr (.inr hv)
        · refine List.forall_mem_cons.mpr ⟨by rwa [hpa], fun q hq r hr => ?_⟩
          rw [(hother q hq).1]
          exact hheld'.apart q hq r hr
        · have hdvd := sizes_dvd hb
          simp only [Kheap.newPage, update_self]
          exact Nat.div_pos (Nat.le_of_dvd (by decide) hdvd.1) (by omega)
        · rw [Kheap.blockSize, hpt]
          exact hle
        · intro q hq hqp
          have hq := (List.mem_cons.mp hq).resolve_left hqp
          obtain ⟨x, hx, hxb⟩ := h.someLive q hq
          refine ⟨x, hlive.symm ▸ hx, ?_⟩
          have hxb := (hblock q x.1).mpr hxb
          simpa only [Kheap.IsBlock, Kheap.blockSize, hother q hq] using hxb

theorem kfree_sound (ha : a ∈ s.liveAddrs) :
    KheapSoundStep ({ s with live := s.live.filter (·.1 ≠ a) }.subpageKfree a) := by
  obtain ⟨x, hx, rfl⟩ := List.mem_map.mp ha
  obtain ⟨p, hp, hb, -⟩ := h.live x hx
  have hfind : { s with live := s.live.filter (·.1 ≠ x.1) }.findPage x.1 = .ok (some p) :=
    h.findPage_eq hp hb
  have hput := h.putBlock_ok hp hb ha
  have hfreed := h.free_block hp hb ha
  have hle := hfreed.nfree_le hp
  have hnfree := hfreed.nfree_eq_iff hp
  -- the pages without the block are as before
  have hsome : ∀ q ∈ all, q ≠ p → ∃ y ∈ (KheapShape.freed s p x.1).live,
      (KheapShape.freed s p x.1).IsBlock q y.1 := by
    intro q hq hqp
    obtain ⟨y, hy, hyb⟩ := h.someLive q hq
    refine ⟨y, List.mem_filter.mpr ⟨hy, ?_⟩, hyb⟩
    rw [decide_eq_true_eq]
    intro he
    exact hqp (h.isBlock_inj hq hp hyb (he ▸ hb))
  have hheld : HeldOk (KheapShape.freed s p x.1) all [] :=
    { h.heldOk with }
  simp only [Kheap.subpageKfree, hfind, hput, bind, Except.bind]
  split_ifs with hbad hall
  · exact absurd hbad (Nat.not_lt.mpr hle)
  · -- no block of the page is handed out any more
    have hnone := hnfree.mp hall
    obtain ⟨s₁, s₂, hremove, hrelease, hshape, hlive, hheld₂, hpab, hpages⟩ :=
      hfreed.remove_page hp rfl hnone
    have hremove : (KheapShape.freed s p x.1).removeLists p (Kheap.prBlocktype
        { s with live := s.live.filter (·.1 ≠ x.1) } p) = .ok s₁ := hremove
    simp only [hremove, hrelease]
    have haddr : ∀ q, s₂.prPageaddr q = s.prPageaddr q := fun q => by
      simp only [Kheap.prPageaddr, hpab]
      rfl
    have hmem : ∀ q, q ∈ all.erase p ↔ q ∈ all ∧ q ≠ p := by
      intro q
      rw [h.allChain.nodup.mem_erase_iff]
      exact and_comm
    have hextra : HeldOk s₂ (all.erase p) [s.prPageaddr p] := by
      refine ⟨hheld₂ ▸ h.heldOk.nodup, fun v => ?_, fun q hq r hr => ?_⟩
      · have hv := h.heldOk.mem_iff v
        simp only [List.not_mem_nil, false_or] at hv
        simp only [hheld₂, haddr, hpages, hmem, List.mem_singleton]
        refine hv.trans ⟨?_, ?_⟩
        · rintro (⟨q, hq, rfl⟩ | hr)
          · grind
          · exact .inr (.inr hr)
        · rintro (rfl | ⟨q, hq, rfl⟩ | hr)
          · exact .inl ⟨p, hp, rfl⟩
          · exact .inl ⟨q, hq.1, rfl⟩
          · exact .inr hr
      · rw [hpages, haddr]
        exact h.heldOk.apart q ((hmem q).mp hq).1 r hr
    obtain ⟨hfree, hheld'⟩ := freeKpages_extra hextra
      (fun q hq he => ((hmem q).mp hq).2 (h.pageInj q ((hmem q).mp hq).1 p hp
        ((haddr q).symm.trans he)))
      (fun r hr => by rw [hpages]; exact h.heldOk.apart p hp r hr)
    have hfree : s₂.freeKpages (Kheap.prPageaddr { s with live := s.live.filter (·.1 ≠ x.1) } p) =
        .ok { s₂ with held := s₂.held.erase (s.prPageaddr p) } := hfree
    rw [hfree]
    refine ⟨all.erase p, _, _, hshape.setRoots _ hshape.roots fun _ => id, ?_, hheld'⟩
    intro q hq
    obtain ⟨y, hy, hyb⟩ := hsome q ((hmem q).mp hq).1 ((hmem q).mp hq).2
    refine ⟨y, hlive.symm ▸ hy, ?_⟩
    simpa only [Kheap.IsBlock, Kheap.blockSize, Kheap.prBlocktype, Kheap.prPageaddr, hpab] using hyb
  · refine ⟨all, bySize, _, hfreed, fun q hq => ?_, hheld⟩
    by_cases hqp : q = p
    · subst hqp
      by_contra hnone
      exact hall (hnfree.mpr fun y hy hyb => hnone ⟨y, hy, hyb⟩)
    · exact hsome q hq hqp

theorem store_sound {addr word : Nat} (hm : s.MayStore addr) :
    KheapInv { s with mem := update s.mem addr word } all bySize free := by
  refine ⟨h.toKheapShape.store fun q hq x hxb hxl => ?_, h.someLive,
    { h.heldOk with }⟩
  rcases hm with ⟨y, hy, hle, hlt⟩ | hout
  · -- the address is in a block that was handed out
    obtain ⟨p, hp, hyb, hys⟩ := h.live y hy
    have hne : x ≠ y.1 := by
      rintro rfl
      exact hxl (List.mem_map_of_mem hy)
    have := h.blocks_apart hq hp hxb hyb hne
    have := (h.size_dvd hq).2.1
    omega
  · rintro rfl
    have hdvd := h.size_dvd hq
    rw [BlockAt.pageFrame_eq hxb hdvd.1 (by omega) (s.prPageaddr_aligned q)] at hout
    exact hout ((h.heldOk.mem_iff _).mpr (.inr (.inl ⟨q, hq, rfl⟩)))

theorem exec_sound (hfull : FullHavePages s.roots) (e : KheapMove) : KheapSoundStep (s.exec e) := by
  cases e with simp only [Kheap.exec]
  | kmalloc sz page refPage =>
    split_ifs with hok
    · exact h.kmalloc_sound hfull hok.1 hok.2
    · rfl
  | kfree ptr =>
    split_ifs with hok
    · exact h.kfree_sound hok
    · rfl
  | store addr word =>
    split_ifs with hok
    · exact ⟨all, bySize, free, h.store_sound hok⟩
    · rfl

end

theorem boot (mem : Nat → Nat) : KheapInv (Kheap.boot mem) [] (fun _ => []) fun _ => [] := by
  refine ⟨⟨⟨?_, ?_, ?_, ?_⟩, rfl, fun _ _ => rfl, ?_, ?_, ?_, ?_, ?_, ?_, ?_, ?_, ?_, ?_⟩, ?_, ?_,
    ?_, ?_⟩
  all_goals simp [Kheap.boot, Kheap.liveAddrs]
  exact fun v hv _ _ h0 => hv h0.symm

end KheapInv

/-! ## Runs -/

instance (roots : Nat → KheapRoot) : Decidable (FullHavePages roots) :=
  inferInstanceAs (Decidable (∀ r < numPagerefpages, _ → _))

namespace Kheap

/-- The runs in which no root without a page is full. -/
abbrev Runs : Kheap → List KheapMove → Kheap → Prop :=
  Run fun s e t => s.exec e = .ok t ∧ FullHavePages t.roots

end Kheap

/-- What the heap is like between the calls, with the descriptors on the lists and the free lists.
-/
structure KheapLists (s : Kheap) (all : List Nat) (bySize free : Nat → List Nat) : Prop where
  /-- The free list of a page ends, and has `nfree` different blocks of the page. -/
  freeList : ∀ p ∈ all, Chained s.mem 0 (s.freeHead p) (free p) ∧ (free p).Nodup ∧
    (∀ a ∈ free p, s.IsBlock p a) ∧ (free p).length = s.nfree p
  /-- Every page is once on the list of all pages, and once on the list of its size and on no
  other. -/
  allPages : Chained s.nextAll 0 s.allbase all ∧ all.Nodup
  pagesOfSize : ∀ b < 8, Chained s.nextSamesize 0 (s.sizebases b) (bySize b) ∧ (bySize b).Nodup ∧
    ∀ p, p ∈ bySize b ↔ p ∈ all ∧ s.prBlocktype p = b
  types : ∀ p ∈ all, s.prBlocktype p < 8
  /-- What was handed out is a block, large enough, and on no free list. -/
  live : ∀ x ∈ s.live, ∃ p ∈ all, s.IsBlock p x.1 ∧ x.2 ≤ s.blockSize p ∧ ∀ q ∈ all, x.1 ∉ free q
  liveOnce : (s.live.map Prod.fst).Nodup
  /-- Different blocks do not overlap, on one page or on two. -/
  apart : ∀ p ∈ all, ∀ q ∈ all, ∀ a b, s.IsBlock p a → s.IsBlock q b → a ≠ b →
    a + s.blockSize p ≤ b ∨ b + s.blockSize q ≤ a

/-- What every state of a run is like. -/
structure KheapSound (s : Kheap) : Prop where
  lists : ∃ all bySize free, KheapLists s all bySize free
  /-- The pages that have not been given back are those with a block handed out, and the pages of
  descriptors. -/
  held : ∀ v, v ∈ s.held ↔ (∃ x ∈ s.live, pageFrame x.1 = v) ∨
    (v ≠ 0 ∧ ∃ r < numPagerefpages, (s.roots r).page = v)
  /-- Every request, and every free of a live result, returns. -/
  noFault : ∀ e f, s.exec e = .error f → f = .disabled

theorem KheapInv.sound {s : Kheap} {all : List Nat} {bySize free : Nat → List Nat}
    (h : KheapInv s all bySize free) (hfull : FullHavePages s.roots) : KheapSound s := by
  have hframe : ∀ p ∈ all, ∀ a, s.IsBlock p a → pageFrame a = s.prPageaddr p := by
    intro p hp a ha
    have hdvd := h.size_dvd hp
    exact BlockAt.pageFrame_eq ha hdvd.1 (by omega) (s.prPageaddr_aligned p)
  refine ⟨⟨all, bySize, free, ?_⟩, fun v => ?_, fun e f he => ?_⟩
  · constructor
    · intro p hp
      exact ⟨h.chain p hp, (h.chain p hp).nodup, fun a ha => ((h.mem_free p hp a).mp ha).1,
        h.nfree p hp⟩
    · exact ⟨h.allChain, h.allChain.nodup⟩
    · exact fun b hb => ⟨h.sizeChain b hb, (h.sizeChain b hb).nodup, h.mem_bySize b hb⟩
    · exact h.type
    · intro x hx
      obtain ⟨p, hp, hb, hs⟩ := h.live x hx
      exact ⟨p, hp, hb, hs, fun q hq hf =>
        ((h.mem_free q hq _).mp hf).2 (List.mem_map_of_mem hx)⟩
    · exact h.liveNodup
    · exact fun p hp q hq a b => h.blocks_apart hp hq
  · have hv := h.heldOk.mem_iff v
    simp only [List.not_mem_nil, false_or] at hv
    rw [hv]
    refine or_congr_left ⟨?_, ?_⟩
    · rintro ⟨p, hp, rfl⟩
      obtain ⟨x, hx, hb⟩ := h.someLive p hp
      exact ⟨x, hx, hframe p hp _ hb⟩
    · rintro ⟨x, hx, rfl⟩
      obtain ⟨p, hp, hb, -⟩ := h.live x hx
      exact ⟨p, hp, (hframe p hp _ hb).symm⟩
  · have hsound := h.exec_sound hfull e
    rw [he] at hsound
    exact hsound

/-- **The subpage heap is sound** after every sequence of calls in which no root without a page is
full. -/
theorem subpage_heap_sound (mem : Nat → Nat) {es : List KheapMove} {s : Kheap}
    (h : (Kheap.boot mem).Runs es s) : KheapSound s := by
  have hinv : (∃ all bySize free, KheapInv s all bySize free) ∧ FullHavePages s.roots := by
    refine h.invariant (P := fun s => (∃ all bySize free, KheapInv s all bySize free) ∧
      FullHavePages s.roots) ⟨⟨[], _, _, .boot mem⟩, ?_⟩ fun s e t hs he => ?_
    · intro r _ hn
      exact absurd hn (by simp [Kheap.boot, npagerefsPerPage])
    · obtain ⟨⟨all, bySize, free, hi⟩, hfull⟩ := hs
      have hsound := hi.exec_sound hfull e
      rw [he.1] at hsound
      exact ⟨hsound, he.2⟩
  obtain ⟨⟨all, bySize, free, hi⟩, hfull⟩ := hinv
  exact hi.sound hfull

/-- Two requests of one size, and the first block is freed. -/
def Kheap.twoBlocks : List KheapMove :=
  [.kmalloc 100 (some 4096) (some 8192), .kmalloc 100 none none, .kfree 8064]

theorem subpage_heap_sound_two_blocks :
    ∃ s, (Kheap.boot fun _ => 0).Runs Kheap.twoBlocks s ∧ KheapSound s ∧
      s.live = [(7936, 100)] := by
  refine Run.exists_imp (Q := fun s => s.live = [(7936, 100)]) (Run.exists_of_foldlM
    (f := fun s e => (Kheap.exec s e).toOption.filter fun t => FullHavePages t.roots)
    (fun s e t h => by simpa [Option.filter_eq_some_iff, toOption_eq_some] using h)
    (by decide)) fun s hr hs => ⟨?_, hs⟩
  exact subpage_heap_sound _ hr

/-! ## A full root without a page -/

namespace Kheap

/-- After `k` requests that found a page for the heap, and none for the descriptors. -/
def lost (k : Nat) : Kheap :=
  { boot fun _ => 0 with
    roots := update (boot fun _ => 0).roots 0 ⟨0, fun j => decide (j < k), k⟩ }

theorem firstUnused_lost (hk : k < npagerefsPerPage) :
    KheapRoot.firstUnused ⟨0, fun j => decide (j < k), k⟩ = some k := by
  simp only [KheapRoot.firstUnused, List.find?_range_eq_some]
  grind

/-- Every such request leaves one more descriptor in use. -/
theorem exec_lost (hk : k < npagerefsPerPage) :
    (lost k).exec (.kmalloc 16 (some 4096) none) = .ok (lost (k + 1)) := by
  have hbit : update (fun j => decide (j < k)) k true = fun j => decide (j < k + 1) := by
    grind
  have halloc : { lost k with held := [4096] }.allocpageref none (List.range numPagerefpages) =
      (0, { lost (k + 1) with held := [4096] }) := by
    have hr : (lost k).roots 0 = ⟨0, fun j => decide (j < k), k⟩ := by simp [lost]
    have hrange : List.range numPagerefpages = 0 :: List.range' 1 15 := rfl
    rw [hrange, allocpageref]
    simp only [hr, Nat.not_le.mpr hk, if_false, firstUnused_lost hk, ne_eq, not_true_eq_false, hbit]
    simp only [lost, Function.update_idem]
  have hfresh : (lost k).FreshPages [4096] := by
    refine ⟨fun v hv => ?_, List.nodup_singleton _⟩
    obtain rfl := List.mem_singleton.mp hv
    exact ⟨by decide, by decide, List.not_mem_nil⟩
  have hspace : (lost k).findSpace 0 = .ok none := rfl
  have hcall : (lost k).subpageKmalloc 16 (some 4096) none = .ok (lost (k + 1)) := by
    have hb : blocktype 16 = some 0 := rfl
    have hheld : 4096 :: (lost k).held = [4096] := rfl
    simp only [subpageKmalloc, hb, hspace, hheld, halloc]
    rfl
  have hok : 16 < largestSubpageSize ∧ (lost k).FreshPages [4096] := ⟨by decide, hfresh⟩
  simp only [exec, Option.toList_some, Option.toList_none, List.append_nil]
  rw [if_pos hok, hcall]

theorem run_lost (hk : k ≤ npagerefsPerPage) :
    Run (fun s e t => exec s e = .ok t) (boot fun _ => 0)
      (List.replicate k (.kmalloc 16 (some 4096) none)) (lost k) := by
  induction k with
  | zero =>
    have hroots : (lost 0).roots = (boot fun _ => 0).roots :=
      Function.update_eq_self_iff.mpr (by simp [boot])
    have h0 : lost 0 = { boot fun _ => 0 with roots := (lost 0).roots } := rfl
    rw [h0, hroots]
    exact .nil
  | succ k ih =>
    rw [List.replicate_succ']
    exact (ih (by omega)).snoc (exec_lost hk)

end Kheap

/-- 256 requests without a page for the descriptors, then one that gets both pages: the free of its
block stops in the assertion of `freepageref`, and the page is not given back. -/
theorem descriptors_lost :
    ∃ s, Run (fun s e t => Kheap.exec s e = .ok t) (Kheap.boot fun _ => 0)
      (List.replicate 256 (.kmalloc 16 (some 4096) none) ++
        [.kmalloc 16 (some 4096) (some 8192)]) s ∧
      s.live = [(8176, 16)] ∧ 4096 ∈ s.held ∧ s.exec (.kfree 8176) = .error .assertion := by
  have hlast : ((Kheap.lost 256).exec (.kmalloc 16 (some 4096) (some 8192))).toOption.any
      (fun s => decide (s.live = [(8176, 16)]) && decide (4096 ∈ s.held) &&
        match s.exec (.kfree 8176) with
        | .error .assertion => true
        | _ => false) = true := by decide
  cases hs : (Kheap.lost 256).exec (.kmalloc 16 (some 4096) (some 8192)) with
  | error f => rw [hs] at hlast; exact absurd hlast (by simp [Except.toOption])
  | ok s =>
    rw [hs] at hlast
    simp only [Except.toOption, Option.any_some, Bool.and_eq_true, decide_eq_true_eq] at hlast
    obtain ⟨⟨hlive, hheld⟩, hfree⟩ := hlast
    refine ⟨s, (Kheap.run_lost le_rfl).snoc hs, hlive, hheld, ?_⟩
    grind

end OsPaging.Vm
