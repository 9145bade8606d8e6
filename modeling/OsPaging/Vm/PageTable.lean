import OsPaging.Vm.Machine

/-!
# The page table

`pt_init` and `pt_search` of `kern/vm/pt.c`. The C code keeps the pointer `pt_search` returns and
writes the entry through it; a search for the same address returns the same node as long as no
node was removed and no `vaddr` changed, so a write is `Pt.update` at the address searched for.

`pt_search` compares `vaddr < pte -> vaddr + PAGE_SIZE` in 32-bit arithmetic. For the last page
of the address space the right side is `0`: an entry for it is never found. `PtWf` is what holds
of a table without one: pages at distinct aligned addresses, each found by every address in it
(`PtWf.search_some`).
-/

namespace OsPaging.Vm

open OsPaging.Lib

/-- `pt_init` (`pt.c:5-14`). -/
def ptInit : Pt := ⟨[], 0⟩

/-- The test in the loop of `pt_search` (`pt.c:22`). -/
def ptMatch (vaddr : Nat) (e : PtEntry) : Bool :=
  decide (e.vaddr ≤ vaddr ∧ vaddr < (e.vaddr + pageSize) % wordSize)

/-- `pt_search` (`pt.c:18-28`). -/
def ptSearch (pt : Pt) (vaddr : Nat) : Option PtEntry :=
  pt.entries.find? (ptMatch vaddr)

/-- A write through the pointer `ptSearch pt vaddr` returned. -/
def Pt.update (pt : Pt) (vaddr : Nat) (g : PtEntry → PtEntry) : Pt :=
  { pt with entries := modifyFirst (ptMatch vaddr) g pt.entries }

/-- The entries `pt_search` can tell apart: aligned, below the last page of the address space,
and at distinct addresses. -/
structure PtWf (es : List PtEntry) : Prop where
  aligned : ∀ e ∈ es, e.vaddr % pageSize = 0
  below : ∀ e ∈ es, e.vaddr + pageSize < wordSize
  distinct : (es.map PtEntry.vaddr).Nodup

/-- The last page of the address space, which `pt_search` never finds. -/
abbrev lastPage : Nat := 0xfffff000

theorem pageFrame_aligned (addr : Nat) : pageFrame addr % pageSize = 0 := by
  simp [pageFrame]

theorem pageFrame_of_aligned {addr : Nat} (h : addr % pageSize = 0) : pageFrame addr = addr := by
  unfold pageFrame
  simp only [pageSize] at *
  omega

@[simp] theorem pageFrame_pageFrame (addr : Nat) : pageFrame (pageFrame addr) = pageFrame addr :=
  pageFrame_of_aligned (pageFrame_aligned addr)

theorem pageFrame_lt {addr : Nat} (h : addr < lastPage) : pageFrame addr + pageSize < wordSize := by
  unfold pageFrame
  simp only [pageSize, wordSize, lastPage] at *
  omega

theorem ptMatch_keep {vaddr : Nat} {g : PtEntry → PtEntry} (hg : ∀ e, (g e).vaddr = e.vaddr)
    (e : PtEntry) : ptMatch vaddr (g e) = ptMatch vaddr e := by
  unfold ptMatch
  rw [hg]

namespace PtWf

variable {es : List PtEntry} {e x : PtEntry} {vaddr : Nat} {g : PtEntry → PtEntry}

theorem nil : PtWf [] := ⟨by simp, by simp, by simp⟩

variable (h : PtWf es)
include h

theorem match_iff (he : e ∈ es) : ptMatch vaddr e = true ↔ e.vaddr = pageFrame vaddr := by
  have h1 := h.aligned e he
  have h2 := h.below e he
  unfold ptMatch pageFrame
  grind

theorem eq_of_vaddr (he : e ∈ es) (hx : x ∈ es) (hv : x.vaddr = e.vaddr) : x = e :=
  List.inj_on_of_nodup_map h.distinct hx he hv

/-- **`pt_search` finds the entry of the page**, by any address in it. -/
theorem search_some : es.find? (ptMatch vaddr) = some e ↔ e ∈ es ∧ e.vaddr = pageFrame vaddr := by
  constructor
  · intro hf
    have he := List.mem_of_find?_eq_some hf
    exact ⟨he, (h.match_iff he).mp (List.find?_some hf)⟩
  · rintro ⟨he, hv⟩
    cases hf : es.find? (ptMatch vaddr) with
    | none => exact absurd ((h.match_iff he).mpr hv) (List.find?_eq_none.mp hf e he)
    | some x =>
      have hx := List.mem_of_find?_eq_some hf
      have := (h.match_iff hx).mp (List.find?_some hf)
      rw [h.eq_of_vaddr he hx (this.trans hv.symm)]

theorem search_none : es.find? (ptMatch vaddr) = none ↔ ∀ e ∈ es, e.vaddr ≠ pageFrame vaddr := by
  rw [List.find?_eq_none]
  exact forall₂_congr fun e he => not_congr (h.match_iff he)

/-- A write that keeps the page's address keeps the table well formed. -/
theorem update (hg : ∀ e, (g e).vaddr = e.vaddr) : PtWf (modifyFirst (ptMatch vaddr) g es) := by
  have hmap : (modifyFirst (ptMatch vaddr) g es).map PtEntry.vaddr = es.map PtEntry.vaddr :=
    map_modifyFirst hg
  exact ⟨forall_mem_of_map_eq (P := (· % pageSize = 0)) hmap h.aligned,
    forall_mem_of_map_eq (P := (· + pageSize < wordSize)) hmap h.below, hmap ▸ h.distinct⟩

/-- The entries after a write: the entry written, and every entry of another page. -/
theorem mem_update (hf : es.find? (ptMatch vaddr) = some e) :
    x ∈ modifyFirst (ptMatch vaddr) g es ↔ x = g e ∨ x ∈ es ∧ x.vaddr ≠ e.vaddr := by
  obtain ⟨l₁, l₂, rfl, -, -, hm⟩ := find_split hf
  have hd := h.distinct
  rw [List.map_append, List.map_cons, List.nodup_middle, List.nodup_cons, List.mem_append,
    not_or] at hd
  rw [hm, List.mem_append, List.mem_cons, List.mem_append, List.mem_cons]
  constructor
  · rintro (hx | rfl | hx)
    · exact Or.inr ⟨Or.inl hx, fun hv => hd.1.1 (hv ▸ List.mem_map_of_mem hx)⟩
    · exact Or.inl rfl
    · exact Or.inr ⟨Or.inr (Or.inr hx), fun hv => hd.1.2 (hv ▸ List.mem_map_of_mem hx)⟩
  · rintro (rfl | ⟨hx | rfl | hx, hv⟩)
    · exact Or.inr (Or.inl rfl)
    · exact Or.inl hx
    · exact absurd rfl hv
    · exact Or.inr (Or.inr hx)

theorem cons (ha : e.vaddr % pageSize = 0) (hb : e.vaddr + pageSize < wordSize)
    (hne : ∀ x ∈ es, x.vaddr ≠ e.vaddr) : PtWf (e :: es) := by
  refine ⟨List.forall_mem_cons.mpr ⟨ha, h.aligned⟩, List.forall_mem_cons.mpr ⟨hb, h.below⟩, ?_⟩
  rw [List.map_cons, List.nodup_cons]
  refine ⟨fun hm => ?_, h.distinct⟩
  grind

end PtWf

end OsPaging.Vm
