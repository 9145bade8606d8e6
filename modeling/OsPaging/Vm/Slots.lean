import Mathlib.Data.List.Perm.Basic
import OsPaging.Vm.System

/-!
# Swap slots and the entries that hold them

A swapped-out entry names its slot. `Slots others s` says that the slots of the running process's
swapped-out entries, together with `others` (the slots of the processes that do not run), are
pairwise distinct and occupied. `swap_in` does not check that a slot is occupied, so this is what
makes a page come back from its own slot. It holds for kernel requests of any size and for faults
at any address, on the last page too.

The other direction, that every occupied slot has an entry (`SlotsOnto`), needs a swap-out to take
a page that is not in the swap file already.
-/

namespace OsPaging.Vm

open OsPaging.Lib

/-- The slot of an entry, if it is swapped out. -/
def PtEntry.slots (e : PtEntry) : List Nat := if e.swapped then [e.swapIndex] else []

/-- The slots a page table holds. -/
def slotsOf (es : List PtEntry) : List Nat := es.flatMap PtEntry.slots

theorem mem_slotsOf {es : List PtEntry} {i : Nat} :
    i ∈ slotsOf es ↔ ∃ e ∈ es, e.swapped = true ∧ e.swapIndex = i := by
  unfold slotsOf PtEntry.slots
  grind

/-- A write to the entry that a search finds changes that entry's slot and no other. -/
theorem slotsOf_update {es : List PtEntry} {p : PtEntry → Bool} {e : PtEntry}
    (h : es.find? p = some e) :
    ∃ rest, (slotsOf es).Perm (e.slots ++ rest) ∧
      ∀ g, (slotsOf (modifyFirst p g es)).Perm ((g e).slots ++ rest) :=
  flatMap_modifyFirst PtEntry.slots h

theorem slotsOf_inj {es : List PtEntry} (h : (slotsOf es).Nodup) :
    ∀ {e x : PtEntry}, e ∈ es → x ∈ es → e.swapped = true → x.swapped = true →
      e.swapIndex = x.swapIndex → e = x := by
  induction es with
  | nil => intro e x he; exact absurd he List.not_mem_nil
  | cons y ys ih =>
    intro e x he hx hes hxs hi
    unfold slotsOf at h ih
    rw [List.flatMap_cons] at h
    obtain ⟨-, hys, hdis⟩ := List.nodup_append.mp h
    have hhead : ∀ z ∈ ys, z.swapped = true → y.swapped = true → y.swapIndex ≠ z.swapIndex := by
      intro z hz hzs hy
      exact hdis _ (by simp [PtEntry.slots, hy]) _ (mem_slotsOf.mpr ⟨z, hz, hzs, rfl⟩)
    grind

/-- The slots in use are distinct and occupied. -/
structure Slots (others : List Nat) (s : VmState) : Prop where
  nodup : (slotsOf s.entries ++ others).Nodup
  full : ∀ i ∈ slotsOf s.entries ++ others, i < swapSlots ∧ s.swaptable i = false

/-- Every occupied slot has an entry. -/
def SlotsOnto (s : VmState) : Prop :=
  ∀ i < swapSlots, s.swaptable i = false → i ∈ slotsOf s.entries

namespace Slots

variable {others : List Nat} {s s' s₁ t : VmState} {f n vaddr index : Nat} {e : PtEntry}

theorem same (h : Slots others s) (he : t.entries = s.entries) (hs : t.swaptable = s.swaptable) :
    Slots others t :=
  ⟨by rw [he]; exact h.nodup, by rw [he, hs]; exact h.full⟩

/-- `swap_out` takes an empty slot, so it is nobody's. -/
theorem swapOutVictim {victim : Int} (h : Slots others s)
    (ho : Vm.swapOutVictim s victim = .ok s') : Slots others s' := by
  obtain ⟨f, e, index, -, -, hfind, -, hev, hlt, hempty, rfl⟩ := swapOutVictim_ok ho
  rw [← hev] at hfind
  obtain ⟨rest, hold, hnew⟩ := slotsOf_update hfind
  have hnew := (hnew fun e => { e with swapIndex := index, swapped := true }).append_right others
  have hold := hold.append_right others
  rw [← swappedOut_entries] at hnew
  have hsub : ∀ i ∈ rest ++ others, i ∈ slotsOf s.entries ++ others := by
    grind
  have hnew' : (slotsOf (swappedOut s e.vaddr (s.coremap f).paddr index).entries ++ others).Perm
      (index :: (rest ++ others)) := hnew
  refine ⟨hnew'.nodup_iff.mpr (List.nodup_cons.mpr ⟨fun hi => ?_, ?_⟩), fun i hi => ?_⟩
  · rw [(h.full index (hsub index hi)).2] at hempty
    cases hempty
  · have := hold.nodup_iff.mp h.nodup
    grind
  · rw [hnew'.mem_iff] at hi
    simp only [swappedOut, Function.update_apply]
    rcases List.mem_cons.mp hi with rfl | hi
    · exact ⟨hlt, by simp⟩
    · refine ⟨(h.full i (hsub i hi)).1, ?_⟩
      split
      · rfl
      · exact (h.full i (hsub i hi)).2

theorem modifyFrame (h : Slots others s) (f : Nat) (g : CoremapEntry → CoremapEntry) :
    Slots others (s.modifyFrame f g) :=
  h.same rfl rfl

theorem stable (others : List Nat) : AllocStable (Slots others) :=
  ⟨fun h _ => h.same rfl rfl, Slots.swapOutVictim, Slots.modifyFrame⟩

variable (h : Slots others s)
include h

theorem taken (ht : FrameTaken s f s₁) : Slots others s₁ :=
  (stable others).taken h ht

theorem link (f vaddr : Nat) : Slots others (linkEntry s f vaddr) := by
  cases has : s.as with
  | none =>
    refine h.same ?_ rfl
    simp [linkEntry, VmState.entries, VmState.modifyPt, VmState.modifyFrame, has]
  | some as =>
    have hs : slotsOf (linkEntry s f vaddr).entries = slotsOf s.entries := by
      rw [linkEntry_entries (by rw [has]; rfl)]
      rfl
    exact ⟨by rw [hs]; exact h.nodup, by rw [hs]; exact h.full⟩

/-- The slot that `swap_in` empties was this entry's, and no other entry's. -/
theorem pagedIn (f : Nat) (hfind : s.entries.find? (ptMatch vaddr) = some e)
    (hs : e.swapped = true) :
    Slots others (Vm.pagedIn s f vaddr e.swapIndex) ∧
      s.swaptable e.swapIndex = false := by
  obtain ⟨rest, hold, hnew⟩ := slotsOf_update hfind
  have hnew := (hnew fun e => { e with ppageIndex := f, swapped := false }).append_right others
  have hold := hold.append_right others
  rw [← pagedIn_entries s f vaddr e.swapIndex] at hnew
  have hold' : (slotsOf s.entries ++ others).Perm (e.swapIndex :: (rest ++ others)) := by
    rw [PtEntry.slots, if_pos hs] at hold
    exact hold
  have hnew' : (slotsOf (Vm.pagedIn s f vaddr e.swapIndex).entries ++ others).Perm
      (rest ++ others) := hnew
  obtain ⟨hnot, hnodup⟩ := List.nodup_cons.mp (hold'.nodup_iff.mp h.nodup)
  refine ⟨⟨hnew'.nodup_iff.mpr hnodup, fun i hi => ?_⟩, ?_⟩
  · rw [hnew'.mem_iff] at hi
    obtain ⟨h1, h2⟩ := h.full i (hold'.mem_iff.mpr (List.mem_cons_of_mem _ hi))
    refine ⟨h1, ?_⟩
    simp only [Vm.pagedIn, Function.update_apply]
    grind
  · exact (h.full _ (hold'.mem_iff.mpr List.mem_cons_self)).2

theorem tlbLoad (st : Stats) (faultpage paddr : Nat) :
    Slots others (Vm.tlbLoad { s with stats := st } faultpage paddr) :=
  h.same (sameTables_tlbLoad s st faultpage paddr).entries (tlbLoad_swaptable _ _ _)

theorem faulted (hs : Started s) {faultpage kpages : Nat} {addrs : List Nat}
    (hf : Faulted s faultpage kpages addrs s') : Slots others s' := by
  cases hf with
  | @fresh f addrs s₁ s₂ hnone _ ht hk =>
    have hpage := (h.taken ht).modifyFrame f fun _ =>
      { status := .dirty, paddr := f * pageSize, vaddr := faultpage, size := 1 }
    have hkm := (stable others).kmallocPages ((hs.taken ht).modifyFrame f _) hpage hk
    exact (hkm.link f faultpage).tlbLoad _ _ _
  | @swapin f e e₁ s₁ he hs ht he₁ hs₁ =>
    exact ((h.taken ht).pagedIn f he₁ hs₁).1.tlbLoad _ _ _
  | reload he hs => exact h.tlbLoad _ _ _

end Slots

end OsPaging.Vm
