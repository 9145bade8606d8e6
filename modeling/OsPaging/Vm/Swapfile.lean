import OsPaging.Lib.Bytes
import OsPaging.Vm.Machine

/-!
# The swap file

`swap_init`, `write_page`, `read_page`, `swap_out`, `swap_in` and `swap_unmark` of
`kern/vm/swapfile.c`. The swap vnode is an array of bytes; a `VOP_WRITE` or `VOP_READ` that
returns an error moves no data here (every caller in the VM code panics on it).
-/

namespace OsPaging.Vm

open OsPaging.Lib Function

/-- `swap_init`'s loop: every slot is empty. -/
def swapInit (s : VmState) : VmState := { s with swaptable := fun _ => true }

/-- `write_page` (`swapfile.c:56-68`): the error of the `VOP_WRITE`. The kernel address it writes
from is in kseg0, so it is the frame's own memory. -/
def writePage (s : VmState) (index page : Nat) : Nat × VmState :=
  let err := s.vop s.nvop
  let s := { s with nvop := s.nvop + 1 }
  if err = 0 then
    (0, { s with swapspace := blit s.swapspace (index * pageSize) s.ram page pageSize })
  else (err, s)

/-- `read_page` (`swapfile.c:70-79`). -/
def readPage (s : VmState) (index page : Nat) : Nat × VmState :=
  let err := s.vop s.nvop
  let s := { s with nvop := s.nvop + 1 }
  if err = 0 then
    (0, { s with ram := blit s.ram page s.swapspace (index * pageSize) pageSize })
  else (err, s)

/-- The first empty slot, as the loop of `swap_out` finds it. -/
def freeSlot (s : VmState) : Option Nat := (List.range' 0 swapSlots).find? s.swaptable

/-- `swap_out` (`swapfile.c:85-107`): the slot, or `none` for `-1`. The slot is marked full
before the error of the write is looked at. -/
def swapOut (s : VmState) (page : Nat) : Except Panic (Option Nat × VmState) :=
  match freeSlot s with
  | none => .error .swapFull
  | some index =>
    let (err, s) := writePage s index page
    let s := { s with swaptable := update s.swaptable index false }
    if err ≠ 0 then .ok (none, s)
    else
      .ok (some index,
        { s with stats := { s.stats with swapfileWrites := s.stats.swapfileWrites + 1 } })

/-- `swap_in` (`swapfile.c:113-120`): `true` for `0`, `false` for `-1`. -/
def swapIn (s : VmState) (index paddr : Nat) : Bool × VmState :=
  let (err, s) := readPage s index paddr
  if err ≠ 0 then (false, s)
  else (true, { s with swaptable := update s.swaptable index true })

/-- `swap_unmark` (`swapfile.c:122-126`). -/
def swapUnmark (s : VmState) (index : Nat) : Except Panic VmState :=
  if s.swaptable index = false then
    .ok { s with swaptable := update s.swaptable index true }
  else .error .slotEmpty

/-- A page of RAM as `swap_out` leaves it in the swap file. -/
def swapWritten (s : VmState) (index page : Nat) : VmState :=
  { s with
    nvop := s.nvop + 1
    swapspace := blit s.swapspace (index * pageSize) s.ram page pageSize
    swaptable := update s.swaptable index false
    stats := { s.stats with swapfileWrites := s.stats.swapfileWrites + 1 } }

/-- A page of the swap file as `swap_in` leaves it in RAM. -/
def swapLoaded (s : VmState) (index page : Nat) : VmState :=
  { s with
    nvop := s.nvop + 1
    ram := blit s.ram page s.swapspace (index * pageSize) pageSize
    swaptable := update s.swaptable index true }

theorem freeSlot_some {s : VmState} {i : Nat} (h : freeSlot s = some i) :
    i < swapSlots ∧ s.swaptable i = true := by
  obtain ⟨h1, h2, -⟩ := List.find?_range'_eq_some.mp h
  exact ⟨by simpa using h2, h1⟩

theorem swapOut_ok {s s' : VmState} {page index : Nat}
    (h : swapOut s page = .ok (some index, s')) :
    index < swapSlots ∧ s.swaptable index = true ∧ s' = swapWritten s index page := by
  unfold swapOut writePage at h
  cases hi : freeSlot s with
  | none => rw [hi] at h; exact absurd h (by simp)
  | some i =>
    obtain ⟨hlt, hempty⟩ := freeSlot_some hi
    rw [hi] at h
    by_cases herr : s.vop s.nvop = 0
    · simp only [herr, if_true, ne_eq, not_true_eq_false, if_false, Except.ok.injEq,
        Prod.mk.injEq, Option.some.injEq] at h
      obtain ⟨rfl, rfl⟩ := h
      exact ⟨hlt, hempty, rfl⟩
    · simp [herr] at h

theorem swapIn_ok {s s' : VmState} {index page : Nat} (h : swapIn s index page = (true, s')) :
    s' = swapLoaded s index page := by
  unfold swapIn readPage at h
  by_cases herr : s.vop s.nvop = 0
  · simp only [herr, if_true, ne_eq, not_true_eq_false, if_false, Prod.mk.injEq, true_and] at h
    exact h.symm
  · simp [herr] at h

end OsPaging.Vm
