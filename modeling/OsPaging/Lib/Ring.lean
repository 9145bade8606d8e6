import Mathlib.Data.List.Basic
import Mathlib.Logic.Function.Basic

/-!
# Rings

A queue in an array of `n` cells, between a `tail` where it is read and a `head` where it is
written. One cell stays free, so that `head = tail` means that the ring is empty. Writing a cell and
moving `head` past it are two operations, and so are reading and moving `tail`.

`contents` is the queue. A cell is written while it is not part of it (`contents_store`), `publish`
makes it the last (`contents_publish`) and `advance` drops the first (`contents_advance`).
-/

namespace OsPaging.Lib

open Function (update)

universe u

variable {α : Type u} {n : Nat}

/-- Cells, of which the first `n` are used, and two places among them. -/
structure RingBuffer (α : Type u) where
  cells : Nat → α
  head : Nat
  tail : Nat

namespace RingBuffer

/-- The place after `i`. -/
def next (n i : Nat) : Nat := (i + 1) % n

/-- How many cells there are from `tail` to `head`. -/
def length (n : Nat) (r : RingBuffer α) : Nat := (r.head + n - r.tail) % n

/-- What they hold. -/
def contents (n : Nat) (r : RingBuffer α) : List α :=
  (List.range (r.length n)).map fun i => r.cells ((r.tail + i) % n)

/-- Write the cell at `head`. -/
def store (r : RingBuffer α) (a : α) : RingBuffer α := { r with cells := update r.cells r.head a }

/-- Move `head`. -/
def publish (n : Nat) (r : RingBuffer α) : RingBuffer α := { r with head := next n r.head }

/-- Move `tail`. -/
def advance (n : Nat) (r : RingBuffer α) : RingBuffer α := { r with tail := next n r.tail }

/-- The two places are in the array. -/
structure InBounds (n : Nat) (r : RingBuffer α) : Prop where
  head : r.head < n
  tail : r.tail < n

variable {r : RingBuffer α} {a : α}

theorem InBounds.store (h : r.InBounds n) (a : α) : (r.store a).InBounds n := ⟨h.head, h.tail⟩

theorem InBounds.publish (h : r.InBounds n) : (r.publish n).InBounds n :=
  ⟨Nat.mod_lt _ (Nat.zero_lt_of_lt h.head), h.tail⟩

theorem InBounds.advance (h : r.InBounds n) : (r.advance n).InBounds n :=
  ⟨h.head, Nat.mod_lt _ (Nat.zero_lt_of_lt h.head)⟩

@[simp] theorem length_contents (r : RingBuffer α) : (r.contents n).length = r.length n := by
  simp [contents]

theorem length_eq (h : r.InBounds n) :
    r.length n = if r.tail ≤ r.head then r.head - r.tail else r.head + n - r.tail := by
  obtain ⟨hh, ht⟩ := h
  unfold length
  split_ifs with hle
  · rw [show r.head + n - r.tail = r.head - r.tail + n by omega, Nat.add_mod_right,
      Nat.mod_eq_of_lt (by omega)]
  · exact Nat.mod_eq_of_lt (by omega)

theorem length_lt (h : r.InBounds n) : r.length n < n := Nat.mod_lt _ (Nat.zero_lt_of_lt h.head)

theorem next_eq {i : Nat} (hi : i < n) : next n i = if i + 1 = n then 0 else i + 1 := by
  unfold next
  split_ifs with h
  · rw [h, Nat.mod_self]
  · exact Nat.mod_eq_of_lt (by omega)

variable (h : r.InBounds n)
include h

/-- The test for a full ring. -/
theorem next_head_eq_tail_iff : next n r.head = r.tail ↔ r.length n = n - 1 := by
  have hlen := length_eq h
  obtain ⟨hh, ht⟩ := h
  rw [next_eq hh, hlen]
  split_ifs <;> omega

/-- A place of the queue, without the remainder. -/
theorem place_eq {i : Nat} (hi : i < n) :
    (r.tail + i) % n = if r.tail + i < n then r.tail + i else r.tail + i - n := by
  obtain ⟨hh, ht⟩ := h
  split_ifs with hlt
  · exact Nat.mod_eq_of_lt hlt
  · rw [Nat.mod_eq_sub_mod (by omega), Nat.mod_eq_of_lt (by omega)]

/-- The head is the place after the last. -/
theorem place_length : (r.tail + r.length n) % n = r.head := by
  have hlen := length_eq h
  rw [place_eq h (length_lt h), hlen]
  obtain ⟨hh, ht⟩ := h
  split_ifs <;> omega

/-- No cell of the queue is at the head. -/
theorem place_ne_head {i : Nat} (hi : i < r.length n) : (r.tail + i) % n ≠ r.head := by
  have hlt := length_lt h
  have hlen := length_eq h
  rw [place_eq h (by omega)]
  grind

/-- Writing at the head does not touch the queue. -/
theorem contents_store (a : α) : (r.store a).contents n = r.contents n := by
  refine List.map_congr_left fun i hi => ?_
  exact Function.update_of_ne (place_ne_head h (List.mem_range.mp hi)) _ _

theorem length_publish (hroom : r.length n ≠ n - 1) : (r.publish n).length n = r.length n + 1 := by
  have hlen := length_eq h
  have hnext := next_eq h.head
  rw [length_eq h.publish, hlen]
  rw [hlen] at hroom
  obtain ⟨hh, ht⟩ := h
  simp only [publish, hnext]
  split_ifs at hroom ⊢ <;> omega

theorem contents_publish (hroom : r.length n ≠ n - 1) :
    (r.publish n).contents n = r.contents n ++ [r.cells r.head] := by
  unfold contents
  rw [length_publish h hroom, List.range_succ, List.map_append, List.map_singleton]
  have hlast : (r.tail + r.length n) % n = r.head := place_length h
  simp only [publish, hlast]

theorem length_advance (hne : r.length n ≠ 0) : r.length n = (r.advance n).length n + 1 := by
  have hlen := length_eq h
  have hnext := next_eq h.tail
  rw [length_eq h.advance, hlen]
  rw [hlen] at hne
  obtain ⟨hh, ht⟩ := h
  simp only [advance, hnext]
  split_ifs at hne ⊢ <;> omega

theorem contents_advance (hne : r.length n ≠ 0) :
    r.contents n = r.cells r.tail :: (r.advance n).contents n := by
  unfold contents
  rw [length_advance h hne, List.range_succ_eq_map, List.map_cons, List.map_map, Nat.add_zero,
    Nat.mod_eq_of_lt h.tail]
  congr 1
  refine List.map_congr_left fun i _ => ?_
  simp only [Function.comp_apply, advance, next, Nat.mod_add_mod]
  congr 2
  omega

end RingBuffer

end OsPaging.Lib
