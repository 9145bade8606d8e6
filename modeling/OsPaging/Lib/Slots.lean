import Mathlib.Data.List.Basic

/-!
# Tables with free places

An array of pointers some of which are null: `slotAt` reads a place, beyond the end as well,
`firstFree` is where a new entry goes, and `putAt` puts it there, at the end if there is no free
place. Setting a place to `none` frees it.
-/

namespace OsPaging.Lib

universe u

variable {α : Type u} {l : List (Option α)} {i j : Nat}

/-- What is in place `i`. -/
def slotAt (l : List (Option α)) (i : Nat) : Option α := l[i]?.join

/-- The first free place, or the end. -/
def firstFree (l : List (Option α)) : Nat := l.findIdx (·.isNone)

/-- Put an entry in place `i`, or at the end. -/
def putAt (l : List (Option α)) (i : Nat) (a : α) : List (Option α) :=
  if i < l.length then l.set i (some a) else l ++ [some a]

@[simp] theorem slotAt_nil (i : Nat) : slotAt ([] : List (Option α)) i = none := by simp [slotAt]

theorem slotAt_of_length_le (h : l.length ≤ i) : slotAt l i = none := by
  simp [slotAt, List.getElem?_eq_none h]

theorem lt_length_of_slotAt {a : α} (h : slotAt l i = some a) : i < l.length := by
  by_contra hge
  rw [slotAt_of_length_le (by omega)] at h
  cases h

variable (l)

theorem slotAt_set_none (i j : Nat) :
    slotAt (l.set i none) j = if j = i then none else slotAt l j := by
  unfold slotAt
  grind

theorem slotAt_putAt (i j : Nat) (a : α) :
    slotAt (putAt l i a) j = if j = min i l.length then some a else slotAt l j := by
  unfold putAt
  split_ifs with hi hj hj
  · rw [Nat.min_eq_left (by omega)] at hj
    subst hj
    simp [slotAt, hi]
  · rw [Nat.min_eq_left (by omega)] at hj
    simp [slotAt, Ne.symm hj]
  · rw [Nat.min_eq_right (by omega)] at hj
    subst hj
    simp [slotAt]
  · rw [Nat.min_eq_right (by omega)] at hj
    rcases Nat.lt_or_gt_of_ne hj with hlt | hgt
    · simp [slotAt, List.getElem?_append_left hlt]
    · rw [slotAt_of_length_le (l := l) (by omega), slotAt_of_length_le]
      grind

theorem firstFree_le : firstFree l ≤ l.length := List.findIdx_le_length

@[simp] theorem slotAt_firstFree : slotAt l (firstFree l) = none := by
  rcases Nat.lt_or_ge (firstFree l) l.length with hlt | hge
  · have h : l[firstFree l].isNone = true := List.findIdx_getElem (w := hlt)
    rw [slotAt, List.getElem?_eq_getElem hlt]
    simpa using h
  · exact slotAt_of_length_le hge

/-- Taking out what was put in a free place. -/
theorem slotAt_unput (a : α) (j : Nat) :
    slotAt ((putAt l (firstFree l) a).set (firstFree l) none) j = slotAt l j := by
  rw [slotAt_set_none, slotAt_putAt, Nat.min_eq_left (firstFree_le l)]
  split_ifs with hj
  · rw [hj, slotAt_firstFree]
  · rfl

theorem length_putAt_le (i : Nat) (a : α) : (putAt l i a).length ≤ l.length + 1 := by
  unfold putAt
  split_ifs <;> simp

end OsPaging.Lib
