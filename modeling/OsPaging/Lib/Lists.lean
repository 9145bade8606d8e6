import Mathlib.Data.List.Basic

/-!
# Updating the element a search finds

A linked list searched for its first match, and written through the pointer the search returned:
`modifyFirst p g` applies `g` to the first element with `p`. `find_split` is the one fact the
proofs need: the search splits the list at the element it found, and the update rewrites that
element in place.
-/

namespace OsPaging.Lib

open Function

universe u v

variable {α : Type u} {β : Type v}

/-- Apply `g` to the first element that satisfies `p`. -/
def modifyFirst (p : α → Bool) (g : α → α) : List α → List α
  | [] => []
  | x :: xs => if p x then g x :: xs else x :: modifyFirst p g xs

variable {p q : α → Bool} {g : α → α} {l l₁ l₂ : List α} {x : α}

theorem modifyFirst_append (h₁ : ∀ y ∈ l₁, p y = false) (hx : p x = true) :
    modifyFirst p g (l₁ ++ x :: l₂) = l₁ ++ g x :: l₂ := by
  induction l₁ with
  | nil => simp [modifyFirst, hx]
  | cons y ys ih =>
    have hy : p y = false := h₁ y List.mem_cons_self
    simp only [List.cons_append, modifyFirst, hy, Bool.false_eq_true, if_false]
    rw [ih fun z hz => h₁ z (List.mem_cons_of_mem y hz)]

/-- A successful search splits the list, and the update rewrites the element it found. -/
theorem find_split (h : l.find? p = some x) :
    ∃ l₁ l₂, l = l₁ ++ x :: l₂ ∧ p x = true ∧ (∀ y ∈ l₁, p y = false) ∧
      ∀ g, modifyFirst p g l = l₁ ++ g x :: l₂ := by
  obtain ⟨hx, l₁, l₂, rfl, h₁⟩ := List.find?_eq_some_iff_append.mp h
  have h₁' : ∀ y ∈ l₁, p y = false := fun y hy => by simpa using h₁ y hy
  exact ⟨l₁, l₂, rfl, hx, h₁', fun g => modifyFirst_append h₁' hx⟩

/-- An update changes what the element it found contributes to a list, and nothing else. -/
theorem flatMap_modifyFirst (k : α → List β) (h : l.find? p = some x) :
    ∃ rest, (l.flatMap k).Perm (k x ++ rest) ∧
      ∀ g, ((modifyFirst p g l).flatMap k).Perm (k (g x) ++ rest) := by
  obtain ⟨l₁, l₂, rfl, -, -, hm⟩ := find_split h
  have hp : ∀ y : α, ((l₁ ++ y :: l₂).flatMap k).Perm (k y ++ (l₁.flatMap k ++ l₂.flatMap k)) := by
    intro y
    rw [List.flatMap_append, List.flatMap_cons, ← List.append_assoc, ← List.append_assoc]
    exact List.perm_append_comm.append_right _
  grind

/-- An element after the update is the updated one or was there before. -/
theorem mem_of_mem_modifyFirst {y : α} (h : l.find? p = some x) (hy : y ∈ modifyFirst p g l) :
    y = g x ∨ y ∈ l := by
  obtain ⟨l₁, l₂, rfl, -, -, hm⟩ := find_split h
  grind

/-- An update that keeps `f` keeps `f` of every element. -/
theorem map_modifyFirst {f : α → β} (hf : ∀ x, f (g x) = f x) :
    (modifyFirst p g l).map f = l.map f := by
  induction l with
  | nil => rfl
  | cons y ys ih =>
    unfold modifyFirst
    split
    · simp [hf]
    · simp [ih]

@[simp] theorem length_modifyFirst : (modifyFirst p g l).length = l.length := by
  induction l with
  | nil => rfl
  | cons y ys ih =>
    unfold modifyFirst
    split <;> simp [ih]

/-- A search by a key the update keeps finds the element it found before, updated or not. -/
theorem find_modifyFirst (hq : ∀ x, q (g x) = q x) (h : l.find? q = some x) :
    ∃ y, (modifyFirst p g l).find? q = some y ∧ (y = x ∨ y = g x) := by
  induction l with
  | nil => exact absurd h (by simp)
  | cons z zs ih =>
    unfold modifyFirst
    grind

theorem find_modifyFirst_none (hq : ∀ x, q (g x) = q x) (h : l.find? q = none) :
    (modifyFirst p g l).find? q = none := by
  induction l with
  | nil => rfl
  | cons z zs ih =>
    rw [List.find?_eq_none] at h
    unfold modifyFirst
    grind

/-- What is said of the images holds of any list with the same images. -/
theorem forall_mem_of_map_eq {l' : List α} {f : α → β} {P : β → Prop} (hf : l'.map f = l.map f)
    (h : ∀ x ∈ l, P (f x)) : ∀ x ∈ l', P (f x) := by
  rw [← List.forall_mem_map, hf]
  exact List.forall_mem_map.mpr h

/-- The count of a property of numbers below `n` that changes at `k`. -/
theorem countP_range_change {n k : Nat} {f g : Nat → Bool} (hk : k < n)
    (hfg : ∀ j, j ≠ k → g j = f j) :
    (List.range n).countP g + (if f k = true then 1 else 0) =
      (List.range n).countP f + if g k = true then 1 else 0 := by
  induction n with
  | zero => omega
  | succ n ih =>
    rw [List.range_succ, List.countP_append, List.countP_append, List.countP_singleton,
      List.countP_singleton]
    by_cases hkn : k = n
    · subst hkn
      have hsame : (List.range k).countP g = (List.range k).countP f := by
        refine List.countP_congr fun j hj => ?_
        rw [hfg j (Nat.ne_of_lt (List.mem_range.mp hj))]
      rw [hsame]
      omega
    · grind

/-- Setting one bit of a table lowers the number of its unset bits by one. -/
theorem countP_update_true {n i : Nat} {t : Nat → Bool} (hi : i < n) (h : t i = false) :
    (List.range n).countP (fun j => !t j) =
      (List.range n).countP (fun j => !update t i true j) + 1 := by
  have hchange := countP_range_change (f := fun j => !t j) (g := fun j => !update t i true j) hi
    fun j hj => by rw [update_of_ne hj]
  simpa [h] using hchange.symm

/-- Clearing one bit lowers the number of set bits by one. -/
theorem countP_update_false {n i : Nat} {t : Nat → Bool} (hi : i < n) (h : t i = true) :
    (List.range n).countP t = (List.range n).countP (update t i false) + 1 := by
  have hcount := countP_update_true (t := fun j => !t j) hi (by simp [h])
  have hclear : (fun j => !update (fun j => !t j) i true j) =
      update t i false := by
    grind
  grind

end OsPaging.Lib
