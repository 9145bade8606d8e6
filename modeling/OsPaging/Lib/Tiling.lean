import Mathlib.Data.List.Basic

/-!
# Pieces laid end to end

A list of pieces laid one after another from an address on: `layEnd size a bs` is where they end,
`LaidAt size a bs s b` says that the piece `b` starts at `s`. Pieces of one list do not overlap,
and replacing some of them by others that take the same room moves no piece.
-/

namespace OsPaging.Lib

variable {β : Type*} (size : β → Nat)

/-- Where pieces laid from `a` on end. -/
def layEnd (a : Nat) : List β → Nat
  | [] => a
  | b :: bs => layEnd (a + size b) bs

/-- The piece `b` starts at `s`. -/
def LaidAt (a : Nat) : List β → Nat → β → Prop
  | [], _, _ => False
  | c :: cs, s, b => (s = a ∧ b = c) ∨ LaidAt (a + size c) cs s b

variable {size} {a s t : Nat} {b c : β} {bs xs mid mid' ys : List β}

@[simp] theorem layEnd_nil : layEnd size a [] = a := rfl

@[simp] theorem layEnd_cons : layEnd size a (b :: bs) = layEnd size (a + size b) bs := rfl

@[simp] theorem layEnd_append (xs ys : List β) :
    layEnd size a (xs ++ ys) = layEnd size (layEnd size a xs) ys := by
  induction xs generalizing a with
  | nil => rfl
  | cons x xs ih => exact ih

theorem layEnd_concat : layEnd size a (xs ++ [b]) = layEnd size a xs + size b :=
  layEnd_append xs [b]

theorem le_layEnd : a ≤ layEnd size a bs := by
  induction bs generalizing a with
  | nil => exact Nat.le_refl a
  | cons b bs ih => exact Nat.le_trans (Nat.le_add_right a (size b)) ih

@[simp] theorem not_laidAt_nil : ¬ LaidAt size a [] s b := id

@[simp] theorem laidAt_cons :
    LaidAt size a (c :: bs) s b ↔ (s = a ∧ b = c) ∨ LaidAt size (a + size c) bs s b := Iff.rfl

theorem laidAt_append :
    LaidAt size a (xs ++ ys) s b ↔ LaidAt size a xs s b ∨
      LaidAt size (layEnd size a xs) ys s b := by
  induction xs generalizing a with
  | nil => simp
  | cons x xs ih => simp [ih, or_assoc]

/-- A piece lies between the ends. -/
theorem LaidAt.bounds (h : LaidAt size a bs s b) : a ≤ s ∧ s + size b ≤ layEnd size a bs := by
  induction bs generalizing a with
  | nil => exact absurd h not_laidAt_nil
  | cons c cs ih =>
    rcases h with ⟨rfl, rfl⟩ | h
    · exact ⟨Nat.le_refl _, le_layEnd⟩
    · obtain ⟨hlo, hhi⟩ := ih h
      exact ⟨by omega, hhi⟩

theorem LaidAt.mem (h : LaidAt size a bs s b) : b ∈ bs := by
  induction bs generalizing a with
  | nil => exact absurd h not_laidAt_nil
  | cons c cs ih =>
    rcases h with ⟨-, rfl⟩ | h
    · exact List.mem_cons_self
    · exact List.mem_cons_of_mem _ (ih h)

theorem laidAt_mid : LaidAt size a (xs ++ [b] ++ ys) (layEnd size a xs) b :=
  laidAt_append.mpr (.inl (laidAt_append.mpr (.inr (.inl ⟨rfl, rfl⟩))))

/-- The pieces before and after. -/
theorem LaidAt.split (h : LaidAt size a bs s b) :
    ∃ xs ys, bs = xs ++ b :: ys ∧ s = layEnd size a xs := by
  induction bs generalizing a with
  | nil => exact absurd h not_laidAt_nil
  | cons c cs ih =>
    rcases h with ⟨rfl, rfl⟩ | h
    · exact ⟨[], cs, rfl, rfl⟩
    · obtain ⟨xs, ys, rfl, rfl⟩ := ih h
      exact ⟨c :: xs, ys, rfl, rfl⟩

/-- Two pieces are the same one or do not overlap. -/
theorem LaidAt.apart (h : LaidAt size a bs s b) (h' : LaidAt size a bs t c) :
    (s = t ∧ b = c) ∨ s + size b ≤ t ∨ t + size c ≤ s := by
  induction bs generalizing a with
  | nil => exact absurd h not_laidAt_nil
  | cons d ds ih =>
    rcases h with ⟨rfl, rfl⟩ | h <;> rcases h' with ⟨rfl, rfl⟩ | h'
    · exact .inl ⟨rfl, rfl⟩
    · exact .inr (.inl h'.bounds.1)
    · exact .inr (.inr h.bounds.1)
    · exact ih h h'

/-- Other pieces that take the same room move none of the rest. -/
theorem LaidAt.splice (h : LaidAt size a (xs ++ mid ++ ys) s b)
    (hb : ¬ LaidAt size (layEnd size a xs) mid s b)
    (hroom : ∀ a, layEnd size a mid' = layEnd size a mid) :
    LaidAt size a (xs ++ mid' ++ ys) s b := by
  simp only [laidAt_append, layEnd_append, hroom] at h ⊢
  grind

end OsPaging.Lib
