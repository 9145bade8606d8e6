import Mathlib.Data.List.Rotate
import Mathlib.Order.Nat

/-!
# The cyclic order of a sorted list from a pointer

A pointer `p` into an increasing list of numbers lists it in cyclic order: the elements at or
above `p` first, then those below (`cyclicFrom`). Moving the pointer past the first of them
rotates the list by one (`cyclicFrom_succ_head`), so serving the elements in turn serves each
one once in every round.
-/

namespace OsPaging.Lib

/-- The elements of `l` from `p` on, and then those below `p`. -/
def cyclicFrom (p : Nat) (l : List Nat) : List Nat :=
  l.filter (fun x => decide (p ≤ x)) ++ l.filter (fun x => decide (x < p))

variable {p : Nat} {l : List Nat}

/-- An increasing list is cut in two at `p`. -/
theorem filter_lt_append_filter_le (hl : l.Pairwise (· < ·)) :
    l.filter (fun x => decide (x < p)) ++ l.filter (fun x => decide (p ≤ x)) = l := by
  induction l with
  | nil => rfl
  | cons x xs ih =>
    obtain ⟨hx, hxs⟩ := List.pairwise_cons.mp hl
    by_cases hp : x < p
    · grind
    · -- everything after `x` is above `p` too
      have h1 : (x :: xs).filter (fun y => decide (y < p)) = [] := by
        refine List.filter_eq_nil_iff.mpr fun y hy => ?_
        grind
      grind

theorem cyclicFrom_perm (hl : l.Pairwise (· < ·)) : (cyclicFrom p l).Perm l := by
  conv_rhs => rw [← filter_lt_append_filter_le (p := p) hl]
  exact List.perm_append_comm

/-- A pointer at or below every element lists them in order. -/
theorem cyclicFrom_of_le (h : ∀ x ∈ l, p ≤ x) : cyclicFrom p l = l := by
  have h1 : l.filter (fun x => decide (p ≤ x)) = l :=
    List.filter_eq_self.mpr fun x hx => by simpa using h x hx
  have h2 : l.filter (fun x => decide (x < p)) = [] :=
    List.filter_eq_nil_iff.mpr fun x hx => by simpa using h x hx
  rw [cyclicFrom, h1, h2, List.append_nil]

/-- A pointer past every element lists them in order too. -/
theorem cyclicFrom_of_lt (h : ∀ x ∈ l, x < p) : cyclicFrom p l = l := by
  have h1 : l.filter (fun x => decide (p ≤ x)) = [] :=
    List.filter_eq_nil_iff.mpr fun x hx => by simpa using h x hx
  have h2 : l.filter (fun x => decide (x < p)) = l :=
    List.filter_eq_self.mpr fun x hx => by simpa using h x hx
  rw [cyclicFrom, h1, h2, List.nil_append]

/-- The pointer moves past the first element at or above it. -/
theorem cyclicFrom_succ {x : Nat} {rest : List Nat} (hl : l.Pairwise (· < ·))
    (h : l.filter (fun x => decide (p ≤ x)) = x :: rest) :
    cyclicFrom (x + 1) l = (cyclicFrom p l).rotate 1 := by
  have hcut := filter_lt_append_filter_le (p := p) hl
  have hx : p ≤ x := by
    grind
  have hrest : ∀ y ∈ rest, x < y := by
    rw [← hcut, h] at hl
    exact (List.pairwise_cons.mp (List.pairwise_append.mp hl).2.1).1
  have hbelow : ∀ y ∈ l.filter (fun x => decide (x < p)), y < p :=
    fun y hy => by simpa using (List.mem_filter.mp hy).2
  rw [cyclicFrom, cyclicFrom, h]
  generalize l.filter (fun x => decide (x < p)) = below at hcut hbelow
  rw [← hcut, h]
  have h1 : below.filter (fun y => decide (x + 1 ≤ y)) = [] :=
    List.filter_eq_nil_iff.mpr fun y hy => by have := hbelow y hy; simpa using by omega
  have h2 : rest.filter (fun y => decide (x + 1 ≤ y)) = rest :=
    List.filter_eq_self.mpr fun y hy => by have := hrest y hy; simpa using by omega
  have h3 : below.filter (fun y => decide (y < x + 1)) = below :=
    List.filter_eq_self.mpr fun y hy => by have := hbelow y hy; simpa using by omega
  have h4 : rest.filter (fun y => decide (y < x + 1)) = [] :=
    List.filter_eq_nil_iff.mpr fun y hy => by have := hrest y hy; simpa using by omega
  have h5 : decide (x + 1 ≤ x) = false := decide_eq_false (by omega)
  have h6 : decide (x < x + 1) = true := decide_eq_true (by omega)
  rw [List.filter_append, List.filter_append, h1, h3, List.filter_cons, List.filter_cons, h5, h6,
    h2, h4, List.cons_append, List.rotate_cons_succ, List.rotate_zero]
  grind

/-- **Serving the first element rotates the cyclic order**, also when the search for it has to
start again below the pointer. -/
theorem cyclicFrom_succ_head {x : Nat} (hl : l.Pairwise (· < ·))
    (h : (cyclicFrom p l).head? = some x) :
    cyclicFrom (x + 1) l = (cyclicFrom p l).rotate 1 := by
  cases hup : l.filter (fun x => decide (p ≤ x)) with
  | cons y rest =>
    obtain rfl : y = x := by simpa [cyclicFrom, hup] using h
    exact cyclicFrom_succ hl hup
  | nil =>
    -- nothing is left above the pointer: the round starts again at the bottom
    have hlt : ∀ y ∈ l, y < p := fun y hy => by
      simpa using List.filter_eq_nil_iff.mp hup y hy
    rw [cyclicFrom_of_lt hlt] at h ⊢
    have hzero : l.filter (fun x => decide (0 ≤ x)) = l :=
      List.filter_eq_self.mpr fun y _ => by simp
    cases l with
    | nil => simp at h
    | cons y ys =>
      obtain rfl : y = x := by simpa using h
      rw [cyclicFrom_succ hl hzero, cyclicFrom_of_le fun y _ => Nat.zero_le y]

end OsPaging.Lib
