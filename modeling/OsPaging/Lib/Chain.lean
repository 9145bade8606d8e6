import Mathlib.Data.List.Nodup
import Mathlib.Logic.Function.Basic
import Mathlib.Tactic.ByContra

/-!
# Linked lists

A linked list in memory: `next` is the link stored in each node, `null` ends the list, and
`Chained next null p xs` says that the nodes from `p` on are `xs`. A chain is determined by where it
starts, so it is acyclic (`Chained.nodup`).

The loops over such lists, with a bound on their rounds: `walk` looks for a node, `lastNode` goes
to the end, and `unlink` takes a node out through a pointer to the link that leads to it. Each has
one lemma that says what it does on a chain shorter than the bound.
-/

namespace OsPaging.Lib

open Function (update update_self update_of_ne)

variable {α ε : Type*} {next next' : α → α} {null p q x : α} {xs ys : List α}

/-- The nodes from `p` on are `xs`. -/
def Chained (next : α → α) (null : α) : α → List α → Prop
  | p, [] => p = null
  | p, x :: xs => p = x ∧ x ≠ null ∧ Chained next null (next x) xs

@[simp] theorem chained_nil : Chained next null p [] ↔ p = null := Iff.rfl

theorem chained_cons :
    Chained next null p (x :: xs) ↔ p = x ∧ x ≠ null ∧ Chained next null (next x) xs := Iff.rfl

namespace Chained

theorem unique (h : Chained next null p xs) (h' : Chained next null p ys) : xs = ys := by
  induction xs generalizing p ys with
  | nil =>
    cases ys with
    | nil => rfl
    | cons y ys =>
      obtain ⟨rfl, hy, -⟩ := h'
      exact absurd h hy
  | cons x xs ih =>
    obtain ⟨rfl, hx, h⟩ := h
    cases ys with
    | nil => exact absurd h' hx
    | cons y ys =>
      obtain ⟨rfl, -, h'⟩ := h'
      rw [ih h h']

theorem ne_null (h : Chained next null p xs) (hx : x ∈ xs) : x ≠ null := by
  induction xs generalizing p with
  | nil => simp at hx
  | cons y ys ih =>
    obtain ⟨-, hy, h⟩ := h
    grind

/-- The chain from a node on. -/
theorem drop (h : Chained next null p (ys ++ x :: xs)) : Chained next null x (x :: xs) := by
  induction ys generalizing p with
  | nil =>
    obtain ⟨-, hx, h⟩ := h
    exact ⟨rfl, hx, h⟩
  | cons y ys ih => exact ih h.2.2

/-- A chain is acyclic. -/
theorem nodup (h : Chained next null p xs) : xs.Nodup := by
  induction xs generalizing p with
  | nil => exact List.nodup_nil
  | cons x xs ih =>
    refine List.nodup_cons.mpr ⟨fun hx => ?_, ih h.2.2⟩
    -- from the second `x` on there would be a shorter list of the same nodes
    obtain ⟨as, bs, rfl⟩ := List.append_of_mem hx
    obtain ⟨rfl, hne, hrest⟩ := h
    have hlen := congrArg List.length (unique hrest.drop (chained_cons.mpr ⟨rfl, hne, hrest⟩))
    simp at hlen
    omega

/-- Other links do not matter. -/
theorem congr (h : Chained next null p xs) (hn : ∀ x ∈ xs, next' x = next x) :
    Chained next' null p xs := by
  induction xs generalizing p with
  | nil => exact h
  | cons x xs ih =>
    obtain ⟨rfl, hx, h⟩ := h
    refine ⟨rfl, hx, ?_⟩
    grind

/-- A new first node. -/
theorem push [DecidableEq α] (h : Chained next null p xs) (hx : x ≠ null) (hnew : x ∉ xs) :
    Chained (update next x p) null x (x :: xs) := by
  refine ⟨rfl, hx, ?_⟩
  rw [update_self]
  refine h.congr fun y hy => update_of_ne ?_ _ _
  rintro rfl
  exact hnew hy

/-- A new last node. -/
theorem concat [DecidableEq α] {y : α} (h : Chained next null p (xs ++ [x])) (hy : y ≠ null)
    (hnew : y ∉ xs ++ [x]) :
    Chained (update (update next x y) y null) null p (xs ++ [x] ++ [y]) := by
  induction xs generalizing p with
  | nil =>
    obtain ⟨rfl, hx, -⟩ := h
    have hyp : p ≠ y := fun he => hnew (by simp [he])
    refine ⟨rfl, hx, ?_⟩
    rw [update_of_ne hyp, update_self]
    exact ⟨rfl, hy, update_self _ _ _⟩
  | cons z zs ih =>
    have hnd := h.nodup
    obtain ⟨rfl, hz, h⟩ := h
    have hpx : p ≠ x := by
      grind
    have hpy : p ≠ y := fun he => hnew (by simp [he])
    refine ⟨rfl, hz, ?_⟩
    rw [update_of_ne hpy, update_of_ne hpx]
    exact ih h fun hmem => hnew (List.mem_cons_of_mem _ hmem)

end Chained

/-! ## Going to the end -/

/-- The loop that stops at the node whose link is `null`. -/
def lastNode [DecidableEq α] (next : α → α) (null : α) : Nat → α → Option α
  | 0, _ => none
  | n + 1, p => if next p = null then some p else lastNode next null n (next p)

theorem lastNode_eq [DecidableEq α] {n : Nat} (h : Chained next null p (xs ++ [x]))
    (hn : xs.length < n) : lastNode next null n p = some x := by
  induction xs generalizing p n with
      obtain ⟨n, rfl⟩ := Nat.exists_eq_add_one.mpr (Nat.zero_lt_of_lt hn)
  | nil =>
    obtain ⟨rfl, -, hend⟩ := h
    rw [lastNode, if_pos (chained_nil.mp hend)]
  | cons y ys ih =>
    obtain ⟨rfl, -, h⟩ := h
    have hnext : next p ≠ null := by
      cases ys with
      | nil => exact h.1 ▸ h.2.1
      | cons z zs => exact h.1 ▸ h.2.1
    rw [lastNode, if_neg hnext]
    exact ih h (by simpa using hn)

/-! ## Looking for a node -/

/-- The loop over the list that stops at the first node for which `visit` says so. -/
def walk [DecidableEq α] (next : α → α) (null : α) (visit : α → Except ε Bool) (stuck : ε) :
    Nat → α → Except ε (Option α)
  | 0, _ => .error stuck
  | n + 1, p =>
    if p = null then .ok none
    else
      match visit p with
      | .error e => .error e
      | .ok true => .ok (some p)
      | .ok false => walk next null visit stuck n (next p)

theorem walk_eq [DecidableEq α] {visit : α → Except ε Bool} {stop : α → Bool} {stuck : ε} {n : Nat}
    (h : Chained next null p xs) (hv : ∀ x ∈ xs, visit x = .ok (stop x)) (hn : xs.length < n) :
    walk next null visit stuck n p = .ok (xs.find? stop) := by
  induction xs generalizing p n with
      obtain ⟨n, rfl⟩ := Nat.exists_eq_add_one.mpr (Nat.zero_lt_of_lt hn)
  | nil =>
    rw [walk, if_pos (chained_nil.mp h), List.find?_nil]
  | cons x xs ih =>
    obtain ⟨rfl, hx, h⟩ := h
    rw [walk, if_neg hx, hv p List.mem_cons_self, List.find?_cons]
    grind

/-! ## Taking a node out -/

/-- The loop of `unlink` once it is at the link of `q`. -/
def unlinkAfter [DecidableEq α] (next : α → α) (null x : α) : Nat → α → Option (α → α)
  | 0, _ => none
  | n + 1, q =>
    if next q = null then some next
    else if next q = x then some (update next q (next x))
    else unlinkAfter next null x n (next q)

/-- Takes `x` out of the list that starts at `base`: the new start and the new links. -/
def unlink [DecidableEq α] (next : α → α) (null x : α) (n : Nat) (base : α) :
    Option (α × (α → α)) :=
  if base = null then some (base, next)
  else if base = x then some (next x, next)
  else (unlinkAfter next null x n base).map (base, ·)

theorem unlinkAfter_eq [DecidableEq α] {n : Nat} (h : Chained next null q (q :: ys)) (hq : q ≠ x)
    (hn : ys.length < n) :
    ∃ next', unlinkAfter next null x n q = some next' ∧
      Chained next' null q (q :: ys.erase x) ∧ ∀ z, z ∉ q :: ys → next' z = next z := by
  induction ys generalizing q n with
      obtain ⟨n, rfl⟩ := Nat.exists_eq_add_one.mpr (Nat.zero_lt_of_lt hn)
  | nil =>
    obtain ⟨-, hq', hnil⟩ := h
    exact ⟨next, by rw [unlinkAfter, if_pos (chained_nil.mp hnil)], ⟨rfl, hq', hnil⟩, fun _ _ =>
      rfl⟩
  | cons y ys ih =>
    have hnd := h.nodup
    obtain ⟨-, hq', hy⟩ := h
    have hnext : next q = y := hy.1
    have hy' := hy.2.1
    rw [hnext] at hy
    rw [unlinkAfter, hnext, if_neg hy']
    by_cases hyx : y = x
    · subst hyx
      rw [if_pos rfl]
      refine ⟨_, rfl, ?_, fun z hz => update_of_ne ?_ _ _⟩
      · rw [List.erase_cons_head]
        refine ⟨rfl, hq', ?_⟩
        rw [update_self]
        refine hy.2.2.congr fun z hz => update_of_ne ?_ _ _
        grind
      · rintro rfl
        exact hz List.mem_cons_self
    · rw [if_neg hyx]
      obtain ⟨next', he, hc, hout⟩ := ih hy hyx (by simpa using hn)
      refine ⟨next', he, ?_, fun z hz => hout z fun hm => hz (List.mem_cons_of_mem _ hm)⟩
      rw [List.erase_cons_tail (by simpa using hyx)]
      refine ⟨rfl, hq', ?_⟩
      -- the link of `q` is not among those that changed
      grind

/-- What `unlink` does: the node is gone, and links outside the list are as they were. -/
theorem unlink_eq [DecidableEq α] {n : Nat} (h : Chained next null p xs) (hn : xs.length < n) :
    ∃ p' next', unlink next null x n p = some (p', next') ∧
      Chained next' null p' (xs.erase x) ∧ ∀ z, z ∉ xs → next' z = next z := by
  cases xs with
  | nil => exact ⟨p, next, by rw [unlink, if_pos (chained_nil.mp h)], h, fun _ _ => rfl⟩
  | cons y ys =>
    have hchain := h
    obtain ⟨rfl, hp, h⟩ := h
    rw [unlink, if_neg hp]
    by_cases hpx : p = x
    · grind
    · rw [if_neg hpx, List.erase_cons_tail (by simpa using hpx)]
      obtain ⟨next', he, hc, hout⟩ := unlinkAfter_eq hchain hpx
        (Nat.lt_of_succ_lt (by simpa using hn))
      exact ⟨p, next', by rw [he]; rfl, hc, hout⟩

end OsPaging.Lib
