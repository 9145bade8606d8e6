import Mathlib.Data.List.ReduceOption

/-!
# Reading a table in strides

A reader of a table with free places goes on from an entry by the entry's own stride instead of by
one place. `walkFrom stride k` is what it reads after the first `k` places; it ends at the end of
the table or at an entry whose stride is 0, and fails at a free place. `walkFrom_complete_iff` says
for which tables it reads every entry: those in which an entry of stride `n` is followed by `n - 1`
free places (`SpacedFrom`).
-/

namespace OsPaging.Lib

universe u

variable {α : Type u} (stride : α → Nat)

/-- What a reader gets that starts after the first `k` places. -/
def walkFrom : Nat → List (Option α) → Option (List α)
  | _, [] => some []
  | k + 1, _ :: l => walkFrom k l
  | 0, none :: _ => none
  | 0, some a :: l => if stride a = 0 then some [] else (walkFrom (stride a - 1) l).map (a :: ·)

/-- After `k` free places, each entry has a stride and is followed by as many free places as its
stride skips. -/
def SpacedFrom : Nat → List (Option α) → Prop
  | _, [] => True
  | k + 1, none :: l => SpacedFrom k l
  | _ + 1, some _ :: _ => False
  | 0, none :: _ => False
  | 0, some a :: l => stride a ≠ 0 ∧ SpacedFrom (stride a - 1) l

instance decidableSpacedFrom : ∀ k l, Decidable (SpacedFrom stride k l)
  | _, [] => .isTrue (by simp [SpacedFrom])
  | k + 1, none :: l => decidableSpacedFrom k l
  | _ + 1, some _ :: _ => .isFalse (by simp [SpacedFrom])
  | 0, none :: _ => .isFalse (by simp [SpacedFrom])
  | 0, some a :: l => @instDecidableAnd _ _ _ (decidableSpacedFrom (stride a - 1) l)

attribute [local simp] walkFrom

variable {stride} {k : Nat} {l : List (Option α)} {as : List α} {a : α}

theorem walkFrom_eq_drop (k : Nat) (l : List (Option α)) :
    walkFrom stride k l = walkFrom stride 0 (l.drop k) := by
  induction l generalizing k with
  | nil => simp [walkFrom]
  | cons x l ih =>
    cases k with
    | zero => rfl
    | succ k => rw [walkFrom, ih, List.drop_succ_cons]

theorem drop_of_getElem? {x : Option α} (h : l[k]? = some x) : l.drop k = x :: l.drop (k + 1) := by
  obtain ⟨hlt, rfl⟩ := List.getElem?_eq_some_iff.mp h
  exact List.drop_eq_getElem_cons hlt

/-- The reader at an entry. -/
theorem walkFrom_entry (h : l[k]? = some (some a)) (ha : stride a ≠ 0) :
    walkFrom stride k l = (walkFrom stride (k + stride a) l).map (a :: ·) := by
  have hnext : k + 1 + (stride a - 1) = k + stride a := by omega
  rw [walkFrom_eq_drop k, drop_of_getElem? h, walkFrom, if_neg ha, walkFrom_eq_drop _ (l.drop _),
    List.drop_drop, hnext, ← walkFrom_eq_drop]

theorem walkFrom_zero_stride (h : l[k]? = some (some a)) (ha : stride a = 0) :
    walkFrom stride k l = some [] := by
  rw [walkFrom_eq_drop, drop_of_getElem? h, walkFrom, if_pos ha]

theorem walkFrom_free (h : l[k]? = some none) : walkFrom stride k l = none := by
  rw [walkFrom_eq_drop, drop_of_getElem? h, walkFrom]

theorem walkFrom_end (h : l.length ≤ k) : walkFrom stride k l = some [] := by
  rw [walkFrom_eq_drop, List.drop_eq_nil_of_le h, walkFrom]

/-- Only entries are read. -/
theorem walkFrom_subset (h : walkFrom stride k l = some as) : as ⊆ l.reduceOption := by
  induction l generalizing k as with
  | nil =>
    rw [walkFrom] at h
    cases h
    exact List.nil_subset _
  | cons x l ih =>
    have hsub : l.reduceOption ⊆ (x :: l).reduceOption := by
      intro b hb
      rw [List.reduceOption_mem_iff] at hb ⊢
      exact List.mem_cons_of_mem _ hb
    cases k with
    | succ k => exact List.Subset.trans (ih h) hsub
    | zero =>
      cases x with
      | none => cases h
      | some a =>
        rw [walkFrom] at h
        split_ifs at h
        · cases h
          exact List.nil_subset _
        · obtain ⟨bs, hbs, rfl⟩ := Option.map_eq_some_iff.mp h
          refine List.cons_subset.mpr ⟨?_, List.Subset.trans (ih hbs) hsub⟩
          rw [List.reduceOption_mem_iff]
          exact List.mem_cons_self

theorem walkFrom_of_spaced (h : SpacedFrom stride k l) :
    walkFrom stride k l = some l.reduceOption := by
  induction l generalizing k with
  | nil => rfl
  | cons x l ih =>
    cases k with
    | succ k =>
      cases x with
      | none => exact ih h
      | some a => exact h.elim
    | zero =>
      cases x with
      | none => exact h.elim
      | some a =>
        rw [walkFrom, if_neg h.1, ih h.2, List.reduceOption_cons_of_some]
        rfl

theorem spaced_of_walkFrom (h : walkFrom stride k l = some as) (hall : l.reduceOption ⊆ as)
    (hnodup : l.reduceOption.Nodup) : SpacedFrom stride k l := by
  induction l generalizing k as with
  | nil => simp [SpacedFrom]
  | cons x l ih =>
    cases k with
    | succ k =>
      cases x with
      | none => exact ih h hall hnodup
      | some a =>
        -- the reader has passed over `a`, and nothing after it is `a`
        rw [List.reduceOption_cons_of_some] at hall hnodup
        have hpast : walkFrom stride k l = some as := h
        exact absurd (walkFrom_subset hpast (hall List.mem_cons_self))
          (List.nodup_cons.mp hnodup).1
    | zero =>
      cases x with
      | none => cases h
      | some a =>
        rw [List.reduceOption_cons_of_some] at hall hnodup
        obtain ⟨hout, hnodup⟩ := List.nodup_cons.mp hnodup
        rw [walkFrom] at h
        split_ifs at h with ha
        · cases h
          exact absurd (hall List.mem_cons_self) (by simp)
        · obtain ⟨bs, hbs, rfl⟩ := Option.map_eq_some_iff.mp h
          refine ⟨ha, ih hbs (fun b hb => ?_) hnodup⟩
          grind

/-- **Which tables are read completely.** -/
theorem walkFrom_complete_iff (hnodup : l.reduceOption.Nodup) :
    (∃ as, walkFrom stride k l = some as ∧ as.Nodup ∧ ∀ a, a ∈ as ↔ a ∈ l.reduceOption) ↔
      SpacedFrom stride k l := by
  constructor
  · rintro ⟨as, hw, -, hall⟩
    exact spaced_of_walkFrom hw (fun a ha => (hall a).mpr ha) hnodup
  · intro h
    exact ⟨_, walkFrom_of_spaced h, hnodup, fun _ => Iff.rfl⟩

end OsPaging.Lib
