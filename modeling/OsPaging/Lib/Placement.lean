import Mathlib.Data.List.Nodup
import Mathlib.Data.List.Perm.Basic
import Mathlib.Logic.Function.Basic
import Mathlib.Tactic.ByContra

/-!
# Things that are in one place

Lists indexed by places, `L : P → List T`, in which every live thing is once and in one list only.
A thing moves, enters or leaves; each rule says pointwise what becomes of the lists, up to their
order.
-/

namespace OsPaging.Lib

open Function

variable {P T : Type*} {L L' : P → List T} {live live' : T → Prop} {p q : P} {t : T}

/-- The lists together hold each live thing once, and nothing else. -/
structure Placed (L : P → List T) (live : T → Prop) : Prop where
  nodup : ∀ p, (L p).Nodup
  apart : ∀ {p q t}, t ∈ L p → t ∈ L q → p = q
  live_iff : ∀ t, live t ↔ ∃ p, t ∈ L p

namespace Placed

variable (h : Placed L live)
include h

theorem existsUnique (ht : live t) : ∃! p, t ∈ L p := by
  obtain ⟨p, hp⟩ := (h.live_iff t).mp ht
  exact ⟨p, hp, fun q hq => h.apart hq hp⟩

theorem live_of_mem (ht : t ∈ L p) : live t := (h.live_iff t).mpr ⟨p, ht⟩

/-- Only the order within the lists changes. -/
theorem perm (hL : ∀ p, (L' p).Perm (L p)) : Placed L' live where
  nodup p := (hL p).nodup_iff.mpr (h.nodup p)
  apart hp hq := h.apart ((hL _).mem_iff.mp hp) ((hL _).mem_iff.mp hq)
  live_iff t := (h.live_iff t).trans (exists_congr fun p => (hL p).mem_iff.symm)

/-- A new thing comes to `q`. -/
theorem enter (ht : ¬ live t) (hq : (L' q).Perm (t :: L q)) (hL : ∀ r, r ≠ q → L' r = L r)
    (hlive : ∀ u, live' u ↔ live u ∨ u = t) : Placed L' live' := by
  have hnot : ∀ r, t ∉ L r := fun r hr => ht (h.live_of_mem hr)
  have hmem : ∀ r u, u ∈ L' r ↔ u ∈ L r ∨ (r = q ∧ u = t) := by
    intro r u
    by_cases hr : r = q
    · grind
    · rw [hL r hr]
      tauto
  constructor
  · intro r
    by_cases hr : r = q
    · subst hr
      exact hq.nodup_iff.mpr (List.nodup_cons.mpr ⟨hnot r, h.nodup r⟩)
    · rw [hL r hr]
      exact h.nodup r
  · intro r r' u hr hr'
    rcases (hmem r u).mp hr with hr | ⟨rfl, rfl⟩
    · rcases (hmem r' u).mp hr' with hr' | ⟨rfl, rfl⟩
      · exact h.apart hr hr'
      · exact absurd hr (hnot r)
    · grind
  · intro u
    rw [hlive, h.live_iff]
    grind

/-- A thing goes from `p` for good. -/
theorem leave (hp : (L p).Perm (t :: L' p)) (hL : ∀ r, r ≠ p → L' r = L r)
    (hlive : ∀ u, live' u ↔ live u ∧ u ≠ t) : Placed L' live' := by
  have htp : t ∈ L p := hp.mem_iff.mpr List.mem_cons_self
  obtain ⟨htp', hnd⟩ := List.nodup_cons.mp (hp.nodup_iff.mp (h.nodup p))
  have hmem : ∀ r u, u ∈ L' r ↔ u ∈ L r ∧ u ≠ t := by
    intro r u
    by_cases hr : r = p
    · grind
    · rw [hL r hr]
      exact ⟨fun hu => ⟨hu, fun he => hr (h.apart (he ▸ hu) htp)⟩, And.left⟩
  constructor
  · intro r
    by_cases hr : r = p
    · subst hr
      exact hnd
    · rw [hL r hr]
      exact h.nodup r
  · intro r r' u hr hr'
    exact h.apart ((hmem r u).mp hr).1 ((hmem r' u).mp hr').1
  · intro u
    rw [hlive, h.live_iff]
    grind

/-- A thing goes from `p` to `q`. -/
theorem move (hpq : p ≠ q) (hp : (L p).Perm (t :: L' p)) (hq : (L' q).Perm (t :: L q))
    (hL : ∀ r, r ≠ p → r ≠ q → L' r = L r) : Placed L' live := by
  classical
  have htp : t ∈ L p := hp.mem_iff.mpr List.mem_cons_self
  -- in between the thing is nowhere
  have hout : Placed (update L p (L' p)) fun u => live u ∧ u ≠ t := by
    refine h.leave (p := p) (t := t) ?_ ?_ fun u => Iff.rfl
    · rwa [update_self]
    · exact fun r hr => update_of_ne hr _ _
  refine hout.enter (q := q) (t := t) (fun hu => hu.2 rfl) ?_ ?_ fun u => ?_
  · rwa [update_of_ne hpq.symm]
  · grind
  · by_cases hu : u = t
    · subst hu
      exact ⟨fun _ => .inr rfl, fun _ => h.live_of_mem htp⟩
    · grind

end Placed

end OsPaging.Lib
