import Mathlib.Logic.Function.Basic

/-!
# Exact accounts of who uses what

References `r : ρ` name items `b : β` (`names r b`), and a map says which items are in use. The
accounts are exact on the items that can be given out at all (`ok`): no item has two references,
every reference names an item that can be given out, and an item is in use exactly when a
reference names it.

Giving an unused item to a reference keeps the accounts (`Accounts.assign`), and so does dropping
any set of references together with the items they name (`Accounts.release`).
-/

namespace OsPaging.Lib

open Function

universe u v

/-- The items in use are those that a reference names, each by one reference. -/
structure Accounts {ρ : Type u} {β : Type v} (names : ρ → β → Prop) (used : β → Bool)
    (ok : β → Prop) : Prop where
  inj : ∀ r r' b, names r b → names r' b → r = r'
  ok_of_names : ∀ r b, names r b → ok b
  used_iff : ∀ b, ok b → (used b = true ↔ ∃ r, names r b)

namespace Accounts

variable {ρ : Type u} {β : Type v} {names names' : ρ → β → Prop} {used used' : β → Bool}
  {ok : β → Prop} {r : ρ} {b : β}

variable (h : Accounts names used ok)
include h

/-- The accounts depend on what the references name. -/
theorem congr (hn : ∀ r b, names' r b ↔ names r b) :
    Accounts names' used ok where
  inj r r' b hr hr' := h.inj r r' b ((hn r b).mp hr) ((hn r' b).mp hr')
  ok_of_names r b hr := h.ok_of_names r b ((hn r b).mp hr)
  used_iff b hb := by
    rw [h.used_iff b hb]
    exact exists_congr fun r => (hn r b).symm

theorem used_of_names (hr : names r b) : used b = true :=
  (h.used_iff b (h.ok_of_names r b hr)).mpr ⟨r, hr⟩

/-- Nothing names an unused item. -/
theorem not_names (hb : used b = false) : ¬names r b := by
  intro hr
  rw [h.used_of_names hr] at hb
  exact absurd hb (by decide)

/-- An unused item is given to the reference `r`. -/
theorem assign [DecidableEq β] (hb : ok b) (hu : used b = false)
    (hn : ∀ r' b', names' r' b' ↔ names r' b' ∨ (r' = r ∧ b' = b)) :
    Accounts names' (update used b true) ok where
  inj r₁ r₂ b' h₁ h₂ := by
    rcases (hn r₁ b').mp h₁ with h₁ | ⟨rfl, rfl⟩
    · rcases (hn r₂ b').mp h₂ with h₂ | ⟨rfl, rfl⟩
      · exact h.inj r₁ r₂ b' h₁ h₂
      · exact absurd h₁ (h.not_names hu)
    · rcases (hn r₂ b').mp h₂ with h₂ | ⟨rfl, -⟩
      · exact absurd h₂ (h.not_names hu)
      · rfl
  ok_of_names r' b' hr := by
    rcases (hn r' b').mp hr with hr | ⟨-, rfl⟩
    · exact h.ok_of_names r' b' hr
    · exact hb
  used_iff b' hb' := by
    by_cases hbb : b' = b
    · subst hbb
      rw [update_self]
      exact iff_of_true rfl ⟨r, (hn r b').mpr (.inr ⟨rfl, rfl⟩)⟩
    · rw [update_of_ne hbb, h.used_iff b' hb']
      grind

/-- The references in `G` are dropped, and what they named is in use no longer. -/
theorem release {G : ρ → Prop} (hn : ∀ r b, names' r b ↔ names r b ∧ ¬G r)
    (hu : ∀ b, ok b → (used' b = true ↔ used b = true ∧ ∀ r, G r → ¬names r b)) :
    Accounts names' used' ok where
  inj r₁ r₂ b h₁ h₂ := h.inj r₁ r₂ b ((hn r₁ b).mp h₁).1 ((hn r₂ b).mp h₂).1
  ok_of_names r b hr := h.ok_of_names r b ((hn r b).mp hr).1
  used_iff b hb := by
    rw [hu b hb, h.used_iff b hb]
    constructor
    · grind
    · rintro ⟨r, hr⟩
      obtain ⟨hr, hgr⟩ := (hn r b).mp hr
      refine ⟨⟨r, hr⟩, fun r' hr' hn' => hgr ?_⟩
      rwa [h.inj r r' b hr hn']

/-- One reference is dropped. -/
theorem release_one [DecidableEq β] (hr : names r b) (hf : ∀ b', names r b' → b' = b)
    (hn : ∀ r' b', names' r' b' ↔ names r' b' ∧ r' ≠ r) :
    Accounts names' (update used b false) ok := by
  refine h.release hn fun b' hb' => ?_
  grind

end Accounts

end OsPaging.Lib
