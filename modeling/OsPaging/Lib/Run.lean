import Mathlib.Data.List.Induction

/-!
# Labelled runs

A run of a labelled transition relation `step : σ → ε → σ → Prop`, built one label at a time at
its end, so that what a run has done so far (its labels) and where it is (its state) grow
together. Three rules carry every result about runs:

* `Run.invariant`: what holds at the start and is kept by each step holds at the end;
* `Run.history`: the same for a relation between the labels so far and the state;
* `Run.sim`: each step answered by a step of a second relation gives a run of that relation.
-/

namespace OsPaging.Lib

universe u v w

variable {σ : Type u} {ε : Type v}
variable {f : σ → ε → Option σ} {η : Type*} {p : σ → Bool}

/-- The runs of `step` from `s₀`: the labels in order, and the state they lead to. -/
inductive Run (step : σ → ε → σ → Prop) (s₀ : σ) : List ε → σ → Prop
  | nil : Run step s₀ [] s₀
  | snoc {es : List ε} {s t : σ} {e : ε} :
      Run step s₀ es s → step s e t → Run step s₀ (es ++ [e]) t

variable {step step' : σ → ε → σ → Prop} {s₀ s t : σ} {es es' : List ε} {e : ε}

/-- **The history rule**: a relation between the labels so far and the state. -/
theorem Run.history {R : List ε → σ → Prop} (h0 : R [] s₀)
    (hstep : ∀ es s e t, R es s → step s e t → R (es ++ [e]) t)
    (h : Run step s₀ es t) : R es t := by
  induction h with
  | nil => exact h0
  | snoc _ hs ih => exact hstep _ _ _ _ ih hs

/-- **The invariant rule.** -/
theorem Run.invariant {P : σ → Prop} (h0 : P s₀) (hstep : ∀ s e t, P s → step s e t → P t)
    (h : Run step s₀ es t) : P t :=
  h.history (R := fun _ s => P s) h0 fun _ s e t => hstep s e t

/-- The last step of a run. -/
theorem Run.last (h : Run step s₀ (es ++ [e]) t) : ∃ s, Run step s₀ es s ∧ step s e t := by
  generalize hl : es ++ [e] = l at h
  cases h with
  | nil => exact absurd hl (by simp)
  | snoc hr hs =>
    obtain ⟨rfl, he⟩ := List.append_inj' hl rfl
    cases he
    exact ⟨_, hr, hs⟩

/-- A run up to a point. -/
theorem Run.exists_of_prefix (h : Run step s₀ es t) (hp : es' <+: es) : ∃ s, Run step s₀ es' s := by
  induction h with
  | nil => exact ⟨s₀, List.prefix_nil.mp hp ▸ .nil⟩
  | snoc hr hs ih =>
    rcases List.prefix_concat_iff.mp hp with rfl | hp'
    · exact ⟨_, hr.snoc hs⟩
    · exact ih hp'

/-- Labels determine the state if each label does. -/
theorem Run.det (hdet : ∀ s e t t', step s e t → step s e t' → t = t') (h : Run step s₀ es s)
    (h' : Run step s₀ es t) : s = t := by
  induction h generalizing t with
  | nil => 
    generalize hl : ([] : List ε) = l at h'
    cases h' with
    | nil => rfl
    | snoc => exact absurd hl (by simp)
  | snoc hr hs ih =>
    obtain ⟨u, hu, hut⟩ := h'.last
    obtain rfl := ih hu
    exact hdet _ _ _ _ hs hut

/-- Runs compose. -/
theorem Run.append (h : Run step s₀ es s) (h' : Run step s es' t) : Run step s₀ (es ++ es') t := by
  induction h' with
  | nil => rw [List.append_nil]; exact h
  | snoc _ hs ih => rw [← List.append_assoc]; exact ih.snoc hs

/-- A run of steps that are steps of another relation. -/
theorem Run.mono (hle : ∀ s e t, step s e t → step' s e t) (h : Run step s₀ es t) :
    Run step' s₀ es t := by
  induction h with
  | nil => exact .nil
  | snoc _ hs ih => exact ih.snoc (hle _ _ _ hs)

/-- The run of a function's results, as the fold over the labels computes it. -/
theorem Run.of_foldlM (hf : ∀ s e t, f s e = some t → step s e t) :
    ∀ {es : List ε} {s : σ}, es.foldlM f s = some t → Run step s es t
  | [], s, h => by
    cases h
    exact .nil
  | e :: es, s, h => by
    rw [List.foldlM_cons] at h
    obtain ⟨u, hu, hes⟩ := Option.bind_eq_some_iff.mp h
    have hone : Run step s [e] u := Run.nil.snoc (hf s e u hu)
    exact hone.append (Run.of_foldlM hf hes)

theorem toOption_eq_some {α : Type*} {x : Except η α} {a : α} :
    x.toOption = some a ↔ x = .ok a := by
  cases x <;> simp [Except.toOption]

/-- The same for a function that says why it fails. -/
theorem Run.of_exec {exec : σ → ε → Except η σ}
    (h : es.foldlM (fun s e => (exec s e).toOption) s = some t) :
    Run (fun s e t => exec s e = .ok t) s es t :=
  Run.of_foldlM (fun _ _ _ => toOption_eq_some.mp) h

/-- A run to a state with a property that can be evaluated. -/
theorem Run.exists_of_foldlM (hf : ∀ s e t, f s e = some t → step s e t)
    (h : (es.foldlM f s).any p = true) : ∃ t, Run step s es t ∧ p t = true := by
  cases ht : es.foldlM f s with
  | none => rw [ht] at h; exact absurd h (by simp)
  | some t => rw [ht] at h; exact ⟨t, .of_foldlM hf ht, h⟩

/-- The same on the labels that are allowed. -/
theorem Run.exists_of_allowed {allowed : σ → ε → Prop} [∀ s e, Decidable (allowed s e)]
    (h : (es.foldlM (fun s e => if allowed s e then f s e else none) s).any p = true) :
    ∃ t, Run (fun s e t => allowed s e ∧ f s e = some t) s es t ∧ p t = true :=
  Run.exists_of_foldlM (fun s e t he => by simpa using he) h

/-- And for a function that says why it fails. -/
theorem Run.exists_of_exec {exec : σ → ε → Except η σ} {allowed : σ → ε → Prop}
    [∀ s e, Decidable (allowed s e)]
    (h : (es.foldlM (fun s e => if allowed s e then (exec s e).toOption else none) s).any p =
      true) :
    ∃ t, Run (fun s e t => allowed s e ∧ exec s e = .ok t) s es t ∧ p t = true := by
  obtain ⟨t, hr, hp⟩ := Run.exists_of_allowed h
  exact ⟨t, hr.mono fun _ _ _ hs => ⟨hs.1, toOption_eq_some.mp hs.2⟩, hp⟩

/-- What follows at the end of a run that can be evaluated. -/
theorem Run.exists_imp {Q P : σ → Prop} [DecidablePred Q]
    (h : ∃ t, Run step s es t ∧ decide (Q t) = true) (himp : ∀ t, Run step s es t → Q t → P t) :
    ∃ t, Run step s es t ∧ P t :=
  h.imp fun t ht => ⟨ht.1, himp t ht.1 (of_decide_eq_true ht.2)⟩

/-- **The simulation rule**: `R` relates the starts, and every step from related states is
answered by a step with the label `ρ e` to related states. -/
theorem Run.sim {σ' : Type u} {ε' : Type w} {astep : σ' → ε' → σ' → Prop} {a₀ : σ'}
    {R : σ → σ' → Prop} {ρ : ε → ε'} (h0 : R s₀ a₀)
    (hstep : ∀ s a e t, R s a → step s e t → ∃ b, astep a (ρ e) b ∧ R t b)
    (h : Run step s₀ es t) : ∃ b, Run astep a₀ (es.map ρ) b ∧ R t b := by
  induction h with
  | nil => exact ⟨a₀, .nil, h0⟩
  | snoc _ hs ih =>
    obtain ⟨a, ha, hR⟩ := ih
    obtain ⟨b, hb, hR'⟩ := hstep _ _ _ _ hR hs
    refine ⟨b, ?_, hR'⟩
    rw [List.map_append]
    exact ha.snoc hb

end OsPaging.Lib
