/-!
# Calls that return an error and keep what they did, or halt

A `Call σ ε α` is the body of a function of a kernel: it reads and changes the state `σ`, and it
returns a value, returns an error (the changes made so far stay), or halts the system (an
assertion fails, or it panics). `m.Returns s Q` is its weakest precondition: from `s` the call
comes back, and `Q` holds of what it returns and of the state it leaves. A halt is not a return.

One rule for each way to build a call rewrites `Returns` into the goals about its parts;
`Returns.mono` puts the specification of a callee in its place.
-/

namespace OsPaging.Lib

universe u v w

/-- A function body on the state `σ`; `none` is a halt. -/
def Call (σ : Type u) (ε : Type v) (α : Type w) := σ → Option (Except ε α × σ)

namespace Call

variable {σ : Type u} {ε : Type v} {α β : Type w}

/-- Go on with `f` after a value; an error and a halt stay what they are. -/
def goOn (f : α → Call σ ε β) : Option (Except ε α × σ) → Option (Except ε β × σ)
  | none => none
  | some (.error e, t) => some (.error e, t)
  | some (.ok a, t) => f a t

instance : Monad (Call σ ε) where
  pure a := fun s => some (.ok a, s)
  bind m f := fun s => goOn f (m s)

/-- Return an error. -/
def fail (e : ε) : Call σ ε α := fun s => some (.error e, s)

/-- Halt the system unless `p` holds. -/
def assert (p : Prop) [Decidable p] : Call σ ε PUnit := fun s =>
  if p then some (.ok ⟨⟩, s) else none

/-- Make a call if `p` holds. -/
def onlyIf (p : Prop) [Decidable p] (m : Call σ ε PUnit) : Call σ ε PUnit :=
  if p then m else fun s => some (.ok ⟨⟩, s)

/-- Read a value out of the state. -/
def read (f : σ → α) : Call σ ε α := fun s => some (.ok (f s), s)

/-- Change the state. -/
def modify (f : σ → σ) : Call σ ε PUnit := fun s => some (.ok ⟨⟩, f s)

/-- Make a call and go on with what it returns, error or not. -/
def attempt (m : Call σ ε α) : Call σ ε (Except ε α) := fun s =>
  (m s).map fun (r, t) => (.ok r, t)

/-- From `s` the call comes back, with a result and a state that satisfy `Q`. -/
def Returns (m : Call σ ε α) (s : σ) (Q : Except ε α → σ → Prop) : Prop :=
  ∃ r t, m s = some (r, t) ∧ Q r t

/-- What has to hold after the first of two calls for the second to establish `Q`. -/
def Andthen (f : α → Call σ ε β) (Q : Except ε β → σ → Prop) : Except ε α → σ → Prop
  | .ok a, t => (f a).Returns t Q
  | .error e, t => Q (.error e) t

variable {m : Call σ ε α} {f : α → Call σ ε β} {s t : σ} {a : α} {e : ε}
  {P Q : Except ε α → σ → Prop} {R : Except ε β → σ → Prop}

theorem Returns.mono (h : m.Returns s P) (hPQ : ∀ r t, P r t → Q r t) : m.Returns s Q := by
  obtain ⟨r, t, hm, hP⟩ := h
  exact ⟨r, t, hm, hPQ r t hP⟩

/-- What is known of the return is known of the result. -/
theorem Returns.of_eq {r : Except ε α} (h : m.Returns s Q) (he : m s = some (r, t)) : Q r t := by
  obtain ⟨r', t', hm, hQ⟩ := h
  rw [he] at hm
  cases hm
  exact hQ

/-- Two things known of one call. -/
theorem Returns.and (h : m.Returns s P) (h' : m.Returns s Q) :
    m.Returns s fun r t => P r t ∧ Q r t := by
  obtain ⟨r, t, hm, hP⟩ := h
  exact ⟨r, t, hm, hP, h'.of_eq hm⟩

theorem returns_iff {r : Except ε α} (he : m s = some (r, t)) : m.Returns s Q ↔ Q r t :=
  ⟨fun h => h.of_eq he, fun hQ => ⟨r, t, he, hQ⟩⟩

@[simp] theorem returns_pure : (pure a : Call σ ε α).Returns s Q ↔ Q (.ok a) s :=
  returns_iff rfl

@[simp] theorem returns_fail : (fail e : Call σ ε α).Returns s Q ↔ Q (.error e) s :=
  returns_iff rfl

@[simp] theorem returns_read {g : σ → α} :
    (read g : Call σ ε α).Returns s Q ↔ Q (.ok (g s)) s :=
  returns_iff rfl

@[simp] theorem returns_modify {g : σ → σ} {Q : Except ε PUnit → σ → Prop} :
    (modify g : Call σ ε PUnit).Returns s Q ↔ Q (.ok ⟨⟩) (g s) :=
  returns_iff rfl

@[simp] theorem returns_assert {p : Prop} [Decidable p] {Q : Except ε PUnit → σ → Prop} :
    (assert p : Call σ ε PUnit).Returns s Q ↔ p ∧ Q (.ok ⟨⟩) s := by
  constructor
  · rintro ⟨r, t, hm, hQ⟩
    by_cases hp : p
    · rw [assert, if_pos hp] at hm
      cases hm
      exact ⟨hp, hQ⟩
    · rw [assert, if_neg hp] at hm
      cases hm
  · rintro ⟨hp, hQ⟩
    exact ⟨_, _, if_pos hp, hQ⟩

@[simp] theorem andthen_ok : Andthen f R (.ok a) s ↔ (f a).Returns s R := Iff.rfl

@[simp] theorem andthen_error : Andthen f R (.error e) s ↔ R (.error e) s := Iff.rfl

theorem bind_apply : (m >>= f) s = goOn f (m s) := rfl

/-- The rule for one call after another. -/
@[simp] theorem returns_bind : (m >>= f).Returns s R ↔ m.Returns s (Andthen f R) := by
  unfold Returns
  rw [bind_apply]
  match m s with
  | none => simp [goOn]
  | some (.error e, u) =>
    constructor <;>
    · rintro ⟨r, t, hm, hR⟩
      cases hm
      exact ⟨_, _, rfl, hR⟩
  | some (.ok a, u) =>
    constructor
    · rintro ⟨r, t, hm, hR⟩
      exact ⟨_, _, rfl, r, t, hm, hR⟩
    · rintro ⟨r, t, hm, hR⟩
      cases hm
      exact hR

theorem returns_bindRead {g : σ → α} : (read g >>= f).Returns s R ↔ (f (g s)).Returns s R := Iff.rfl

theorem returns_bindModify {g : σ → σ} {f : PUnit → Call σ ε β} :
    (modify g >>= f).Returns s R ↔ (f ⟨⟩).Returns (g s) R := Iff.rfl

theorem returns_bindAssert {p : Prop} [Decidable p] {f : PUnit → Call σ ε β} :
    (assert p >>= f).Returns s R ↔ p ∧ (f ⟨⟩).Returns s R :=
  returns_bind.trans returns_assert

@[simp] theorem returns_attempt {Q : Except ε (Except ε α) → σ → Prop} :
    m.attempt.Returns s Q ↔ m.Returns s fun r t => Q (.ok r) t := by
  constructor
  · rintro ⟨r, t, hm, hQ⟩
    obtain ⟨⟨r', t'⟩, hm', hrt⟩ := Option.map_eq_some_iff.mp hm
    cases hrt
    exact ⟨r', t, hm', hQ⟩
  · rintro ⟨r, t, hm, hQ⟩
    refine ⟨.ok r, t, ?_, hQ⟩
    unfold attempt
    rw [hm]
    rfl

/-- A call after one whose specification is known. -/
theorem Returns.bind {P : Except ε α → σ → Prop} (h : m.Returns s P)
    (hok : ∀ a t, P (.ok a) t → (f a).Returns t R)
    (herr : ∀ e t, P (.error e) t → R (.error e) t) : (m >>= f).Returns s R := by
  rw [returns_bind]
  refine h.mono ?_
  rintro (e | a) t hP
  · exact herr e t hP
  · exact hok a t hP

/-! ## Calls that may halt -/

/-- If the call comes back from `s`, then with a result and a state that satisfy `Q`. -/
def Only (m : Call σ ε α) (s : σ) (Q : Except ε α → σ → Prop) : Prop :=
  ∀ r t, m s = some (r, t) → Q r t

theorem Returns.only (h : m.Returns s Q) : m.Only s Q := fun _ _ he => h.of_eq he

theorem only_assert {p : Prop} [Decidable p] {Q : Except ε PUnit → σ → Prop}
    (h : p → Q (.ok ⟨⟩) s) : (assert p : Call σ ε PUnit).Only s Q := by
  intro r t he
  by_cases hp : p
  · rw [assert, if_pos hp] at he
    cases he
    exact h hp
  · rw [assert, if_neg hp] at he
    cases he

/-- A call after one whose outcome is known. -/
theorem Only.bind {P : Except ε α → σ → Prop} (h : m.Only s P)
    (hok : ∀ a t, P (.ok a) t → (f a).Only t R)
    (herr : ∀ e t, P (.error e) t → R (.error e) t) : (m >>= f).Only s R := by
  intro r t he
  rw [bind_apply] at he
  cases hm : m s with
  | none =>
    rw [hm] at he
    cases he
  | some x =>
    obtain ⟨r', t'⟩ := x
    rw [hm] at he
    cases r' with
    | error e =>
      cases he
      exact herr e t (h _ _ hm)
    | ok a => exact hok a t' (h _ _ hm) r t he

theorem Only.bindRead {g : σ → α} (h : (f (g s)).Only s R) : (Call.read g >>= f).Only s R := h

theorem Only.bindPure (h : (f a).Only s R) : (Pure.pure a >>= f : Call σ ε β).Only s R := h

/-! ## Invariants of calls -/

/-- A value satisfies `Q`, an error `E`. -/
def Settled (E : ε → Prop) (Q : α → Prop) : Except ε α → Prop
  | .ok a => Q a
  | .error e => E e

/-- From every state with `P` the call returns to one with `P`; a value it returns satisfies `Q`,
an error `E`. -/
def Yields (P : σ → Prop) (E : ε → Prop) (Q : α → Prop) (m : Call σ ε α) : Prop :=
  ∀ s, P s → m.Returns s fun r t => P t ∧ Settled E Q r

/-- The same without a word about the value. -/
abbrev Keeps (P : σ → Prop) (E : ε → Prop) (m : Call σ ε α) : Prop := m.Yields P E fun _ => True

section Yields

variable {P : σ → Prop} {E : ε → Prop} {Q Q' : α → Prop} {S : β → Prop}

theorem Yields.keeps (h : m.Yields P E Q) : m.Keeps P E := fun s hs =>
  (h s hs).mono fun r _ ⟨hP, hr⟩ => ⟨hP, by
    cases r with
    | error e => exact hr
    | ok a => trivial⟩

theorem Yields.mono (h : m.Yields P E Q) (hQ : ∀ a, Q a → Q' a) : m.Yields P E Q' := fun s hs =>
  (h s hs).mono fun r _ ⟨hP, hr⟩ => ⟨hP, by
    cases r with
    | error e => exact hr
    | ok a => exact hQ a hr⟩

/-- The same with less said about errors. -/
theorem Yields.errors {E' : ε → Prop} (h : m.Yields P E Q) (hE : ∀ e, E e → E' e) :
    m.Yields P E' Q := fun s hs =>
  (h s hs).mono fun r _ ⟨hP, hr⟩ => ⟨hP, by
    cases r with
    | error e => exact hE e hr
    | ok a => exact hr⟩

theorem Yields.pure {a : α} (h : Q a) : (pure a : Call σ ε α).Yields P E Q := fun _ hs =>
  returns_pure.mpr ⟨hs, h⟩

theorem Yields.fail {e : ε} (h : E e) : (fail e : Call σ ε α).Yields P E Q := fun _ hs =>
  returns_fail.mpr ⟨hs, h⟩

theorem Yields.read {g : σ → α} (h : ∀ s, P s → Q (g s)) :
    (read g : Call σ ε α).Yields P E Q := fun s hs =>
  returns_read.mpr ⟨hs, h s hs⟩

theorem Yields.modify {g : σ → σ} (h : ∀ s, P s → P (g s)) :
    (modify g : Call σ ε PUnit).Keeps P E := fun s hs =>
  returns_modify.mpr ⟨h s hs, trivial⟩

/-- The rule for one call after another. -/
theorem Yields.bind (h : m.Yields P E Q) (hf : ∀ a, Q a → (f a).Yields P E S) :
    (m >>= f).Yields P E S := fun s hs => by
  refine (h s hs).bind ?_ ?_
  · rintro a t ⟨hP, hQ⟩
    exact hf a hQ t hP
  · rintro e t ⟨hP, hE⟩
    exact ⟨hP, hE⟩

/-- The same if only the state matters. -/
theorem Yields.seq (h : m.Keeps P E) (hf : ∀ a, (f a).Yields P E S) : (m >>= f).Yields P E S :=
  h.bind fun a _ => hf a

/-- A value from the result. -/
theorem Yields.ret {g : α → β} (h : m.Keeps P E) : (m >>= fun a => Pure.pure (g a)).Keeps P E :=
  .seq h fun _ => .pure trivial

theorem Yields.bindRead {g : σ → α} (h : ∀ s, P s → (f (g s)).Yields P E S) :
    (Call.read g >>= f).Yields P E S :=
  Yields.bind (Q := fun a => (f a).Yields P E S) (.read h) fun _ ha => ha

theorem Yields.ite {c : Prop} [Decidable c] {m' : Call σ ε α} (h : c → m.Yields P E Q)
    (h' : ¬c → m'.Yields P E Q) : (if c then m else m').Yields P E Q := by
  grind

theorem Yields.onlyIf {c : Prop} [Decidable c] {m : Call σ ε PUnit} (h : c → m.Keeps P E) :
    (onlyIf c m).Keeps P E :=
  .ite h fun _ => .pure trivial

end Yields

end Call

end OsPaging.Lib
