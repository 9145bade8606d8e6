import Mathlib.Logic.Function.Basic
import Mathlib.Tactic.SplitIfs

/-!
# Spinlocks, statement by statement

`kern/thread/spinlock.c:50-134`. Elsewhere a critical section is one event. Where a lock goes away
with what it protects, the accesses of `spinlock_acquire` and `spinlock_release` to the lock itself
are events too: the check for a deadlock, the test-and-set, the writes of `splk_holder` and the
write of the lock word.

`splk_holder` is a cpu. A thread has its cpu to itself from `splraise` to `spllower`, so it stands
for the cpu here. A test-and-set that finds the word set changes nothing, and is no event.
-/

namespace OsPaging.Thread

open Function

variable {T B : Type}

/-- Why a statement does not complete. -/
inductive Stop
  /-- The thread has to wait, or has ended. -/
  | blocked
  /-- An assertion fails, or `panic` is called. -/
  | panic
  /-- The memory it touches was freed. -/
  | freed
deriving DecidableEq, Repr

structure Spinlock (T : Type) where
  word : Bool
  holder : Option T
deriving DecidableEq, Repr

/-- The statements of `spinlock_acquire`. -/
inductive Enter
  | check
  | testAndSet
  | setHolder
deriving DecidableEq, Repr

/-- The statements of `spinlock_release`. -/
inductive Leave
  | clearHolder
  | clearWord
deriving DecidableEq, Repr

/-- A place in a critical section with the statements `B`. -/
inductive Section (B : Type)
  | enter (i : Enter)
  | body (b : B)
  | leave (i : Leave)
deriving DecidableEq, Repr

/-- The statement that follows, in a section that begins with `first`. -/
def Enter.next (first : B) : Enter → Section B
  | .check => .enter .testAndSet
  | .testAndSet => .enter .setHolder
  | .setHolder => .body first

/-- The statement that follows, or the end of the section. -/
def Leave.next : Leave → Option Leave
  | .clearHolder => some .clearWord
  | .clearWord => none

namespace Spinlock

/-- `spinlock_init`. -/
def init : Spinlock T := ⟨false, none⟩

/-- `spinlock_cleanup`: its assertions. -/
def cleanup (l : Spinlock T) : Bool := l.holder.isNone && !l.word

variable [DecidableEq T]

/-- A statement of `spinlock_acquire`. -/
def enter (l : Spinlock T) (t : T) : Enter → Except Stop (Spinlock T)
  | .check => if l.holder = some t then .error .panic else .ok l
  | .testAndSet => if l.word then .error .blocked else .ok { l with word := true }
  | .setHolder => .ok { l with holder := some t }

/-- A statement of `spinlock_release`; the assertion goes with the write. -/
def leave (l : Spinlock T) (t : T) : Leave → Except Stop (Spinlock T)
  | .clearHolder => if l.holder = some t then .ok { l with holder := none } else .error .panic
  | .clearWord => .ok { l with word := false }

end Spinlock

/-! ## Exclusion -/

/-- What a thread has of a lock: nothing, the lock word, or the word and `splk_holder`. -/
inductive Grip
  | none
  | word
  | full
deriving DecidableEq, Repr

def Enter.grip : Enter → Grip
  | .check | .testAndSet => .none
  | .setHolder => .word

def Leave.grip : Leave → Grip
  | .clearHolder => .full
  | .clearWord => .word

def Section.grip : Section B → Grip
  | .enter i => i.grip
  | .body _ => .full
  | .leave i => i.grip

@[simp] theorem Section.grip_body (b : B) : (.body b : Section B).grip = .full := rfl

namespace Spinlock

/-- The lock is as the threads' places in its sections make it, and one of them at most has it. -/
structure Gripped (l : Spinlock T) (grip : T → Grip) : Prop where
  word : l.word = true ↔ ∃ t, grip t ≠ .none
  holder : ∀ t, l.holder = some t ↔ grip t = .full
  one : ∀ t u, grip t ≠ .none → grip u ≠ .none → t = u

namespace Gripped

variable {l : Spinlock T} {grip : T → Grip} {t : T}

theorem init (hnone : ∀ t, grip t = .none) : Gripped .init grip :=
  ⟨by simp [Spinlock.init, hnone], by simp [Spinlock.init, hnone], by simp [hnone]⟩

/-- The assertions of `spinlock_cleanup` hold when no thread is in a section. -/
theorem cleanup (h : l.Gripped grip) (hnone : ∀ t, grip t = .none) : l.cleanup = true := by
  have hword : l.word = false := by
    rw [← Bool.not_eq_true, h.word]
    simp [hnone]
  have hholder : l.holder = none := by
    refine Option.eq_none_iff_forall_ne_some.mpr fun t ht => ?_
    rw [h.holder, hnone] at ht
    cases ht
  simp [Spinlock.cleanup, hword, hholder]

variable [DecidableEq T]

variable (h : l.Gripped grip)
include h

theorem take (hw : l.word = false) : { l with word := true }.Gripped (update grip t .word) := by
  have hnone : ∀ u, grip u = .none := by simpa [hw] using h.word
  refine ⟨by simpa using ⟨t, by simp⟩, fun u => ?_, fun u v hu hv => ?_⟩
  · rw [h.holder, hnone, update_apply]
    split_ifs <;> simp [hnone]
  · grind

/-- The thread that has the lock changes what it has of it. -/
theorem change (hg : grip t ≠ .none) {g : Grip} :
    Gripped ⟨g != .none, if g = .full then some t else none⟩ (update grip t g) := by
  have hother : ∀ u, u ≠ t → grip u = .none := fun u hu => by
    by_contra hne
    exact hu (h.one u t hne hg)
  have happly : ∀ u, update grip t g u = if u = t then g else .none := fun u => by
    grind
  refine ⟨?_, fun u => ?_, fun u v hu hv => ?_⟩
  · simp only [happly, bne_iff_ne]
    constructor
    · exact fun hne => ⟨t, by simpa using hne⟩
    · rintro ⟨u, hu⟩ rfl
      simp at hu
  · grind
  · grind

/-- **`spinlock_acquire`**: a statement does not panic, and waits only for another thread. -/
theorem enter {i : Enter} (hg : grip t = i.grip) (first : B) :
    (∃ l', l.enter t i = .ok l' ∧ l'.Gripped (update grip t (i.next first).grip)) ∨
      l.enter t i = .error .blocked ∧ ∃ u, u ≠ t ∧ grip u ≠ .none := by
  cases i with
  | check =>
    have hne : l.holder ≠ some t := fun heq => by
      rw [h.holder, hg] at heq
      cases heq
    refine .inl ⟨l, if_neg hne, ?_⟩
    rw [update_eq_self_iff.mpr hg.symm]
    exact h
  | testAndSet =>
    by_cases hw : l.word = true
    · obtain ⟨u, hu⟩ := h.word.mp hw
      exact .inr ⟨if_pos hw, u, fun heq => hu (heq ▸ hg), hu⟩
    · exact .inl ⟨_, if_neg hw, h.take (by simpa using hw)⟩
  | setHolder =>
    have hg : grip t ≠ .none := by simp [hg, Enter.grip]
    refine .inl ⟨_, rfl, ?_⟩
    rw [h.word.mpr ⟨t, hg⟩]
    exact h.change hg (g := .full)

/-- **`spinlock_release`**: its assertion holds. -/
theorem leave {i : Leave} (hg : grip t = i.grip) :
    ∃ l', l.leave t i = .ok l' ∧
      l'.Gripped (update grip t (i.next.elim .none Leave.grip)) := by
  cases i with
  | clearHolder =>
    refine ⟨_, if_pos ((h.holder t).mpr hg), ?_⟩
    have hg : grip t ≠ .none := by simp [hg, Leave.grip]
    rw [h.word.mpr ⟨t, hg⟩]
    exact h.change hg (g := .word)
  | clearWord =>
    have hholder : l.holder = none := by
      refine Option.eq_none_iff_forall_ne_some.mpr fun u hu => ?_
      rw [h.holder] at hu
      obtain rfl := h.one u t (by simp [hu]) (by simp [hg, Leave.grip])
      rw [hg] at hu
      cases hu
    refine ⟨_, rfl, ?_⟩
    rw [hholder]
    exact h.change (by simp [hg, Leave.grip]) (g := .none)

end Gripped

end Spinlock

end OsPaging.Thread
