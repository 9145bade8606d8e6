import OsPaging.Lib.Run
import OsPaging.Thread.Wchan
import OsPaging.Vm.Machine

/-!
# User-level semaphores

`semfs_wakeup`, `semfs_read`, `semfs_write` and `semfs_truncate` of
`kern/fs/semfs/semfs_vnops.c:135-292` on one semaphore. They run under `sems_lock`, so an event is a
critical section: from `lock_acquire` to `lock_release`, or to the `cv_wait` of a reader that finds
the count at zero. A reader that was signalled goes through another section when it has the lock
again; `cv_wait` gives the lock up and joins the channel in one step (`Thread/Cv.lean`). The number
that a reader has still to take is its `uio_resid`.

`semfs_wakeup` wakes nobody when the count is already positive, on the ground that nobody sleeps
then. After a signal that is not so: the reader it woke has not come yet, the others sleep, and a
second post adds a unit for which nobody is woken (`second_post_lost`).
-/

namespace OsPaging.Fs

open OsPaging.Lib OsPaging.Thread OsPaging.Vm

variable {T : Type}

structure SemfsSem (T : Type) where
  count : Nat
  /-- The channel of `sems_cv`. -/
  wchan : Wchan T
  resid : T → Nat

def semfsSemCreate : SemfsSem T := ⟨0, .create, fun _ => 0⟩

inductive SemfsEvent (T : Type)
  /-- The first section of a `semfs_read` of `n` units. -/
  | read (t : T) (n : Nat)
  /-- The section of a reader after `cv_wait`. -/
  | again (t : T)
  /-- A `semfs_write` of `n` units. -/
  | write (n : Nat)
  | truncate (len : Int)
deriving DecidableEq, Repr

namespace SemfsSem

variable (s : SemfsSem T)

/-- `semfs_wakeup` (`semfs_vnops.c:141-154`). -/
def semfsWakeup (newcount : Nat) : Wchan T :=
  if 0 < s.count ∨ newcount = 0 then s.wchan
  else if newcount = 1 then s.wchan.wakeone
  else s.wchan.wakeall

/-- One round of the loop of `semfs_read` with `resid` units to take (`semfs_vnops.c:197-220`): the
count, and the units left. There is another round only after `cv_wait`. -/
def readSection (resid : Nat) : Nat × Nat :=
  if 0 < resid ∧ 0 < s.count then
    let consume := if s.count < resid then s.count else resid
    (s.count - consume, resid - consume)
  else (s.count, resid)

/-- The reader returns, or waits for the rest. -/
def readOn [DecidableEq T] (t : T) (r : Nat × Nat) : SemfsSem T :=
  if r.2 = 0 then { s with count := r.1 }
  else ⟨r.1, s.wchan.sleep t, Function.update s.resid t r.2⟩

/-- The new count of `semfs_write` and `semfs_truncate`, unless they return before they use it: for
a write of nothing, on overflow, and for a length out of range. -/
def newcount : SemfsEvent T → Option Nat
  | .write n =>
    if n = 0 then none
    else
      let newcount := (s.count + n) % wordSize
      if newcount < s.count then none else some newcount
  | .truncate len => if len < 0 ∨ (wordSize : Int) ≤ len then none else some len.toNat
  | _ => none

/-- What they do with it. -/
def post : Option Nat → SemfsSem T
  | none => s
  | some newcount => { s with count := newcount, wchan := s.semfsWakeup newcount }

/-- One section. Sizes are 32-bit. -/
def exec [DecidableEq T] : SemfsEvent T → Option (SemfsSem T)
  | .read t n =>
    if s.wchan.Has t ∨ wordSize ≤ n then none else some (s.readOn t (s.readSection n))
  | .again t =>
    if t ∈ s.wchan.woken then
      some ({ s with wchan := s.wchan.resume t }.readOn t (s.readSection (s.resid t)))
    else none
  | .write n => if wordSize ≤ n then none else some (s.post (s.newcount (.write n)))
  | .truncate len => some (s.post (s.newcount (.truncate len)))

/-- A post that makes the count two or more finds it at zero, or finds nobody asleep. -/
def Uncontended (e : SemfsEvent T) : Prop :=
  ∀ newcount ∈ s.newcount e, 2 ≤ newcount → 0 < s.count → s.wchan.threads = []

instance [DecidableEq T] (e : SemfsEvent T) : Decidable (s.Uncontended e) :=
  inferInstanceAs (Decidable (∀ newcount ∈ s.newcount e, _))

/-- One section that `allowed` admits. -/
def Step [DecidableEq T] (allowed : SemfsSem T → SemfsEvent T → Prop) (s : SemfsSem T)
    (e : SemfsEvent T) (s' : SemfsSem T) : Prop :=
  allowed s e ∧ s.exec e = some s'

/-- A unit is left, a reader sleeps, and nobody is on the way to it. -/
def Lost : Prop := 0 < s.count ∧ s.wchan.threads ≠ [] ∧ s.wchan.woken = []

instance [DecidableEq T] : Decidable s.Lost := inferInstanceAs (Decidable (_ ∧ _))

end SemfsSem

/-! ## The invariant -/

/-- While a reader sleeps there is at most one unit, and a woken reader for it. -/
def Awaited (s : SemfsSem T) : Prop :=
  s.wchan.threads ≠ [] → s.count = 0 ∨ s.count = 1 ∧ s.wchan.woken ≠ []

namespace Awaited

variable {s : SemfsSem T} {t : T}

/-- A reader takes what there is: it leaves nothing, or nobody sleeps. -/
theorem readOn [DecidableEq T] {wc : Wchan T} {resid : Nat} (h : Awaited s)
    (hth : wc.threads = s.wchan.threads)
    (hw : 0 < resid ∨ wc = s.wchan) :
    Awaited ({ s with wchan := wc }.readOn t (s.readSection resid)) := by
  unfold SemfsSem.readOn
  split_ifs with hdone
  · intro hne
    have hne : s.wchan.threads ≠ [] := hth ▸ hne
    by_cases hr : 0 < resid
    · -- it took the last unit
      refine .inl ?_
      have hle : s.count ≤ 1 := by
        rcases h hne with h0 | ⟨h1, -⟩ <;> omega
      unfold SemfsSem.readSection
      grind
    · obtain rfl := hw.resolve_left hr
      have hsame : s.readSection resid = (s.count, resid) := if_neg fun hc => hr hc.1
      rw [hsame]
      exact h hne
  · refine fun _ => .inl ?_
    simp only
    unfold SemfsSem.readSection at hdone ⊢
    grind

/-- A post wakes a reader for one unit and all of them for more. -/
theorem post {newcount : Option Nat} (h : Awaited s)
    (hc : ∀ c ∈ newcount, 2 ≤ c → 0 < s.count → s.wchan.threads = []) :
    Awaited (s.post newcount) := by
  cases newcount with
  | none => exact h
  | some c =>
    intro hne
    unfold SemfsSem.post SemfsSem.semfsWakeup at hne ⊢
    simp only at hne ⊢
    split_ifs at hne ⊢ with hw h1
    · rcases hw with hpos | rfl
      · -- nobody is woken: the count was one, and it stays one or goes to zero
        have hc2 : ¬ 2 ≤ c := fun h2 => hne (hc c rfl h2 hpos)
        rcases h hne with h0 | ⟨-, hwoken⟩
        · omega
        · grind
      · exact .inl rfl
    · refine .inr ⟨h1, Wchan.woken_wakeone_ne_nil fun hnil => hne ?_⟩
      simp [Wchan.wakeone, hnil]
    · exact absurd rfl hne

end Awaited

/-- A reader that sleeps has units to take. -/
def Owing (s : SemfsSem T) : Prop := ∀ t, s.wchan.Has t → 0 < s.resid t

theorem Owing.readOn [DecidableEq T] {s : SemfsSem T} {t : T} {wc : Wchan T} {r : Nat × Nat}
    (h : Owing s) (hwc : ∀ u, wc.Has u → s.wchan.Has u) :
    Owing ({ s with wchan := wc }.readOn t r) := by
  unfold SemfsSem.readOn
  split_ifs with hdone
  · exact fun u hu => h u (hwc u hu)
  · intro u hu
    simp only [Function.update_apply]
    split_ifs with hut
    · exact Nat.pos_of_ne_zero hdone
    · exact h u (hwc u ((Wchan.has_sleep.mp hu).resolve_right hut))

theorem Owing.post {s : SemfsSem T} {newcount : Option Nat} (h : Owing s) :
    Owing (s.post newcount) := by
  cases newcount with
  | none => exact h
  | some c =>
    intro u hu
    refine h u ?_
    simp only [SemfsSem.post, SemfsSem.semfsWakeup] at hu
    split_ifs at hu
    · exact hu
    · exact Wchan.has_wakeone.mp hu
    · exact Wchan.has_wakeall.mp hu

theorem SemfsSem.Step.keeps [DecidableEq T] {s s' : SemfsSem T} {e : SemfsEvent T}
    (hs : s.Step SemfsSem.Uncontended e s') (h : Awaited s) (ho : Owing s) :
    Awaited s' ∧ Owing s' := by
  obtain ⟨ha, hx⟩ := hs
  cases e with
  | read t n =>
    simp only [SemfsSem.exec] at hx
    split_ifs at hx
    exact Option.some.inj hx ▸ ⟨h.readOn rfl (.inr rfl), ho.readOn fun _ => id⟩
  | again t =>
    simp only [SemfsSem.exec] at hx
    split_ifs at hx with hmem
    exact Option.some.inj hx ▸
      ⟨h.readOn rfl (.inl (ho t (.inr hmem))), ho.readOn fun _ => Wchan.has_of_resume⟩
  | write n =>
    simp only [SemfsSem.exec] at hx
    split_ifs at hx
    exact Option.some.inj hx ▸ ⟨h.post ha, ho.post⟩
  | truncate len => exact Option.some.inj hx ▸ ⟨h.post ha, ho.post⟩

/-- **No wakeup is lost**, in every state that is reached while no post to two or more units finds a
positive count and a sleeping reader. -/
theorem semfs_loses_no_wakeup [DecidableEq T] {es : List (SemfsEvent T)} {s : SemfsSem T}
    (hr : Run (SemfsSem.Step SemfsSem.Uncontended) semfsSemCreate es s) : ¬ s.Lost := by
  obtain ⟨h, -⟩ := hr.invariant (P := fun s => Awaited s ∧ Owing s)
    ⟨fun hne => absurd rfl hne, fun _ hu => absurd hu Wchan.not_has_create⟩
    fun _ _ _ h hs => hs.keeps h.1 h.2
  rintro ⟨hpos, hne, hnil⟩
  rcases h hne with h0 | ⟨-, hw⟩
  · omega
  · exact hw hnil

/-- Two readers sleep and two units are posted one by one: the second reader sleeps on. -/
theorem second_post_lost : ∃ s : SemfsSem Nat,
    Run (SemfsSem.Step fun _ _ => True) semfsSemCreate
      [.read 1 1, .read 2 1, .write 1, .write 1, .again 1] s ∧ s.Lost := by
  exact Run.exists_imp (Run.exists_of_allowed (by decide)) fun _ _ => id

/-- A unit that is taken before the reader woken for it comes, and one that is not. -/
abbrev postsApart : List (SemfsEvent Nat) :=
  [.read 1 1, .read 2 5, .write 1, .read 3 1, .again 1, .truncate 4, .again 2, .again 1, .write 1]

/-- At the end a reader is on its way. -/
theorem semfs_loses_no_wakeup_apart : ∃ s : SemfsSem Nat,
    Run (SemfsSem.Step SemfsSem.Uncontended) semfsSemCreate postsApart s ∧
      s.count = 1 ∧ s.wchan.threads = [1] ∧ s.wchan.woken ≠ [] := by
  refine Run.exists_imp (Q := fun s => s.count = 1 ∧ s.wchan.threads = [1])
    (Run.exists_of_allowed (by decide)) ?_
  rintro s hr ⟨hc, hth⟩
  exact ⟨hc, hth, fun hnil => semfs_loses_no_wakeup hr ⟨by omega, by simp [hth], hnil⟩⟩

end OsPaging.Fs
