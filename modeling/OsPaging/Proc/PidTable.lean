import OsPaging.Lib.Run
import Mathlib.Logic.Function.Basic
import Mathlib.Order.Basic

/-!
# Process identifiers

`pid_table_init`, `pid_table_del`, `proc_create` and `proc_destroy` of `kern/proc/proc.c:55-223`,
for any number of creations and destructions under way at once. The table is used under
`table_lock`, so each of the two functions is one event; before the first the new process has a heap
block without a pid, and after the second it has one until the `kfree` at the end of `proc_destroy`.
A process is live in between.

A process is its heap block, and a block that was freed may be given out again, with anything in the
place of `p_pid`. `proc_destroy` is called for live processes. A full table stops the kernel.
-/

namespace OsPaging.Proc

open OsPaging.Lib Function

variable {P : Type}

/-- `MINP` and `MAXP`. -/
abbrev minp : Nat := 2

@[inherit_doc minp]
abbrev maxp : Nat := 100

/-- What a heap block is to the process table. -/
inductive Phase
  /-- No process. -/
  | absent
  /-- In `proc_create`, before `pid_table_init`. -/
  | created
  | live
  /-- In `proc_destroy`, past `pid_table_del`. -/
  | removed
deriving DecidableEq, Repr

structure PidState (P : Type) where
  kproc : P
  pidTable : Nat → Option P
  pPid : P → Nat
  phase : P → Phase

inductive PidEvent (P : Type)
  /-- `kmalloc` in `proc_create`, of a block with `garbage` in the place of `p_pid`. -/
  | kmalloc (p : P) (garbage : Nat)
  /-- `kstrdup` or `sem_create` fails, and `proc_create` frees the block. -/
  | giveUp (p : P)
  | pidTableInit (p : P)
  /-- `proc_destroy` up to `pid_table_del`. -/
  | pidTableDel (p : P)
  /-- `kfree` at the end of `proc_destroy`. -/
  | kfree (p : P)
deriving DecidableEq, Repr

namespace PidState

variable [DecidableEq P] (s : PidState P)

def setPhase (p : P) (ph : Phase) : PidState P := { s with phase := update s.phase p ph }

/-- `pid_table_init` (`proc.c:60-77`): the lowest index that is free. -/
def pidTableInit (p : P) : Option (PidState P) :=
  match (List.range' minp (maxp - minp)).find? fun i => (s.pidTable i).isNone with
  | none => none
  | some i => some { s with
      pidTable := update s.pidTable i (some p)
      pPid := update s.pPid p i }

/-- `pid_table_del` (`proc.c:79-87`). -/
def pidTableDel (p : P) : Option (PidState P) :=
  let i := s.pPid p
  if minp ≤ i ∧ i ≤ maxp then some { s with pidTable := update s.pidTable i none }
  else none

/-- One event; `none` if it is not one, or the kernel stops. -/
def exec : PidEvent P → Option (PidState P)
  | .kmalloc p garbage =>
    if s.phase p = .absent then
      some ({ s with pPid := update s.pPid p garbage }.setPhase p .created)
    else none
  | .giveUp p => if s.phase p = .created then some (s.setPhase p .absent) else none
  | .pidTableInit p =>
    if s.phase p = .created then (s.pidTableInit p).map fun s => s.setPhase p .live else none
  | .pidTableDel p =>
    if s.phase p = .live ∧ p ≠ s.kproc then (s.pidTableDel p).map fun s => s.setPhase p .removed
    else none
  | .kfree p => if s.phase p = .removed then some (s.setPhase p .absent) else none

def Step (s : PidState P) (e : PidEvent P) (s' : PidState P) : Prop := s.exec e = some s'

end PidState

/-- `proc_bootstrap` (`proc.c:228-239`) up to the creation of `kproc`. -/
def procBootstrap (kproc : P) (pPid : P → Nat) : PidState P :=
  ⟨kproc, fun _ => none, pPid, fun _ => .absent⟩

/-! ## The invariant -/

structure PidInv (s : PidState P) : Prop where
  range : ∀ p, s.phase p = .live → minp ≤ s.pPid p ∧ s.pPid p < maxp
  table : ∀ i p, s.pidTable i = some p ↔ s.phase p = .live ∧ s.pPid p = i

namespace PidInv

variable {s s' : PidState P} {p q : P}

theorem distinct (h : PidInv s) (hp : s.phase p = .live) (hq : s.phase q = .live)
    (heq : s.pPid p = s.pPid q) : p = q := by
  have h1 := (h.table _ p).mpr ⟨hp, rfl⟩
  have h2 := (h.table _ q).mpr ⟨hq, rfl⟩
  rw [heq, h2] at h1
  exact (Option.some.inj h1).symm

variable [DecidableEq P]

/-- Events that leave the table and the live processes as they are. -/
theorem setPhase {ph : Phase} {pPid : P → Nat} (h : PidInv s) (hp : s.phase p ≠ .live)
    (hph : ph ≠ .live) (hpid : ∀ q, q ≠ p → pPid q = s.pPid q) :
    PidInv ({ s with pPid := pPid }.setPhase p ph) := by
  have hlive : ∀ q, update s.phase p ph q = .live ↔ s.phase q = .live ∧ q ≠ p := by
    grind
  refine ⟨fun q hq => ?_, fun i q => (h.table i q).trans ?_⟩
  · obtain ⟨hq, hne⟩ := (hlive q).mp hq
    simp only [PidState.setPhase, hpid q hne]
    exact h.range q hq
  · simp only [PidState.setPhase, hlive]
    grind

/-- `pid_table_init` takes an index that no live process has. -/
theorem pidTableInit (h : PidInv s) (hp : s.phase p = .created) {s₁ : PidState P}
    (hs : s.pidTableInit p = some s₁) :
    PidInv (s₁.setPhase p .live) ∧ ∃ i, s.pidTable i = none ∧
      s₁ = { s with
        pidTable := update s.pidTable i (some p)
        pPid := update s.pPid p i } := by
  unfold PidState.pidTableInit at hs
  split at hs
  · cases hs
  · rename_i i hfind
    cases hs
    obtain ⟨hnone, hmem, -⟩ := List.find?_range'_eq_some.mp hfind
    rw [List.mem_range'_1] at hmem
    have hnone : s.pidTable i = none := by simpa using hnone
    refine ⟨⟨fun q hq => ?_, fun j q => ?_⟩, i, hnone, rfl⟩
    · simp only [PidState.setPhase, update_apply] at hq ⊢
      split_ifs at hq ⊢
      · omega
      · exact h.range q hq
    · simp only [PidState.setPhase, update_apply]
      by_cases hq : q = p
      · subst hq
        simp only [if_true, true_and]
        split_ifs with hj
        · simp [hj]
        · rw [h.table]
          simp [hp, Ne.symm hj]
      · simp only [hq, if_false]
        split_ifs with hj
        · subst hj
          rw [← h.table, hnone]
          simpa using fun heq => hq heq.symm
        · exact h.table j q

theorem pidTableDel (h : PidInv s) (hp : s.phase p = .live) {s₁ : PidState P}
    (hs : s.pidTableDel p = some s₁) :
    PidInv (s₁.setPhase p .removed) ∧
      s₁ = { s with pidTable := update s.pidTable (s.pPid p) none } := by
  unfold PidState.pidTableDel at hs
  simp only [Option.ite_none_right_eq_some, Option.some.injEq] at hs
  obtain ⟨-, rfl⟩ := hs
  refine ⟨⟨fun q hq => ?_, fun i q => ?_⟩, rfl⟩
  · simp only [PidState.setPhase, update_apply] at hq
    split_ifs at hq
    exact h.range q hq
  · simp only [PidState.setPhase, update_apply]
    by_cases hq : q = p
    · subst hq
      simp only [if_true, reduceCtorEq, false_and, iff_false]
      split_ifs with hi
      · simp
      · rw [h.table]
        exact fun hc => hi hc.2.symm
    · simp only [hq, if_false]
      split_ifs with hi
      · subst hi
        exact iff_of_false (by simp) fun hc => hq (h.distinct hc.1 hp hc.2)
      · exact h.table i q

/-- An event that is not a deletion, and leaves the table alone. -/
theorem step_setPhase {ph : Phase} {pPid : P → Nat} {e : PidEvent P} (h : PidInv s)
    (hp : s.phase p ≠ .live) (hph : ph ≠ .live) (hpid : ∀ q, q ≠ p → pPid q = s.pPid q)
    (he : ∀ q, e ≠ .pidTableDel q) :
    PidInv ({ s with pPid := pPid }.setPhase p ph) ∧ ∀ i q, s.pidTable i = some q →
      s.pidTable i = if e = .pidTableDel q then none else some q :=
  ⟨h.setPhase hp hph hpid, fun _ q hq => hq.trans (if_neg (he q)).symm⟩

/-- **One event**: the invariant, and what it does to the index of a live process. -/
theorem step {e : PidEvent P} (h : PidInv s) (hs : s.Step e s') :
    PidInv s' ∧ ∀ i p, s.pidTable i = some p →
      s'.pidTable i = if e = .pidTableDel p then none else some p := by
  cases e with (simp only [PidState.Step, PidState.exec] at hs; split_ifs at hs with hp)
  | kmalloc p garbage =>
    cases hs
    exact h.step_setPhase (by simp [hp]) (by simp) (fun q hq => update_of_ne hq _ _)
      (by simp)
  | giveUp p | kfree p =>
    cases hs
    exact h.step_setPhase (by simp [hp]) (by simp) (fun _ _ => rfl) (by simp)
  | pidTableInit p =>
    obtain ⟨s₁, hs₁, rfl⟩ := Option.map_eq_some_iff.mp hs
    obtain ⟨hinv, i, hnone, rfl⟩ := h.pidTableInit hp hs₁
    refine ⟨hinv, fun j q hq => ?_⟩
    have hne : j ≠ i := by
      grind
    rw [if_neg (by simp)]
    exact (update_of_ne hne _ _).trans hq
  | pidTableDel p =>
    obtain ⟨s₁, hs₁, rfl⟩ := Option.map_eq_some_iff.mp hs
    obtain ⟨hinv, rfl⟩ := h.pidTableDel hp.1 hs₁
    refine ⟨hinv, fun i q hq => ?_⟩
    obtain ⟨hlive, rfl⟩ := (h.table i q).mp hq
    by_cases hpq : p = q
    · subst hpq
      rw [if_pos rfl]
      exact update_self _ _ _
    · rw [if_neg (by simpa using hpq)]
      have hne : s.pPid q ≠ s.pPid p := fun heq => hpq (h.distinct hp.1 hlive heq.symm)
      exact (update_of_ne hne _ _).trans hq

theorem of_run {kproc : P} {pPid : P → Nat} {es : List (PidEvent P)}
    (hr : Run PidState.Step (procBootstrap kproc pPid) es s) : PidInv s :=
  hr.invariant (P := PidInv)
    ⟨fun _ hp => absurd hp (by simp [procBootstrap]), fun _ _ => by simp [procBootstrap]⟩
    fun _ _ _ h hs => (h.step hs).1

end PidInv

/-- **Pids identify the live processes**, in every state that is reached: they are distinct and in
`[2, 99]`, and the table has each live process at its pid and nothing else. A pid is given to a
process only when it is no live process's, and stays that process's until `pid_table_del` in its
own `proc_destroy`, whose assertion holds. -/
theorem pids_unique [DecidableEq P] {kproc : P} {pPid : P → Nat} {es : List (PidEvent P)}
    {s : PidState P} (hr : Run PidState.Step (procBootstrap kproc pPid) es s) :
    (∀ p, s.phase p = .live → 2 ≤ s.pPid p ∧ s.pPid p ≤ 99) ∧
      (∀ p q, s.phase p = .live → s.phase q = .live → s.pPid p = s.pPid q → p = q) ∧
      (∀ i p, s.pidTable i = some p ↔ s.phase p = .live ∧ s.pPid p = i) ∧
      (∀ p s', s.Step (.pidTableInit p) s' → s'.phase p = .live ∧ s.pidTable (s'.pPid p) = none) ∧
      (∀ e s' p, s.Step e s' → s.phase p = .live →
        s'.pidTable (s.pPid p) = if e = .pidTableDel p then none else some p) ∧
      ∀ p, s.phase p = .live → p ≠ s.kproc → ∃ s', s.Step (.pidTableDel p) s' := by
  have h := PidInv.of_run hr
  refine ⟨fun p hp => ?_, fun p q => h.distinct, h.table, fun p s' hs => ?_,
    fun e s' p hs hp => (h.step hs).2 _ p ((h.table _ p).mpr ⟨hp, rfl⟩), fun p hp hk => ?_⟩
  · have := h.range p hp
    simp only [minp, maxp] at this
    omega
  · simp only [PidState.Step, PidState.exec] at hs
    split_ifs at hs with hp
    obtain ⟨s₁, hs₁, rfl⟩ := Option.map_eq_some_iff.mp hs
    obtain ⟨-, i, hnone, rfl⟩ := h.pidTableInit hp hs₁
    simp [PidState.setPhase, hnone]
  · have := h.range p hp
    have hdel : s.pidTableDel p =
        some { s with pidTable := update s.pidTable (s.pPid p) none } :=
      if_pos ⟨this.1, Nat.le_of_lt this.2⟩
    exact ⟨_, by rw [PidState.Step, PidState.exec, if_pos ⟨hp, hk⟩, hdel]; rfl⟩

/-- Process 20 is destroyed while process 30 is created, which gets its pid; then the block of the
first is the block of another process. -/
abbrev overlapping : List (PidEvent Nat) :=
  [.kmalloc 10 77, .pidTableInit 10, .kmalloc 20 0, .pidTableInit 20, .kmalloc 30 3,
    .pidTableDel 20, .pidTableInit 30, .kfree 20, .kmalloc 20 5, .pidTableInit 20]

theorem pids_unique_overlapping : ∃ s : PidState Nat,
    Run PidState.Step (procBootstrap 10 fun _ => 0) overlapping s ∧
      s.phase 20 = .live ∧ s.phase 30 = .live ∧ s.pPid 30 = 3 ∧ s.pPid 20 ≠ 3 := by
  refine Run.exists_imp (Q := fun s => s.phase 20 = .live ∧ s.phase 30 = .live ∧ s.pPid 30 = 3)
    (Run.exists_of_foldlM (f := PidState.exec) (fun _ _ _ h => h) (by decide)) ?_
  rintro s hr ⟨h20, h30, hpid⟩
  refine ⟨h20, h30, hpid, fun heq => ?_⟩
  exact absurd ((pids_unique hr).2.1 20 30 h20 h30 (heq.trans hpid.symm)) (by decide)

end OsPaging.Proc
