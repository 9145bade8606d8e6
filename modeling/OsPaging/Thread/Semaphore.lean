import OsPaging.Lib.Run
import OsPaging.Thread.Wchan
import OsPaging.Vm.Machine

/-!
# Semaphores

`P` and `V` of `kern/thread/synch.c:91-138`. Both touch the semaphore under `sem_lock` only, so an
event is a critical section: from the `spinlock_acquire` to the `spinlock_release`, or to the point
in `wchan_sleep` where the spinlock is given up. A thread that was woken goes through another
section, in which it tests the count again; a thread that has just called `P` may come before it.

`V` may be called by an interrupt handler and is not tied to a thread. The count is `unsigned`; the
assertion in `V` stops the kernel when it wraps.
-/

namespace OsPaging.Thread

open OsPaging.Lib OsPaging.Vm

variable {T : Type}

structure Semaphore (T : Type) where
  count : Nat
  wchan : Wchan T
deriving DecidableEq, Repr

def semCreate (initialCount : Nat) : Semaphore T := ⟨initialCount, .create⟩

inductive SemEvent (T : Type)
  /-- The first section of a `P`; `done` tells whether `P` returns after it. -/
  | p (t : T) (done : Bool)
  /-- The section of a `P` after `wchan_sleep`. -/
  | again (t : T) (done : Bool)
  | v
deriving DecidableEq, Repr

/-- The event completes a `P`. -/
def SemEvent.endsP : SemEvent T → Bool
  | .p _ done => done
  | .again _ done => done
  | .v => false

/-- The event is a `V`. -/
def SemEvent.isV : SemEvent T → Bool
  | .v => true
  | _ => false

namespace Semaphore

/-- The section of `P`, at the test of its loop (`synch.c:105-123`). -/
def pSection (sem : Semaphore T) (t : T) : Bool × Semaphore T :=
  if sem.count = 0 then (false, { sem with wchan := sem.wchan.sleep t })
  else (true, { sem with count := sem.count - 1 })

/-- The section of `V` (`synch.c:131-137`). -/
def vSection (sem : Semaphore T) : Option (Semaphore T) :=
  let count := (sem.count + 1) % wordSize
  if count = 0 then none else some ⟨count, sem.wchan.wakeone⟩

/-- One section. -/
def exec [DecidableEq T] (sem : Semaphore T) : SemEvent T → Option (Semaphore T)
  | .p t done =>
    if sem.wchan.Has t then none
    else
      let r := sem.pSection t
      if r.1 = done then some r.2 else none
  | .again t done =>
    if t ∈ sem.wchan.woken then
      let r := { sem with wchan := sem.wchan.resume t }.pSection t
      if r.1 = done then some r.2 else none
    else none
  | .v => sem.vSection

def Step [DecidableEq T] (sem : Semaphore T) (e : SemEvent T) (sem' : Semaphore T) : Prop :=
  sem.exec e = some sem'

/-- A section of `P` takes a unit, or finds none and sleeps. -/
theorem pSection_cases {sem sem' : Semaphore T} {t : T} {done : Bool}
    (h : (if (sem.pSection t).1 = done then some (sem.pSection t).2 else none) = some sem') :
    done = true ∧ 0 < sem.count ∧ sem' = { sem with count := sem.count - 1 } ∨
      done = false ∧ sem.count = 0 ∧ sem' = { sem with wchan := sem.wchan.sleep t } := by
  unfold pSection at h
  grind

theorem vSection_ok {sem sem' : Semaphore T} (h : sem.vSection = some sem')
    (hc : sem.count < wordSize) :
    sem.count + 1 < wordSize ∧ sem' = ⟨sem.count + 1, sem.wchan.wakeone⟩ := by
  unfold vSection at h
  grind

/-- After the events `es`: the count, and enough woken threads for it. -/
structure Counted (initialCount : Nat) (es : List (SemEvent T)) (sem : Semaphore T) : Prop where
  word : sem.count < wordSize
  count : sem.count + es.countP SemEvent.endsP = initialCount + es.countP SemEvent.isV
  pending : sem.wchan.threads ≠ [] → sem.count ≤ sem.wchan.woken.length

namespace Counted

variable {initialCount : Nat} {es : List (SemEvent T)} {sem sem' : Semaphore T}

/-- A section of `P`. A thread that comes to it from `wchan_sleep` is no longer in the channel,
which is why a section may lose one of the woken threads. -/
theorem pSection {t : T} {e : SemEvent T} {wc : Wchan T} (h : Counted initialCount es sem)
    (hv : e.isV = false) (hthreads : wc.threads = sem.wchan.threads)
    (hwoken : sem.wchan.woken.length ≤ wc.woken.length + 1)
    (hs : (if ({ sem with wchan := wc }.pSection t).1 = e.endsP then
      some ({ sem with wchan := wc }.pSection t).2 else none) = some sem') :
    Counted initialCount (es ++ [e]) sem' := by
  obtain ⟨hword, hcount, hpending⟩ := h
  rcases pSection_cases hs with ⟨hp, hpos, rfl⟩ | ⟨hp, hzero, rfl⟩
  · simp only at hpos
    refine ⟨by simp only; omega, ?_, fun hne => ?_⟩
    · grind
    · grind
  · refine ⟨hword, ?_, fun _ => le_of_eq_of_le hzero (Nat.zero_le _)⟩
    grind

/-- A `V` wakes a thread for the unit it adds. -/
theorem vSection (h : Counted initialCount es sem) (hs : sem.vSection = some sem') :
    Counted initialCount (es ++ [.v]) sem' := by
  obtain ⟨hword, hcount, hpending⟩ := h
  obtain ⟨hlt, rfl⟩ := vSection_ok hs hword
  refine ⟨hlt, ?_, fun hne => ?_⟩
  · rw [List.countP_append, List.countP_append]
    simp only [List.countP_singleton, SemEvent.endsP, SemEvent.isV, Bool.false_eq_true, if_false,
      if_true]
    omega
  · unfold Wchan.wakeone at hne ⊢
    grind

variable [DecidableEq T]

theorem step {e : SemEvent T} (h : Counted initialCount es sem) (hs : sem.Step e sem') :
    Counted initialCount (es ++ [e]) sem' := by
  cases e with
  | p t done =>
    simp only [Step, exec] at hs
    split_ifs at hs with hhas hdone
    exact h.pSection (t := t) rfl rfl (Nat.le_succ _) ((if_pos hdone).trans hs)
  | again t done =>
    simp only [Step, exec] at hs
    split_ifs at hs with hmem hdone
    refine h.pSection (t := t) rfl ?_ ?_ ((if_pos hdone).trans hs)
    · rfl
    · have := List.length_erase_of_mem hmem
      simp only [Wchan.resume]
      omega
  | v => exact h.vSection hs

end Counted

end Semaphore

/-- **Semaphores count, and lose no wakeup**: the count is the initial one with the completed `V`s
less the completed `P`s; while some thread sleeps there are at least as many woken threads as units,
so no unit is left with a sleeper and nobody on the way to it. -/
theorem semaphore_counts [DecidableEq T] {initialCount : Nat} {es : List (SemEvent T)}
    {sem : Semaphore T} (hi : initialCount < wordSize)
    (hr : Run Semaphore.Step (semCreate initialCount) es sem) :
    sem.count + es.countP SemEvent.endsP = initialCount + es.countP SemEvent.isV ∧
      (sem.wchan.threads ≠ [] → sem.count ≤ sem.wchan.woken.length) ∧
      ¬ (0 < sem.count ∧ sem.wchan.threads ≠ [] ∧ sem.wchan.woken = []) := by
  have h : sem.Counted initialCount es := hr.history
    (R := fun es sem => sem.Counted initialCount es) ⟨hi, rfl, by simp [semCreate, Wchan.create]⟩
      fun _ _ _ _ h hs => h.step hs
  refine ⟨h.count, h.pending, ?_⟩
  rintro ⟨hpos, hne, hnil⟩
  have hle := h.pending hne
  grind

/-- Thread 1 sleeps and is woken, and thread 2 takes the unit before it. -/
theorem semaphore_counts_barging : ∃ sem : Semaphore Nat,
    Run Semaphore.Step (semCreate 0)
      [.p 1 false, .v, .p 2 true, .again 1 false, .p 3 false, .v, .v] sem ∧
    sem.count = 2 ∧ sem.wchan.threads = [] ∧ 2 + 1 = 0 + 3 := by
  have hr : Run Semaphore.Step (semCreate 0)
      [.p 1 false, .v, .p 2 true, .again 1 false, .p 3 false, .v, .v]
      (⟨2, ⟨[], [1, 3]⟩⟩ : Semaphore Nat) :=
    Run.of_foldlM (f := Semaphore.exec) (fun _ _ _ h => h) (by decide)
  exact ⟨_, hr, rfl, rfl, (semaphore_counts (by decide) hr).1⟩

end OsPaging.Thread
