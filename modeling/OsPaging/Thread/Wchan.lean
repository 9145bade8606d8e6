import Mathlib.Data.List.Nodup
import Mathlib.Data.List.Perm.Basic

/-!
# Wait channels

`wchan_sleep`, `wchan_wakeone` and `wchan_wakeall` of `kern/thread/thread.c:999-1075`, with the
`S_SLEEP` branch of `thread_switch` (`thread.c:601-613`). All of them run under the spinlock of the
channel. A thread that sleeps is put on the list before `thread_switch` gives the spinlock up, and
takes the spinlock again when it runs; between the wakeup and that it is in `woken`.

The scheduler does not appear: any thread that is not on a channel may be the next to run.
-/

namespace OsPaging.Thread

variable {T : Type}

/-- `wc_threads`, and the threads that a wakeup has made runnable and that have not yet taken the
spinlock again. -/
structure Wchan (T : Type) where
  threads : List T
  woken : List T
deriving DecidableEq, Repr

namespace Wchan

/-- `wchan_create`. -/
def create : Wchan T := ⟨[], []⟩

/-- `wchan_sleep`, up to the switch. -/
def sleep (wc : Wchan T) (t : T) : Wchan T := { wc with threads := wc.threads ++ [t] }

/-- The `spinlock_acquire` at the end of `wchan_sleep`. -/
def resume [DecidableEq T] (wc : Wchan T) (t : T) : Wchan T := { wc with woken := wc.woken.erase t }

/-- `wchan_wakeone`. -/
def wakeone (wc : Wchan T) : Wchan T :=
  match wc.threads with
  | [] => wc
  | target :: rest => ⟨rest, wc.woken ++ [target]⟩

/-- `wchan_wakeall`: the threads in the order of the list. -/
def wakeall (wc : Wchan T) : Wchan T := ⟨[], wc.woken ++ wc.threads⟩

/-- The thread is in `wchan_sleep`. -/
def Has (wc : Wchan T) (t : T) : Prop := t ∈ wc.threads ∨ t ∈ wc.woken

instance [DecidableEq T] (wc : Wchan T) (t : T) : Decidable (wc.Has t) :=
  inferInstanceAs (Decidable (_ ∨ _))

/-- A thread is in the channel once. -/
def Wf (wc : Wchan T) : Prop := (wc.threads ++ wc.woken).Nodup

variable {wc : Wchan T} {t u : T}

@[simp] theorem not_has_create : ¬ (create : Wchan T).Has t := by simp [create, Has]

theorem has_sleep : (wc.sleep t).Has u ↔ wc.Has u ∨ u = t := by
  simp only [Has, sleep, List.mem_append, List.mem_singleton]
  tauto

theorem has_of_resume [DecidableEq T] (h : (wc.resume t).Has u) : wc.Has u :=
  h.imp_right List.mem_of_mem_erase

theorem perm_wakeone (wc : Wchan T) :
    (wc.wakeone.threads ++ wc.wakeone.woken).Perm (wc.threads ++ wc.woken) := by
  unfold wakeone
  split
  · exact .refl _
  · rename_i target rest heq
    rw [heq, ← List.append_assoc]
    exact List.perm_append_comm

theorem perm_wakeall (wc : Wchan T) :
    (wc.wakeall.threads ++ wc.wakeall.woken).Perm (wc.threads ++ wc.woken) := by
  simp only [wakeall, List.nil_append]
  exact List.perm_append_comm

theorem has_of_perm {wc' : Wchan T}
    (h : (wc'.threads ++ wc'.woken).Perm (wc.threads ++ wc.woken)) : wc'.Has u ↔ wc.Has u := by
  simpa only [Has, List.mem_append] using h.mem_iff (a := u)

theorem has_wakeone : wc.wakeone.Has u ↔ wc.Has u := has_of_perm (perm_wakeone wc)

theorem has_wakeall : wc.wakeall.Has u ↔ wc.Has u := has_of_perm (perm_wakeall wc)

namespace Wf

theorem create : Wf (.create : Wchan T) := List.nodup_nil

variable (h : wc.Wf)
include h

theorem sleep (ht : ¬ wc.Has t) : (wc.sleep t).Wf := by
  have hp : (wc.threads ++ [t] ++ wc.woken).Perm (t :: (wc.threads ++ wc.woken)) := by
    rw [List.append_assoc]
    exact List.perm_middle
  exact hp.nodup_iff.mpr (List.nodup_cons.mpr ⟨by simpa [Has] using ht, h⟩)

theorem wakeone : wc.wakeone.Wf := (perm_wakeone wc).nodup_iff.mpr h

theorem wakeall : wc.wakeall.Wf := (perm_wakeall wc).nodup_iff.mpr h

theorem resume [DecidableEq T] : (wc.resume t).Wf :=
  h.sublist ((List.Sublist.refl _).append List.erase_sublist)

theorem has_resume [DecidableEq T] (ht : t ∈ wc.woken) :
    (wc.resume t).Has u ↔ wc.Has u ∧ u ≠ t := by
  obtain ⟨-, hnd, hdis⟩ := List.nodup_append.mp h
  simp only [Has, Wchan.resume, hnd.mem_erase_iff]
  grind

end Wf

theorem woken_wakeone_ne_nil (h : wc.threads ≠ []) : wc.wakeone.woken ≠ [] := by
  unfold wakeone
  split
  · contradiction
  · simp

end Wchan

end OsPaging.Thread
