import OsPaging.Proc.Handover
import OsPaging.Syscall.LoadElf

/-!
# Programs started from the menu

`common_prog` and `cmd_progthread` (`kern/main/menu.c:71-153`) with `runprogram`
(`kern/syscall/runprogram.c:54-108`): the menu thread makes a process, forks a thread into it and
waits. The wait is the waiter of `ExitWait.lean`; the other thread is where the results of
`thread_fork` and `runprogram` leave it. A thread that was not forked is one that has ended. When
`runprogram` returns, `cmd_progthread` does too, and `thread_startup` calls `thread_exit`; otherwise
the program runs, until it calls `_exit`. What the thread does before that does not touch `s_exit`.

`thread_exit` detaches the thread and posts nothing, and `common_prog` waits before it looks at the
result of `thread_fork`. **`menu_released_iff`**: the menu gets its one `V`, and comes back, if and
only if the fork and every step of `runprogram` succeed.
-/

namespace OsPaging.Proc

open OsPaging.Lib OsPaging.Thread OsPaging.Syscall

/-- What the functions that are called return, and the status the program exits with. -/
structure ProgOutcome where
  threadFork : Nat
  vfsOpen : Nat
  /-- The result is not `NULL`. -/
  asCreate : Bool
  loadElf : Nat
  status : BitVec 32

/-- `as_define_stack` (`kern/arch/mips/vm/vm.c:551-558`): what it returns. -/
def asDefineStack : Nat := 0

namespace ProgOutcome

variable (o : ProgOutcome)

/-- `runprogram`: what it returns, or `none` if the program runs. -/
def runprogram : Option Nat :=
  if o.vfsOpen ≠ 0 then some o.vfsOpen
  else if o.asCreate = false then some enomem
  else if o.loadElf ≠ 0 then some o.loadElf
  else if asDefineStack ≠ 0 then some asDefineStack
  else none

/-- `cmd_progthread`: where it leaves its thread. -/
def cmdProgthread : ExitPc :=
  match o.runprogram with
  | some _ => .threadExit
  | none => .status

/-- `common_prog`, at the call of `proc_wait`. -/
def commonProg : ExitState :=
  if o.threadFork = 0 then { exitStart with exiting := o.cmdProgthread }
  else { exitStart with pNumthreads := 0, tProc := false, exiting := .zombie }

theorem runprogram_eq_none_iff :
    o.runprogram = none ↔ o.vfsOpen = 0 ∧ o.asCreate = true ∧ o.loadElf = 0 := by
  unfold runprogram
  split_ifs with hopen has hload hstack
  · simp [hopen]
  · simp [has]
  · simp [hload]
  · exact absurd rfl hstack
  · simp_all

end ProgOutcome

/-- `sem_count++`, the post of a `V`. -/
abbrev postEvent : ExitEvent := .exiting (.v (.body .increment))

/-- The thread posts when it is at the post, and is past it then. -/
theorem ExitInv.posted_step {status : BitVec 32} {s s' : ExitState} {e : ExitEvent}
    (h : ExitInv status s) (hs : s.Step status e s') :
    s'.exiting.posted.toNat = s.exiting.posted.toNat + if e = postEvent then 1 else 0 := by
  cases e with simp only [ExitState.Step, ExitState.exec] at hs
  | waiter pc =>
    split_ifs at hs
    rw [ExitState.execWaiter_exiting hs]
    simp
  | exiting pc =>
    split_ifs at hs with hpc
    rw [ExitState.execExiting_exiting hs, h.attached, ExitPc.posted_next h.again, hpc]
    simp

theorem count_post {status : BitVec 32} {es : List ExitEvent} {s : ExitState}
    (hr : Run (ExitState.Step status) exitStart es s) :
    ExitInv status s ∧ es.count postEvent = s.exiting.posted.toNat := by
  refine hr.history
    (R := fun es s => ExitInv status s ∧ es.count postEvent = s.exiting.posted.toNat)
    ⟨.init status, rfl⟩ ?_
  rintro es s e t ⟨h, hcount⟩ hs
  refine ⟨(h.step hs).1, ?_⟩
  rw [List.count_append, hcount, h.posted_step hs, List.count_singleton]
  simp

/-- A thread of the process that ends in `thread_exit`. -/
abbrev threadExits : List ExitEvent :=
  [.exiting .threadExit, .exiting (.loadProc true), .exiting (.remthread true (.enter .check)),
    .exiting (.remthread true (.enter .testAndSet)), .exiting (.remthread true (.enter .setHolder)),
    .exiting (.remthread true (.body .kassert)), .exiting (.remthread true (.body .decrement)),
    .exiting (.remthread true (.leave .clearHolder)),
    .exiting (.remthread true (.leave .clearWord)), .exiting (.detach true), .exiting .switch]

/-- The state in which the menu waits for nobody. -/
abbrev stranded : ExitState :=
  { exitStart with
    pNumthreads := 0, tProc := false, semWchan := ⟨[.waiter], []⟩, exiting := .zombie
    waiter := .asleep }

theorem stranded_terminal (status : BitVec 32) (e : ExitEvent) (s : ExitState) :
    ¬ stranded.Step status e s := by
  intro hs
  cases e <;> simp only [ExitState.Step, ExitState.exec] at hs <;> split_ifs at hs with hpc <;>
    subst hpc <;> cases hs

theorem stranded_of_fork {o : ProgOutcome} (h : o.threadFork ≠ 0) :
    Run (ExitState.Step o.status) o.commonProg waiterSleeps stranded := by
  rw [ProgOutcome.commonProg, if_neg h]
  exact Run.of_exec rfl

theorem stranded_of_runprogram {o : ProgOutcome} (h : o.threadFork = 0)
    (hrun : o.runprogram ≠ none) :
    Run (ExitState.Step o.status) o.commonProg (waiterSleeps ++ threadExits) stranded := by
  obtain ⟨err, herr⟩ := Option.ne_none_iff_exists'.mp hrun
  rw [ProgOutcome.commonProg, if_pos h, ProgOutcome.cmdProgthread, herr]
  exact Run.of_exec rfl

/-- **The menu is released exactly once** and comes back, in every state where nothing can happen
any more, if and only if the fork succeeded and the program ran. -/
theorem menu_released_iff (o : ProgOutcome) :
    (∀ es s, Run (ExitState.Step o.status) o.commonProg es s →
        (∀ e t, ¬ s.Step o.status e t) → s.waiter = .returned ∧ es.count postEvent = 1) ↔
      o.threadFork = 0 ∧ o.vfsOpen = 0 ∧ o.asCreate = true ∧ o.loadElf = 0 := by
  rw [← o.runprogram_eq_none_iff]
  constructor
  · intro h
    have key : ∀ es, ¬ Run (ExitState.Step o.status) o.commonProg es stranded := fun es hr =>
      absurd (h es stranded hr (stranded_terminal o.status)).1 (by simp)
    by_cases hfork : o.threadFork = 0
    · by_cases hrun : o.runprogram = none
      · exact ⟨hfork, hrun⟩
      · exact absurd (stranded_of_runprogram hfork hrun) (key _)
    · exact absurd (stranded_of_fork hfork) (key _)
  · rintro ⟨hfork, hrun⟩ es s hr hend
    rw [ProgOutcome.commonProg, if_pos hfork, ProgOutcome.cmdProgthread, hrun] at hr
    obtain ⟨h, hcount⟩ := count_post hr
    have hw : s.waiter = .returned := by
      by_contra hne
      obtain ⟨e, t, hs⟩ := h.progress hne
      exact hend e t hs
    refine ⟨hw, hcount.trans ?_⟩
    rcases ExitPc.gone_cases (h.passed (by rw [hw]; rfl)) with he | he | he <;> rw [he] <;> rfl

/-- The program does not exist: its thread ends, and the menu waits for ever. -/
theorem open_failure_strands_menu :
    ∃ s, Run (ExitState.Step 0) (ProgOutcome.commonProg ⟨0, 19, true, 0, 0⟩)
        (waiterSleeps ++ threadExits) s ∧
      (∀ e t, ¬ s.Step 0 e t) ∧ s.waiter = .asleep ∧ s.pNumthreads = 0 ∧
      (waiterSleeps ++ threadExits).count postEvent = 0 :=
  ⟨stranded, stranded_of_runprogram (o := ⟨0, 19, true, 0, 0⟩) rfl (by decide),
    stranded_terminal 0, rfl, rfl, by decide⟩

end OsPaging.Proc
