import Mathlib.Algebra.Group.Nat.Defs
import OsPaging.Proc.ExitInvariant

/-!
# Exit hands the status to wait

The result about `ExitWait.lean`, for every order of the statements.
-/

namespace OsPaging.Proc

open OsPaging.Lib OsPaging.Thread OsPaging.Vm

/-- **Exit and wait hand the status over.** -/
theorem exit_wait_hands_over (status : BitVec 32) {es : List ExitEvent} {s : ExitState}
    (hr : Run (ExitState.Step status) exitStart es s) :
    (∀ e r, s.exec status e = .error r → r = .blocked) ∧
      (s.waiter = .returned → s.ret.toNat = status.toNat % 2 ^ 8) ∧
      (s.waiter.destroying = true → s.pNumthreads = 0 ∧ s.tProc = false ∧
        ∀ es' t pc, Run (ExitState.Step status) s es' t → .exiting pc ∈ es' → pc.mem = .own) ∧
      es.length ≤ 63 ∧ (s.waiter ≠ .returned → ∃ e t, s.Step status e t) := by
  obtain ⟨h, hle⟩ : ExitInv status s ∧ es.length + s.rank ≤ 63 := by
    refine hr.history (R := fun es s => ExitInv status s ∧ es.length + s.rank ≤ 63)
      ⟨.init status, by decide⟩ ?_
    rintro es s e t ⟨h, hle⟩ hs
    obtain ⟨hinv, hlt⟩ := h.step hs
    grind
  refine ⟨fun e r hr => ?_, fun hw => ?_, fun hw => ?_, by omega, h.progress⟩
  · rcases h.exec e with ⟨s', hs', -⟩ | hb
    · exact absurd (hr.symm.trans hs') (by simp)
    · exact Except.error.inj (hr.symm.trans hb)
  · have hd : s.waiter.destroying = true := by rw [hw]; rfl
    have hg := h.passed (WaitPc.passed_of_destroying hd)
    have hstored : s.exiting.stored = true := by
      rcases ExitPc.gone_cases hg with he | he | he <;> rw [he] <;> rfl
    rw [h.ret hd, h.stored hstored, BitVec.toNat_and]
    exact Nat.and_two_pow_sub_one_eq_mod status.toNat 8
  · have hg := h.passed (WaitPc.passed_of_destroying hw)
    have he := ExitPc.gone_cases hg
    refine ⟨h.counted.trans ?_, h.attached.trans ?_, fun es' t pc hr' => h.gone_run hr' hg pc⟩
    · rcases he with he | he | he <;> rw [he] <;> rfl
    · rcases he with he | he | he <;> rw [he] <;> rfl

/-- The waiter finds no unit, and sleeps. -/
abbrev waiterSleeps : List ExitEvent :=
  [.waiter .loadSem, .waiter (.p (.enter .check)), .waiter (.p (.enter .testAndSet)),
    .waiter (.p (.enter .setHolder)), .waiter (.p (.body .test)), .waiter (.p (.body .addtail)),
    .waiter (.sleeping .clearHolder), .waiter (.sleeping .clearWord)]

/-- The exiting thread leaves its process, and wakes the waiter. -/
abbrev exitWakes : List ExitEvent :=
  [.exiting .status, .exiting (.loadProc false), .exiting (.remthread false (.enter .check)),
    .exiting (.remthread false (.enter .testAndSet)),
    .exiting (.remthread false (.enter .setHolder)), .exiting (.remthread false (.body .kassert)),
    .exiting (.remthread false (.body .decrement)),
    .exiting (.remthread false (.leave .clearHolder)),
    .exiting (.remthread false (.leave .clearWord)), .exiting (.detach false), .exiting .loadSem,
    .exiting (.v (.enter .check)), .exiting (.v (.enter .testAndSet)),
    .exiting (.v (.enter .setHolder)), .exiting (.v (.body .increment)),
    .exiting (.v (.body .kassert)), .exiting (.v (.body .wakeone))]

/-- The waiter runs while the exiting thread is still in `V`, and can go on when that has given the
lock up; it destroys the process before the other thread has ended. -/
abbrev waiterReturns : List ExitEvent :=
  [.waiter .asleep, .waiter (.p (.enter .check)), .exiting (.v (.leave .clearHolder)),
    .exiting (.v (.leave .clearWord)), .waiter (.p (.enter .testAndSet)),
    .waiter (.p (.enter .setHolder)), .waiter (.p (.body .test)), .waiter (.p (.body .kassert)),
    .waiter (.p (.body .decrement)), .waiter (.p (.leave .clearHolder)),
    .waiter (.p (.leave .clearWord)), .waiter .readStatus, .waiter .destroy, .waiter .semLock,
    .waiter .semWchan, .waiter .semFree, .waiter .fields, .waiter .numthreads, .waiter .procLock,
    .waiter .procFree]

theorem exit_wait_hands_over_woken : ∃ s : ExitState,
    Run (ExitState.Step 0x1234#32) exitStart (waiterSleeps ++ exitWakes ++ waiterReturns) s ∧
      s.exiting = .threadExit ∧ s.waiter = .returned ∧ s.ret.toNat = 0x34 := by
  refine Run.exists_imp (Q := fun s => s.exiting = .threadExit ∧ s.waiter = .returned)
    (Run.exists_of_foldlM (f := fun s e => (s.exec 0x1234#32 e).toOption)
      (fun _ _ _ => toOption_eq_some.mp) (by decide)) ?_
  rintro s hr ⟨he, hw⟩
  exact ⟨he, hw, (exit_wait_hands_over _ hr).2.1 hw⟩

end OsPaging.Proc
