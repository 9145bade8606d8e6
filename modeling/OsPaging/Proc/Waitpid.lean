import OsPaging.Proc.Menu
import OsPaging.Proc.PidTable

/-!
# `waitpid` for every pid

`sys_waitpid` (`kern/syscall/proc_syscalls.c:47-56`) with `proc_search_pid` and the assertions of
`proc_wait` (`kern/proc/proc.c:371-385`), over the process tables of `PidTable.lean`. The argument
goes unchecked into `pid_table`, so a call can leave the array, reach the kernel's own process, or
wait for the process that makes it. When it waits for another process, what follows is the run of
the two threads of `ExitWait.lean`, from wherever `common_prog` has left the process: its program
may run, or its only thread may have ended without a `V` (`Menu.lean`).

**`waitpid_safe_iff`**: the call is safe exactly for the pids from `0` to `MAXP` that are neither
the kernel's nor the caller's.
-/

namespace OsPaging.Proc

open OsPaging.Lib OsPaging.Thread Function

/-! ## A process that nothing posts -/

/-- The states a thread goes through alone, `n` at most. -/
def statesAlone (f : ExitState → Except Stop ExitState) : Nat → ExitState → List ExitState
  | 0, s => [s]
  | n + 1, s =>
    match f s with
    | .ok s' => s :: statesAlone f n s'
    | .error _ => [s]

/-- The thread of a process whose program did not start, in `thread_exit`. -/
def neverPosts : ExitState := { exitStart with exiting := .threadExit }

def exitingAlone : List ExitState := statesAlone (ExitState.execExiting 0) 11 neverPosts

def waiterAlone : List ExitState := statesAlone ExitState.execWaiter 8 neverPosts

/-- The process as in `s`, the semaphore and the waiter as in `t`. -/
def beside (s t : ExitState) : ExitState :=
  { s with semLock := t.semLock, semWchan := t.semWchan, waiter := t.waiter }

/-- That thread leaves the semaphore alone, and the waiter the process: they go their ways. -/
def Stranded (u : ExitState) : Prop :=
  ∃ s ∈ exitingAlone, ∃ t ∈ waiterAlone, beside s t = u

/-- Each thread goes on as if it were alone. -/
theorem beside_steps : ∀ s ∈ exitingAlone, ∀ t ∈ waiterAlone, (beside s t).exiting ≠ .status ∧
    (beside s t).live (beside s t).exiting.mem = true ∧
    (beside s t).live (beside s t).waiter.mem = true ∧
    ((beside s t).execExiting 0 = .error .blocked ∨ ∃ s' ∈ exitingAlone,
      s'.exiting = s.exiting.next s.tProc ∧ (beside s t).execExiting 0 = .ok (beside s' t)) ∧
    ((beside s t).execWaiter = .error .blocked ∨
      ∃ t' ∈ waiterAlone, (beside s t).execWaiter = .ok (beside s t')) := by
  decide +kernel

/-- The status is read by the first statement of `sys__exit` alone. -/
theorem ExitState.execExiting_status (status : BitVec 32) {s : ExitState}
    (h : s.exiting ≠ .status) : s.execExiting status = s.execExiting 0 := by
  unfold execExiting
  grind

/-- In these states a thread goes on to another of them, or waits. -/
theorem Stranded.exec (status : BitVec 32) {u : ExitState} (hu : Stranded u) (e : ExitEvent) :
    u.exec status e = .error .blocked ∨ ∃ u', u.exec status e = .ok u' ∧ Stranded u' := by
  obtain ⟨s, hs, t, ht, rfl⟩ := hu
  obtain ⟨hstatus, hlive, hlive', hexit, hwait⟩ := beside_steps s hs t ht
  cases e with
  | exiting pc =>
    by_cases hpc : (beside s t).exiting = pc
    · subst hpc
      rw [ExitState.exec, if_pos rfl, if_pos hlive, ExitState.execExiting_status status hstatus]
      refine hexit.imp_right ?_
      rintro ⟨s', hs', -, hstep⟩
      exact ⟨_, hstep, s', hs', t, ht, rfl⟩
    · exact .inl (if_neg hpc)
  | waiter pc =>
    by_cases hpc : (beside s t).waiter = pc
    · subst hpc
      rw [ExitState.exec, if_pos rfl, if_pos hlive']
      refine hwait.imp_right ?_
      rintro ⟨t', ht', hstep⟩
      exact ⟨_, hstep, s, hs, t', ht', rfl⟩
    · exact .inl (if_neg hpc)

theorem Stranded.run {status : BitVec 32} {s₀ s : ExitState} {es : List ExitEvent}
    (h₀ : Stranded s₀) (hr : Run (ExitState.Step status) s₀ es s) : Stranded s := by
  refine hr.invariant (P := Stranded) h₀ fun s e t hs hst => ?_
  rcases hs.exec status e with hb | ⟨t', ht', h⟩
  · cases hb.symm.trans hst
  · cases ht'.symm.trans hst
    exact h

/-- **However its program was started**, waiting for a process fails no assertion and touches
nothing that was freed. -/
theorem commonProg_blocked {o : ProgOutcome} {es : List ExitEvent} {s : ExitState} {e : ExitEvent}
    {r : Stop} (hr : Run (ExitState.Step o.status) o.commonProg es s)
    (he : s.exec o.status e = .error r) : r = .blocked := by
  have hstranded : ∀ {s₀}, Run (ExitState.Step o.status) s₀ es s → s₀ ∈ exitingAlone →
      beside s₀ neverPosts = s₀ → r = .blocked := fun hr h₀ heq => by
    have hs : Stranded s := Stranded.run ⟨_, h₀, neverPosts, .head _, heq⟩ hr
    rcases hs.exec o.status e with hb | ⟨t, ht, -⟩
    · exact Except.error.inj (he.symm.trans hb)
    · cases he.symm.trans ht
  unfold ProgOutcome.commonProg at hr
  split_ifs at hr with hfork
  · unfold ProgOutcome.cmdProgthread at hr
    split at hr
    · exact hstranded hr (by decide) rfl
    · have h : ExitInv o.status s := hr.invariant (.init o.status) fun _ _ _ h hs => (h.step hs).1
      rcases h.exec e with ⟨s', hs', -⟩ | hb
      · exact absurd (he.symm.trans hs') (by simp)
      · exact Except.error.inj (he.symm.trans hb)
  · exact hstranded hr (by decide) rfl

/-! ## The call -/

variable {P : Type}

/-- What a call of `sys_waitpid` comes to. -/
inductive WaitCall (P : Type)
  /-- `pid_table[pid]` is not in the array. -/
  | outOfBounds
  | returns (value : Int)
  /-- `KASSERT(p != kproc)` of `proc_wait`. -/
  | kassert
  /-- It goes on to `P(p->s_exit)` and `proc_destroy(p)`, and then returns `pid`. -/
  | waits (p : P)
deriving DecidableEq, Repr

section Calls

variable [DecidableEq P]

/-- `proc_search_pid` (`proc.c:382-385`); `none` is an index outside `pid_table`, which has
`MAXP+1` entries. -/
def procSearchPid (s : PidState P) (pid : BitVec 32) : Option (Option P) :=
  if 0 ≤ pid.toInt ∧ pid.toInt ≤ maxp then some (s.pidTable pid.toInt.toNat) else none

/-- `sys_waitpid` (`proc_syscalls.c:47-56`), up to the `P` of `proc_wait`. -/
def sysWaitpid (s : PidState P) (pid : BitVec 32) : WaitCall P :=
  match procSearchPid s pid with
  | none => .outOfBounds
  | some none => .returns (-1)
  | some (some p) => if p = s.kproc then .kassert else .waits p

/-- The run of the two threads when the call waits for `p`, which `common_prog` has left as `o`
says. If `p` is the caller's own process there is no other thread. -/
def Waiting (caller p : P) (o : ProgOutcome) (es : List ExitEvent) (t : ExitState) : Prop :=
  Run (ExitState.Step o.status) o.commonProg es t ∧ (p = caller → ∀ e ∈ es, ∃ pc, e = .waiter pc)

/-- `pid` is the pid of a process other than the kernel's and the caller's. -/
def NamesOther (s : PidState P) (caller : P) (pid : BitVec 32) : Prop :=
  ∃ p, s.phase p = .live ∧ p ≠ s.kproc ∧ p ≠ caller ∧ (s.pPid p : Int) = pid.toInt

/-- What the call should be for every pid. -/
structure WaitpidSafe (s : PidState P) (caller : P) (pid : BitVec 32) : Prop where
  inBounds : sysWaitpid s pid ≠ .outOfBounds
  /-- The assertions of `proc_wait`. -/
  procWait : sysWaitpid s pid ≠ .kassert
  /-- Those of `proc_destroy`, and of what it calls on the semaphore. -/
  procDestroy : ∀ p o es t e r, sysWaitpid s pid = .waits p → Waiting caller p o es t →
    t.exec o.status e = .error r → r = .blocked
  minusOne : ¬ NamesOther s caller pid → sysWaitpid s pid = .returns (-1)

end Calls

/-! ## The kernel's process -/

/-- What `proc_bootstrap` leaves: the kernel's process has the first pid. -/
def bootstrapped [DecidableEq P] (kproc : P) (pPid : P → Nat) : PidState P where
  kproc := kproc
  pidTable := update (fun _ => none) minp (some kproc)
  pPid := update pPid kproc minp
  phase := update (fun _ => .absent) kproc .live

theorem bootstrapped_run [DecidableEq P] (kproc : P) (pPid : P → Nat) (garbage : Nat) :
    Run PidState.Step (procBootstrap kproc pPid) [.kmalloc kproc garbage, .pidTableInit kproc]
      (bootstrapped kproc pPid) := by
  refine Run.of_foldlM (f := PidState.exec) (fun _ _ _ h => h) ?_
  have hfind : (List.range' minp (maxp - minp)).find? (fun _ => true) = some minp := rfl
  simp [PidState.exec, PidState.pidTableInit, PidState.setPhase, procBootstrap, bootstrapped, hfind]

/-- The kernel's process is there for good, with the first pid. -/
structure KprocLive (s : PidState P) : Prop where
  live : s.phase s.kproc = .live
  pid : s.pPid s.kproc = minp

variable [DecidableEq P]

theorem KprocLive.step {s s' : PidState P} {e : PidEvent P} (h : KprocLive s) (hs : s.Step e s') :
    KprocLive s' := by
  have hne : ∀ {p ph}, s.phase p = ph → ph ≠ .live → s.kproc ≠ p := by
    rintro p ph hp hph rfl
    exact hph (hp.symm.trans h.live)
  cases e with (simp only [PidState.Step, PidState.exec] at hs; split_ifs at hs with hp)
  | kmalloc p garbage =>
    cases hs
    have hk := hne hp (by simp)
    exact ⟨(update_of_ne hk _ _).trans h.live, (update_of_ne hk _ _).trans h.pid⟩
  | giveUp p | kfree p =>
    cases hs
    exact ⟨(update_of_ne (hne hp (by simp)) _ _).trans h.live, h.pid⟩
  | pidTableInit p =>
    obtain ⟨s₁, hs₁, rfl⟩ := Option.map_eq_some_iff.mp hs
    have hk := hne hp (by simp)
    unfold PidState.pidTableInit at hs₁
    split at hs₁
    · cases hs₁
    · cases hs₁
      exact ⟨(update_of_ne hk _ _).trans h.live, (update_of_ne hk _ _).trans h.pid⟩
  | pidTableDel p =>
    obtain ⟨s₁, hs₁, rfl⟩ := Option.map_eq_some_iff.mp hs
    unfold PidState.pidTableDel at hs₁
    dsimp only at hs₁
    split_ifs at hs₁
    cases hs₁
    exact ⟨(update_of_ne hp.2.symm _ _).trans h.live, h.pid⟩

theorem KprocLive.of_run {kproc : P} {pPid : P → Nat} {s : PidState P} {es : List (PidEvent P)}
    (hr : Run PidState.Step (bootstrapped kproc pPid) es s) : KprocLive s :=
  hr.invariant (P := KprocLive) ⟨by simp [bootstrapped], by simp [bootstrapped]⟩
    fun _ _ _ h hs => h.step hs

/-! ## Which calls are safe -/

/-- The call finds no process, the kernel's, or another one that is live. -/
theorem sysWaitpid_eq {s : PidState P} {pid : BitVec 32} (h : PidInv s) (h0 : 0 ≤ pid.toInt)
    (h1 : pid.toInt ≤ maxp) :
    (∀ p, s.phase p = .live → (s.pPid p : Int) = pid.toInt →
      sysWaitpid s pid = if p = s.kproc then .kassert else .waits p) ∧
    ((∀ p, s.phase p = .live → (s.pPid p : Int) ≠ pid.toInt) →
      sysWaitpid s pid = .returns (-1)) := by
  have hsearch : procSearchPid s pid = some (s.pidTable pid.toInt.toNat) := if_pos ⟨h0, h1⟩
  unfold sysWaitpid
  rw [hsearch]
  refine ⟨fun p hp hpid => ?_, fun hnone => ?_⟩
  · rw [(h.table pid.toInt.toNat p).mpr ⟨hp, by omega⟩]
  · cases htab : s.pidTable pid.toInt.toNat with
    | none => rfl
    | some p =>
      obtain ⟨hp, hpid⟩ := (h.table _ p).mp htab
      exact absurd (by omega) (hnone p hp)

/-- **For which pids a call of `waitpid` is safe**, in every process table that is reached after
`proc_bootstrap`, for every caller. -/
theorem waitpid_safe_iff {kproc caller : P} {pPid : P → Nat} {s : PidState P}
    {es : List (PidEvent P)} (hr : Run PidState.Step (bootstrapped kproc pPid) es s)
    (hcaller : s.phase caller = .live) (hne : caller ≠ s.kproc) (pid : BitVec 32) :
    WaitpidSafe s caller pid ↔
      0 ≤ pid.toInt ∧ pid.toInt ≤ maxp ∧ pid.toInt ≠ minp ∧ pid.toInt ≠ s.pPid caller := by
  have hinv := PidInv.of_run ((bootstrapped_run kproc pPid 0).append hr)
  have hk := KprocLive.of_run hr
  constructor
  · intro hsafe
    obtain ⟨h0, h1⟩ : 0 ≤ pid.toInt ∧ pid.toInt ≤ maxp := by
      by_contra hout
      exact hsafe.inBounds (by rw [sysWaitpid, procSearchPid, if_neg hout])
    refine ⟨h0, h1, fun hpid => ?_, fun hpid => ?_⟩
    · refine hsafe.procWait ?_
      rw [(sysWaitpid_eq hinv h0 h1).1 s.kproc hk.live (by rw [hk.pid, hpid]), if_pos rfl]
    · have hwaits := (sysWaitpid_eq hinv h0 h1).1 caller hcaller hpid.symm
      rw [if_neg hne] at hwaits
      have hother : ¬ NamesOther s caller pid := by
        rintro ⟨p, hp, -, hpc, hpp⟩
        exact hpc (hinv.distinct hp hcaller (by omega))
      rw [hsafe.minusOne hother] at hwaits
      cases hwaits
  · rintro ⟨h0, h1, h2, hself⟩
    obtain ⟨hsome, hnone⟩ := sysWaitpid_eq hinv h0 h1
    by_cases hother : NamesOther s caller pid
    · obtain ⟨p, hp, hpk, hpc, hpid⟩ := hother
      have hwaits : sysWaitpid s pid = .waits p := (hsome p hp hpid).trans (if_neg hpk)
      refine ⟨by simp [hwaits], by simp [hwaits], fun p' o es t e r _ hw he =>
        commonProg_blocked hw.1 he, fun hn => absurd ⟨p, hp, hpk, hpc, hpid⟩ hn⟩
    · have hret : sysWaitpid s pid = .returns (-1) := by
        refine hnone fun p hp hpid => hother ⟨p, hp, ?_, ?_, hpid⟩
        · rintro rfl
          rw [hk.pid] at hpid
          exact h2 hpid.symm
        · rintro rfl
          exact hself hpid.symm
      refine ⟨by simp [hret], by simp [hret], fun p o es t e r hw => ?_, fun _ => hret⟩
      rw [hret] at hw
      cases hw

/-- The kernel's process 10, the caller 20 with pid 3, and another process with pid 4. -/
abbrev threeProcesses : List (PidEvent Nat) :=
  [.kmalloc 20 0, .pidTableInit 20, .kmalloc 30 0, .pidTableInit 30]

/-- Waiting for the other process is safe, and so is asking for a pid that nobody has. -/
theorem waitpid_safe_others : ∃ s : PidState Nat,
    Run PidState.Step (bootstrapped 10 fun _ => 0) threeProcesses s ∧
      sysWaitpid s 4#32 = .waits 30 ∧ WaitpidSafe s 20 4#32 ∧ WaitpidSafe s 20 77#32 := by
  refine Run.exists_imp (Q := fun s => sysWaitpid s 4#32 = .waits 30 ∧ s.phase 20 = .live ∧
    s.kproc = 10 ∧ s.pPid 20 = 3)
    (Run.exists_of_foldlM (f := PidState.exec) (fun _ _ _ h => h) (by decide)) ?_
  rintro s hr ⟨hwaits, hcaller, hk, hpid⟩
  refine ⟨hwaits, (waitpid_safe_iff hr hcaller (by rw [hk]; decide) _).mpr ?_,
    (waitpid_safe_iff hr hcaller (by rw [hk]; decide) _).mpr ?_⟩ <;> rw [hpid] <;> decide

/-- **Four arguments that are not safe**: `-1` and `101` are outside the table, `2` fails the
assertion about the kernel's process, and with its own pid the caller goes to sleep on a semaphore
that only it could post. -/
theorem waitpid_unsafe : ∃ s : PidState Nat,
    Run PidState.Step (bootstrapped 10 fun _ => 0) threeProcesses s ∧ s.phase 20 = .live ∧
      sysWaitpid s (-1#32) = .outOfBounds ∧ sysWaitpid s 101#32 = .outOfBounds ∧
      sysWaitpid s 2#32 = .kassert ∧ sysWaitpid s 3#32 = .waits 20 ∧
      ∃ t, Waiting 20 20 ⟨0, 0, true, 0, 0⟩ waiterSleeps t ∧ ∀ pc t',
        ¬ t.Step 0 (.waiter pc) t' := by
  refine Run.exists_imp (Q := fun s => s.phase 20 = .live ∧
    sysWaitpid s (-1#32) = .outOfBounds ∧ sysWaitpid s 101#32 = .outOfBounds ∧
    sysWaitpid s 2#32 = .kassert ∧ sysWaitpid s 3#32 = .waits 20)
    (Run.exists_of_foldlM (f := PidState.exec) (fun _ _ _ h => h) (by decide)) ?_
  rintro s - ⟨h1, h2, h3, h4, h5⟩
  refine ⟨h1, h2, h3, h4, h5,
    { exitStart with semWchan := ⟨[.waiter], []⟩, waiter := .asleep },
    ⟨Run.of_exec rfl, fun _ e he => ?_⟩, fun pc t' hs => ?_⟩
  · simp only [waiterSleeps, List.mem_cons, List.not_mem_nil, or_false] at he
    grind
  · simp only [ExitState.Step, ExitState.exec] at hs
    split_ifs at hs
    cases hs

end OsPaging.Proc
