import OsPaging.Proc.ExitWait

/-!
# What holds between exit and wait

The invariant of `ExitWait.lean`: the shared memory is a function of where the two threads are, with
at most one of them in a section of the semaphore, and a waiter that has found the unit comes after
an exiting thread that is past `V`. Each statement is shown once to complete or to wait, to keep the
invariant, and to bring its thread closer to the end (`rank`); what the threads cannot do follows
from that.
-/

namespace OsPaging.Proc

open OsPaging.Lib OsPaging.Thread OsPaging.Vm Function

variable {pc : ExitPc}

/-! ## Where the threads are -/

namespace ExitPc

def semGrip : ExitPc → Grip
  | .v i => i.grip
  | _ => .none

def procGrip : ExitPc → Grip
  | .remthread _ i => i.grip
  | _ => .none

/-- Past the write of `p_status`. -/
def stored : ExitPc → Bool
  | .status => false
  | _ => true

/-- `thread_exit` has called `proc_remthread`. -/
def again : ExitPc → Bool
  | .loadProc last | .remthread last _ | .detach last => last
  | _ => false

/-- `p_numthreads` counts the thread. -/
def counted : ExitPc → Bool
  | .status | .loadProc _ | .remthread _ (.enter _) | .remthread _ (.body _) => true
  | _ => false

/-- `t_proc` is not yet cleared. -/
def attached : ExitPc → Bool
  | .status | .loadProc _ | .remthread _ _ | .detach _ => true
  | _ => false

/-- Past `sem_count++`. -/
def posted : ExitPc → Bool
  | .v (.body .kassert) | .v (.body .wakeone) | .v (.leave _) | .threadExit | .switch
  | .zombie => true
  | _ => false

/-- Past `wchan_wakeone`. -/
def woke : ExitPc → Bool
  | .v (.leave _) | .threadExit | .switch | .zombie => true
  | _ => false

/-- Past `V`. -/
def gone : ExitPc → Bool
  | .threadExit | .switch | .zombie => true
  | _ => false

theorem gone_cases (h : pc.gone = true) : pc = .threadExit ∨ pc = .switch ∨ pc = .zombie := by
  cases pc with
  | threadExit => exact .inl rfl
  | switch => exact .inr (.inl rfl)
  | zombie => exact .inr (.inr rfl)
  | _ => exact absurd h (by simp [gone])

theorem semGrip_of_gone (h : pc.gone = true) : pc.semGrip = .none := by
  rcases gone_cases h with rfl | rfl | rfl <;> rfl

/-- The last thing `V` does with the semaphore is to give its lock up. -/
theorem gone_of_posted (h : pc.posted = true) (hg : pc.semGrip = .none) : pc.gone = true := by
  cases pc with
  | v i => cases i with
    | enter i => exact absurd h (by simp [posted])
    | body b => exact absurd hg (by simp [semGrip])
    | leave i => cases i <;> exact absurd hg (by decide)
  | threadExit | switch | zombie => rfl
  | _ => exact absurd h (by simp [posted])

/-- `sys__exit` passes `sem_count++` when it is there, and only then. -/
theorem posted_next (h : pc.again = false) :
    (pc.next pc.attached).posted.toNat =
      pc.posted.toNat + if pc = .v (.body .increment) then 1 else 0 := by
  cases pc with
  | remthread last i | v i => rcases i with i | b | i <;> first | cases i <;> rfl | cases b <;> rfl
  | detach last =>
    obtain rfl : last = false := h
    rfl
  | _ => rfl

theorem posted_of_woke (h : pc.woke = true) : pc.posted = true := by
  cases pc with
  | v i => cases i with
    | leave i => rfl
    | _ => exact absurd h (by simp [woke])
  | threadExit | switch | zombie => rfl
  | _ => exact absurd h (by simp [woke])

end ExitPc

namespace WaitPc

def semGrip : WaitPc → Grip
  | .p i => i.grip
  | .sleeping i => i.grip
  | _ => .none

/-- The loop of `P` found a unit. -/
def passed : WaitPc → Bool
  | .p (.body .kassert) | .p (.body .decrement) | .p (.leave _) | .readStatus => true
  | pc => pc.destroying

/-- Past `sem_count--`. -/
def taken : WaitPc → Bool
  | .p (.leave _) | .readStatus => true
  | pc => pc.destroying

theorem passed_of_destroying {pc : WaitPc} (h : pc.destroying = true) : pc.passed = true := by
  cases pc with
  | p i => exact absurd h (by simp [destroying])
  | readStatus => rfl
  | _ => exact h

theorem passed_of_taken {pc : WaitPc} (h : pc.taken = true) : pc.passed = true := by
  cases pc with
  | p i => cases i with
    | leave i => rfl
    | _ => exact absurd h (by simp [taken, destroying])
  | _ => exact h

/-- The loop of `P` found none, and the lock is not yet given up. -/
def sleepy : WaitPc → Bool
  | .p (.body .addtail) | .sleeping _ => true
  | _ => false

/-- Before `kfree` of the semaphore. -/
def semLive : WaitPc → Bool
  | .fields | .numthreads | .procLock | .procFree | .returned => false
  | _ => true

def procLive : WaitPc → Bool
  | .returned => false
  | _ => true

theorem live_of_not_passed {pc : WaitPc} (h : pc.passed = false) :
    pc.semLive = true ∧ pc.procLive = true := by
  cases pc with
  | loadSem | p _ | sleeping _ | asleep => exact ⟨rfl, rfl⟩
  | _ => exact absurd h (by decide)

/-- The wait channel, by where the waiter is; `woke` tells that the wakeup has come. -/
def wchan (woke : Bool) : WaitPc → Wchan Party
  | .sleeping _ => ⟨[.waiter], []⟩
  | .asleep => if woke then ⟨[], [.waiter]⟩ else ⟨[.waiter], []⟩
  | _ => .create

/-- The wakeup, when the waiter is not on its way into the channel. -/
theorem wakeone_wchan {pc : WaitPc} (h : pc.semGrip = .none) :
    (pc.wchan false).wakeone = pc.wchan true := by
  cases pc with
  | sleeping i => cases i <;> exact absurd h (by decide)
  | _ => rfl

theorem not_sleepy {pc : WaitPc} (h : pc.semGrip = .none) : pc.sleepy = false := by
  cases pc with
  | p i => cases i with
    | body b => exact absurd h (by simp [semGrip])
    | _ => rfl
  | sleeping i => cases i <;> exact absurd h (by decide)
  | _ => rfl

end WaitPc

/-- What the threads have of `sem_lock`, and of `p_lock`. -/
def semGrip (e : ExitPc) (w : WaitPc) : Party → Grip
  | .exiting => e.semGrip
  | .waiter => w.semGrip

@[inherit_doc semGrip]
def procGrip (e : ExitPc) : Party → Grip
  | .exiting => e.procGrip
  | .waiter => .none

theorem semGrip_exiting (e e' : ExitPc) (w : WaitPc) :
    semGrip e' w = update (semGrip e w) .exiting e'.semGrip := by
  funext u
  cases u <;> rfl

theorem semGrip_waiter (e : ExitPc) (w w' : WaitPc) :
    semGrip e w' = update (semGrip e w) .waiter w'.semGrip := by
  funext u
  cases u <;> rfl

theorem procGrip_exiting (e e' : ExitPc) :
    procGrip e' = update (procGrip e) .exiting e'.procGrip := by
  funext u
  cases u <;> rfl

structure ExitInv (status : BitVec 32) (s : ExitState) : Prop where
  semLock : s.semLock.Gripped (semGrip s.exiting s.waiter)
  procLock : s.pLock.Gripped (procGrip s.exiting)
  stored : s.exiting.stored = true → s.pStatus = status &&& 0xff#32
  again : s.exiting.again = false
  counted : s.pNumthreads = s.exiting.counted.toNat
  attached : s.tProc = s.exiting.attached
  count : s.semCount + s.waiter.taken.toNat = s.exiting.posted.toNat
  passed : s.waiter.passed = true → s.exiting.gone = true
  sleepy : s.waiter.sleepy = true → s.exiting.posted = false
  wchan : s.semWchan = s.waiter.wchan s.exiting.woke
  ret : s.waiter.destroying = true → s.ret = s.pStatus
  semLive : s.semLive = s.waiter.semLive
  procLive : s.procLive = s.waiter.procLive

/-! ## How far the threads are from their ends -/

def sectionRank {B : Type} (rank : B → Nat) : Section B → Nat
  | .enter .check => 9
  | .enter .testAndSet => 8
  | .enter .setHolder => 7
  | .body b => rank b
  | .leave .clearHolder => 2
  | .leave .clearWord => 1

theorem sectionRank_next {B : Type} {rank : B → Nat} {first : B} (h : rank first < 7) (i : Enter) :
    sectionRank rank (i.next first) < sectionRank rank (.enter i) := by
  cases i with
  | check | testAndSet => exact Nat.lt_succ_self _
  | setHolder => exact h

def RemStmt.rank : RemStmt → Nat
  | .kassert => 4
  | .decrement => 3

def VStmt.rank : VStmt → Nat
  | .increment => 5
  | .kassert => 4
  | .wakeone => 3

def PStmt.rank : PStmt → Nat
  | .test => 6
  | .addtail => 5
  | .kassert => 4
  | .decrement => 3

def ExitPc.rank : ExitPc → Nat
  | .status => 24
  | .loadProc _ => 23
  | .remthread _ i => 13 + sectionRank RemStmt.rank i
  | .detach _ => 13
  | .loadSem => 12
  | .v i => 2 + sectionRank VStmt.rank i
  | .threadExit => 2
  | .switch => 1
  | .zombie => 0

/-- The wakeup brings the waiter back to its test once, which is counted before it comes. -/
def WaitPc.rank (woke : Bool) : WaitPc → Nat
  | .loadSem => 39
  | .p i => 9 + sectionRank PStmt.rank i + if woke then 0 else 20
  | .sleeping .clearHolder => 21
  | .sleeping .clearWord => 20
  | .asleep => 19
  | .readStatus => 9
  | .destroy => 8
  | .semLock => 7
  | .semWchan => 6
  | .semFree => 5
  | .fields => 4
  | .numthreads => 3
  | .procLock => 2
  | .procFree => 1
  | .returned => 0

theorem WaitPc.rank_woke (pc : WaitPc) : pc.rank true ≤ pc.rank false := by
  cases pc with
  | p i => exact Nat.add_le_add_left (Nat.zero_le 20) _
  | sleeping i => cases i <;> exact Nat.le_refl _
  | _ => exact Nat.le_refl _

def ExitState.rank (s : ExitState) : Nat := s.exiting.rank + s.waiter.rank s.exiting.woke

theorem closer_exiting {m n : Nat} : m + n < m + 1 + n :=
  Nat.add_lt_add_right (Nat.lt_succ_self m) n

/-- The statement completes, keeps the invariant and brings its thread closer to the end. -/
def Advances (status : BitVec 32) (s : ExitState) (r : Except Stop ExitState) : Prop :=
  ∃ s', r = .ok s' ∧ ExitInv status s' ∧ s'.rank < s.rank

namespace ExitInv

variable {status : BitVec 32} {s : ExitState}

theorem init (status : BitVec 32) : ExitInv status exitStart where
  semLock := .init fun u => by cases u <;> rfl
  procLock := .init fun u => by cases u <;> rfl
  stored h := absurd h (by decide)
  again := rfl
  counted := rfl
  attached := rfl
  count := rfl
  passed h := absurd h (by decide)
  sleepy h := absurd h (by decide)
  wchan := rfl
  ret h := absurd h (by decide)
  semLive := rfl
  procLive := rfl

/-- The two threads are not both in the section of the semaphore. -/
theorem apart (h : ExitInv status s) (he : s.exiting.semGrip ≠ .none) :
    s.waiter.semGrip = .none := by
  by_contra hw
  exact absurd (h.semLock.one .exiting .waiter he hw) (by decide)

section

variable (h : ExitInv status s) (he : s.exiting.gone = false)
include h he

theorem not_passed : s.waiter.passed = false := by
  rw [← Bool.not_eq_true]
  intro hp
  rw [h.passed hp] at he
  cases he

theorem not_destroying : s.waiter.destroying = false := by
  have hp := h.not_passed he
  rw [← Bool.not_eq_true] at hp ⊢
  exact fun hd => hp (WaitPc.passed_of_destroying hd)

theorem not_taken : s.waiter.taken = false := by
  have hp := h.not_passed he
  rw [← Bool.not_eq_true] at hp ⊢
  exact fun hd => hp (WaitPc.passed_of_taken hd)

end

/-- A statement of `proc_remthread`, called by `sys__exit`. -/
theorem exec_remthread (s : ExitState) (i : Section RemStmt)
    (h : ExitInv status { s with exiting := .remthread false i }) :
    Advances status { s with exiting := .remthread false i }
      (ExitState.execExiting status { s with exiting := .remthread false i }) := by
  have hcounted := h.counted
  simp only at hcounted
  cases i with
  | enter i =>
    rcases h.procLock.enter (t := .exiting) (i := i) rfl RemStmt.kassert with
      ⟨l, hl, hgrip⟩ | ⟨-, u, hu, hne⟩
    · refine ⟨{ s with pLock := l, exiting := .remthread false (i.next .kassert) }, ?_, { h with
          procLock := (procGrip_exiting _ _).symm ▸ hgrip
          counted := hcounted.trans (by cases i <;> rfl) }, ?_⟩
      · exact congrArg (· >>= _) hl
      · exact Nat.add_lt_add_right (Nat.add_lt_add_left (sectionRank_next (by decide) i) 13) _
    · cases u with
      | exiting => exact absurd rfl hu
      | waiter => exact absurd rfl hne
  | body b =>
    cases b with
    | kassert =>
      have hpos : 0 < s.pNumthreads := by rw [hcounted]; decide
      exact ⟨{ s with exiting := .remthread false (.body .decrement) }, if_pos hpos, { h with },
        closer_exiting⟩
    | decrement =>
      exact ⟨{ s with
          pNumthreads := s.pNumthreads - 1, exiting := .remthread false (.leave .clearHolder) },
        rfl, { h with counted := by simp [hcounted, ExitPc.counted] },
        closer_exiting⟩
  | leave i =>
    obtain ⟨l, hl, hgrip⟩ := h.procLock.leave (t := .exiting) (i := i) rfl
    cases i with
    | clearHolder =>
      exact ⟨{ s with pLock := l, exiting := .remthread false (.leave .clearWord) },
        congrArg (· >>= _) hl, { h with procLock := (procGrip_exiting _ _).symm ▸ hgrip },
        closer_exiting⟩
    | clearWord =>
      exact ⟨{ s with pLock := l, exiting := .detach false },
        congrArg (· >>= _) hl, { h with procLock := (procGrip_exiting _ _).symm ▸ hgrip },
        closer_exiting⟩

/-- A statement of `V`. It waits only for the waiter, at the test-and-set. -/
theorem exec_v (s : ExitState) (i : Section VStmt)
    (h : ExitInv status { s with exiting := .v i }) :
    Advances status { s with exiting := .v i }
      (ExitState.execExiting status { s with exiting := .v i }) ∨
    ExitState.execExiting status { s with exiting := .v i } = .error .blocked ∧
      s.waiter.semGrip ≠ .none := by
  have hcount := h.count
  have hwchan := h.wchan
  simp only at hcount hwchan
  cases i with
  | enter i =>
    rcases h.semLock.enter (t := .exiting) (i := i) rfl VStmt.increment with
      ⟨l, hl, hgrip⟩ | ⟨hl, u, hu, hne⟩
    · refine .inl ⟨{ s with semLock := l, exiting := .v (i.next .increment) },
        congrArg (· >>= _) hl, ?_, ?_⟩
      · have hlock := (semGrip_exiting _ (.v (i.next .increment)) _).symm ▸ hgrip
        cases i <;> exact { h with semLock := hlock }
      · have hwoke : (ExitPc.v (i.next .increment)).woke = false := by cases i <;> rfl
        simp only [ExitState.rank, hwoke]
        exact Nat.add_lt_add_right (Nat.add_lt_add_left (sectionRank_next (by decide) i) 2) _
    · refine .inr ⟨congrArg (· >>= _) hl, ?_⟩
      cases u with
      | exiting => exact absurd rfl hu
      | waiter => exact hne
  | body b =>
    have hapart : s.waiter.semGrip = .none := h.apart (by simp [ExitPc.semGrip])
    have htaken : s.waiter.taken = false := h.not_taken rfl
    rw [htaken] at hcount
    cases b with
    | increment =>
      have hzero : s.semCount = 0 := hcount
      refine .inl ⟨{ s with
          semCount := (s.semCount + 1) % wordSize, exiting := .v (.body .kassert) }, rfl,
        { h with count := ?_, sleepy := fun hs => ?_ },
        closer_exiting⟩
      · simp only [hzero, htaken]
        decide
      · exact absurd hs (by simp [WaitPc.not_sleepy hapart])
    | kassert =>
      have hpos : 0 < s.semCount := by
        rw [show s.semCount = 1 from hcount]
        decide
      exact .inl ⟨{ s with exiting := .v (.body .wakeone) }, if_pos hpos, { h with },
        closer_exiting⟩
    | wakeone =>
      refine .inl ⟨{ s with
          semWchan := s.semWchan.wakeone, exiting := .v (.leave .clearHolder) },
        if_pos ((h.semLock.holder .exiting).mpr rfl), { h with wchan := ?_ },
        Nat.add_lt_add_of_lt_of_le (Nat.lt_succ_self _) s.waiter.rank_woke⟩
      exact (congrArg Wchan.wakeone hwchan).trans (WaitPc.wakeone_wchan hapart)
  | leave i =>
    obtain ⟨l, hl, hgrip⟩ := h.semLock.leave (t := .exiting) (i := i) rfl
    cases i with
    | clearHolder =>
      exact .inl ⟨{ s with semLock := l, exiting := .v (.leave .clearWord) },
        congrArg (· >>= _) hl, { h with semLock := (semGrip_exiting _ _ _).symm ▸ hgrip },
        closer_exiting⟩
    | clearWord =>
      exact .inl ⟨{ s with semLock := l, exiting := .threadExit }, congrArg (· >>= _) hl, { h with
          semLock := (semGrip_exiting _ _ _).symm ▸ hgrip
          passed := fun _ => rfl },
        closer_exiting⟩

theorem exec_exiting (s : ExitState) (e : ExitPc) (h : ExitInv status { s with exiting := e }) :
    Advances status { s with exiting := e }
      (ExitState.execExiting status { s with exiting := e }) ∨
    ExitState.execExiting status { s with exiting := e } = .error .blocked ∧
      (e = .zombie ∨ s.waiter.semGrip ≠ .none) := by
  have hattached := h.attached
  have hagain := h.again
  simp only at hattached hagain
  cases e with
  | status =>
    refine .inl ⟨{ s with pStatus := status &&& 0xff#32, exiting := .loadProc false }, rfl, { h with
        stored := fun _ => rfl
        ret := fun hd => ?_ }, closer_exiting⟩
    exact absurd hd (by simp [h.not_destroying rfl])
  | loadProc last =>
    obtain rfl : last = false := hagain
    exact .inl ⟨{ s with exiting := .remthread false (.enter .check) }, if_pos hattached,
      { h with }, closer_exiting⟩
  | remthread last i =>
    obtain rfl : last = false := hagain
    exact .inl (exec_remthread s i h)
  | detach last =>
    obtain rfl : last = false := hagain
    exact .inl ⟨{ s with tProc := false, exiting := .loadSem }, rfl, { h with attached := rfl },
      closer_exiting⟩
  | loadSem =>
    exact .inl ⟨{ s with exiting := .v (.enter .check) }, rfl, { h with },
      closer_exiting⟩
  | v i => exact (exec_v s i h).imp_right fun ⟨hb, hw⟩ => ⟨hb, .inr hw⟩
  | threadExit =>
    refine .inl ⟨{ s with exiting := .switch }, ?_, { h with },
      closer_exiting⟩
    simp only [ExitState.execExiting, hattached]
    rfl
  | switch =>
    exact .inl ⟨{ s with exiting := .zombie }, if_neg (by simp [hattached, ExitPc.attached]),
      { h with }, closer_exiting⟩
  | zombie => exact .inr ⟨rfl, .inl rfl⟩

theorem not_woke (h : ExitInv status s) (hw : s.waiter.sleepy = true) : s.exiting.woke = false := by
  have hp := h.sleepy hw
  rw [← Bool.not_eq_true] at hp ⊢
  exact fun hd => hp (ExitPc.posted_of_woke hd)

/-- There is one unit, and the waiter has it or finds it. -/
theorem count_of_passed (h : ExitInv status s) (hw : s.waiter.passed = true) :
    s.semCount + s.waiter.taken.toNat = 1 := by
  rw [h.count]
  rcases ExitPc.gone_cases (h.passed hw) with he | he | he <;> rw [he] <;> rfl

/-- A statement of `P`. It waits for the exiting thread at the
test-and-set. -/
theorem exec_p (s : ExitState) (i : Section PStmt) (h : ExitInv status { s with waiter := .p i }) :
    Advances status { s with waiter := .p i } (ExitState.execWaiter { s with waiter := .p i }) ∨
      ExitState.execWaiter { s with waiter := .p i } = .error .blocked ∧
        s.exiting.semGrip ≠ .none := by
  have hcount := h.count
  have hwchan := h.wchan
  simp only at hcount hwchan
  cases i with
  | enter i =>
    rcases h.semLock.enter (t := .waiter) (i := i) rfl PStmt.test with
      ⟨l, hl, hgrip⟩ | ⟨hl, u, hu, hne⟩
    · refine .inl ⟨{ s with semLock := l, waiter := .p (i.next .test) },
        congrArg (· >>= _) hl, ?_, ?_⟩
      · have hlock := (semGrip_waiter _ _ (.p (i.next .test))).symm ▸ hgrip
        cases i <;> exact { h with semLock := hlock }
      · exact Nat.add_lt_add_left
          (Nat.add_lt_add_right (Nat.add_lt_add_left (sectionRank_next (by decide) i) 9) _) _
    · refine .inr ⟨congrArg (· >>= _) hl, ?_⟩
      cases u with
      | exiting => exact hne
      | waiter => exact absurd rfl hu
  | body b =>
    have hapart : s.exiting.semGrip = .none := by
      by_contra hne
      exact absurd (h.apart hne) (by simp [WaitPc.semGrip])
    cases b with
    | test =>
      have hcount : s.semCount = s.exiting.posted.toNat := hcount
      by_cases hzero : s.semCount = 0
      · refine .inl ⟨{ s with waiter := .p (.body .addtail) }, ?_, { h with sleepy := fun _ => ?_ },
          Nat.add_lt_add_left closer_exiting _⟩
        · simp only [ExitState.execWaiter, hzero, if_true]
        · grind
      · refine .inl ⟨{ s with waiter := .p (.body .kassert) }, ?_, { h with passed := fun _ => ?_ },
          Nat.add_lt_add_left (Nat.add_lt_add_right (show 13 < 15 by decide) _) _⟩
        · simp only [ExitState.execWaiter, hzero, if_false]
        · refine ExitPc.gone_of_posted ?_ hapart
          grind
    | addtail =>
      refine .inl ⟨{ s with
          semWchan := s.semWchan.sleep .waiter, waiter := .sleeping .clearHolder },
        if_pos ((h.semLock.holder .waiter).mpr rfl), { h with
          wchan := congrArg (Wchan.sleep · .waiter) hwchan }, ?_⟩
      have hwoke : s.exiting.woke = false := h.not_woke rfl
      simp only [ExitState.rank, hwoke]
      exact Nat.add_lt_add_left (show 21 < 34 by decide) _
    | kassert =>
      have hone : s.semCount = 1 := h.count_of_passed rfl
      have hpos : 0 < s.semCount := by rw [hone]; decide
      exact .inl ⟨{ s with waiter := .p (.body .decrement) }, if_pos hpos, { h with },
        Nat.add_lt_add_left closer_exiting _⟩
    | decrement =>
      have hone : s.semCount = 1 := h.count_of_passed rfl
      refine .inl ⟨{ s with semCount := s.semCount - 1, waiter := .p (.leave .clearHolder) }, rfl,
        { h with count := ?_ },
        Nat.add_lt_add_left closer_exiting _⟩
      rw [← hcount]
      simp only [hone]
      rfl
  | leave i =>
    obtain ⟨l, hl, hgrip⟩ := h.semLock.leave (t := .waiter) (i := i) rfl
    cases i with
    | clearHolder =>
      exact .inl ⟨{ s with semLock := l, waiter := .p (.leave .clearWord) },
        congrArg (· >>= _) hl, { h with semLock := (semGrip_waiter _ _ _).symm ▸ hgrip },
        Nat.add_lt_add_left closer_exiting _⟩
    | clearWord =>
      exact .inl ⟨{ s with semLock := l, waiter := .readStatus }, congrArg (· >>= _) hl, { h with
          semLock := (semGrip_waiter _ _ _).symm ▸ hgrip },
        Nat.add_lt_add_left (Nat.lt_of_lt_of_le (Nat.lt_succ_self _) (Nat.le_add_right _ _)) _⟩

/-- A statement of `proc_destroy`: its assertions hold, because the exiting thread is gone. -/
theorem exec_destroy (s : ExitState) (w : WaitPc) (h : ExitInv status { s with waiter := w })
    (hw : w.destroying = true) :
    Advances status { s with waiter := w } (ExitState.execWaiter { s with waiter := w }) ∨
      ExitState.execWaiter { s with waiter := w } = .error .blocked ∧ w = .returned := by
  have hgone : s.exiting.gone = true := h.passed (WaitPc.passed_of_destroying hw)
  cases w with
  | destroy =>
    exact .inl ⟨{ s with waiter := .semLock }, rfl, { h with },
      Nat.lt_succ_self _⟩
  | semLock =>
    have hclean : s.semLock.cleanup = true := h.semLock.cleanup fun u => by
      cases u with
      | exiting => exact ExitPc.semGrip_of_gone hgone
      | waiter => rfl
    exact .inl ⟨{ s with waiter := .semWchan }, if_pos hclean, { h with },
      Nat.lt_succ_self _⟩
  | semWchan =>
    exact .inl ⟨{ s with waiter := .semFree }, if_pos (congrArg Wchan.threads h.wchan), { h with },
      Nat.lt_succ_self _⟩
  | semFree =>
    exact .inl ⟨{ s with semLive := false, waiter := .fields }, rfl, { h with semLive := rfl },
      Nat.lt_succ_self _⟩
  | fields =>
    exact .inl ⟨{ s with waiter := .numthreads }, rfl, { h with },
      Nat.lt_succ_self _⟩
  | numthreads =>
    have hzero : s.pNumthreads = 0 := h.counted.trans (by
      rcases ExitPc.gone_cases hgone with he | he | he <;> simp only [he] <;> rfl)
    exact .inl ⟨{ s with waiter := .procLock }, if_pos hzero, { h with },
      Nat.lt_succ_self _⟩
  | procLock =>
    have hclean : s.pLock.cleanup = true := h.procLock.cleanup fun u => by
      cases u with
      | exiting => rcases ExitPc.gone_cases hgone with he | he | he <;> simp only [he] <;> rfl
      | waiter => rfl
    exact .inl ⟨{ s with waiter := .procFree }, if_pos hclean, { h with },
      Nat.lt_succ_self _⟩
  | procFree =>
    exact .inl ⟨{ s with procLive := false, waiter := .returned }, rfl, { h with procLive := rfl },
      Nat.lt_succ_self _⟩
  | returned => exact .inr ⟨rfl, rfl⟩
  | _ => exact absurd hw (by simp [WaitPc.destroying])

/-- **A statement of the waiter.** It waits for the exiting thread at the test-and-set, and for the
wakeup. -/
theorem exec_waiter (s : ExitState) (w : WaitPc) (h : ExitInv status { s with waiter := w }) :
    Advances status { s with waiter := w } (ExitState.execWaiter { s with waiter := w }) ∨
      ExitState.execWaiter { s with waiter := w } = .error .blocked ∧
        (w = .returned ∨ w = .asleep ∧ s.exiting.woke = false ∨ s.exiting.semGrip ≠ .none) := by
  have hwchan := h.wchan
  simp only at hwchan
  by_cases hd : w.destroying = true
  · exact (exec_destroy s w h hd).imp_right fun ⟨hb, hw⟩ => ⟨hb, .inl hw⟩
  cases w with
  | loadSem =>
    have hlt : (WaitPc.p (.enter .check)).rank s.exiting.woke < 39 := by
      cases s.exiting.woke <;> decide
    exact .inl ⟨{ s with waiter := .p (.enter .check) }, rfl, { h with }, Nat.add_lt_add_left hlt _⟩
  | p i => exact (exec_p s i h).imp_right fun ⟨hb, he⟩ => ⟨hb, .inr (.inr he)⟩
  | sleeping i =>
    obtain ⟨l, hl, hgrip⟩ := h.semLock.leave (t := .waiter) (i := i) rfl
    cases i with
    | clearHolder =>
      exact .inl ⟨{ s with semLock := l, waiter := .sleeping .clearWord }, congrArg (· >>= _) hl,
        { h with semLock := (semGrip_waiter _ _ _).symm ▸ hgrip },
        Nat.lt_succ_self _⟩
    | clearWord =>
      have hwoke : s.exiting.woke = false := h.not_woke rfl
      exact .inl ⟨{ s with semLock := l, waiter := .asleep }, congrArg (· >>= _) hl, { h with
          semLock := (semGrip_waiter _ _ _).symm ▸ hgrip
          sleepy := fun hs => absurd hs Bool.false_ne_true
          wchan := hwchan.trans (by simp only [hwoke]; rfl) },
        Nat.lt_succ_self _⟩
  | asleep =>
    cases hwoke : s.exiting.woke with
    | true =>
      have hwchan : s.semWchan = ⟨[], [.waiter]⟩ := by rw [hwchan, hwoke]; rfl
      refine .inl ⟨{ s with
          semWchan := s.semWchan.resume .waiter, waiter := .p (.enter .check) },
        if_pos (by simp [hwchan]), { h with wchan := ?_ }, ?_⟩
      · simp only [hwchan]
        rfl
      · simp only [ExitState.rank, hwoke]
        exact Nat.lt_succ_self _
    | false =>
      have hwchan : s.semWchan = ⟨[.waiter], []⟩ := by rw [hwchan, hwoke]; rfl
      exact .inr ⟨if_neg (by simp [hwchan]), .inr (.inl ⟨rfl, rfl⟩)⟩
  | readStatus =>
    exact .inl ⟨{ s with ret := s.pStatus, waiter := .destroy }, rfl,
      { h with ret := fun _ => rfl }, Nat.lt_succ_self _⟩
  | _ => exact absurd rfl hd

variable (h : ExitInv status s)
include h

/-- Neither thread touches what was freed. -/
theorem live_exiting : s.live s.exiting.mem = true := by
  cases he : s.exiting.gone with
  | true => rcases ExitPc.gone_cases he with he | he | he <;> rw [he] <;> rfl
  | false =>
    obtain ⟨hsem, hproc⟩ := WaitPc.live_of_not_passed (h.not_passed he)
    have hsem := h.semLive.trans hsem
    have hproc := h.procLive.trans hproc
    cases s.exiting.mem <;> simp [ExitState.live, hsem, hproc]

theorem live_waiter : s.live s.waiter.mem = true := by
  have hsem := h.semLive
  have hproc := h.procLive
  cases hw : s.waiter <;> rw [hw] at hsem hproc <;>
    simp only [WaitPc.mem, ExitState.live, hsem, hproc] <;> rfl

theorem exec (e : ExitEvent) :
    Advances status s (s.exec status e) ∨ s.exec status e = .error .blocked := by
  cases e with
  | exiting pc =>
    by_cases hpc : s.exiting = pc
    · subst hpc
      rw [ExitState.exec, if_pos rfl, if_pos h.live_exiting]
      exact (exec_exiting s s.exiting h).imp_right And.left
    · exact .inr (if_neg hpc)
  | waiter pc =>
    by_cases hpc : s.waiter = pc
    · subst hpc
      rw [ExitState.exec, if_pos rfl, if_pos h.live_waiter]
      exact (exec_waiter s s.waiter h).imp_right And.left
    · exact .inr (if_neg hpc)

theorem step {e : ExitEvent} {s' : ExitState} (hs : s.Step status e s') :
    ExitInv status s' ∧ s'.rank < s.rank := by
  rcases h.exec e with ⟨s₁, hs₁, hinv, hlt⟩ | hblocked
  · obtain rfl := Except.ok.inj (hs.symm.trans hs₁)
    exact ⟨hinv, hlt⟩
  · exact absurd (hs.symm.trans hblocked) (by simp)

/-- **The threads do not block each other**: until `proc_wait` has returned, one of them goes on. -/
theorem progress (hw : s.waiter ≠ .returned) : ∃ e s', s.Step status e s' := by
  rcases exec_exiting s s.exiting h with ⟨s', hs', -⟩ | ⟨-, he⟩
  · exact ⟨.exiting s.exiting, s', by
      rw [ExitState.Step, ExitState.exec, if_pos rfl, if_pos h.live_exiting]; exact hs'⟩
  rcases exec_waiter s s.waiter h with ⟨s', hs', -⟩ | ⟨-, hb⟩
  · exact ⟨.waiter s.waiter, s', by
      rw [ExitState.Step, ExitState.exec, if_pos rfl, if_pos h.live_waiter]; exact hs'⟩
  -- both wait: not for the lock, which one of them would have, and not for the wakeup
  rcases hb with hret | ⟨hasleep, hwoke⟩ | hgrip
  · exact absurd hret hw
  · rcases he with he | he
    · rw [he] at hwoke
      cases hwoke
    · rw [hasleep] at he
      exact absurd rfl he
  · rcases he with he | he
    · rw [he] at hgrip
      exact absurd rfl hgrip
    · exact absurd (h.apart hgrip) he

/-- Past `V` the exiting thread finds itself detached, and only switches away. -/
theorem gone_exiting {s' : ExitState} (hg : s.exiting.gone = true)
    (hs : s.execExiting status = .ok s') : s'.exiting.gone = true := by
  rw [ExitState.execExiting_exiting hs, h.attached]
  rcases ExitPc.gone_cases hg with he | he | he <;> rw [he] <;> rfl

theorem gone_run {es : List ExitEvent} {t : ExitState} (hr : Run (ExitState.Step status) s es t)
    (hg : s.exiting.gone = true) : ∀ pc, .exiting pc ∈ es → pc.mem = .own := by
  refine (hr.history (R := fun es t => ExitInv status t ∧ t.exiting.gone = true ∧
    ∀ pc, .exiting pc ∈ es → pc.mem = .own) ⟨h, hg, by simp⟩ ?_).2.2
  rintro es t e t' ⟨h, hg, hown⟩ hs
  refine ⟨(h.step hs).1, ?_⟩
  cases e with simp only [ExitState.Step, ExitState.exec] at hs
  | exiting pc =>
    split_ifs at hs with hpc
    refine ⟨h.gone_exiting hg hs, fun pc' hpc' => ?_⟩
    rcases List.mem_append.mp hpc' with hmem | hmem
    · exact hown pc' hmem
    · obtain rfl : pc' = pc := by simpa using hmem
      rw [← hpc]
      rcases ExitPc.gone_cases hg with he | he | he <;> rw [he] <;> rfl
  | waiter pc =>
    split_ifs at hs with hpc
    rw [ExitState.execWaiter_exiting hs]
    grind

end ExitInv

end OsPaging.Proc
