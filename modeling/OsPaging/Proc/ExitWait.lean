import OsPaging.Lib.Run
import OsPaging.Thread.Spinlock
import OsPaging.Thread.Wchan
import OsPaging.Vm.Machine

/-!
# Exit and wait

A thread that ends its process and the thread that waits for it, statement by statement: `sys__exit`
(`kern/syscall/proc_syscalls.c:25-43`) with `proc_remthread`, `V` and `thread_exit`, against
`proc_wait` (`kern/proc/proc.c:371-380`) with `P` and `proc_destroy`. The waiter frees the semaphore
and the process, so an event is one access to them; the two threads take their events in any order.

The process has one thread. What `proc_destroy` does with the pid table, the current directory and
the address space is one event, an access to the process. Every statement says which of the two
blocks it touches, and stops the kernel if that block was freed.

What holds in any order of the events is in `Handover.lean`.
-/

namespace OsPaging.Proc

open OsPaging.Lib OsPaging.Thread OsPaging.Vm

/-- The two threads. -/
inductive Party
  | exiting
  | waiter
deriving DecidableEq, Repr

/-- What a statement touches. -/
inductive Mem
  /-- The thread's own stack and `struct thread`. -/
  | own
  | proc
  /-- `s_exit`, with its spinlock and wait channel. -/
  | sem
deriving DecidableEq, Repr

/-- The section of `proc_remthread` (`proc.c:319-320`). -/
inductive RemStmt
  | kassert
  | decrement
deriving DecidableEq, Repr

/-- The section of `V` (`synch.c:133-135`). -/
inductive VStmt
  | increment
  | kassert
  | wakeone
deriving DecidableEq, Repr

/-- The section of `P` (`synch.c:106-122`), with the first part of `wchan_sleep`. -/
inductive PStmt
  | test
  | addtail
  | kassert
  | decrement
deriving DecidableEq, Repr

/-- The next statement of the exiting thread. In `proc_remthread`, `last` tells that `thread_exit`
called it and not `sys__exit`. -/
inductive ExitPc
  /-- `p->p_status=status & 0xff`. -/
  | status
  /-- `proc = t->t_proc`, and its assertion. -/
  | loadProc (last : Bool)
  | remthread (last : Bool) (i : Section RemStmt)
  /-- `t->t_proc = NULL`. -/
  | detach (last : Bool)
  /-- The read of `p->s_exit`. -/
  | loadSem
  | v (i : Section VStmt)
  /-- The test of `t_proc` in `thread_exit`. -/
  | threadExit
  /-- The assertion after it, and the switch away. -/
  | switch
  | zombie
deriving DecidableEq, Repr

/-- The next statement of the waiter. -/
inductive WaitPc
  /-- The read of `p->s_exit` in `proc_wait`. -/
  | loadSem
  | p (i : Section PStmt)
  /-- In `thread_switch`, on the wait channel. -/
  | sleeping (i : Leave)
  | asleep
  /-- `ret = p->p_status`. -/
  | readStatus
  /-- The read of `proc->s_exit` in `proc_destroy`. -/
  | destroy
  | semLock
  | semWchan
  | semFree
  /-- `pid_table_del`, `p_cwd` and `p_addrspace`. -/
  | fields
  | numthreads
  | procLock
  | procFree
  | returned
deriving DecidableEq, Repr

def ExitPc.mem : ExitPc → Mem
  | .status | .remthread _ _ | .loadSem => .proc
  | .v _ => .sem
  | .loadProc _ | .detach _ | .threadExit | .switch | .zombie => .own

/-- The statement after this one; `attached` is the value of `t_proc != NULL`. -/
def ExitPc.next (attached : Bool) : ExitPc → ExitPc
  | .status => .loadProc false
  | .loadProc last => .remthread last (.enter .check)
  | .remthread last (.enter i) => .remthread last (i.next .kassert)
  | .remthread last (.body .kassert) => .remthread last (.body .decrement)
  | .remthread last (.body .decrement) => .remthread last (.leave .clearHolder)
  | .remthread last (.leave i) => i.next.elim (.detach last) fun i => .remthread last (.leave i)
  | .detach last => if last then .switch else .loadSem
  | .loadSem => .v (.enter .check)
  | .v (.enter i) => .v (i.next .increment)
  | .v (.body .increment) => .v (.body .kassert)
  | .v (.body .kassert) => .v (.body .wakeone)
  | .v (.body .wakeone) => .v (.leave .clearHolder)
  | .v (.leave i) => i.next.elim .threadExit fun i => .v (.leave i)
  | .threadExit => if attached then .loadProc true else .switch
  | .switch | .zombie => .zombie

def WaitPc.mem : WaitPc → Mem
  | .loadSem | .readStatus | .destroy | .fields | .numthreads | .procLock | .procFree => .proc
  | .p _ | .sleeping _ | .semLock | .semWchan | .semFree => .sem
  | .asleep | .returned => .own

/-- The waiter is in `proc_destroy`, or past it. -/
def WaitPc.destroying : WaitPc → Bool
  | .destroy | .semLock | .semWchan | .semFree | .fields | .numthreads | .procLock | .procFree
  | .returned => true
  | .loadSem | .p _ | .sleeping _ | .asleep | .readStatus => false

structure ExitState where
  pStatus : BitVec 32
  pNumthreads : Nat
  pLock : Spinlock Party
  /-- The process is not freed. -/
  procLive : Bool
  semCount : Nat
  semLock : Spinlock Party
  semWchan : Wchan Party
  /-- The semaphore is not freed. -/
  semLive : Bool
  /-- `t_proc` of the exiting thread is the process. -/
  tProc : Bool
  /-- `ret` of `proc_wait`. -/
  ret : BitVec 32
  exiting : ExitPc
  waiter : WaitPc
deriving DecidableEq, Repr

/-- The next statement of a thread. -/
inductive ExitEvent
  | exiting (pc : ExitPc)
  | waiter (pc : WaitPc)
deriving DecidableEq, Repr

namespace ExitState

def live (s : ExitState) : Mem → Bool
  | .own => true
  | .proc => s.procLive
  | .sem => s.semLive

variable (status : BitVec 32) (s : ExitState)

/-- A statement of the exiting thread. -/
def execExiting : Except Stop ExitState :=
  match s.exiting with
  | .status =>
    .ok { s with pStatus := status &&& 0xff#32, exiting := .loadProc false }
  | .loadProc last =>
    if s.tProc then .ok { s with exiting := .remthread last (.enter .check) } else .error .panic
  | .remthread last (.enter i) => do
    let l ← s.pLock.enter .exiting i
    .ok { s with pLock := l, exiting := .remthread last (i.next .kassert) }
  | .remthread last (.body .kassert) =>
    if 0 < s.pNumthreads then .ok { s with exiting := .remthread last (.body .decrement) }
    else .error .panic
  | .remthread last (.body .decrement) =>
    .ok { s with
      pNumthreads := s.pNumthreads - 1, exiting := .remthread last (.leave .clearHolder) }
  | .remthread last (.leave i) => do
    let l ← s.pLock.leave .exiting i
    .ok { s with
      pLock := l, exiting := i.next.elim (.detach last) fun i => .remthread last (.leave i) }
  | .detach last => .ok { s with tProc := false, exiting := if last then .switch else .loadSem }
  | .loadSem => .ok { s with exiting := .v (.enter .check) }
  | .v (.enter i) => do
    let l ← s.semLock.enter .exiting i
    .ok { s with semLock := l, exiting := .v (i.next .increment) }
  | .v (.body .increment) =>
    .ok { s with semCount := (s.semCount + 1) % wordSize, exiting := .v (.body .kassert) }
  | .v (.body .kassert) =>
    if 0 < s.semCount then .ok { s with exiting := .v (.body .wakeone) } else .error .panic
  | .v (.body .wakeone) =>
    if s.semLock.holder = some .exiting then
      .ok { s with semWchan := s.semWchan.wakeone, exiting := .v (.leave .clearHolder) }
    else .error .panic
  | .v (.leave i) => do
    let l ← s.semLock.leave .exiting i
    .ok { s with semLock := l, exiting := i.next.elim .threadExit fun i => .v (.leave i) }
  | .threadExit => .ok { s with exiting := if s.tProc then .loadProc true else .switch }
  | .switch => if s.tProc then .error .panic else .ok { s with exiting := .zombie }
  | .zombie => .error .blocked

/-- A statement of the waiter. -/
def execWaiter : Except Stop ExitState :=
  match s.waiter with
  | .loadSem => .ok { s with waiter := .p (.enter .check) }
  | .p (.enter i) => do
    let l ← s.semLock.enter .waiter i
    .ok { s with semLock := l, waiter := .p (i.next .test) }
  | .p (.body .test) =>
    .ok { s with waiter := .p (.body (if s.semCount = 0 then .addtail else .kassert)) }
  | .p (.body .addtail) =>
    if s.semLock.holder = some .waiter then
      .ok { s with semWchan := s.semWchan.sleep .waiter, waiter := .sleeping .clearHolder }
    else .error .panic
  | .sleeping i => do
    let l ← s.semLock.leave .waiter i
    .ok { s with semLock := l, waiter := i.next.elim .asleep .sleeping }
  | .asleep =>
    if .waiter ∈ s.semWchan.woken then
      .ok { s with semWchan := s.semWchan.resume .waiter, waiter := .p (.enter .check) }
    else .error .blocked
  | .p (.body .kassert) =>
    if 0 < s.semCount then .ok { s with waiter := .p (.body .decrement) } else .error .panic
  | .p (.body .decrement) =>
    .ok { s with semCount := s.semCount - 1, waiter := .p (.leave .clearHolder) }
  | .p (.leave i) => do
    let l ← s.semLock.leave .waiter i
    .ok { s with semLock := l, waiter := i.next.elim .readStatus fun i => .p (.leave i) }
  | .readStatus => .ok { s with ret := s.pStatus, waiter := .destroy }
  | .destroy => .ok { s with waiter := .semLock }
  | .semLock => if s.semLock.cleanup then .ok { s with waiter := .semWchan } else .error .panic
  | .semWchan =>
    if s.semWchan.threads = [] then .ok { s with waiter := .semFree } else .error .panic
  | .semFree => .ok { s with semLive := false, waiter := .fields }
  | .fields => .ok { s with waiter := .numthreads }
  | .numthreads => if s.pNumthreads = 0 then .ok { s with waiter := .procLock } else .error .panic
  | .procLock => if s.pLock.cleanup then .ok { s with waiter := .procFree } else .error .panic
  | .procFree => .ok { s with procLive := false, waiter := .returned }
  | .returned => .error .blocked

/-- One event: the thread's next statement, on memory that is not freed. -/
def exec : ExitEvent → Except Stop ExitState
  | .exiting pc =>
    if s.exiting = pc then if s.live pc.mem then s.execExiting status else .error .freed
    else .error .blocked
  | .waiter pc =>
    if s.waiter = pc then if s.live pc.mem then s.execWaiter else .error .freed
    else .error .blocked

/-- A statement of the exiting thread takes it to the next one. -/
theorem execExiting_exiting {status : BitVec 32} {s s' : ExitState}
    (h : s.execExiting status = .ok s') : s'.exiting = s.exiting.next s.tProc := by
  unfold execExiting at h
  simp only [bind, Except.bind] at h
  split at h <;> rename_i he <;> rw [he] <;> (repeat' split at h) <;> cases h <;>
    simp [ExitPc.next, *]

/-- The waiter leaves the place of the other thread alone. -/
theorem execWaiter_exiting {s s' : ExitState} (h : s.execWaiter = .ok s') :
    s'.exiting = s.exiting := by
  unfold execWaiter at h
  simp only [bind, Except.bind] at h
  repeat' split at h
  all_goals cases h <;> rfl

def Step (s : ExitState) (e : ExitEvent) (s' : ExitState) : Prop := s.exec status e = .ok s'

end ExitState

/-- A process that runs one thread, and a call of `proc_wait` for it. -/
def exitStart : ExitState where
  pStatus := 0
  pNumthreads := 1
  pLock := .init
  procLive := true
  semCount := 0
  semLock := .init
  semWchan := .create
  semLive := true
  tProc := true
  ret := 0
  exiting := .status
  waiter := .loadSem

end OsPaging.Proc
