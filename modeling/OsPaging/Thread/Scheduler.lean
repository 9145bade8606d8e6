import Mathlib.Data.Fin.Basic
import Mathlib.Logic.Function.Basic

/-!
# The scheduler

`kern/thread/thread.c`: `thread_make_runnable` and `thread_fork` (`:447-550`), `thread_switch`
(`:557-760`), `exorcise` (`:276-287`), `thread_consider_migration` (`:847-950`) and the wait
channels (`:999-1075`), for any number of cpus. The control point of a cpu is a `SchedPc`. An event
is the start of one of the calls, by what runs on the cpu, or the next step of the call in progress;
a step that needs a spinlock waits until it is free.

* A critical section on one run queue that adds one thread is one step
  (`thread_make_runnable(target, false)`), and so is one that only reads a length. Where a lock is
  held across other accesses (`thread_switch`, the loops of the migration) it is taken and released
  in steps of its own.
* `wchan_sleep` enters `thread_switch` with the spinlock of the channel. That spinlock is released
  once the thread is on the list; the run queue lock goes with the cpu to the next thread.
* A cpu with `c_isidle` set and no call in progress is in `cpu_idle`. Interrupt handlers run there
  as they do in a thread: they take spinlocks, wake threads, and the timer's considers migration.
* What the threads do between the calls is arbitrary. A wait channel is always used with the same
  spinlock, `lk w`.
* Threads are named by their address, which `thread_create` may use again after `thread_destroy`.
-/

namespace OsPaging.Thread

open Function (update)

variable {n : Nat} {T W L : Type}

/-- `threadstate_t`. -/
inductive ThreadState
  | run
  | ready
  | sleep
  | zombie
deriving DecidableEq, Repr

/-- The calls of `thread_switch`: what becomes of the current thread. -/
inductive NewState (W : Type)
  | ready
  | sleep (wc : W)
  | zombie
deriving DecidableEq, Repr

def NewState.state : NewState W → ThreadState
  | .ready => .ready
  | .sleep _ => .sleep
  | .zombie => .zombie

/-- What a thread structure is in use for. -/
inductive Life
  | absent
  /-- In `thread_fork`, before `thread_make_runnable`. -/
  | created
  /-- Made runnable at least once, or the first thread of a cpu, and not destroyed. -/
  | live
deriving DecidableEq, Repr

/-- Where a cpu is. -/
inductive SchedPc (n : Nat) (T W : Type)
  /-- In none of the calls below. -/
  | free
  /-- `thread_switch` with the run queue locked, before the thread is put in its place. -/
  | placing (newstate : NewState W)
  /-- Before `cur->t_state = newstate`. -/
  | placed (newstate : NewState W)
  /-- At `threadlist_remhead(&curcpu->c_runqueue)`. -/
  | choosing
  /-- After `switchframe_switch`. -/
  | switched
  /-- In `exorcise`. -/
  | tail
  /-- `wchan_wakeall`, in the loop that empties the channel. -/
  | gathering (wc : W) (list : List T)
  /-- With threads to be made runnable: the private list of `wchan_wakeall`, or the `target`. -/
  | waking (list : List T)
  /-- `thread_consider_migration`, before the run queue of cpu `i` is counted. -/
  | counting (i myCount totalCount : Nat)
  /-- With `left` threads to be taken from the run queue, which is locked. -/
  | draining (left toSend oneShare : Nat) (victims : List T)
  /-- At the head of the loop over the other cpus. -/
  | offering (i toSend oneShare : Nat) (victims : List T)
  /-- With the run queue of cpu `i` locked. -/
  | sending (i : Fin n) (toSend oneShare : Nat) (victims : List T)
  /-- Putting the leftovers back, with the own run queue locked. -/
  | returning (victims : List T)
deriving DecidableEq, Repr

/-- The threads taken from the run queue by a migration in progress. -/
def SchedPc.victims : SchedPc n T W → List T
  | .draining _ _ _ l => l
  | .offering _ _ _ l => l
  | .sending _ _ _ l => l
  | .returning l => l
  | _ => []

/-- The private list of a wakeup or migration in progress. -/
def SchedPc.list : SchedPc n T W → List T
  | .gathering _ l => l
  | .waking l => l
  | p => p.victims

/-- The current thread has been put in its place. -/
def SchedPc.parked : SchedPc n T W → Bool
  | .placed _ => true
  | .choosing => true
  | _ => false

structure Sched (n : Nat) (T W L : Type) where
  /-- `c_curthread`. -/
  cur : Fin n → T
  /-- `c_isidle`. -/
  isidle : Fin n → Bool
  /-- `c_runqueue`. -/
  runqueue : Fin n → List T
  /-- Who holds `c_runqueue_lock`. -/
  rqHolder : Fin n → Option (Fin n)
  /-- `c_zombies`. -/
  zombies : Fin n → List T
  /-- The spinlocks of wait channels that the cpu holds, of `c_spinlocks`. -/
  spinlocks : Fin n → Nat
  pc : Fin n → SchedPc n T W
  /-- `wc_threads`. -/
  threads : W → List T
  /-- Who holds the spinlock of a wait channel. -/
  lkHolder : L → Option (Fin n)
  /-- `t_cpu`. -/
  tcpu : T → Fin n
  /-- `t_state`. -/
  tstate : T → ThreadState
  life : T → Life

/-- What the processors do. -/
inductive SchedMove (n : Nat) (T W L : Type)
  /-- `thread_fork` up to `thread_make_runnable`. -/
  | create (c : Fin n) (t : T)
  /-- `thread_fork` fails. -/
  | discard (c : Fin n) (t : T)
  /-- The `thread_make_runnable` of `thread_fork`. -/
  | start (c : Fin n) (t : T)
  | acquire (c : Fin n) (l : L)
  | release (c : Fin n) (l : L)
  | sleep (c : Fin n) (wc : W)
  | yield (c : Fin n)
  | exit (c : Fin n)
  | wakeone (c : Fin n) (wc : W)
  | wakeall (c : Fin n) (wc : W)
  /-- `thread_consider_migration`, from the timer interrupt. -/
  | migrate (c : Fin n)
  /-- The call in progress continues, or `cpu_idle` returns. -/
  | step (c : Fin n)
deriving DecidableEq, Repr

/-- Why an event does not happen. -/
inductive SchedFault
  /-- It has to wait, or the cpu is elsewhere. -/
  | disabled
  /-- A `KASSERT` fails. -/
  | assertion
  /-- A list operation is given no thread. -/
  | nullThread
deriving DecidableEq, Repr

namespace Sched

/-- The cpus as `cpu_create` makes them, each with its first thread; `home` says which threads these
are, and `t_cpu` of the others does not matter. -/
def boot [DecidableEq T] (first : Fin n → T) (home : T → Fin n) : Sched n T W L where
  cur := first
  isidle _ := false
  runqueue _ := []
  rqHolder _ := none
  zombies _ := []
  spinlocks _ := 0
  pc _ := .free
  threads _ := []
  lkHolder _ := none
  tcpu := home
  tstate _ := .ready
  life t := if first (home t) = t then .live else .absent

/-- The cpu goes on at `p`. -/
def goto (s : Sched n T W L) (c : Fin n) (p : SchedPc n T W) : Sched n T W L :=
  { s with pc := update s.pc c p }

/-- `spinlock_acquire(&d->c_runqueue_lock)` by `c`. -/
def lockRq (s : Sched n T W L) (c d : Fin n) : Sched n T W L :=
  { s with rqHolder := update s.rqHolder d (some c) }

/-- `spinlock_release(&d->c_runqueue_lock)`. -/
def unlockRq (s : Sched n T W L) (d : Fin n) : Sched n T W L :=
  { s with rqHolder := update s.rqHolder d none }

/-- `threadlist_addtail(&d->c_runqueue, t)`. -/
def enqueue (s : Sched n T W L) (d : Fin n) (t : T) : Sched n T W L :=
  { s with runqueue := update s.runqueue d (s.runqueue d ++ [t]) }

/-- What follows when the run queue of `d` can be locked. -/
def whenUnlocked (s : Sched n T W L) (d : Fin n) (r : Except SchedFault (Sched n T W L)) :
    Except SchedFault (Sched n T W L) :=
  if s.rqHolder d = none then r else .error .disabled

variable [DecidableEq T]

/-- `t->t_state = x`. -/
def setState (s : Sched n T W L) (t : T) (x : ThreadState) : Sched n T W L :=
  { s with tstate := update s.tstate t x }

def setLife (s : Sched n T W L) (t : T) (x : Life) : Sched n T W L :=
  { s with life := update s.life t x }

/-- `thread_make_runnable` with the run queue of the target's cpu locked. -/
def threadMakeRunnable (s : Sched n T W L) (target : T) : Sched n T W L :=
  (s.setState target .ready).enqueue (s.tcpu target) target

/-- `exorcise`, one round of its loop. -/
def exorcise (s : Sched n T W L) (c : Fin n) : Except SchedFault (Sched n T W L) :=
  match s.zombies c with
  | [] => .ok (s.goto c .free)
  | z :: rest =>
    -- with the checks of `thread_destroy`
    if z = s.cur c ∨ s.tstate z ≠ .zombie ∨ s.tstate z = .run then .error .assertion
    else .ok ({ s with zombies := update s.zombies c rest }.setLife z .absent)

/-- `DIVROUNDUP(total_count, numcpus)`. -/
def oneShare (n total : Nat) : Nat := (total + n - 1) / n

/-- `threadlist_remtail`. -/
def remtail (l : List T) : Option (List T × T) := l.getLast?.map (l.dropLast, ·)

/-- `thread_consider_migration`, at its steps. -/
def migration (s : Sched n T W L) (c : Fin n) : SchedPc n T W → Except SchedFault (Sched n T W L)
  | .counting i myCount totalCount =>
    if h : i < n then
      let count := (s.runqueue ⟨i, h⟩).length
      s.whenUnlocked ⟨i, h⟩ <|
        .ok (s.goto c (.counting (i + 1) (if i = c then count else myCount) (totalCount + count)))
    else
      let share := oneShare n totalCount
      if myCount < share then .ok (s.goto c .free)
      else
        s.whenUnlocked c <|
          .ok ((s.lockRq c c).goto c (.draining (myCount - share) (myCount - share) share []))
  | .draining 0 toSend share victims =>
    .ok ((s.unlockRq c).goto c (.offering 0 toSend share victims))
  | .draining (left + 1) toSend share victims =>
    match remtail (s.runqueue c) with
    | none => .error .nullThread
    | some (rest, t) =>
      .ok ({ s with runqueue := update s.runqueue c rest }.goto c
        (.draining left toSend share (t :: victims)))
  | .offering i toSend share victims =>
    if h : i < n ∧ 0 < toSend then
      if i = c then .ok (s.goto c (.offering (i + 1) toSend share victims))
      else
        s.whenUnlocked ⟨i, h.1⟩ <|
          .ok ((s.lockRq c ⟨i, h.1⟩).goto c (.sending ⟨i, h.1⟩ toSend share victims))
    else if victims = [] then .ok (s.goto c .free)
    else s.whenUnlocked c <| .ok ((s.lockRq c c).goto c (.returning victims))
  | .sending i toSend share victims =>
    if (s.runqueue i).length < share ∧ 0 < toSend then
      match victims with
      | [] => .error .nullThread
      | t :: rest =>
        -- the current thread of an idle cpu goes to the end of the list
        if t = s.cur c then .ok (s.goto c (.sending i (toSend - 1) share (rest ++ [t])))
        else
          .ok (({ s with tcpu := update s.tcpu t i }.enqueue i t).goto c
            (.sending i (toSend - 1) share rest))
    else .ok ((s.unlockRq i).goto c (.offering (i + 1) toSend share victims))
  | .returning [] => .ok ((s.unlockRq c).goto c .free)
  | .returning (t :: rest) => .ok ((s.enqueue c t).goto c (.returning rest))
  | _ => .error .disabled

variable [DecidableEq W] [DecidableEq L]

/-- `thread_switch`, from where the run queue is locked. -/
def threadSwitch (lk : W → L) (s : Sched n T W L) (c : Fin n) :
    SchedPc n T W → Except SchedFault (Sched n T W L)
  | .placing .ready =>
    -- the `KASSERT` of `thread_make_runnable(cur, true)`
    if s.rqHolder (s.tcpu (s.cur c)) = some c then
      .ok ((s.threadMakeRunnable (s.cur c)).goto c (.placed .ready))
    else .error .assertion
  | .placing (.sleep wc) =>
    .ok ({ s with
      threads := update s.threads wc (s.threads wc ++ [s.cur c])
      lkHolder := update s.lkHolder (lk wc) none
      spinlocks := update s.spinlocks c (s.spinlocks c - 1) }.goto c (.placed (.sleep wc)))
  | .placing .zombie =>
    .ok ({ s with zombies := update s.zombies c (s.zombies c ++ [s.cur c]) }.goto c
      (.placed .zombie))
  | .placed newstate =>
    .ok ({ s.setState (s.cur c) newstate.state with
      isidle := update s.isidle c true }.goto c .choosing)
  | .choosing =>
    match s.runqueue c with
    | [] => .ok ((s.unlockRq c).goto c .free)
    | next :: rest =>
      .ok ({ s with
        runqueue := update s.runqueue c rest
        isidle := update s.isidle c false
        cur := update s.cur c next }.goto c .switched)
  | .switched => .ok (((s.setState (s.cur c) .run).unlockRq c).goto c .tail)
  | .tail => s.exorcise c
  | _ => .error .disabled

/-- `wchan_wakeall` and `wchan_wakeone` once threads are taken from the channel. -/
def wakeup (s : Sched n T W L) (c : Fin n) : SchedPc n T W → Except SchedFault (Sched n T W L)
  | .gathering wc list =>
    match s.threads wc with
    | [] => .ok (s.goto c (.waking list))
    | t :: rest =>
      .ok ({ s with threads := update s.threads wc rest }.goto c (.gathering wc (list ++ [t])))
  | .waking [] => .ok (s.goto c .free)
  | .waking (t :: rest) =>
    s.whenUnlocked (s.tcpu t) <| .ok ((s.threadMakeRunnable t).goto c (.waking rest))
  | _ => .error .disabled

/-- The next step on the cpu. -/
def resume (lk : W → L) (s : Sched n T W L) (c : Fin n) : Except SchedFault (Sched n T W L) :=
  match s.pc c with
  | .free =>
    -- `cpu_idle` returns when no interrupt handler runs
    if s.isidle c = true ∧ s.spinlocks c = 0 then
      s.whenUnlocked c <| .ok ((s.lockRq c c).goto c .choosing)
    else .error .disabled
  | .placing x => s.threadSwitch lk c (.placing x)
  | .placed x => s.threadSwitch lk c (.placed x)
  | .choosing => s.threadSwitch lk c .choosing
  | .switched => s.threadSwitch lk c .switched
  | .tail => s.threadSwitch lk c .tail
  | .gathering wc l => s.wakeup c (.gathering wc l)
  | .waking l => s.wakeup c (.waking l)
  | p => s.migration c p

/-- `thread_switch` up to the lock of the run queue, by a thread. -/
def enter (s : Sched n T W L) (c : Fin n) (newstate : NewState W) :
    Except SchedFault (Sched n T W L) :=
  s.whenUnlocked c <| .ok ((s.lockRq c c).goto c (.placing newstate))

/-- An event, for a cpu that is in no call. -/
def call (lk : W → L) (s : Sched n T W L) : SchedMove n T W L → Except SchedFault (Sched n T W L)
  | .create c t =>
    if s.isidle c = false ∧ s.life t = .absent then
      .ok (({ s with tcpu := update s.tcpu t (s.tcpu (s.cur c)) }.setState t .ready).setLife t
        .created)
    else .error .disabled
  | .discard c t =>
    if s.life t = .created then
      -- the checks of `thread_destroy`
      if t = s.cur c ∨ s.tstate t = .run then .error .assertion
      else .ok (s.setLife t .absent)
    else .error .disabled
  | .start _ t =>
    if s.life t = .created then
      s.whenUnlocked (s.tcpu t) <| .ok ((s.setLife t .live).threadMakeRunnable t)
    else .error .disabled
  | .acquire c l =>
    if s.lkHolder l = none then
      .ok { s with
        lkHolder := update s.lkHolder l (some c)
        spinlocks := update s.spinlocks c (s.spinlocks c + 1) }
    else .error .disabled
  | .release c l =>
    if s.lkHolder l = some c then
      .ok { s with
        lkHolder := update s.lkHolder l none
        spinlocks := update s.spinlocks c (s.spinlocks c - 1) }
    else .error .disabled
  | .sleep c wc =>
    -- the checks of `wchan_sleep` are for its callers
    if s.isidle c = false ∧ s.lkHolder (lk wc) = some c ∧ s.spinlocks c = 1 then
      s.enter c (.sleep wc)
    else .error .disabled
  | .yield c =>
    -- the timer interrupts the idle loop, or there is nothing else to run
    if s.isidle c then .ok s
    else if s.runqueue c = [] then s.whenUnlocked c (.ok s)
    else s.enter c .ready
  | .exit c => if s.isidle c then .error .disabled else s.enter c .zombie
  | .wakeone c wc =>
    if s.lkHolder (lk wc) = some c then
      match s.threads wc with
      | [] => .ok s
      | target :: rest =>
        .ok ({ s with threads := update s.threads wc rest }.goto c (.waking [target]))
    else .error .disabled
  | .wakeall c wc =>
    if s.lkHolder (lk wc) = some c then .ok (s.goto c (.gathering wc []))
    else .error .disabled
  | .migrate c =>
    -- interrupts are off while a spinlock is held
    if s.spinlocks c = 0 then .ok (s.goto c (.counting 0 0 0)) else .error .disabled
  | .step _ => .error .disabled

end Sched

/-- The cpu of an event. -/
def SchedMove.cpu : SchedMove n T W L → Fin n
  | .create c _ => c
  | .discard c _ => c
  | .start c _ => c
  | .acquire c _ => c
  | .release c _ => c
  | .sleep c _ => c
  | .yield c => c
  | .exit c => c
  | .wakeone c _ => c
  | .wakeall c _ => c
  | .migrate c => c
  | .step c => c

/-- One event. -/
def Sched.exec [DecidableEq T] [DecidableEq W] [DecidableEq L] (lk : W → L) (s : Sched n T W L) :
    SchedMove n T W L → Except SchedFault (Sched n T W L)
  | .step c => s.resume lk c
  | e => if s.pc e.cpu = .free then s.call lk e else .error .disabled

end OsPaging.Thread
