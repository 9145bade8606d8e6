import OsPaging.Lib.Slots
import OsPaging.Vm.Machine
import Mathlib.Logic.Function.Basic

/-!
# The objects of the semaphore file system

`semfs_creat`, `semfs_remove`, `semfs_lookup`, `semfs_reclaim` and `semfs_getvnode` of
`kern/fs/semfs/semfs_vnops.c`, the functions of `semfs_obj.c` they use, and `vnode_incref` and
`vnode_decref` of `kern/vfs/vnode.c`, with every access to shared data a step of its own.

* `semfs_dirlock` is held from the first to the last step of `semfs_creat`, `semfs_remove` and
  `semfs_lookup`. So `dir` is the lock together with the place its holder is at, and a call starts
  when it has the lock.
* `semfs_tablelock` is held in `semfs_getvnode` and in `semfs_reclaim`; `table` is this lock with
  the place of its holder. It is also taken around a single access to the table of semaphores
  (`semfs_sem_insert`, `semfs_getsembynum`, and where a place is set to `NULL`), which is then one
  step, possible while the lock is free.
* `sems_linked` is written under the dirlock and `sems_lock` and read in `semfs_reclaim` under the
  tablelock; `sems_hasvnode` is written under the tablelock and read in `semfs_remove` under the two
  others. Each of these accesses is a step.
* `vn_refcount` is used under its spinlock, in one step each time. A reference is held by a client
  (`held`), by a call that will return it or that was passed it, or by a `semfs_reclaim` that waits
  for the tablelock (`pending`).

Threads are not named: any number of them may call the functions, hold and drop references. A step
of the code that needs `kmalloc` is told whether it gets memory. A step on a semaphore that was
destroyed is the fault `freed`.

The names `.` and `..` return before the directory is looked at, and are left out. So are error
numbers. (When `semfs_direntry_create` fails, `semfs_creat` returns 0 without a vnode: `result` is
still that of `semfs_sem_insert`. Here it returns no reference.)
-/

namespace OsPaging.Fs

open OsPaging.Lib OsPaging.Vm Function

variable {N : Type}

def semfsRootdir : Nat := wordSize - 1

/-- A call of a directory operation. -/
inductive SemfsCall (N : Type)
  | lookup (name : N)
  | creat (name : N) (excl : Bool)
  | remove (name : N)
deriving DecidableEq, Repr

/-- Who calls `semfs_getvnode` with the dirlock held. -/
inductive SemfsCaller
  /-- `semfs_lookup`, or `semfs_creat` for a name that exists. -/
  | found
  /-- `semfs_creat` for the new semaphore `x`, with its entry at `i`. -/
  | fresh (i x : Nat)
deriving DecidableEq, Repr

/-- Where the holder of the dirlock is: before the step named. Directory entries are `i`, places in
the table of semaphores `k`, semaphores `x`, vnodes `v`. -/
inductive SemfsDirPc (N : Type)
  /-- The scan of the directory. -/
  | scan (c : SemfsCall N)
  /-- `semfs_getvnode`, until it returns. -/
  | getvnode (c : SemfsCaller) (k : Nat)
  /-- In `semfs_creat`: `semfs_sem_create`. -/
  | create (name : N) (i : Nat)
  /-- `semfs_sem_insert`. -/
  | insert (name : N) (i x : Nat)
  /-- `semfs_direntry_create`. -/
  | makeDent (name : N) (i x k : Nat)
  /-- The directory entry is put in its place. -/
  | putDent (name : N) (i x k : Nat)
  /-- The write of `sems_linked`. -/
  | link (i x k v : Nat)
  /-- `fail_undir`, `fail_uninsert` and `fail_uncreate`. -/
  | undir (i x k : Nat)
  | uninsert (x k : Nat)
  | uncreate (x : Nat)
  /-- In `semfs_remove`: `semfs_getsembynum`. -/
  | getsem (i k : Nat)
  /-- `lock_acquire` of `sems_lock`. -/
  | lockSem (i k x : Nat)
  /-- The write of `sems_linked`. -/
  | unlink (i k x : Nat)
  /-- The read of `sems_hasvnode`. -/
  | test (i k x : Nat)
  /-- The place in the table is set to `NULL`. -/
  | clear (i k x : Nat)
  /-- `lock_release` of `sems_lock`, on the way to `semfs_sem_destroy` or not. -/
  | unlockSem (i k x : Nat) (last : Bool)
  /-- `semfs_sem_destroy`. -/
  | destroy (i x : Nat)
  /-- The directory entry goes. -/
  | dropDent (i : Nat)
  /-- `lock_release` of the dirlock, and the vnode to return. -/
  | leave (r : Option Nat)
deriving DecidableEq, Repr

/-- Where the holder of the tablelock is: before the step named. -/
inductive SemfsTablePc
  /-- In `semfs_getvnode`, under the dirlock or not: the search for the vnode. -/
  | find (dir : Bool) (k : Nat)
  /-- The vnode is made. -/
  | make (dir : Bool) (k : Nat)
  /-- `lock_release`, with the vnode to return. -/
  | got (dir : Bool) (r : Option Nat)
  /-- In `semfs_reclaim`: the test of the reference count. -/
  | count (v : Nat)
  /-- The vnode leaves the table, and the assertion. -/
  | drop (v : Nat)
  /-- The write of `sems_hasvnode`. -/
  | unvnode (x k : Nat)
  /-- The read of `sems_linked`. -/
  | test (x k : Nat)
  /-- The place in the table is set to `NULL`. -/
  | clear (x k : Nat)
  /-- `semfs_sem_destroy`. -/
  | destroy (x : Nat)
  /-- `lock_release`. -/
  | unlock
deriving DecidableEq, Repr

/-- `struct semfs`, the semaphores and vnodes on the heap by their addresses, and the calls in
progress. -/
structure Semfs (N : Type) where
  /-- `semfs_sems`. -/
  sems : List (Option Nat)
  /-- How many semaphores were created, and the fields of `struct semfs_sem`. -/
  created : Nat
  semsLock : Nat → Bool
  hasvnode : Nat → Bool
  linked : Nat → Bool
  /-- Whether a semaphore was given to `semfs_sem_destroy`. -/
  destroyed : Nat → Bool
  /-- `semfs_vnodes`. -/
  vnodes : List Nat
  /-- How many vnodes were made, and the fields of `struct semfs_vnode`. -/
  made : Nat
  semnum : Nat → Nat
  refcount : Nat → Nat
  /-- `semfs_dents`. -/
  dents : List (Option (N × Nat))
  dir : Option (SemfsDirPc N)
  table : Option SemfsTablePc
  held : Nat → Nat
  pending : Nat → Nat

def semfsCreate : Semfs N where
  sems := []
  created := 0
  semsLock _ := false
  hasvnode _ := false
  linked _ := false
  destroyed _ := false
  vnodes := []
  made := 0
  semnum _ := 0
  refcount _ := 0
  dents := []
  dir := none
  table := none
  held _ := 0
  pending _ := 0

inductive SemfsMove (N : Type)
  /-- A call of a directory operation gets the dirlock. -/
  | call (c : SemfsCall N)
  /-- `semfs_getroot` gets the tablelock. -/
  | getroot
  /-- `VOP_INCREF` and `VOP_DECREF` by a client. -/
  | incref (v : Nat)
  | decref (v : Nat)
  /-- `semfs_reclaim` gets the tablelock. -/
  | reclaim (v : Nat)
  /-- The next step of the holder of the dirlock. -/
  | dir (mem : Bool)
  /-- The next step of the holder of the tablelock. -/
  | table (mem : Bool)
deriving DecidableEq, Repr

/-- Why an event is not one of a run. -/
inductive SemfsFault
  /-- It is not what happens next, or has to wait for a lock. -/
  | disabled
  /-- An assertion fails, or a null pointer is used. -/
  | panic
  /-- A semaphore is used that was destroyed. -/
  | freed
deriving DecidableEq, Repr

namespace Semfs

variable (s : Semfs N)

/-- The semaphore with number `k`. -/
def slot (k : Nat) : Option Nat := slotAt s.sems k

/-- The directory entry at `i`. -/
def dent (i : Nat) : Option (N × Nat) := slotAt s.dents i

def dirAt (d : SemfsDirPc N) : Semfs N := { s with dir := some d }

def tableAt (p : SemfsTablePc) : Semfs N := { s with table := some p }

def setRefcount (v n : Nat) : Semfs N := { s with refcount := update s.refcount v n }

/-- `semfs_semarray_set` to `NULL`. -/
def clearSlot (k : Nat) : Semfs N := { s with sems := s.sems.set k none }

/-- `semfs_direntryarray_set` to `NULL`. -/
def clearDent (i : Nat) : Semfs N := { s with dents := s.dents.set i none }

/-- The client gets a reference that is returned. -/
def give (r : Option Nat) : Semfs N :=
  { s with held := match r with
    | some v => update s.held v (s.held v + 1)
    | none => s.held }

/-- The entry of a name: where it is, and the number of its semaphore. -/
def findDent [DecidableEq N] (name : N) : Option (Nat × Nat) :=
  (s.dents.findIdx? fun d => d.any (·.1 = name)).bind fun i => (s.dent i).map fun d => (i, d.2)

/-- An access to a semaphore. -/
def touch (x : Nat) (r : Except SemfsFault (Semfs N)) : Except SemfsFault (Semfs N) :=
  if s.destroyed x = true then .error .freed else r

/-- A step under the tablelock, which has to be free. -/
def locked (r : Except SemfsFault (Semfs N)) : Except SemfsFault (Semfs N) :=
  if s.table.isSome = true then .error .disabled else r

/-- `semfs_sem_destroy`. -/
def destroySem (x : Nat) : Semfs N := { s with destroyed := update s.destroyed x true }

/-- The holder of the dirlock makes a step. -/
def execDir [DecidableEq N] (mem : Bool) : SemfsDirPc N → Except SemfsFault (Semfs N)
  | .scan (.lookup name) =>
    match s.findDent name with
    | some (_, k) => .ok (s.dirAt (.getvnode .found k))
    | none => .ok (s.dirAt (.leave none))
  | .scan (.creat name excl) =>
    match s.findDent name with
    | some (_, k) => .ok (s.dirAt (if excl then .leave none else .getvnode .found k))
    | none => .ok (s.dirAt (.create name (firstFree s.dents)))
  | .scan (.remove name) =>
    match s.findDent name with
    | some (i, k) => .ok (s.dirAt (.getsem i k))
    | none => .ok (s.dirAt (.leave none))
  | .getvnode _ k => s.locked (.ok (s.tableAt (.find true k)))
  | .create name i =>
    if mem then
      -- `semfs_sem_create`
      .ok ({ s with
        created := s.created + 1
        semsLock := update s.semsLock s.created false
        hasvnode := update s.hasvnode s.created false
        linked := update s.linked s.created false
        destroyed := update s.destroyed s.created false }.dirAt (.insert name i s.created))
    else .ok (s.dirAt (.leave none))
  | .insert name i x =>
    s.locked <|
      if s.sems.length = semfsRootdir then .ok (s.dirAt (.uncreate x))
      else if firstFree s.sems < s.sems.length ∨ mem = true then
        .ok ({ s with sems := putAt s.sems (firstFree s.sems) x }.dirAt
          (.makeDent name i x (firstFree s.sems)))
      else .ok (s.dirAt (.uncreate x))
  | .makeDent name i x k => .ok (s.dirAt (if mem then .putDent name i x k else .uninsert x k))
  | .putDent name i x k =>
    if i < s.dents.length ∨ mem = true then
      .ok ({ s with dents := putAt s.dents i (name, k) }.dirAt
        (.getvnode (.fresh (min i s.dents.length) x) k))
    else .ok (s.dirAt (.uninsert x k))
  | .link _ x _ v =>
    s.touch x (.ok ({ s with linked := update s.linked x true }.dirAt (.leave (some v))))
  | .undir i x k => .ok ((s.clearDent i).dirAt (.uninsert x k))
  | .uninsert x k => s.locked (.ok ((s.clearSlot k).dirAt (.uncreate x)))
  | .uncreate x => s.touch x (.ok ((s.destroySem x).dirAt (.leave none)))
  | .getsem i k =>
    s.locked <|
      match s.slot k with
      | some x => .ok (s.dirAt (.lockSem i k x))
      | none => .error .panic
  | .lockSem i k x =>
    s.touch x <|
      if s.semsLock x = true then .error .disabled
      else .ok ({ s with semsLock := update s.semsLock x true }.dirAt (.unlink i k x))
  | .unlink i k x =>
    s.touch x <|
      if s.linked x = true then
        .ok ({ s with linked := update s.linked x false }.dirAt (.test i k x))
      else .error .panic
  | .test i k x =>
    s.touch x <|
      if s.hasvnode x = false then .ok (s.dirAt (.clear i k x))
      else .ok (s.dirAt (.unlockSem i k x false))
  | .clear i k x =>
    s.locked (.ok ((s.clearSlot k).dirAt (.unlockSem i k x true)))
  | .unlockSem i _ x last =>
    s.touch x (.ok ({ s with semsLock := update s.semsLock x false }.dirAt
      (if last then .destroy i x else .dropDent i)))
  | .destroy i x => s.touch x (.ok ((s.destroySem x).dirAt (.dropDent i)))
  | .dropDent i => .ok ((s.clearDent i).dirAt (.leave none))
  | .leave r => .ok { s.give r with dir := none }

/-- `semfs_getvnode` returns to the holder of the dirlock. -/
def getvnodeReturns (r : Option Nat) : Option (SemfsDirPc N) → Option (SemfsDirPc N)
  | some (.getvnode .found _) => some (.leave r)
  | some (.getvnode (.fresh i x) k) =>
    match r with
    | some v => some (.link i x k v)
    | none => some (.undir i x k)
  | d => d

/-- The holder of the tablelock makes a step. -/
def execTable (mem : Bool) : SemfsTablePc → Except SemfsFault (Semfs N)
  | .find dir k =>
    match s.vnodes.find? fun v => s.semnum v = k with
    | some v => .ok ((s.setRefcount v (s.refcount v + 1)).tableAt (.got dir (some v)))
    | none => .ok (s.tableAt (.make dir k))
  | .make dir k =>
    if mem = false then .ok (s.tableAt (.got dir none))
    else
      let s' := { s with
        vnodes := s.vnodes ++ [s.made]
        made := s.made + 1
        semnum := update s.semnum s.made k
        refcount := update s.refcount s.made 1 }.tableAt (.got dir (some s.made))
      if k = semfsRootdir then .ok s'
      else
        match s.slot k with
        | none => .error .panic
        | some x =>
          s.touch x <|
            if s.hasvnode x = true then .error .panic
            else .ok { s' with hasvnode := update s.hasvnode x true }
  | .got dir r =>
    if dir then .ok { s with table := none, dir := getvnodeReturns r s.dir }
    else .ok { s.give r with table := none }
  | .count v =>
    if 1 < s.refcount v then
      .ok ((s.setRefcount v (s.refcount v - 1)).tableAt .unlock)
    else .ok (s.tableAt (.drop v))
  | .drop v =>
    let s' := { s with vnodes := s.vnodes.erase v }
    let k := s.semnum v
    if k = semfsRootdir then .ok (s'.tableAt .unlock)
    else
      match s.slot k with
      | none => .error .panic
      | some x =>
        s.touch x <|
          if s.hasvnode x = true then .ok (s'.tableAt (.unvnode x k)) else .error .panic
  | .unvnode x k =>
    s.touch x (.ok ({ s with hasvnode := update s.hasvnode x false }.tableAt (.test x k)))
  | .test x k =>
    s.touch x (.ok (s.tableAt (if s.linked x = false then .clear x k else .unlock)))
  | .clear x k => .ok ((s.clearSlot k).tableAt (.destroy x))
  | .destroy x => s.touch x (.ok ((s.destroySem x).tableAt .unlock))
  | .unlock => .ok { s with table := none }

/-- One event. -/
def exec [DecidableEq N] : SemfsMove N → Except SemfsFault (Semfs N)
  | .call c => if s.dir.isSome = true then .error .disabled else .ok (s.dirAt (.scan c))
  | .getroot => s.locked (.ok (s.tableAt (.find false semfsRootdir)))
  | .incref v =>
    if s.held v = 0 then .error .disabled
    else .ok ((s.setRefcount v (s.refcount v + 1)).give (some v))
  | .decref v =>
    if s.held v = 0 then .error .disabled
    else
      let s' := { s with held := update s.held v (s.held v - 1) }
      if s.refcount v = 0 then .error .panic
      else if 1 < s.refcount v then .ok (s'.setRefcount v (s.refcount v - 1))
      else .ok { s' with pending := update s.pending v (s.pending v + 1) }
  | .reclaim v =>
    s.locked <|
      if s.pending v = 0 then .error .disabled
      else .ok ({ s with pending := update s.pending v (s.pending v - 1) }.tableAt
        (.count v))
  | .dir mem =>
    match s.dir with
    | some d => s.execDir mem d
    | none => .error .disabled
  | .table mem =>
    match s.table with
    | some p => s.execTable mem p
    | none => .error .disabled

end Semfs

end OsPaging.Fs
