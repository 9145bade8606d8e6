import OsPaging.Syscall.UserCopy

/-!
# The system calls

The dispatcher `syscall` of `arch/mips/syscall/syscall.c` with the calls it handles: `open`,
`close`, `read` and `write` of `file_syscalls.c`, `waitpid`, `getpid` and `_exit` of
`proc_syscalls.c`, `__time` and `reboot`. A call takes the registers and the file tables and gives
the accesses it makes through user-supplied pointers, the registers it returns with (`none` if it
does not return), and the file tables.

`Env` is what the rest of the kernel answers. A file system moves the data of a `VOP_READ` or
`VOP_WRITE` by a list of `uiomove` calls, gives up at the first error of one and returns it, and
otherwise returns a result of its own. A path is walked by `getdevice` and then by `strlen`; what
`vfs_getroot` and the lookup operations read lies inside the string these have gone over.

An access that is not inside a copy and faults ends the run: there is no recovery function.
-/

namespace OsPaging.Syscall

open OsPaging.Vm Function

/-! ## Constants -/

/-- `ENOSYS` (`kern/include/kern/errno.h`). -/
abbrev enosys : Nat := 1

abbrev openMax : Nat := 128

abbrev systemOpenMax : Nat := 10 * openMax

/-- `sizeof(ts.tv_sec)`, `sizeof(ts.tv_nsec)` and `sizeof(int)`. -/
abbrev timeSize : Nat := 8

@[inherit_doc timeSize]
abbrev nsecSize : Nat := 4

@[inherit_doc timeSize]
abbrev intSize : Nat := 4

/-! ## State and environment -/

/-- A slot of `SYSTEMFileTable`; `vn` is `none` for `NULL`. -/
structure OpenFile where
  vn : Option Nat
  refCount : Nat
  offset : Nat
deriving DecidableEq, Repr

/-- `SYSTEMFileTable` and the process's `fileTable`, which points into it. -/
structure Files where
  system : Nat → OpenFile
  table : Nat → Option Nat

/-- How a file system carries out a `VOP_READ` or `VOP_WRITE`: the sizes of its `uiomove` calls,
and its result if none of them fails. -/
structure VopPlan where
  moves : List Nat
  result : Nat
deriving DecidableEq, Repr

/-- What comes of `proc_search_pid` and `proc_wait`. -/
inductive WaitResult
  | noProcess
  /-- `proc_wait` does not return. -/
  | stuck
  | exited (status : Int)
deriving DecidableEq, Repr

/-- The rest of the kernel, for one call. -/
structure Env where
  /-- The bytes at the addresses a user pointer can have. -/
  mem : Nat → UInt8
  /-- The addresses at which an access ends in a fault that `vm_fault` refuses. -/
  faults : Nat → Bool
  /-- The characters that `getch` returns. -/
  getch : Nat → UInt8
  /-- `vfs_getcurdir`, `vfs_getroot`, and the choice of the start vnode for `/` and `:`. -/
  getcurdir : Nat
  getroot : Nat
  getstart : Nat
  /-- The rest of `vfs_open`: an error, or the vnode. -/
  lookup : Except Nat Nat
  /-- `VOP_READ` and `VOP_WRITE` on a vnode, at an offset, of a size. -/
  vop : Nat → Nat → Nat → Bool → VopPlan
  wait : Int → WaitResult
  getpid : Int
  /-- `sys_reboot`: an error, or it does not return. -/
  reboot : Option Nat

/-! ## Walking over bytes -/

/-- The first index from `i` on at which `stop` holds, or the one where the fuel ends. -/
def scan (stop : Nat → Bool) : Nat → Nat → Nat
  | 0, i => i
  | fuel + 1, i => if stop i then i else scan stop fuel (i + 1)

theorem scan_spec (stop : Nat → Bool) : ∀ (fuel i : Nat),
    i ≤ scan stop fuel i ∧ scan stop fuel i ≤ i + fuel ∧
      (∀ j, i ≤ j → j < scan stop fuel i → stop j = false) ∧
      (scan stop fuel i < i + fuel → stop (scan stop fuel i) = true)
  | 0, i => ⟨le_refl i, le_refl i, fun j h1 h2 => absurd h2 (by simp [scan]; omega), by simp [scan]⟩
  | fuel + 1, i => by
    unfold scan
    split_ifs with hstop
    · exact ⟨le_refl i, by omega, fun j h1 h2 => by omega, fun _ => hstop⟩
    · obtain ⟨h1, h2, h3, h4⟩ := scan_spec stop fuel (i + 1)
      refine ⟨by omega, by omega, fun j hij hj => ?_, fun hlt => h4 (by omega)⟩
      by_cases hji : j = i
      · rw [hji]
        simpa using hstop
      · exact h3 j (by omega) hj

/-- How many bytes a loop over `n` bytes touches that ends after the first byte with `stop`. -/
def span (stop : Nat → Bool) (n : Nat) : Nat := min n (scan stop n 0 + 1)

/-- The byte at index `i` of the buffer at `p`. -/
def Env.charAt (env : Env) (p i : Nat) : UInt8 := env.mem ((p + i) % wordSize)

/-- Its access faults. -/
def Env.faultAt (env : Env) (p i : Nat) : Bool := env.faults ((p + i) % wordSize)

/-- The index at which a loop over the string at `p` ends, from index `i` on. -/
def Env.walkTo (env : Env) (p : Nat) (stop : UInt8 → Bool) (i : Nat) : Nat :=
  scan (fun j => env.faultAt p j || stop (env.charAt p j)) wordSize i

/-! ## `open` -/

/-- What a walk over a path has come to: the last index touched, the index of the `:` that was
overwritten, and the error with the index of the rest; `none` if an access was fatal. -/
structure Walk where
  last : Nat
  colon : Option Nat
  result : Option (Nat × Nat)
deriving DecidableEq, Repr

/-- `getdevice` (`vfslookup.c:130-219`). -/
def getdevice (env : Env) (path : Nat) : Walk :=
  let i := env.walkTo path (fun c => c == 0 || c == 58 || c == 47) 0
  if env.faultAt path i then ⟨i, none, none⟩
  else
    let c := env.charAt path i
    if c ≠ 58 ∧ ¬ (c = 47 ∧ i = 0) then ⟨i, none, some (env.getcurdir, 0)⟩
    else if c = 58 ∧ 0 < i then
      -- `path[colon]=0`, then the slashes after it
      let j := env.walkTo path (fun c => c != 47) (i + 1)
      ⟨j, some i, if env.faultAt path j then none else some (env.getroot, j)⟩
    else if env.getstart ≠ 0 then ⟨0, none, some (env.getstart, 0)⟩
    else
      let j := env.walkTo path (fun c => c != 47) 1
      ⟨j, none, if env.faultAt path j then none else some (0, j)⟩

/-- `vfs_lookup` and `vfs_lookparent` up to the operation of the file system: `getdevice`, and
`strlen` of what it leaves. -/
def vfsWalk (env : Env) (path : Nat) : Walk :=
  let w := getdevice env path
  match w.result with
  | none => w
  | some (err, rest) =>
    if err ≠ 0 then w
    else
      let k := env.walkTo path (fun c => c == 0) rest
      { w with last := max w.last k, result := if env.faultAt path k then none else some (0, rest) }

/-- The accesses of a walk. -/
def Walk.log (w : Walk) (path : Nat) : List Block :=
  ⟨path, w.last + 1, false, true⟩ ::
    (w.colon.map fun i => ⟨(path + i) % wordSize, 1, true, true⟩).toList

/-- `vfs_open` (`vfspath.c:43-98`) as `sys_open` calls it, on the user's own pointer. -/
def vfsOpen (env : Env) (path openflags : Nat) : Option (Except Nat Nat) × List Block :=
  if openflags % 4 = 3 then (some (.error einval), [])
  else
    let w := vfsWalk env path
    (w.result.map fun r => if r.1 ≠ 0 then .error r.1 else env.lookup, w.log path)

/-- The tables after `sys_open` has got the vnode `v` (`file_syscalls.c:40-66`); the slot of the
system table stays taken when the process's table is full. -/
def installFile (files : Files) (v : Nat) : Int × Files :=
  match (List.range systemOpenMax).find? fun i => (files.system i).vn.isNone with
  | none => (-1, files)
  | some i =>
    let files := { files with system := update files.system i ⟨some v, 1, 0⟩ }
    match (List.range' 3 (openMax - 3)).find? fun j => (files.table j).isNone with
    | none => (-1, files)
    | some j => (j, { files with table := update files.table j (some i) })

/-! ## Results -/

/-- The registers of the caller: the call number and the arguments. -/
structure Trapframe where
  v0 : BitVec 32
  a0 : BitVec 32
  a1 : BitVec 32
  a2 : BitVec 32
deriving DecidableEq, Repr

/-- What a call has done. -/
structure Outcome where
  log : List Block
  /-- `v0` and `a3` on return. -/
  regs : Option (BitVec 32 × Nat)
  files : Files

/-- The end of `syscall`: `err` is returned in `v0` with `a3 = 1`, else `retval` with `a3 = 0`. -/
def returnRegs (err : Nat) (retval : Int) : BitVec 32 × Nat :=
  if err ≠ 0 then (BitVec.ofNat 32 err, 1) else (BitVec.ofInt 32 retval, 0)

/-- The calls that signal an error by a negative value: `ENOSYS` stands for every error. -/
def signed (retval : Int) : BitVec 32 × Nat := returnRegs (if retval < 0 then enosys else 0) retval

/-! ## `read` and `write` -/

/-- A file system's `uiomove` calls, one after another, on the buffer of a `struct uio`. -/
def vopMoves (faults : Nat → Bool) : List Nat → Uio → Option (Nat × Uio × List Block)
  | [], u => some (0, u, [])
  | n :: ns, u =>
    match uiomove faults u.read u.iov n u.resid u.offset with
    | none => none
    | some (0, u, log) => (vopMoves faults ns u).map fun r => (r.1, r.2.1, log ++ r.2.2)
    | some (err, u, log) => some (err, u, log)

/-- `file_read` and `file_write` (`file_syscalls.c:119-186`): the value and the accesses. The test
of `fd` lets `OPEN_MAX` through. -/
def fileIo (env : Env) (files : Files) (read : Bool) (fd : Int) (buf size : Nat) :
    Option Int × List Block × Files :=
  if fd < 0 ∨ (openMax : Int) < fd then (some (-1), [], files)
  else
    match files.table fd.toNat with
    | none => (some (-1), [], files)
    | some k =>
      match (files.system k).vn with
      | none => (some (-1), [], files)
      | some v =>
        let plan := env.vop v (files.system k).offset size read
        match vopMoves env.faults plan.moves ⟨[(buf, size)], size, (files.system k).offset, read⟩
          with
        | none => (none, [], files)
        | some (0, u, log) =>
          if plan.result ≠ 0 then (some plan.result, log, files)
          else
            (some (BitVec.ofNat 32 (size - u.resid)).toInt, log, { files with
              system := update files.system k
                { files.system k with offset := u.offset } })
        | some (err, _, log) => (some err, log, files)

/-- The console loops of `sys_write` and `sys_read`: the bytes touched, and whether the last access
was fatal. -/
def consoleLog (faults stop : Nat → Bool) (write : Bool) (p n : Nat) : Bool × List Block :=
  let k := span (fun i => faults ((p + i) % wordSize) || stop i) n
  (decide (0 < k) && faults ((p + k - 1) % wordSize),
    if k = 0 then [] else [⟨p, k, write, true⟩])

/-- `sys_write` (`file_syscalls.c:88-103`). -/
def sysWrite (env : Env) (files : Files) (fd : Int) (buf : Nat) (size : BitVec 32) : Outcome :=
  if fd ≠ 1 ∧ fd ≠ 2 then
    let (retval, log, files) := fileIo env files false fd buf size.toNat
    ⟨log, retval.map signed, files⟩
  else
    let (fatal, log) := consoleLog env.faults (fun _ => false) false buf size.toInt.toNat
    ⟨log, if fatal then none else some (signed size.toInt), files⟩

/-- The value of the console loop of `sys_read`: it ends early at a negative `char`. -/
def consoleRead (getch : Nat → UInt8) (size : Int) : Int :=
  let i := scan (fun i => decide (128 ≤ (getch i).toNat)) size.toNat 0
  if (i : Int) < size then i else size

/-- `sys_read` (`file_syscalls.c:105-117`). -/
def sysRead (env : Env) (files : Files) (fd : Int) (buf : Nat) (size : BitVec 32) : Outcome :=
  if fd ≠ 0 then
    let (retval, log, files) := fileIo env files true fd buf size.toNat
    ⟨log, retval.map signed, files⟩
  else
    let (fatal, log) := consoleLog env.faults (fun i => decide (128 ≤ (env.getch i).toNat)) true buf
      size.toInt.toNat
    ⟨log, if fatal then none else some (signed (consoleRead env.getch size.toInt)), files⟩

/-! ## The other calls -/

/-- `sys_open` (`file_syscalls.c:30-67`). -/
def sysOpen (env : Env) (files : Files) (path : Nat) (openflags : BitVec 32) : Outcome :=
  match vfsOpen env path openflags.toNat with
  | (none, log) => ⟨log, none, files⟩
  | (some (.error _), log) => ⟨log, some (signed (-1)), files⟩
  | (some (.ok v), log) =>
    let (retval, files) := installFile files v
    ⟨log, some (signed retval), files⟩

/-- `sys_close` (`file_syscalls.c:69-86`). -/
def sysClose (files : Files) (fd : Int) : Outcome :=
  if fd < 0 ∨ (openMax : Int) < fd then ⟨[], some (signed (-1)), files⟩
  else
    match files.table fd.toNat with
    | none => ⟨[], some (signed (-1)), files⟩
    | some k =>
      let system := update files.system k { files.system k with vn := none }
      if (files.system k).vn.isNone then ⟨[], some (signed (-1)), { files with system := system }⟩
      else
        ⟨[], some (signed 0), ⟨system, update files.table fd.toNat none⟩⟩

/-- `sys_waitpid` (`proc_syscalls.c:47-56`). -/
def sysWaitpid (env : Env) (files : Files) (pid : Int) (status : Nat) : Outcome :=
  match env.wait pid with
  | .noProcess => ⟨[], some (signed (-1)), files⟩
  | .stuck => ⟨[], none, files⟩
  | .exited _ =>
    if status = 0 then ⟨[], some (signed pid), files⟩
    else
      ⟨[⟨status, intSize, true, true⟩],
        if (List.range intSize).any fun i => env.faultAt status i then none else some (signed pid),
        files⟩

/-- `sys___time` (`time_syscalls.c:37-60`). -/
def sysTime (env : Env) (files : Files) (seconds nanoseconds : Nat) : Outcome :=
  match copyout env.faults seconds timeSize with
  | (0, b) =>
    let (err, b') := copyout env.faults nanoseconds nsecSize
    ⟨[b, b'], some (returnRegs err 0), files⟩
  | (err, b) => ⟨[b], some (returnRegs err 0), files⟩

/-- The calls of the dispatcher. -/
inductive Sysno
  | reboot
  | time
  | open
  | close
  | write
  | read
  | exit
  | waitpid
  | getpid
  | unknown
deriving DecidableEq, Repr

/-- Their numbers (`kern/include/kern/syscall.h`). -/
def sysno : Nat → Sysno
  | 119 => .reboot
  | 113 => .time
  | 45 => .open
  | 49 => .close
  | 55 => .write
  | 50 => .read
  | 3 => .exit
  | 4 => .waitpid
  | 5 => .getpid
  | _ => .unknown

/-- `syscall` (`syscall.c:77-196`). -/
def syscall (env : Env) (files : Files) (tf : Trapframe) : Outcome :=
  match sysno tf.v0.toNat with
  | .reboot => ⟨[], env.reboot.map fun err => returnRegs err 0, files⟩
  | .time => sysTime env files tf.a0.toNat tf.a1.toNat
  | .open => sysOpen env files tf.a0.toNat tf.a1
  | .close => sysClose files tf.a0.toInt
  | .write => sysWrite env files tf.a0.toInt tf.a1.toNat tf.a2
  | .read => sysRead env files tf.a0.toInt tf.a1.toNat tf.a2
  | .exit => ⟨[], none, files⟩
  | .waitpid => sysWaitpid env files tf.a0.toInt tf.a1.toNat
  | .getpid => ⟨[], some (signed env.getpid), files⟩
  | .unknown => ⟨[], some (returnRegs enosys 0), files⟩

end OsPaging.Syscall
