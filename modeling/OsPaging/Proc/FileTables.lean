import OsPaging.Lib.Run
import OsPaging.Syscall.Calls

/-!
# File tables of several processes

The file calls of `Syscall/Calls.lean` as the processes make them: the system table is shared, each
process has the `fileTable` of its `struct proc`, and `proc_create` (`kern/proc/proc.c:97-132`) does
not write it, so it starts as what the heap block held. The calls test `fd > OPEN_MAX`; descriptor
`OPEN_MAX` is the word after the table, and is part of `fileTable` here. A process is its heap
block. Calls come one after another, in any order; `sys__exit` and `proc_destroy` leave the tables
alone, and are one event.

`FilesMoved` is what a call can do to the tables; the calls themselves are given by the entry that
their descriptor selects.
-/

namespace OsPaging.Proc

open OsPaging.Lib OsPaging.Vm OsPaging.Syscall Function

variable {P : Type}

/-! ## Calls -/

inductive FileCall
  | open (env : Env) (path : Nat) (openflags : BitVec 32)
  | close (fd : Int)
  | read (env : Env) (fd : Int) (buf : Nat) (size : BitVec 32)
  | write (env : Env) (fd : Int) (buf : Nat) (size : BitVec 32)

/-- What a call does apart from the tables: its accesses to user memory, the registers it returns
with, the vnode that `vfs_open` gives it and the one it hands to `vfs_close`. -/
structure Observed where
  log : List Block
  regs : Option (BitVec 32 × Nat)
  opened : Option Nat
  closed : Option Nat
deriving DecidableEq, Repr

/-- The entry of the process's table that a descriptor selects. -/
def entry (files : Files) (fd : Int) : Option Nat :=
  if fd < 0 ∨ (openMax : Int) < fd then none else files.table fd.toNat

namespace FileCall

def run (files : Files) : FileCall → Outcome
  | .open env path openflags => sysOpen env files path openflags
  | .close fd => sysClose files fd
  | .read env fd buf size => sysRead env files fd buf size
  | .write env fd buf size => sysWrite env files fd buf size

/-- The descriptor that the call looks up. -/
def fd : FileCall → Option Int
  | .open _ _ _ => none
  | .close fd => some fd
  | .read _ fd _ _ => if fd = 0 then none else some fd
  | .write _ fd _ _ => if fd = 1 ∨ fd = 2 then none else some fd

/-- The vnode of a `vfs_open` that succeeds. -/
def opened : FileCall → Option Nat
  | .open env path openflags =>
    match (vfsOpen env path openflags.toNat).1 with
    | some (.ok v) => some v
    | _ => none
  | _ => none

/-- The vnode handed to `vfs_close`: at the end of `sys_open`, and in `sys_close`. -/
def closed (files : Files) : FileCall → Option Nat
  | .open env path openflags =>
    (FileCall.open env path openflags).opened.filter fun v => (installFile files v).1 = -1
  | .close fd => (entry files fd).bind fun k => (files.system k).vn
  | _ => none

def observe (files : Files) (c : FileCall) : Observed :=
  ⟨(c.run files).log, (c.run files).regs, c.opened, c.closed files⟩

end FileCall

/-! ## The processes -/

structure FileState (P : Type) where
  system : Nat → OpenFile
  live : P → Bool
  fileTable : P → Nat → Option Nat

inductive FileEvent (P : Type)
  /-- `proc_create`, in a block with `garbage` in the place of `fileTable` and after it. -/
  | create (p : P) (garbage : Nat → Option Nat)
  | call (p : P) (c : FileCall) (o : Observed)
  /-- `sys__exit`, and `proc_destroy` by the waiter. -/
  | destroy (p : P)

namespace FileState

variable [DecidableEq P] (s : FileState P)

/-- The tables that a call of the process sees. -/
def files (p : P) : Files := ⟨s.system, s.fileTable p⟩

def exec : FileEvent P → Option (FileState P)
  | .create p garbage =>
    if s.live p then none
    else some { s with
      live := update s.live p true, fileTable := update s.fileTable p garbage }
  | .call p c o =>
    if s.live p ∧ c.observe (s.files p) = o then
      some { s with
        system := (c.run (s.files p)).files.system
        fileTable := update s.fileTable p (c.run (s.files p)).files.table }
    else none
  | .destroy p => if s.live p then some { s with live := update s.live p false } else none

/-- One event that `allowed` admits. -/
def Step (allowed : FileState P → FileEvent P → Prop) (s : FileState P) (e : FileEvent P)
    (s' : FileState P) : Prop :=
  allowed s e ∧ s.exec e = some s'

/-- What an event has done. -/
inductive Moved (s : FileState P) : FileEvent P → FileState P → Prop
  | create {p : P} {garbage : Nat → Option Nat} (hp : s.live p = false) :
      Moved s (.create p garbage) { s with
        live := update s.live p true, fileTable := update s.fileTable p garbage }
  | call {p : P} {c : FileCall} (hp : s.live p = true) :
      Moved s (.call p c (c.observe (s.files p))) { s with
        system := (c.run (s.files p)).files.system
        fileTable := update s.fileTable p (c.run (s.files p)).files.table }
  | destroy {p : P} (hp : s.live p = true) :
      Moved s (.destroy p) { s with live := update s.live p false }

theorem exec_some {s s' : FileState P} {e : FileEvent P} (h : s.exec e = some s') :
    s.Moved e s' := by
  cases e with simp only [exec] at h
  | create p garbage =>
    split_ifs at h with hp
    exact Option.some.inj h ▸ .create (Bool.not_eq_true _ ▸ hp)
  | call p c o =>
    split_ifs at h with hp
    obtain ⟨hp, rfl⟩ := hp
    exact Option.some.inj h ▸ .call hp
  | destroy p =>
    split_ifs at h with hp
    exact Option.some.inj h ▸ .destroy hp

end FileState

/-- The tables at boot: nothing is open, and there is no process. -/
def noFiles : FileState P := ⟨fun _ => ⟨none, 0, 0⟩, fun _ => false, fun _ _ => none⟩

/-- A new process starts with an empty table. -/
def FileEvent.EmptyTable : FileEvent P → Prop
  | .create _ garbage => ∀ i ≤ openMax, garbage i = none
  | _ => True

instance (e : FileEvent P) : Decidable e.EmptyTable :=
  match e with
  | .create _ garbage => inferInstanceAs (Decidable (∀ i ≤ openMax, garbage i = none))
  | .call _ _ _ => inferInstanceAs (Decidable True)
  | .destroy _ => inferInstanceAs (Decidable True)

/-! ## What a call does to the tables -/

/-- What a call can do to the tables, with the vnodes it opens and closes. -/
inductive FilesMoved (files : Files) : Option Nat → Option Nat → Files → Prop
  | same (v : Option Nat) : FilesMoved files v v files
  /-- `EMFILE`: the slot stays taken. -/
  | leaked {i v : Nat} (hi : i < systemOpenMax) (hfree : (files.system i).vn = none)
      (hfull : ∀ j, 3 ≤ j → j < openMax → files.table j ≠ none) :
      FilesMoved files (some v) (some v)
        { files with system := update files.system i ⟨some v, 1, 0⟩ }
  | opened {i j v : Nat} (hi : i < systemOpenMax) (hfree : (files.system i).vn = none)
      (hj : 3 ≤ j ∧ j < openMax) (hnone : files.table j = none) :
      FilesMoved files (some v) none
        ⟨update files.system i ⟨some v, 1, 0⟩, update files.table j (some i)⟩
  | closed {fd k v : Nat} (hfd : fd ≤ openMax) (hk : files.table fd = some k)
      (hv : (files.system k).vn = some v) :
      FilesMoved files none (some v)
        ⟨update files.system k { files.system k with vn := none },
          update files.table fd none⟩
  | moved {fd k v offset : Nat} (hfd : fd ≤ openMax) (hk : files.table fd = some k)
      (hv : (files.system k).vn = some v) :
      FilesMoved files none none
        { files with
          system := update files.system k { files.system k with offset := offset } }

namespace FilesMoved

variable {files files' : Files} {v v' : Option Nat}

/-- Occupied slots that are no entry of the process are left alone. -/
theorem frame (h : FilesMoved files v v' files') {k : Nat} (hocc : (files.system k).vn ≠ none)
    (hnot : ∀ fd ≤ openMax, files.table fd ≠ some k) : files'.system k = files.system k := by
  have hfree : ∀ {i}, (files.system i).vn = none → k ≠ i := fun hi heq => hocc (heq ▸ hi)
  have hentry : ∀ {fd i}, fd ≤ openMax → files.table fd = some i → k ≠ i :=
    fun hle hi heq => hnot _ hle (heq ▸ hi)
  cases h with
  | same => rfl
  | leaked hi hf | opened hi hf => exact update_of_ne (hfree hf) _ _
  | closed hle hk | moved hle hk => exact update_of_ne (hentry hle hk) _ _

theorem entry (h : FilesMoved files v v' files') {fd k : Nat} (hk : files'.table fd = some k) :
    files.table fd = some k ∨ (files.system k).vn = none := by
  cases h with
  | same => exact .inl hk
  | leaked => exact .inl hk
  | @opened i j _ _ hfree =>
    grind
  | closed =>
    grind
  | moved => exact .inl hk

end FilesMoved

/-! ## The calls, by the entry that the descriptor selects -/

theorem entry_eq_some {files : Files} {fd : Int} {k : Nat} :
    entry files fd = some k ↔ 0 ≤ fd ∧ fd.toNat ≤ openMax ∧ files.table fd.toNat = some k := by
  unfold entry
  grind

theorem sysClose_of_none {files : Files} {fd : Int} (h : entry files fd = none) :
    sysClose files fd = ⟨[], some (signed (-1)), files⟩ := by
  unfold entry at h
  unfold sysClose
  split_ifs at h ⊢ with hfd
  · rfl
  · rw [h]

theorem sysClose_of_some {files : Files} {fd : Int} {k v : Nat} (h : entry files fd = some k)
    (hv : (files.system k).vn = some v) :
    sysClose files fd = ⟨[], some (signed 0),
      ⟨update files.system k { files.system k with vn := none },
        update files.table fd.toNat none⟩⟩ := by
  unfold entry at h
  unfold sysClose
  split_ifs at h ⊢ with hfd
  rw [h]
  simp [hv]

/-- A transfer of `size` bytes at an offset of a vnode: the value that is returned, the accesses,
and the new offset, if the transfer succeeds. -/
def transfer (env : Env) (read : Bool) (v offset buf size : Nat) :
    Option Int × List Block × Option Nat :=
  let plan := env.vop v offset size read
  match vopMoves env.faults plan.moves ⟨[(buf, size)], size, offset, read⟩ with
  | none => (none, [], none)
  | some (0, u, log) =>
    if plan.result ≠ 0 then (some plan.result, log, none)
    else (some (BitVec.ofNat 32 (size - u.resid)).toInt, log, some u.offset)
  | some (err, _, log) => (some err, log, none)

theorem fileIo_of_none {env : Env} {files : Files} {read : Bool} {fd : Int} {buf size : Nat}
    (h : entry files fd = none) : fileIo env files read fd buf size = (some (-1), [], files) := by
  unfold entry at h
  unfold fileIo
  split_ifs at h ⊢ with hfd
  · rfl
  · rw [h]

theorem fileIo_of_some {env : Env} {files : Files} {read : Bool} {fd : Int} {buf size k v : Nat}
    (h : entry files fd = some k) (hv : (files.system k).vn = some v) :
    fileIo env files read fd buf size =
      let r := transfer env read v (files.system k).offset buf size
      (r.1, r.2.1, r.2.2.elim files fun offset => { files with
        system := update files.system k { files.system k with offset := offset } }) := by
  unfold entry at h
  unfold fileIo transfer
  grind

end OsPaging.Proc
