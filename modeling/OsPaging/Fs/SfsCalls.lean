import OsPaging.Fs.Sfs
import OsPaging.Lib.Run

/-!
# SFS: directories, inodes and the calls of the file system

Model of `kern/fs/sfs/sfs_dir.c`, `sfs_inode.c`, `sfs_vnops.c` and `sfs_fsops.c`, with the
reference counts of `kern/vfs/vnode.c`.

A directory is a file of entries of 64 bytes, an inode number and a name of at most 59 bytes with
its terminator; an entry whose inode number is 0 is free. Names are C strings: byte lists without
a zero.

`SfsOp` are the calls that the VFS layer makes, and `SfsSys.exec` the effect of one of them. A
caller passes only vnodes to which it holds a reference; how many references the callers hold to
each vnode is `refs`, kept beside the file system. The functions of `sfs_vnops.c` are reached
through the operations table that `sfs_loadvnode` chose from the inode's type (`onDir`, `onFile`).
-/

namespace OsPaging.Fs

open OsPaging.Lib Function

/-- A C string. -/
abbrev SfsName := { name : List UInt8 // 0 ∉ name }

/-! ## Directories (`sfs_dir.c`) -/

def sfdIno (sd : Bytes) : Nat := word sd 0

/-- `sfd_name` as `sfs_dir_findname` compares it, with a zero put into its last byte. -/
def sfdName (sd : Bytes) : List UInt8 :=
  ((List.range 59).map fun k => sd (4 + k)).takeWhile (· ≠ 0)

/-- The entry that `sfs_dir_link` writes. -/
def sfsDirentry (ino : Nat) (name : SfsName) : Bytes := fun k =>
  if k < 4 then setWord zeros 0 ino k else name.1.getD (k - 4) 0

def sfsReaddir (p slot : Nat) : SfsCall Bytes := sfsMetaio p (slot * 64) zeros 64 .read

def sfsWritedir (p slot : Nat) (sd : Bytes) : SfsCall Unit := do
  let _ ← sfsMetaio p (slot * 64) sd 64 .write
  pure ()

def sfsDirNentries (p : Nat) : SfsCall Nat := do
  let inode ← Call.read fun s => (s.vn p).inode
  Call.assert (sfiType inode = 2)
  Call.assert (sfiSize inode % 64 = 0)
  pure (sfiSize inode / 64)

/-- What `sfs_dir_findname` hands back: slot and inode number of the name, and an empty slot. -/
structure SfsFound where
  found : Option (Nat × Nat)
  emptyslot : Option Nat

/-- The loop of `sfs_dir_findname`, from slot `i` on. -/
def sfsDirFindnameLoop (p : Nat) (name : SfsName) : (left i : Nat) → SfsFound → SfsCall SfsFound
  | 0, _, r => pure r
  | left + 1, i, r => do
    let tsd ← sfsReaddir p i
    if sfdIno tsd = 0 then
      sfsDirFindnameLoop p name left (i + 1) { r with emptyslot := some i }
    else if sfdName tsd = name.1 then do
      Call.assert (r.found = none)
      sfsDirFindnameLoop p name left (i + 1) { r with found := some (i, sfdIno tsd) }
    else sfsDirFindnameLoop p name left (i + 1) r

/-- `sfs_dir_findname`; `ENOENT` is `found = none`. -/
def sfsDirFindname (p : Nat) (name : SfsName) : SfsCall SfsFound := do
  let nentries ← sfsDirNentries p
  sfsDirFindnameLoop p name nentries 0 ⟨none, none⟩

/-- `sfs_dir_link`: the slot it used. -/
def sfsDirLink (p : Nat) (name : SfsName) (ino : Nat) : SfsCall Nat := do
  let r ← sfsDirFindname p name
  match r.found with
  | some _ => Call.fail .eexist
  | none =>
    if 60 < name.1.length + 1 then Call.fail .enametoolong
    else
      match r.emptyslot with
      | some slot => do
        sfsWritedir p slot (sfsDirentry ino name)
        pure slot
      | none => do
        let slot ← sfsDirNentries p
        sfsWritedir p slot (sfsDirentry ino name)
        pure slot

def sfsDirUnlink (p slot : Nat) : SfsCall Unit := sfsWritedir p slot zeros

/-! ## Inodes and vnodes (`sfs_inode.c`, `vnode.c`) -/

def sfsSyncInode (p : Nat) : SfsCall Unit := do
  let v ← Call.read fun s => s.vn p
  if v.dirty = true then do
    sfsWriteblock v.ino v.inode
    Call.modify fun s => { s with vn := update s.vn p { s.vn p with dirty := false } }
  else pure ()

/-- The end of `sfs_reclaim`: out of the table and away. The inode it had is remembered unless
the inode is gone too. -/
def Sfs.drop (s : Sfs) (p : Nat) : Sfs :=
  { s with
    vnodes := s.vnodes.erase p
    last := update s.last (s.vn p).ino
      (if sfiLinkcount (s.vn p).inode = 0 then none else some (s.vn p).inode) }

def sfsReclaim (p : Nat) : SfsCall Unit := do
  let v ← Call.read fun s => s.vn p
  if v.refcount ≠ 1 then do
    Call.assert (1 < v.refcount)
    Call.modify fun s =>
      { s with vn := update s.vn p { s.vn p with refcount := (s.vn p).refcount - 1 } }
    Call.fail .ebusy
  else do
    if sfiLinkcount v.inode = 0 then sfsItrunc p 0 else pure ()
    sfsSyncInode p
    let v ← Call.read fun s => s.vn p
    if sfiLinkcount v.inode = 0 then sfsBfree v.ino else pure ()
    let s ← Call.read id
    Call.assert (p ∈ s.vnodes)
    Call.modify fun s => s.drop p

def vnodeIncref (p : Nat) : SfsCall Unit :=
  Call.modify fun s =>
    { s with vn := update s.vn p { s.vn p with refcount := (s.vn p).refcount + 1 } }

/-- `vnode_decref`: the last decrement is left to `sfs_reclaim`, whose error is ignored. -/
def vnodeDecref (p : Nat) : SfsCall Unit := do
  let v ← Call.read fun s => s.vn p
  Call.assert (0 < v.refcount)
  if 1 < v.refcount then
    Call.modify fun s =>
      { s with vn := update s.vn p { s.vn p with refcount := (s.vn p).refcount - 1 } }
  else do
    let _ ← Call.attempt (sfsReclaim p)
    pure ()

/-- `kmalloc`, as far as it gets memory or not. -/
def kmalloc : SfsCall Unit := do
  let s ← Call.read id
  Call.modify fun s => { s with asked := s.asked + 1 }
  if s.kmallocs s.asked = true then pure () else Call.fail .enomem

/-- The linear search of `sfs_loadvnode` in the table of vnodes. -/
def sfsFindvnode (ino : Nat) : List Nat → SfsCall (Option Nat)
  | [] => pure none
  | p :: ps => do
    let v ← Call.read fun s => s.vn p
    let used ← sfsBused v.ino
    Call.assert (used = true)
    if v.ino = ino then pure (some p) else sfsFindvnode ino ps

/-- A new vnode in the table, with one reference. -/
def Sfs.enter (s : Sfs) (ino : Nat) (inode : Bytes) (dirty : Bool) : Sfs :=
  { s with
    vnodes := s.vnodes ++ [s.nextVn]
    vn := update s.vn s.nextVn ⟨ino, inode, dirty, 1⟩
    nextVn := s.nextVn + 1 }

/-- The part of `sfs_loadvnode` after the inode was read: `forcetype` is 0 (`SFS_TYPE_INVAL`) or
the type of a new object. The second `kmalloc` is the growth of the table in `vnodearray_add`. -/
def sfsInitvnode (ino forcetype : Nat) (inode : Bytes) : SfsCall Nat := do
  if forcetype = 0 then do
    Call.assert (sfiType inode = 1 ∨ sfiType inode = 2)
    kmalloc
    let s ← Call.read id
    Call.modify fun s => s.enter ino inode false
    pure s.nextVn
  else do
    Call.assert (sfiType inode = 0)
    Call.assert (forcetype = 1 ∨ forcetype = 2)
    kmalloc
    let s ← Call.read id
    Call.modify fun s => s.enter ino (setHalf inode 2 forcetype) true
    pure s.nextVn

def sfsLoadvnode (ino forcetype : Nat) : SfsCall Nat := do
  let s ← Call.read id
  let r ← sfsFindvnode ino s.vnodes
  match r with
  | some p => do
    Call.assert (forcetype = 0)
    vnodeIncref p
    pure p
  | none => do
    kmalloc
    let used ← sfsBused ino
    Call.assert (used = true)
    let inode ← sfsReadblock ino
    sfsInitvnode ino forcetype inode

def sfsMakeobj (type : Nat) : SfsCall Nat := do
  let ino ← sfsBalloc
  let r ← Call.attempt (sfsLoadvnode ino type)
  match r with
  | .ok p => pure p
  | .error e => do
    sfsBfree ino
    Call.fail e

def sfsGetroot : SfsCall Nat := do
  let p ← sfsLoadvnode 1 0
  let v ← Call.read fun s => s.vn p
  if sfiType v.inode = 2 then pure p else Call.fail .einval

/-- `sfs_lookonce` (`sfs_dir.c`): the vnode and its slot. -/
def sfsLookonce (p : Nat) (name : SfsName) : SfsCall (Nat × Nat) := do
  let r ← sfsDirFindname p name
  match r.found with
  | none => Call.fail .enoent
  | some (slot, ino) => do
    let q ← sfsLoadvnode ino 0
    let v ← Call.read fun s => s.vn q
    Call.assert (sfiLinkcount v.inode ≠ 0)
    pure (q, slot)

/-! ## Vnode operations (`sfs_vnops.c`) -/

/-- `sfi_linkcount++` and the dirty mark. -/
def Sfs.countUp (s : Sfs) (p : Nat) : Sfs :=
  s.setInode p fun b => setHalf b 3 (sfiLinkcount b + 1)

/-- `sfi_linkcount--` and the dirty mark. -/
def Sfs.countDown (s : Sfs) (p : Nat) : Sfs :=
  s.setInode p fun b => setHalf b 3 (sfiLinkcount b - 1)

def sfsCreat (dir : Nat) (name : SfsName) (excl : Bool) : SfsCall Nat := do
  let r ← sfsDirFindname dir name
  match r.found with
  | some (_, ino) => if excl = true then Call.fail .eexist else sfsLoadvnode ino 0
  | none => do
    let newguy ← sfsMakeobj 1
    let v ← Call.read fun s => s.vn newguy
    let result ← Call.attempt (sfsDirLink dir name v.ino)
    match result with
    | .error e => do
      vnodeDecref newguy
      Call.fail e
    | .ok _ => do
      Call.modify fun s => s.countUp newguy
      pure newguy

def sfsLink (dir : Nat) (name : SfsName) (file : Nat) : SfsCall Unit := do
  let f ← Call.read fun s => s.vn file
  if sfiType f.inode = 2 then Call.fail .einval
  else do
    let _ ← sfsDirLink dir name f.ino
    Call.modify fun s => s.countUp file

def sfsRemove (dir : Nat) (name : SfsName) : SfsCall Unit := do
  let (victim, slot) ← sfsLookonce dir name
  let result ← Call.attempt (sfsDirUnlink dir slot)
  match result with
  | .ok _ => do
    let v ← Call.read fun s => s.vn victim
    Call.assert (0 < sfiLinkcount v.inode)
    Call.modify fun s => s.countDown victim
    vnodeDecref victim
  | .error e => do
    vnodeDecref victim
    Call.fail e

/-- The end of `sfs_rename`, once the file has its new name in `slot2`: the label `puke_harder`
is the error branch. -/
def sfsRenameOld (dir g1 slot1 slot2 : Nat) : SfsCall Unit := do
  let result ← Call.attempt (sfsDirUnlink dir slot1)
  match result with
  | .ok _ => do
    let v ← Call.read fun s => s.vn g1
    Call.assert (0 < sfiLinkcount v.inode)
    Call.modify fun s => s.countDown g1
    vnodeDecref g1
  | .error e => do
    let result2 ← Call.attempt (sfsDirUnlink dir slot2)
    match result2 with
    | .error _ => Call.assert False
    | .ok _ => do
      Call.modify fun s =>
        { s with vn := update s.vn g1 { s.vn g1 with
          inode := setHalf (s.vn g1).inode 3 (sfiLinkcount (s.vn g1).inode - 1) } }
      vnodeDecref g1
      Call.fail e

/-- `sfs_rename`, in one directory. -/
def sfsRename (dir : Nat) (n1 n2 : SfsName) : SfsCall Unit := do
  let d ← Call.read fun s => s.vn dir
  Call.assert (d.ino = 1)
  let (g1, slot1) ← sfsLookonce dir n1
  let v ← Call.read fun s => s.vn g1
  Call.assert (sfiType v.inode = 1)
  let result ← Call.attempt (sfsDirLink dir n2 v.ino)
  match result with
  | .error e => do
    vnodeDecref g1
    Call.fail e
  | .ok slot2 => do
    Call.modify fun s => s.countUp g1
    sfsRenameOld dir g1 slot1 slot2

/-- A call through `sfs_dirops`; `sfs_fileops` has `vopfail_*_notdir` there. -/
def onDir {α : Type} (p : Nat) (m : SfsCall α) : SfsCall α := do
  let v ← Call.read fun s => s.vn p
  if sfiType v.inode = 2 then m else Call.fail .enotdir

/-- A call through `sfs_fileops`; `sfs_dirops` has `vopfail_*_isdir` there. -/
def onFile {α : Type} (p : Nat) (m : SfsCall α) : SfsCall α := do
  let v ← Call.read fun s => s.vn p
  if sfiType v.inode = 2 then Call.fail .eisdir else m

/-! ## File system operations (`sfs_fsops.c`) -/

def sfsSyncVnodes : List Nat → SfsCall Unit
  | [] => pure ()
  | p :: ps => do
    sfsSyncInode p
    sfsSyncVnodes ps

/-- `sfs_freemapio` for a write, from block `j` of the freemap on. -/
def sfsFreemapWrite : (left j : Nat) → SfsCall Unit
  | 0, _ => pure ()
  | left + 1, j => do
    let s ← Call.read id
    sfsWriteblock (2 + j) fun k => s.freemap (j * 512 + k)
    sfsFreemapWrite left (j + 1)

/-- `sfs_freemapio` for a read. -/
def sfsFreemapRead : (left j : Nat) → SfsCall Unit
  | 0, _ => pure ()
  | left + 1, j => do
    let data ← sfsReadblock (2 + j)
    Call.modify fun s => { s with freemap := blit s.freemap (j * 512) data 0 512 }
    sfsFreemapRead left (j + 1)

def sfsSyncFreemap : SfsCall Unit := do
  let s ← Call.read id
  if s.freemapdirty = true then do
    sfsFreemapWrite (sfsFreemapblocks s.nblocks) 0
    Call.modify fun s => { s with freemapdirty := false }
  else pure ()

def sfsSyncSuperblock : SfsCall Unit := do
  let s ← Call.read id
  if s.superdirty = true then do
    sfsWriteblock 0 s.sb
    Call.modify fun s => { s with superdirty := false }
  else pure ()

def sfsSync : SfsCall Unit := do
  let s ← Call.read id
  sfsSyncVnodes s.vnodes
  sfsSyncFreemap
  sfsSyncSuperblock

/-- A file system object before its volume was read (`sfs_fs_create`), on a device. -/
def Sfs.blank (disk : Nat → Bytes) (dBlocks : Nat) (kmallocs : Nat → Bool) : Sfs where
  disk := disk
  dBlocks := dBlocks
  sb := zeros
  superdirty := false
  freemap := zeros
  freemapdirty := false
  vnodes := []
  vn := fun _ => ⟨0, zeros, false, 0⟩
  nextVn := 0
  kmallocs := kmallocs
  asked := 0
  uio := ⟨0, 0, .read, [], 0⟩
  last := fun _ => none

/-- `sfs_domount` on a device with sectors of `blocksize` bytes: from the object that
`sfs_fs_create` made. The three calls of `kmalloc` are those of `sfs_fs_create` and
`bitmap_create`. -/
def sfsDomount (blocksize : Nat) : SfsCall Unit := do
  if blocksize ≠ 512 then Call.fail .enxio
  else do
    kmalloc
    kmalloc
    let sb ← sfsReadblock 0
    if word sb 0 ≠ 0xabadf001 then Call.fail .einval
    else do
      Call.modify fun s => { s with sb := update sb 39 0 }
      kmalloc
      kmalloc
      let s ← Call.read id
      sfsFreemapRead (sfsFreemapblocks s.nblocks) 0

/-! ## The calls of the VFS layer -/

/-- A call. `good` is how far the user's buffer can be accessed. -/
inductive SfsOp
  | getroot
  | lookup (dir : Nat) (name : SfsName)
  | creat (dir : Nat) (name : SfsName) (excl : Bool)
  | link (dir : Nat) (name : SfsName) (file : Nat)
  | remove (dir : Nat) (name : SfsName)
  | rename (dir : Nat) (n1 n2 : SfsName)
  | incref (v : Nat)
  | decref (v : Nat)
  | read (v offset len good : Nat)
  | write (v offset : Nat) (data : List UInt8) (good : Nat)
  | truncate (v : Nat) (len : Int)
  | fsync (v : Nat)
  | sync

/-- What a call hands back. -/
inductive SfsAnswer
  | done
  | vnode (v : Nat)
  | bytes (data : List UInt8)
deriving DecidableEq, Repr

/-- The vnodes that a call is given. -/
def SfsOp.vnodes : SfsOp → List Nat
  | .getroot | .sync => []
  | .lookup dir _ | .creat dir _ _ | .remove dir _ | .rename dir _ _ => [dir]
  | .link dir _ file => [dir, file]
  | .incref v | .decref v | .read v _ _ _ | .write v _ _ _ | .truncate v _ | .fsync v => [v]

/-- A call that returns nothing but success. -/
def answerDone (m : SfsCall Unit) : SfsCall SfsAnswer := do
  m
  pure .done

/-- A call that returns a vnode. -/
def answerVnode (m : SfsCall Nat) : SfsCall SfsAnswer := do
  let p ← m
  pure (.vnode p)

/-- The function behind each call. -/
def SfsOp.call : SfsOp → SfsCall SfsAnswer
  | .getroot => answerVnode sfsGetroot
  | .lookup dir name => onDir dir (answerVnode do
      let r ← sfsLookonce dir name
      pure r.1)
  | .creat dir name excl => onDir dir (answerVnode (sfsCreat dir name excl))
  | .link dir name file => onDir dir (answerDone (sfsLink dir name file))
  | .remove dir name => onDir dir (answerDone (sfsRemove dir name))
  | .rename dir n1 n2 => onDir dir (answerDone (sfsRename dir n1 n2))
  | .incref v => answerDone (vnodeIncref v)
  | .decref v => answerDone (vnodeDecref v)
  | .read v offset len good => onFile v do
      Call.modify fun s => { s with uio := ⟨offset, len, .read, [], good⟩ }
      sfsIo v
      let u ← Call.read Sfs.uio
      pure (.bytes u.buf)
  | .write v offset data good => onFile v do
      Call.modify fun s => { s with uio := ⟨offset, data.length, .write, data, good⟩ }
      answerDone (sfsIo v)
  | .truncate v len => onFile v (answerDone (sfsItrunc v len))
  | .fsync v => answerDone (sfsSyncInode v)
  | .sync => answerDone sfsSync

/-- The mounted file system and the references that its callers hold. -/
structure SfsSys where
  fs : Sfs
  refs : Nat → Nat

/-- The references of the callers after a call. -/
def SfsOp.settle (op : SfsOp) (r : Except Errno SfsAnswer) (refs : Nat → Nat) : Nat → Nat :=
  match op, r with
  | .incref v, _ => update refs v (refs v + 1)
  | .decref v, _ => update refs v (refs v - 1)
  | _, .ok (.vnode v) => update refs v (refs v + 1)
  | _, _ => refs

/-- The effect of a call; `none` is a panic or a failed assertion. -/
def SfsSys.exec (s : SfsSys) (op : SfsOp) : Option (Except Errno SfsAnswer × SfsSys) :=
  (op.call s.fs).map fun (r, fs) => (r, ⟨fs, op.settle r s.refs⟩)

/-- A caller holds a reference to every vnode it passes. -/
def SfsSys.Holds (s : SfsSys) (op : SfsOp) : Prop := ∀ v ∈ op.vnodes, 0 < s.refs v

instance (s : SfsSys) (op : SfsOp) : Decidable (s.Holds op) :=
  inferInstanceAs (Decidable (∀ v ∈ op.vnodes, 0 < s.refs v))

/-- A step of the system: a call and what it returned. -/
def SfsSys.Step (s : SfsSys) (e : SfsOp × Except Errno SfsAnswer) (t : SfsSys) : Prop :=
  s.Holds e.1 ∧ s.exec e.1 = some (e.2, t)

/-- The system after a mount. -/
def SfsSys.ofMount (fs : Sfs) : SfsSys := ⟨fs, fun _ => 0⟩

end OsPaging.Fs
