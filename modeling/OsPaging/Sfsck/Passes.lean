import OsPaging.Sfsck.Disk

/-!
# `sfsck`: the passes

Model of the checker `userland/sbin/sfsck`, second part: the table of inodes (`inode.c`), pass 1
(`pass1.c`: blocks and sizes), pass 2 (`pass2.c`: the directory tree), and `main`.

* An inode has one indirect block and no doubly indirect ones (`SFS_NDINDIRECT` and
  `SFS_NTINDIRECT` are 0), so `check_indirect_block` is called for one level and does not recurse.
* `pass1Dir` and `pass2Dir` follow the directory tree on the disk, whatever it looks like. Their
  recursion counts down a number; they end with `diverges` if it reaches 0.
* The paths that the passes build for their messages are left out.
-/

namespace OsPaging.Sfsck

open OsPaging.Lib OsPaging.Fs Function

/-! ## The table of inodes (`inode.c`) -/

/-- `inode_add`: whether the inode was seen before. The table grows by doubling, from 4. -/
def inodeAdd (ino type : Nat) : FsckCall Bool := do
  let s ← Call.read id
  match s.inodes.find? (·.ino = ino) with
  | some inf => do
    check (inf.linkcount = 0)
    check (inf.type = type)
    pure true
  | none => do
    -- `inode_addtable`: `ninodes` is `maxinodes` at 0, 4, 8, 16, ...
    Call.onlyIf
      (s.inodes.length = 0 ∨ 4 ≤ s.inodes.length ∧ s.inodes.length = 2 ^ s.inodes.length.log2)
      (domalloc (max 4 (s.inodes.length * 2) * 16))
    Call.modify fun s =>
      { s with inodes := s.inodes ++ [⟨ino, 0, false, type⟩], inodesSorted := false }
    pure false

/-- `inode_sorttable`: no inode is in the table twice, so there is one way to sort it. -/
def inodeSorttable : FsckCall Unit :=
  Call.modify fun s =>
    { s with inodes := s.inodes.mergeSort fun a b => a.ino ≤ b.ino, inodesSorted := true }

/-- The loop of `inode_find`, which halves the range from `min` to `max`. -/
def inodeFindLoop (inodes : List InodeInfo) (ino : Nat) : (n min max : Nat) → Except Exit Nat
  | 0, _, _ => .error .diverges
  | n + 1, min, max =>
    if max < min then .error .abort
    else if min = max then
      .error (.errx exitUnrecov "FATAL: inode %u wasn't found in my inode table")
    else
      let i := min + (max - min) / 2
      match inodes[i]? with
      | none => .error .abort
      | some inf =>
        if inf.ino < ino then inodeFindLoop inodes ino n (i + 1) max
        else if ino < inf.ino then inodeFindLoop inodes ino n min i
        else .ok i

/-- `inode_find`: the place of the inode in the table. -/
def inodeFind (ino : Nat) : FsckCall Nat := do
  let s ← Call.read id
  check (s.inodesSorted = true)
  check (0 < s.inodes.length)
  match inodeFindLoop s.inodes ino (s.inodes.length + 1) 0 s.inodes.length with
  | .error e => Call.fail e
  | .ok i => pure i

/-- Change the entry `i` of the table. -/
def Fsck.setInfo (s : Fsck) (i : Nat) (f : InodeInfo → InodeInfo) : Fsck :=
  { s with inodes := s.inodes.modify i f }

/-- `inode_visitdir`: whether the directory was visited before. -/
def inodeVisitdir (ino : Nat) : FsckCall Bool := do
  let i ← inodeFind ino
  let s ← Call.read id
  let inf := s.inodes.getD i ⟨0, 0, false, 0⟩
  check (inf.type = 2)
  check (inf.linkcount = 0)
  if inf.visited = true then pure true
  else do
    Call.modify fun s => s.setInfo i fun inf => { inf with visited := true }
    pure false

def inodeAddlink (ino : Nat) : FsckCall Unit := do
  let i ← inodeFind ino
  let s ← Call.read id
  let inf := s.inodes.getD i ⟨0, 0, false, 0⟩
  check (inf.type = 1)
  check (inf.visited = false)
  Call.modify fun s => s.setInfo i fun inf => { inf with linkcount := inf.linkcount + 1 }

/-- The loop of `inode_adjust_filelinks`. -/
def adjustFilelinksFrom : List InodeInfo → FsckCall Unit
  | [] => pure ()
  | inf :: infs => do
    if inf.type = 2 then adjustFilelinksFrom infs
    else do
      check (inf.type = 1)
      check (0 < inf.linkcount)
      let sfi ← diskread inf.ino
      check (sfiType sfi = 1)
      if sfiLinkcount sfi ≠ inf.linkcount then do
        setbadness exitRecov
        diskwrite inf.ino (setHalf sfi 3 inf.linkcount)
        adjustFilelinksFrom infs
      else adjustFilelinksFrom infs

def inodeAdjustFilelinks : FsckCall Unit := do
  let s ← Call.read id
  adjustFilelinksFrom s.inodes

/-! ## Pass 1: blocks -/

/-- What the checks of a block pointer leave: the pointer, and whether it is a change. -/
structure PtrCheck where
  ptr : Nat
  changed : Bool

/-- The check of the pointer to block `cur` of a file of `fileblocks` blocks, in the inode or in the
indirect block: out of range or past the end of the file, it is cleared. -/
def checkPtr (ptr cur fileblocks : Nat) (usage : BlockUsage) : FsckCall PtrCheck := do
  let volblocks ← Call.read Fsck.totalblocks
  if volblocks ≤ ptr then do
    setbadness exitRecov
    pure ⟨0, true⟩
  else if ptr ≠ 0 then
    if cur < fileblocks then do
      freemapBlockinuse ptr usage
      pure ⟨ptr, false⟩
    else do
      setbadness exitRecov
      freemapBlockfree ptr
      pure ⟨0, true⟩
  else pure ⟨0, false⟩

/-- The loop of `check_indirect_block` over the entries, from entry `i` on. -/
def checkEntries (fileblocks : Nat) (usage : BlockUsage) : (left i : Nat) → Bytes →
    (localchanged : Bool) → FsckCall (Bytes × Bool)
  | 0, _, entries, localchanged => pure (entries, localchanged)
  | left + 1, i, entries, localchanged => do
    let r ← checkPtr (word entries i) (15 + i) fileblocks usage
    checkEntries fileblocks usage left (i + 1)
      (if r.changed = true then setWord entries i r.ptr else entries) (localchanged || r.changed)

/-- The number of entries that an indirect block has. -/
def entryCount (entries : Bytes) : Nat := (List.range 128).countP fun i => word entries i ≠ 0

/-- `check_indirect_block`, for the indirect block `ientry` of an inode. An indirect block without
entries is dropped. -/
def checkIndirectBlock (ientry fileblocks : Nat) (usage : BlockUsage) : FsckCall PtrCheck := do
  let volblocks ← Call.read Fsck.totalblocks
  if 0 < ientry ∧ ientry < volblocks then do
    let entries ← diskread ientry
    freemapBlockinuse ientry .iblock
    let r ← checkEntries fileblocks usage 128 0 entries false
    if entryCount r.1 = 0 then do
      setbadness exitRecov
      freemapBlockfree ientry
      pure ⟨0, true⟩
    else do
      Call.onlyIf (r.2 = true) (diskwrite ientry r.1)
      pure ⟨ientry, false⟩
  else if volblocks ≤ ientry then do
    setbadness exitRecov
    pure ⟨0, true⟩
  else pure ⟨ientry, false⟩

/-- The loop of `check_inode_blocks` over the direct blocks, from block `i` on. -/
def checkDirect (fileblocks : Nat) (usage : BlockUsage) : (left i : Nat) → Bytes →
    (changed : Bool) → FsckCall (Bytes × Bool)
  | 0, _, sfi, changed => pure (sfi, changed)
  | left + 1, i, sfi, changed => do
    let r ← checkPtr (sfiDirect sfi i) i fileblocks usage
    checkDirect fileblocks usage left (i + 1)
      (if r.changed = true then setWord sfi (2 + i) r.ptr else sfi) (changed || r.changed)

/-- `check_inode_blocks`: the inode afterwards, and whether it changed. -/
def checkInodeBlocks (sfi : Bytes) (isdir : Bool) : FsckCall (Bytes × Bool) := do
  let fileblocks := sfsRoundup (sfiSize sfi) 512 / 512
  let usage := if isdir = true then BlockUsage.dirdata else BlockUsage.data
  let r ← checkDirect fileblocks usage 15 0 sfi false
  let ind ← checkIndirectBlock (sfiIndirect r.1) fileblocks usage
  pure (if ind.changed = true then setWord r.1 17 ind.ptr else r.1, r.2 || ind.changed)

/-- `pass1_inode`: whether the inode was seen before, and the inode afterwards. -/
def pass1Inode (ino : Nat) (sfi : Bytes) (alreadychanged : Bool) : FsckCall (Bool × Bytes) := do
  let seen ← inodeAdd ino (sfiType sfi)
  if seen = true then do
    check (alreadychanged = false)
    pure (true, sfi)
  else do
    freemapBlockinuse ino .inode
    let z := checkzeroed sfi 72 440
    Call.onlyIf (z.2 = true) (setbadness exitRecov)
    let r ← checkInodeBlocks z.1 (sfiType sfi = 2)
    Call.onlyIf (alreadychanged = true ∨ z.2 = true ∨ r.2 = true) (diskwrite ino r.1)
    pure (false, r.1)

/-! ## Pass 1: directories -/

/-- The decimal digits of a number, as bytes. -/
def decimal (n : Nat) : List UInt8 := (Nat.toDigits 10 n).map fun c => UInt8.ofNat c.toNat

/-- `FSCK.%lu.%lu`. -/
def fsckName (ino id : Nat) : List UInt8 :=
  [70, 83, 67, 75, 46] ++ decimal ino ++ [46] ++ decimal id

/-- `snprintf` of a short name into `sfd_name`. -/
def printName (sd : Bytes) (name : List UInt8) : Bytes := fun k =>
  if 4 ≤ k ∧ k < 4 + name.length then name.getD (k - 4) 0
  else if k = 4 + name.length then 0 else sd k

/-- A free entry: `sfd_ino = SFS_NOINO` and `sfd_name[0] = 0`. -/
def clearEntry (sd : Bytes) : Bytes := update (setWord sd 0 0) 4 0

/-- `pass1_direntry`: the entry afterwards, and whether it changed. -/
def pass1Direntry (sd : Bytes) : FsckCall (Bytes × Bool) := do
  let nblocks ← Call.read Fsck.totalblocks
  if sfdIno sd = 0 then
    if sd 4 ≠ 0 then do
      setbadness exitRecov
      pure (update sd 4 0, true)
    else pure (sd, false)
  else if nblocks ≤ sfdIno sd then do
    setbadness exitRecov
    pure (clearEntry sd, true)
  else if sd 4 = 0 then do
    let id ← uniqueid
    setbadness exitRecov
    -- the name is short and good, so the two checks that follow find nothing
    pure (printName sd (fsckName (sfdIno sd) id), true)
  else do
    let r1 := checknullstring sd 4 60
    let r2 := checkbadstring r1.1 60 4
    if r1.2 = true ∨ r2.2 = true then do
      setbadness exitRecov
      pure (r2.1, true)
    else pure (sd, false)

/-- The loop of `pass1_dir` over the entries' own checks. -/
def pass1Direntries : List Bytes → FsckCall (List Bytes × Bool)
  | [] => pure ([], false)
  | sd :: d => do
    let r ← pass1Direntry sd
    let rest ← pass1Direntries d
    pure (r.1 :: rest.1, r.2 || rest.2)

/-- `.` and `..`. -/
def dot : List UInt8 := [46]

def dotdot : List UInt8 := [46, 46]

/-- The loop of `pass1_dir` over what the entries name; `recurse` is `pass1_dir`. -/
def pass1Children (recurse : Nat → FsckCall Unit) : List Bytes → FsckCall (List Bytes × Bool)
  | [] => pure ([], false)
  | sd :: d =>
    if sfdIno sd = 0 ∨ sfdCname sd = dot ∨ sfdCname sd = dotdot then do
      let rest ← pass1Children recurse d
      pure (sd :: rest.1, rest.2)
    else do
      let subsfi ← diskread (sfdIno sd)
      if sfiType subsfi = 1 then do
        let r ← pass1Inode (sfdIno sd) subsfi false
        Call.onlyIf (r.1 = false) (Call.modify fun s => { s with countFiles := s.countFiles + 1 })
        let rest ← pass1Children recurse d
        pure (sd :: rest.1, rest.2)
      else if sfiType subsfi = 2 then do
        recurse (sfdIno sd)
        let rest ← pass1Children recurse d
        pure (sd :: rest.1, rest.2)
      else do
        setbadness exitRecov
        let rest ← pass1Children recurse d
        pure (clearEntry sd :: rest.1, true)

/-- The first part of `pass1_dir`: the inode, with its size set right, and whether that is a
change. -/
def pass1DirInode (ino : Nat) : FsckCall (Bytes × Bool) := do
  let sfi ← diskread ino
  if sfiSize sfi % 64 ≠ 0 then do
    setbadness exitRecov
    pure (setWord sfi 0 (sfsRoundup (sfiSize sfi) 64), true)
  else pure (sfi, false)

/-- The entries of a directory that was not seen before. -/
def pass1DirEntries (recurse : Nat → FsckCall Unit) (ino : Nat) (sfi : Bytes) : FsckCall Unit := do
  domalloc (sfiSize sfi)
  let d ← sfsReaddir sfi (sfiSize sfi / 64)
  Call.modify fun s => { s with processed1 := ino :: s.processed1 }
  let r1 ← pass1Direntries d
  let r2 ← pass1Children recurse r1.1
  Call.onlyIf (r1.2 = true ∨ r2.2 = true) (sfsWritedir sfi r2.1 (sfiSize sfi / 64))

def pass1Dir : (n ino : Nat) → FsckCall Unit
  | 0, _ => Call.fail .diverges
  | n + 1, ino => do
    let r ← pass1DirInode ino
    Call.modify fun s => { s with countDirs := s.countDirs + 1 }
    let seen ← pass1Inode ino r.1 r.2
    if seen.1 = true then pure ()
    else pass1DirEntries (pass1Dir n) ino seen.2

/-- `pass1_rootdir`, which is pass 1. The directory tree is no deeper than the table of inodes. -/
def pass1 : FsckCall Unit := do
  let sfi ← diskread 1
  Call.onlyIf (sfiType sfi ≠ 2) do
    setbadness exitRecov
    diskwrite 1 (setHalf sfi 2 2)
  let n ← Call.read Fsck.totalblocks
  pass1Dir (n + 3) 1

/-! ## Pass 2 -/

/-- The loop of `pass2_dir` over the pairs of neighbours in the sorted order. -/
def pass2Duplicates : (vector : List Nat) → List Bytes → FsckCall (List Bytes × Bool)
  | i :: j :: vector, d => do
    let d1 := d.getD i zeros
    let d2 := d.getD j zeros
    check (i ≠ j)
    if sfdIno d1 = 0 ∨ sfdIno d2 = 0 ∨ sfdCname d1 ≠ sfdCname d2 then
      pass2Duplicates (j :: vector) d
    else if sfdIno d1 = sfdIno d2 then do
      setbadness exitRecov
      let r ← pass2Duplicates (j :: vector) (d.set i (clearEntry d1))
      pure (r.1, true)
    else do
      let id ← uniqueid
      setbadness exitRecov
      let r ← pass2Duplicates (j :: vector) (d.set i (printName d1 (fsckName (sfdIno d1) id)))
      pure (r.1, true)
  | _, d => pure (d, false)

/-- What the search for `.` and `..` leaves. -/
structure Dots where
  entries : List Bytes
  changed : Bool
  dotseen : Bool
  dotdotseen : Bool

/-- The loop of `pass2_dir` that looks for `.` and `..`. -/
def pass2Dots (ino parentino : Nat) : List Bytes → (dotseen dotdotseen : Bool) → FsckCall Dots
  | [], dotseen, dotdotseen => pure ⟨[], false, dotseen, dotdotseen⟩
  | sd :: d, dotseen, dotdotseen =>
    if sfdCname sd = dot then do
      Call.onlyIf (sfdIno sd ≠ ino) (setbadness exitRecov)
      check (dotseen = false)
      let r ← pass2Dots ino parentino d true dotdotseen
      pure { r with
        entries := (if sfdIno sd ≠ ino then setWord sd 0 ino else sd) :: r.entries
        changed := sfdIno sd ≠ ino || r.changed }
    else if sfdCname sd = dotdot then do
      Call.onlyIf (sfdIno sd ≠ parentino) (setbadness exitRecov)
      check (dotdotseen = false)
      let r ← pass2Dots ino parentino d dotseen true
      pure { r with
        entries := (if sfdIno sd ≠ parentino then setWord sd 0 parentino else sd) :: r.entries
        changed := sfdIno sd ≠ parentino || r.changed }
    else do
      let r ← pass2Dots ino parentino d dotseen dotdotseen
      pure { r with entries := sd :: r.entries }

/-- A directory as pass 2 works on it: its inode, the buffer, the number of entries, and whether
the inode or the entries have changed. -/
structure Dir where
  sfi : Bytes
  entries : List Bytes
  nentries : Nat
  ichanged : Bool
  dchanged : Bool

/-- `pass2_dir` inserts an entry, if it was not seen. -/
def pass2Insert (name : List UInt8) (ino : Nat) (seen : Bool) (dir : Dir) : FsckCall Dir :=
  if seen = true then pure dir
  else
    match sfsdirTryadd name ino dir.nentries dir.entries with
    | some d => do
      setbadness exitRecov
      pure { dir with entries := d, dchanged := true }
    | none =>
      match sfsdirTryadd name ino dir.entries.length dir.entries with
      | some d => do
        setbadness exitRecov
        pure
          { sfi := setWord dir.sfi 0 (sfiSize dir.sfi + 64)
            entries := d
            nentries := dir.nentries + 1
            ichanged := true
            dchanged := true }
      | none => do
        setbadness exitUnrecov
        pure dir

/-- What the loop over the entries leaves: the entries, whether they changed, and the number of
subdirectories. -/
structure Children where
  entries : List Bytes
  changed : Bool
  subdirs : Nat

/-- The loop of `pass2_dir` over what the entries name; `recurse` is `pass2_dir` with this directory
as the parent, and says whether the directory was visited before. -/
def pass2Children (recurse : Nat → FsckCall Bool) : List Bytes → FsckCall Children
  | [] => pure ⟨[], false, 0⟩
  | sd :: d =>
    if sfdIno sd = 0 ∨ sfdCname sd = dot ∨ sfdCname sd = dotdot then do
      let r ← pass2Children recurse d
      pure { r with entries := sd :: r.entries }
    else do
      let subsfi ← diskread (sfdIno sd)
      if sfiType subsfi = 1 then do
        inodeAddlink (sfdIno sd)
        let r ← pass2Children recurse d
        pure { r with entries := sd :: r.entries }
      else if sfiType subsfi = 2 then do
        let crosslinked ← recurse (sfdIno sd)
        if crosslinked = true then do
          setbadness exitRecov
          let r ← pass2Children recurse d
          pure { r with entries := clearEntry sd :: r.entries, changed := true }
        else do
          let r ← pass2Children recurse d
          pure { r with entries := sd :: r.entries, subdirs := r.subdirs + 1 }
      else do
        setbadness exitRecov
        let r ← pass2Children recurse d
        pure { r with entries := clearEntry sd :: r.entries, changed := true }

/-- The first part of `pass2_dir`: the directory is read, and its names and its `.` and `..` are
set right. -/
def pass2Load (ino parentino : Nat) : FsckCall Dir := do
  let sfi ← diskread ino
  let nentries := sfiSize sfi / 64
  let maxentries := sfsRoundup nentries 8
  domalloc (maxentries * 64 % 4294967296)
  domalloc (nentries * 4)
  let d ← sfsReaddir sfi nentries
  Call.modify fun s => { s with processed2 := ino :: s.processed2 }
  let s ← Call.read id
  let dups ← pass2Duplicates (s.env.dirSort.sort d) d
  let dots ← pass2Dots ino parentino dups.1 false false
  let dir : Dir :=
    ⟨sfi, dots.entries ++ List.replicate (maxentries - nentries) zeros, nentries, false,
      dups.2 || dots.changed⟩
  let dir ← pass2Insert dot ino dots.dotseen dir
  pass2Insert dotdot parentino dots.dotdotseen dir

/-- The last part of `pass2_dir`: the link count, and what is written back. -/
def pass2Finish (ino : Nat) (dir : Dir) (subdirs : Nat) : FsckCall Unit := do
  if sfiLinkcount dir.sfi ≠ subdirs + 2 then do
    setbadness exitRecov
    Call.onlyIf (dir.dchanged = true) (sfsWritedir dir.sfi dir.entries dir.nentries)
    diskwrite ino (setHalf dir.sfi 3 (subdirs + 2))
  else do
    Call.onlyIf (dir.dchanged = true) (sfsWritedir dir.sfi dir.entries dir.nentries)
    Call.onlyIf (dir.ichanged = true) (diskwrite ino dir.sfi)

/-- `pass2_dir`: whether the directory was visited before. -/
def pass2Dir : (n ino parentino : Nat) → FsckCall Bool
  | 0, _, _ => Call.fail .diverges
  | n + 1, ino, parentino => do
    let visited ← inodeVisitdir ino
    if visited = true then pure true
    else do
      let dir ← pass2Load ino parentino
      let r ← pass2Children (fun sub => pass2Dir n sub ino) (dir.entries.take dir.nentries)
      pass2Finish ino
        { dir with
          entries := r.entries ++ dir.entries.drop dir.nentries
          dchanged := dir.dchanged || r.changed } r.subdirs
      pure false

def pass2 : FsckCall Unit := do
  let s ← Call.read id
  let _ ← pass2Dir (s.inodes.length + 1) 1 1
  pure ()

/-! ## `main` -/

/-- `main` after the disk was opened: the status it returns is `badness`. -/
def fsckMain : FsckCall Unit := do
  sbLoad
  sbCheck
  freemapSetup
  pass1
  freemapCheck
  inodeSorttable
  pass2
  inodeAdjustFilelinks

/-- The program before `main`, on a disk. -/
def Fsck.init (env : Env) (disk : Nat → Bytes) : Fsck where
  env := env
  disk := disk
  sb := zeros
  badness := exitClean
  blocksinuse := 0
  freemapdata := zeros
  tofreedata := zeros
  inodes := []
  inodesSorted := false
  countDirs := 0
  countFiles := 0
  uniquecounter := 0
  asked := 0
  processed1 := []
  processed2 := []
  writes := 0

end OsPaging.Sfsck
