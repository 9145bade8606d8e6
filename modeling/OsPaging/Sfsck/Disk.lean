import OsPaging.Fs.SfsCalls

/-!
# `sfsck`: disk blocks, freemap, superblock

Model of the checker `userland/sbin/sfsck`, first part: `disk.c` (shared with `mksfs`), `utils.c`,
`sb.c`, `freemap.c`, and the block and directory I/O of `sfs.c`. The structures on disk are those
of the file system (`kern/sfs.h`).

* The program's global variables are one state, `Fsck`. A function is a `Call` that returns, or
  ends the program: by `err` or `errx` with a status, by a failed `assert`, or not at all
  (`diverges`, for the recursions of the passes, which count down).
* `diskread` and `diskwrite` compute the offset `block * BLOCKSIZE` in 32 bits. A block past the
  end of the image ends the program with status 1.
* `Env` is what the program does not determine: the size of the image, which calls of `malloc` get
  memory, and the order in which `qsort` leaves equal directory entries.
* What is printed is left out, but for the text with which the program ends. `processed1`,
  `processed2` and `writes` are a record of what was done (not in the source).
-/

namespace OsPaging.Sfsck

open OsPaging.Lib OsPaging.Fs Function

/-! ## The program's state -/

abbrev exitUnrecov : Nat := 2

abbrev exitRecov : Nat := 1

abbrev exitClean : Nat := 0

abbrev exitFatal : Nat := 3

/-- How the program ends before its `main` returns. -/
inductive Exit
  | errx (status : Nat) (msg : String)
  /-- A failed `assert`. -/
  | abort
  | diverges
deriving DecidableEq, Repr

/-- `struct inodeinfo`. -/
structure InodeInfo where
  ino : Nat
  linkcount : Nat
  visited : Bool
  type : Nat
deriving DecidableEq, Repr

/-- `sfd_name` as a C string. -/
def sfdCname (sd : Bytes) : List UInt8 :=
    ((List.range 60).map fun k => sd (4 + k)).takeWhile (· ≠ 0)

/-- `dirsortfunc(a, b) <= 0`: by name, with the unallocated entries last. -/
def dirLe (a b : Bytes) : Bool :=
  if sfdIno b = 0 then true else if sfdIno a = 0 then false else decide (sfdCname a ≤ sfdCname b)

/-- A `qsort` of directory entries by `dirsortfunc`, as the permutation vector of `sfsdir_sort`. -/
structure DirSort where
  sort : List Bytes → List Nat
  perm : ∀ d, (sort d).Perm (List.range d.length)
  sorted : ∀ d, (sort d).Pairwise fun i j => dirLe (d.getD i zeros) (d.getD j zeros) = true

theorem dirLe_total (a b : Bytes) : (dirLe a b || dirLe b a) = true := by
  unfold dirLe
  by_cases ha : sfdIno a = 0
  · simp [ha]
  · by_cases hb : sfdIno b = 0
    · simp [hb]
    · simpa [ha, hb] using List.le_total (sfdCname a) (sfdCname b)

theorem dirLe_trans (a b c : Bytes) (hab : dirLe a b = true) (hbc : dirLe b c = true) :
    dirLe a c = true := by
  unfold dirLe at hab hbc ⊢
  by_cases hc : sfdIno c = 0
  · simp [hc]
  · rw [if_neg hc] at hbc ⊢
    by_cases hb : sfdIno b = 0
    · simp [hb] at hbc
    · rw [if_neg hb] at hab hbc
      by_cases ha : sfdIno a = 0
      · simp [ha] at hab
      · rw [if_neg ha] at hab ⊢
        exact decide_eq_true (List.le_trans (of_decide_eq_true hab) (of_decide_eq_true hbc))

/-- Such an order exists. -/
instance : Inhabited DirSort where
  default :=
    { sort d := (List.range d.length).mergeSort fun i j => dirLe (d.getD i zeros) (d.getD j zeros)
      perm _ := List.mergeSort_perm _ _
      sorted d := List.pairwise_mergeSort
        (fun i j k => dirLe_trans (d.getD i zeros) (d.getD j zeros) (d.getD k zeros))
        (fun i j => dirLe_total (d.getD i zeros) (d.getD j zeros)) _ }

/-- What the program does not determine. -/
structure Env where
  /-- The blocks of the image. -/
  nblocks : Nat
  /-- Whether the `n`-th `malloc`, of `len` bytes, gets memory. -/
  mallocs : (n len : Nat) → Bool
  dirSort : DirSort

/-- The global variables of the program, and the disk. -/
structure Fsck where
  env : Env
  disk : Nat → Bytes
  sb : Bytes
  badness : Nat
  blocksinuse : Nat
  freemapdata : Bytes
  tofreedata : Bytes
  inodes : List InodeInfo
  inodesSorted : Bool
  countDirs : Nat
  countFiles : Nat
  uniquecounter : Nat
  /-- How many times `malloc` was called. -/
  asked : Nat
  /-- The directories whose entries pass 1 went through. -/
  processed1 : List Nat
  /-- The same for pass 2. -/
  processed2 : List Nat
  /-- How many blocks were written. -/
  writes : Nat

/-- A function of the program. -/
abbrev FsckCall := Call Fsck Exit

/-- `assert`. -/
def check (p : Prop) [Decidable p] : FsckCall Unit := if p then pure () else Call.fail .abort

def setbadness (code : Nat) : FsckCall Unit :=
  Call.modify fun s => { s with badness := max s.badness code }

/-! ## `disk.c` -/

/-- The block that an access to `block` reaches. -/
def diskPlace (block : Nat) : Nat := block * 512 % 4294967296 / 512

def diskread (block : Nat) : FsckCall Bytes := do
  let s ← Call.read id
  if s.env.nblocks ≤ diskPlace block then
    Call.fail (.errx 1 "unexpected EOF in mid-sector")
  else pure (s.disk (diskPlace block))

def diskwrite (block : Nat) (data : Bytes) : FsckCall Unit := do
  let s ← Call.read id
  if s.env.nblocks ≤ diskPlace block then Call.fail (.errx 1 "write")
  else
    Call.modify fun s =>
      { s with disk := update s.disk (diskPlace block) data, writes := s.writes + 1 }

/-! ## `utils.c` -/

def domalloc (len : Nat) : FsckCall Unit := do
  let s ← Call.read id
  Call.modify fun s => { s with asked := s.asked + 1 }
  if s.env.mallocs s.asked len = true then pure ()
  else Call.fail (.errx exitFatal "Out of memory")

def uniqueid : FsckCall Nat := do
  let s ← Call.read id
  Call.modify fun s => { s with uniquecounter := (s.uniquecounter + 1) % 4294967296 }
  pure s.uniquecounter

/-- `checknullstring` of the `maxlen` bytes at `off`: the buffer afterwards, and what it returns. -/
def checknullstring (buf : Bytes) (off maxlen : Nat) : Bytes × Bool :=
  if ∃ i < maxlen, buf (off + i) = 0 then (buf, false) else (update buf (off + maxlen - 1) 0, true)

/-- `checkbadstring` of the string at `k`, which ends within `left` bytes. -/
def checkbadstring (buf : Bytes) : (left k : Nat) → Bytes × Bool
  | 0, _ => (buf, false)
  | left + 1, k =>
    if buf k = 0 then (buf, false)
    else if buf k = 58 ∨ buf k = 47 then ((checkbadstring (update buf k 95) left (k + 1)).1, true)
    else checkbadstring buf left (k + 1)

/-- `checkzeroed` of the `len` bytes at `off`. -/
def checkzeroed (buf : Bytes) (off len : Nat) : Bytes × Bool :=
  if ∀ i < len, buf (off + i) = 0 then (buf, false)
  else (fun k => if off ≤ k ∧ k < off + len then 0 else buf k, true)

/-! ## `sb.c` -/

/-- `sb_nblocks`. -/
def Fsck.totalblocks (s : Fsck) : Nat := word s.sb 1

def sbLoad : FsckCall Unit := do
  let sb ← diskread 0
  Call.modify fun s => { s with sb := sb }
  if word sb 0 ≠ 0xabadf001 then Call.fail (.errx exitFatal "Not an sfs filesystem")
  else do
    check (0 < word sb 1)
    check (0 < sfsFreemapblocks (word sb 1))

/-- `sb_check`: the name and the reserved words. -/
def sbCheck : FsckCall Unit := do
  let sb ← Call.read Fsck.sb
  let r1 := checknullstring sb 8 32
  let r2 := checkbadstring r1.1 32 8
  let r3 := checkzeroed r2.1 40 472
  Call.modify fun s => { s with sb := r3.1 }
  if r1.2 = true ∨ r2.2 = true ∨ r3.2 = true then do
    setbadness exitRecov
    diskwrite 0 r3.1
  else pure ()

/-! ## `freemap.c` -/

/-- `blockusage_t`. -/
inductive BlockUsage
  | superblock
  | freemapblock
  | inode
  | iblock
  | dirdata
  | data
  | pastend
deriving DecidableEq, Repr

def freemapBlockinuse (block : Nat) (how : BlockUsage) : FsckCall Unit := do
  let s ← Call.read id
  Call.onlyIf (bitmapIsset s.freemapdata block = true) (setbadness exitUnrecov)
  Call.modify fun s =>
    { s with
      tofreedata := bitmapUnmark s.tofreedata block
      freemapdata := bitmapMark s.freemapdata block
      blocksinuse := if how = .pastend then s.blocksinuse else s.blocksinuse + 1 }

def freemapBlockfree (block : Nat) : FsckCall Unit :=
  Call.modify fun s =>
    if bitmapIsset s.tofreedata block = true ∨ bitmapIsset s.freemapdata block = true then s
    else { s with tofreedata := bitmapMark s.tofreedata block }

/-- A loop that marks `left` blocks from `i` on. -/
def markFrom (how : BlockUsage) : (left i : Nat) → FsckCall Unit
  | 0, _ => pure ()
  | left + 1, i => do
    freemapBlockinuse i how
    markFrom how left (i + 1)

def freemapSetup : FsckCall Unit := do
  let n ← Call.read Fsck.totalblocks
  domalloc (sfsFreemapblocks n * 512)
  domalloc (sfsFreemapblocks n * 512)
  Call.modify fun s => { s with freemapdata := zeros, tofreedata := zeros }
  markFrom .pastend (sfsFreemapblocks n * 4096 - n) n
  freemapBlockinuse 0 .superblock
  markFrom .freemapblock (sfsFreemapblocks n) 2

def countbits (val : UInt8) : Nat := (List.range 8).countP fun k => val.toNat.testBit k

/-- What `freemap_check` finds in one byte: the byte it leaves, whether that is a change, and the
bits that were short and the bits that were extra. -/
structure ByteCheck where
  byte : UInt8
  changed : Bool
  short : Nat
  extra : Nat

/-- The body of the inner loop of `freemap_check`. -/
def checkByte (actual expected tofree : UInt8) : ByteCheck :=
  if actual = expected then ⟨actual, false, 0, 0⟩
  else if actual = expected ||| tofree then ⟨expected, true, 0, 0⟩
  else
    let actual := actual &&& ~~~tofree
    ⟨expected, true, countbits (expected &&& ~~~actual), countbits (actual &&& ~~~expected)⟩

/-- The inner loop of `freemap_check` on block `i` of the freemap, from byte `j` on: the block
afterwards, `bchanged`, and the counts. -/
def freemapCheckBytes (i : Nat) : (left j : Nat) → Bytes → (bchanged : Bool) →
    (alloccount freecount : Nat) → FsckCall (Bytes × Bool × Nat × Nat)
  | 0, _, actual, bchanged, alloccount, freecount => pure (actual, bchanged, alloccount, freecount)
  | left + 1, j, actual, bchanged, alloccount, freecount => do
    let s ← Call.read id
    let expected := s.freemapdata (i * 512 + j)
    let tofree := s.tofreedata (i * 512 + j)
    check (expected &&& tofree = 0)
    let r := checkByte (actual j) expected tofree
    freemapCheckBytes i left (j + 1) (update actual j r.byte) (bchanged || r.changed)
      (alloccount + r.short) (freecount + r.extra)

/-- The outer loop of `freemap_check`, from block `i` of the freemap on. -/
def freemapCheckBlocks : (left i alloccount freecount : Nat) → FsckCall (Nat × Nat)
  | 0, _, alloccount, freecount => pure (alloccount, freecount)
  | left + 1, i, alloccount, freecount => do
    let actual ← diskread (2 + i)
    let r ← freemapCheckBytes i 512 0 actual false alloccount freecount
    Call.onlyIf (r.2.1 = true) (diskwrite (2 + i) r.1)
    freemapCheckBlocks left (i + 1) r.2.2.1 r.2.2.2

def freemapCheck : FsckCall Unit := do
  let n ← Call.read Fsck.totalblocks
  let r ← freemapCheckBlocks (sfsFreemapblocks n) 0 0 0
  Call.onlyIf (0 < r.1) (setbadness exitRecov)
  Call.onlyIf (0 < r.2) (setbadness exitRecov)

/-! ## Directories (`sfs.c`) -/

/-- `SFS_ROUNDUP`, in 32 bits. -/
def sfsRoundup (a b : Nat) : Nat := (a + (b - 1)) % 4294967296 / b * b % 4294967296

/-- `bmap`; there are no blocks beyond the one indirect block. -/
def bmap (sfi : Bytes) (fileblock : Nat) : FsckCall Nat :=
  if fileblock < 15 then pure (sfiDirect sfi fileblock)
  else if fileblock < 143 then
    if sfiIndirect sfi = 0 then pure 0
    else do
      let entries ← diskread (sfiIndirect sfi)
      pure (word entries ((fileblock - 15) % 128))
  else pure 0

/-- The entry `j` of a directory block. -/
def dirSlice (block : Bytes) (j : Nat) : Bytes := fun k => if k < 64 then block (j * 64 + k) else 0

def sfsReaddirblock (diskblock : Nat) : FsckCall Bytes :=
  if diskblock ≠ 0 then diskread diskblock else pure zeros

/-- `sfs_readdir`, from block `i` on: `left` entries are still to be read. -/
def sfsReaddirFrom (sfi : Bytes) : (nblocks i left : Nat) → FsckCall (List Bytes)
  | 0, _, _ => pure []
  | nblocks + 1, i, left => do
    let diskblock ← bmap sfi i
    let block ← sfsReaddirblock diskblock
    let rest ← sfsReaddirFrom sfi nblocks (i + 1) (left - min left 8)
    pure ((List.range (min left 8)).map (dirSlice block) ++ rest)

def sfsReaddir (sfi : Bytes) (nd : Nat) : FsckCall (List Bytes) :=
  sfsReaddirFrom sfi (sfsRoundup nd 8 / 8) 0 nd

/-- Eight entries as a block. -/
def dirBlock (d : List Bytes) : Bytes := fun k => d.getD (k / 64) zeros (k % 64)

def sfsWritedirblock (diskblock : Nat) (d : List Bytes) : FsckCall Unit :=
  if diskblock ≠ 0 then diskwrite diskblock (dirBlock d)
  else if ∃ sd ∈ d, sfdIno sd ≠ 0 ∨ sd 4 ≠ 0 then setbadness exitUnrecov
  else pure ()

/-- `sfs_writedir`, from block `i` on: what a last partial block lacks is zero. -/
def sfsWritedirFrom (sfi : Bytes) : (nblocks i : Nat) → List Bytes → FsckCall Unit
  | 0, _, _ => pure ()
  | nblocks + 1, i, d => do
    let diskblock ← bmap sfi i
    sfsWritedirblock diskblock (d.take 8)
    sfsWritedirFrom sfi nblocks (i + 1) (d.drop 8)

/-- `sfs_writedir` of the first `nd` entries. -/
def sfsWritedir (sfi : Bytes) (d : List Bytes) (nd : Nat) : FsckCall Unit :=
  sfsWritedirFrom sfi (sfsRoundup nd 8 / 8) 0 (d.take nd)

/-- `sfsdir_tryadd` among the first `nd` entries; `none` is failure. -/
def sfsdirTryadd (name : List UInt8) (ino : Nat) : (nd : Nat) → List Bytes → Option (List Bytes)
  | nd + 1, sd :: d =>
    if sfdIno sd = 0 then
      some ((fun k => if k < 4 then setWord zeros 0 ino k
        else if k < 4 + name.length then name.getD (k - 4) 0
        else if k = 4 + name.length then 0 else sd k) :: d)
    else (sfsdirTryadd name ino nd d).map (sd :: ·)
  | _, _ => none

end OsPaging.Sfsck
