import OsPaging.Fs.Bitmap
import OsPaging.Fs.Errno
import OsPaging.Lib.Call

/-!
# SFS: blocks, block mapping and file I/O

Model of `kern/fs/sfs/sfs_io.c`, `sfs_balloc.c` and `sfs_bmap.c`, with the part of `lhd_io`
(`kern/dev/lamebus/lhd.c`) and of `kern/lib/uio.c` that they call.

* The disk is a function from block numbers to blocks of 512 bytes (`SFS_BLOCKSIZE`). A structure
  that the source reads over the bytes of a block (superblock, inode, indirect block, directory
  entry) is those bytes here, read with big-endian loads at its fields' places: the waste space
  of an inode and all of the superblock go to disk as they came from it.
* An inode maps 15 direct blocks (`SFS_NDIRECT`) and the 128 of its one indirect block
  (`SFS_DBPERIDB`).
* A vnode is known by a number, as the source knows it by its address. `vn` gives the vnode at
  each address and `vnodes` is the table `sfs_vnodes`.
* Disk I/O does not fail. A transfer outside of the device is `EINVAL`, on which `sfs_rwblock`
  panics. `kmallocs` says which calls of `kmalloc` will get memory, and `good` how many bytes the
  user's buffer takes or gives before `copyin` or `copyout` fails.
* The functions run under `vfs_biglock`, so a call is one step.
-/

namespace OsPaging.Fs

open OsPaging.Lib Function

/-- `enum uio_rw`. -/
inductive UioRw
  | read
  | write
deriving DecidableEq, Repr

/-- `struct uio`, over one buffer. -/
structure Uio where
  offset : Nat
  resid : Nat
  rw : UioRw
  /-- Of a read the bytes delivered so far, of a write the bytes still to come. -/
  buf : List UInt8
  /-- How many bytes can be moved before the user's memory faults. -/
  good : Nat

/-- `struct sfs_vnode` with the reference count of its `struct vnode`. -/
structure SfsVnode where
  ino : Nat
  /-- `sv_i`, the copy of the inode in memory. -/
  inode : Bytes
  dirty : Bool
  refcount : Nat

/-- `struct sfs_fs` and its device. -/
structure Sfs where
  disk : Nat → Bytes
  /-- `d_blocks` of the device. -/
  dBlocks : Nat
  sb : Bytes
  superdirty : Bool
  freemap : Bytes
  freemapdirty : Bool
  vnodes : List Nat
  vn : Nat → SfsVnode
  /-- The address that the next vnode gets. -/
  nextVn : Nat
  kmallocs : Nat → Bool
  /-- How many times `kmalloc` was called. -/
  asked : Nat
  /-- The `uio` of the call in progress. -/
  uio : Uio
  /-- The inode that each vnode held when it was reclaimed (not in the source). -/
  last : Nat → Option Bytes

/-- A function of the file system. -/
abbrev SfsCall := Call Sfs Errno

/-! ## The structures on disk (`kern/include/kern/sfs.h`) -/

def sfiSize (b : Bytes) : Nat := word b 0
def sfiType (b : Bytes) : Nat := half b 2
def sfiLinkcount (b : Bytes) : Nat := half b 3
def sfiDirect (b : Bytes) (i : Nat) : Nat := word b (2 + i)
def sfiIndirect (b : Bytes) : Nat := word b 17

/-- `SFS_FREEMAPBITS`, in 32-bit arithmetic. -/
def sfsFreemapbits (nblocks : Nat) : Nat := (nblocks + 4095) % 4294967296 / 4096 * 4096

def sfsFreemapblocks (nblocks : Nat) : Nat := sfsFreemapbits nblocks / 4096

/-- `sb_nblocks`. -/
def Sfs.nblocks (s : Sfs) : Nat := word s.sb 1

/-- Change the inode in memory and mark it dirty. -/
def Sfs.setInode (s : Sfs) (p : Nat) (f : Bytes → Bytes) : Sfs :=
  { s with vn := update s.vn p { s.vn p with inode := f (s.vn p).inode, dirty := true } }

/-! ## Block I/O (`sfs_io.c`) -/

/-- `sfs_rwblock` for a kernel buffer: the sector at `offset` is read. The range check of
`lhd_io` adds in 32 bits. -/
def sfsRwblockRead (offset : Nat) : SfsCall Bytes := do
  let s ← Call.read id
  Call.assert ((offset / 512 + 1) % 4294967296 ≤ s.dBlocks)
  pure (s.disk (offset / 512))

/-- The same for a write. -/
def sfsRwblockWrite (offset : Nat) (data : Bytes) : SfsCall Unit := do
  let s ← Call.read id
  Call.assert ((offset / 512 + 1) % 4294967296 ≤ s.dBlocks)
  Call.modify fun s => { s with disk := update s.disk (offset / 512) data }

/-- `sfs_readblock`: `SFSUIO` computes the offset in 64 bits. -/
def sfsReadblock (block : Nat) : SfsCall Bytes := sfsRwblockRead (block * 512)

def sfsWriteblock (block : Nat) (data : Bytes) : SfsCall Unit := sfsRwblockWrite (block * 512) data

/-! ## Block allocation (`sfs_balloc.c`) -/

def sfsBalloc : SfsCall Nat := do
  let s ← Call.read id
  match bitmapAlloc (sfsFreemapbits s.nblocks) s.freemap with
  | none => Call.fail .enospc
  | some diskblock => do
    Call.modify fun s =>
      { s with freemap := bitmapMark s.freemap diskblock, freemapdirty := true }
    Call.assert (diskblock < s.nblocks)
    sfsWriteblock diskblock zeros
    pure diskblock

/-- `sfs_bfree`, with the assertions of `bitmap_unmark`. -/
def sfsBfree (diskblock : Nat) : SfsCall Unit := do
  let s ← Call.read id
  Call.assert (diskblock < sfsFreemapbits s.nblocks)
  Call.assert (bitmapIsset s.freemap diskblock = true)
  Call.modify fun s =>
    { s with freemap := bitmapUnmark s.freemap diskblock, freemapdirty := true }

def sfsBused (diskblock : Nat) : SfsCall Bool := do
  let s ← Call.read id
  Call.assert (diskblock < s.nblocks)
  pure (bitmapIsset s.freemap diskblock)

/-! ## Block mapping (`sfs_bmap.c`) -/

/-- The end of both parts of `sfs_bmap`: a mapped block has to be in use. -/
def sfsHandBack (block : Nat) : SfsCall Nat := do
  if block = 0 then pure 0
  else do
    let used ← sfsBused block
    Call.assert (used = true)
    pure block

/-- The direct part of `sfs_bmap`. -/
def sfsBmapDirect (p fileblock : Nat) (doalloc : Bool) : SfsCall Nat := do
  let block ← Call.read fun s => sfiDirect (s.vn p).inode fileblock
  if block = 0 ∧ doalloc = true then do
    let block ← sfsBalloc
    Call.modify fun s => s.setInode p (setWord · (2 + fileblock) block)
    sfsHandBack block
  else sfsHandBack block

/-- The last part of `sfs_bmap`: the block at `idoff` in the indirect block `idblock`, whose
contents are `idbuf`. -/
def sfsBmapLeaf (idblock : Nat) (idbuf : Bytes) (idoff : Nat) (doalloc : Bool) :
    SfsCall Nat := do
  if word idbuf idoff = 0 ∧ doalloc = true then do
    let block ← sfsBalloc
    sfsWriteblock idblock (setWord idbuf idoff block)
    sfsHandBack block
  else sfsHandBack (word idbuf idoff)

def sfsBmap (p fileblock : Nat) (doalloc : Bool) : SfsCall Nat := do
  if fileblock < 15 then sfsBmapDirect p fileblock doalloc
  else if 1 ≤ (fileblock - 15) / 128 then Call.fail .efbig
  else do
    let idblock ← Call.read fun s => sfiIndirect (s.vn p).inode
    if idblock = 0 then
      if doalloc = true then do
        let idblock ← sfsBalloc
        Call.modify fun s => s.setInode p (setWord · 17 idblock)
        sfsBmapLeaf idblock zeros ((fileblock - 15) % 128) doalloc
      else pure 0
    else do
      let idbuf ← sfsReadblock idblock
      sfsBmapLeaf idblock idbuf ((fileblock - 15) % 128) doalloc

/-- The loop of `sfs_itrunc` over the direct blocks, from block `i` on. -/
def sfsItruncDirect (p blocklen : Nat) : (left i : Nat) → SfsCall Unit
  | 0, _ => pure ()
  | left + 1, i => do
    let block ← Call.read fun s => sfiDirect (s.vn p).inode i
    if blocklen ≤ i ∧ block ≠ 0 then do
      sfsBfree block
      Call.modify fun s => s.setInode p (setWord · (2 + i) 0)
      sfsItruncDirect p blocklen left (i + 1)
    else sfsItruncDirect p blocklen left (i + 1)

/-- The loop of `sfs_itrunc` over the indirect block, from entry `j` on: the buffer it leaves,
`hasnonzero` and `iddirty`. -/
def sfsItruncLeaves (blocklen : Nat) : (left j : Nat) → Bytes → (hasnonzero iddirty : Bool) →
    SfsCall (Bytes × Bool × Bool)
  | 0, _, idbuf, hasnonzero, iddirty => pure (idbuf, hasnonzero, iddirty)
  | left + 1, j, idbuf, hasnonzero, iddirty => do
    if blocklen < 15 + j ∧ word idbuf j ≠ 0 then do
      sfsBfree (word idbuf j)
      sfsItruncLeaves blocklen left (j + 1) (setWord idbuf j 0) hasnonzero true
    else
      sfsItruncLeaves blocklen left (j + 1) idbuf (hasnonzero || word idbuf j != 0) iddirty

/-- The part of `sfs_itrunc` about the indirect block. -/
def sfsItruncIndirect (p blocklen : Nat) : SfsCall Unit := do
  let idblock ← Call.read fun s => sfiIndirect (s.vn p).inode
  if blocklen < 142 ∧ idblock ≠ 0 then do
    let idbuf ← sfsReadblock idblock
    let (idbuf, hasnonzero, iddirty) ← sfsItruncLeaves blocklen 128 0 idbuf false false
    if hasnonzero = false then do
      sfsBfree idblock
      Call.modify fun s => s.setInode p (setWord · 17 0)
    else if iddirty = true then sfsWriteblock idblock idbuf
    else pure ()
  else pure ()

/-- `DIVROUNDUP(len, SFS_BLOCKSIZE)` as it ends up in a `uint32_t`: the division of C rounds
towards zero. -/
def sfsBlocklen (len : Int) : Nat := (Int.tdiv (len + 511) 512 % 4294967296).toNat

def sfsItrunc (p : Nat) (len : Int) : SfsCall Unit := do
  sfsItruncDirect p (sfsBlocklen len) 15 0
  sfsItruncIndirect p (sfsBlocklen len)
  Call.modify fun s => s.setInode p (setWord · 0 (len % 4294967296).toNat)

/-! ## Moving data (`uio.c`) -/

/-- The `uio` after `n` bytes were moved out of or into `ptr + skip`. -/
def Uio.moved (u : Uio) (ptr : Bytes) (skip n : Nat) : Uio :=
  { u with
    offset := u.offset + n
    resid := u.resid - n
    good := u.good - n
    buf := match u.rw with
      | .read => u.buf ++ (List.range n).map fun k => ptr (skip + k)
      | .write => u.buf.drop n }

/-- `uiomove(ptr + skip, n, uio)`: the buffer `ptr` afterwards. -/
def uiomove (ptr : Bytes) (skip n : Nat) : SfsCall Bytes := do
  let u ← Call.read Sfs.uio
  if u.good < min n u.resid then Call.fail .efault
  else do
    Call.modify fun s => { s with uio := u.moved ptr skip (min n u.resid) }
    match u.rw with
    | .read => pure ptr
    | .write => pure (blit ptr skip (fun k => u.buf.getD k 0) 0 (min n u.resid))

/-- `uiomovezeros`, 16 bytes at a time. -/
def uiomovezeros : (pieces : Nat) → SfsCall Unit
  | 0 => pure ()
  | pieces + 1 => do
    let _ ← uiomove zeros 0 16
    uiomovezeros pieces

/-! ## File I/O (`sfs_io.c`) -/

def sfsPartialio (p skipstart len : Nat) : SfsCall Unit := do
  let u ← Call.read Sfs.uio
  Call.assert (skipstart + len ≤ 512)
  let diskblock ← sfsBmap p (u.offset / 512 % 4294967296) (u.rw = .write)
  if diskblock = 0 then do
    Call.assert (u.rw = .read)
    let _ ← uiomove zeros skipstart len
    pure ()
  else do
    let iobuf ← sfsReadblock diskblock
    let iobuf ← uiomove iobuf skipstart len
    match u.rw with
    | .read => pure ()
    | .write => sfsWriteblock diskblock iobuf

/-- `sfs_rwblock` for the caller's own `uio`, with the offset `diskoff` and a residue of one
block: `lhd_io` moves the data of a write before it writes the sector. -/
def sfsRwblockUser (diskoff : Nat) : SfsCall Unit := do
  let s ← Call.read id
  match s.uio.rw with
  | .read => do
    let data ← sfsRwblockRead diskoff
    let _ ← uiomove data 0 512
    pure ()
  | .write => do
    Call.assert ((diskoff / 512 + 1) % 4294967296 ≤ s.dBlocks)
    let data ← uiomove zeros 0 512
    sfsRwblockWrite diskoff data

/-- `sfs_blockio`. The product `diskblock * SFS_BLOCKSIZE` is one of 32-bit numbers. -/
def sfsBlockio (p : Nat) : SfsCall Unit := do
  let u ← Call.read Sfs.uio
  let diskblock ← sfsBmap p (u.offset / 512 % 4294967296) (u.rw = .write)
  if diskblock = 0 then do
    Call.assert (u.rw = .read)
    uiomovezeros 32
  else do
    Call.assert (512 ≤ u.resid)
    sfsRwblockUser (diskblock * 512 % 4294967296)

/-- The loop of `sfs_io` over the whole blocks. -/
def sfsIoBlocks (p : Nat) : (nblocks : Nat) → SfsCall Unit
  | 0 => pure ()
  | nblocks + 1 => do
    sfsBlockio p
    sfsIoBlocks p nblocks

/-- The part of `sfs_io` that starts at a block boundary: whole blocks and a partial one. -/
def sfsIoAligned (p : Nat) : SfsCall Unit := do
  let u ← Call.read Sfs.uio
  if u.resid = 0 then pure ()
  else do
    Call.assert (u.offset % 512 = 0)
    sfsIoBlocks p (u.resid / 512)
    let u ← Call.read Sfs.uio
    Call.assert (u.resid < 512)
    if 0 < u.resid then sfsPartialio p 0 u.resid else pure ()

/-- The transfer of `sfs_io`, up to the label `out`. -/
def sfsIoTransfer (p : Nat) : SfsCall Unit := do
  let u ← Call.read Sfs.uio
  if u.offset % 512 ≠ 0 then do
    sfsPartialio p (u.offset % 512) (min (512 - u.offset % 512) u.resid)
    sfsIoAligned p
  else sfsIoAligned p

/-- `sfs_io` for a read. -/
def sfsIoRead (p : Nat) : SfsCall Unit := do
  let u ← Call.read Sfs.uio
  let size ← Call.read fun s => sfiSize (s.vn p).inode
  if size ≤ u.offset then pure ()
  else do
    -- what lies beyond the end of the file is taken off the residue and put back at the end
    Call.assert (u.offset + u.resid - size < u.resid ∨ u.offset + u.resid ≤ size)
    Call.modify fun s =>
      { s with uio := { u with resid := u.resid - (u.offset + u.resid - size) } }
    let result ← Call.attempt (sfsIoTransfer p)
    Call.modify fun s =>
      { s with uio := { s.uio with resid := s.uio.resid + (u.offset + u.resid - size) } }
    match result with
    | .ok _ => pure ()
    | .error e => Call.fail e

/-- `sfs_io` for a write: the length is adjusted also when the transfer failed half way. -/
def sfsIoWrite (p : Nat) : SfsCall Unit := do
  let u ← Call.read Sfs.uio
  let result ← Call.attempt (sfsIoTransfer p)
  Call.modify fun s =>
    if s.uio.resid ≠ u.resid ∧ sfiSize (s.vn p).inode < s.uio.offset then
      s.setInode p (setWord · 0 s.uio.offset)
    else s
  match result with
  | .ok _ => pure ()
  | .error e => Call.fail e

def sfsIo (p : Nat) : SfsCall Unit := do
  let u ← Call.read Sfs.uio
  match u.rw with
  | .read => sfsIoRead p
  | .write => sfsIoWrite p

/-- `sfs_metaio`: the data read, or the data given. -/
def sfsMetaio (p actualpos : Nat) (data : Bytes) (len : Nat) (rw : UioRw) : SfsCall Bytes := do
  let diskblock ← sfsBmap p (actualpos / 512 % 4294967296) (rw = .write)
  if diskblock = 0 then do
    Call.assert (rw = .read)
    pure zeros
  else do
    let metaiobuf ← sfsReadblock diskblock
    match rw with
    | .read => pure fun k => metaiobuf (actualpos % 512 + k)
    | .write => do
      sfsWriteblock diskblock (blit metaiobuf (actualpos % 512) data 0 len)
      Call.modify fun s =>
        if sfiSize (s.vn p).inode < actualpos + len then
          s.setInode p (setWord · 0 (actualpos + len))
        else s
      pure data

end OsPaging.Fs
