import OsPaging.Lib.Bytes
import OsPaging.Lib.Words
import Mathlib.Logic.Function.Basic

/-!
# Block transfers and disk errors

`sfs_rwblock` (`kern/fs/sfs/sfs_io.c`) makes its call again after `EIO`, up to ten times, with the
same `struct uio`. Here it is with `lhd_io` (`kern/dev/lamebus/lhd.c`) and `uiomove` below it, for
one call at a time and a disk that decides about every request.

`lhd_io` takes the bytes to be written out of the `uio` before its request, and puts those it has
read into it after. **`block_transfers`**: a read is really made again; after a write that failed
nothing is left in the `uio`, so that the second call makes no request and returns 0.
-/

namespace OsPaging.Fs

open OsPaging.Lib
open Function (update)

/-- `LHD_OK`, `LHD_INVSECT` and `LHD_MEDIA`. -/
inductive LhdCode
  | ok | invsect | media
deriving DecidableEq, Repr

inductive LhdErrno
  | einval | eio
deriving DecidableEq, Repr

/-- `lhd_code_to_errno`; `none` is 0. -/
def lhdCodeToErrno : LhdCode → Option LhdErrno
  | .ok => none
  | .invsect => some .einval
  | .media => some .eio

/-- The disk with the number of requests so far, and the `uio` of the call: a kernel buffer, the
bytes of it that were used, what is left and the offset. -/
structure Drive where
  disk : Nat → Bytes
  asked : Nat
  buf : Bytes
  moved : Nat
  resid : Nat
  offset : Nat

/-- What `uiomove` of a sector does to the counters. -/
def Drive.moves (s : Drive) : Drive :=
  let size := min 512 s.resid
  { s with moved := s.moved + size, resid := s.resid - size, offset := s.offset + size }

/-- What the disk does: its size, the result of each request, and what a failed one leaves. -/
structure Lhd where
  dBlocks : Nat
  result : Nat → LhdCode
  junk : Nat → Bytes

namespace Lhd

variable (d : Lhd)

/-- One round of the loop of `lhd_io` (`lhd.c:216-262`). -/
def round (write : Bool) (sector : Nat) (s : Drive) : Option LhdErrno × Drive :=
  let code := d.result s.asked
  if write then
    let card := blit zeros 0 s.buf s.moved (min 512 s.resid)
    (lhdCodeToErrno code, { s.moves with
      asked := s.asked + 1
      disk := update s.disk sector (if code = .ok then card else d.junk s.asked) })
  else if code = .ok then
    (none, { s.moves with
      asked := s.asked + 1
      buf := blit s.buf s.moved (s.disk sector) 0 (min 512 s.resid) })
  else (lhdCodeToErrno code, { s with asked := s.asked + 1 })

/-- The loop. -/
def rounds (write : Bool) : (left sector : Nat) → Drive → Option LhdErrno × Drive
  | 0, _, s => (none, s)
  | left + 1, sector, s =>
    match d.round write sector s with
    | (none, s) => rounds write left ((sector + 1) % 4294967296) s
    | r => r

/-- `lhd_io` (`lhd.c:185-265`). -/
def lhdIo (write : Bool) (s : Drive) : Option LhdErrno × Drive :=
  let sector := s.offset / 512 % 4294967296
  let len := s.resid / 512 % 4294967296
  if s.offset % 512 ≠ 0 ∨ s.resid % 512 ≠ 0 then (some .einval, s)
  else if d.dBlocks < (sector + len) % 4294967296 then (some .einval, s)
  else d.rounds write len sector s

/-- `sfs_rwblock` (`sfs_io.c:58-102`), with the retries left; `EINVAL` is a panic. -/
def sfsRwblock (write : Bool) : Nat → Drive → Option (Option LhdErrno × Drive)
  | 0, s =>
    match d.lhdIo write s with
    | (some .einval, _) => none
    | r => some r
  | left + 1, s =>
    match d.lhdIo write s with
    | (some .einval, _) => none
    | (some .eio, s) => sfsRwblock write left s
    | r => some r

/-- `sfs_readblock` and `sfs_writeblock`: `SFSUIO` and the call. -/
def transfer (write : Bool) (block : Nat) (buf : Bytes) (s : Drive) :
    Option (Option LhdErrno × Drive) :=
  d.sfsRwblock write 10 { s with buf := buf, moved := 0, resid := 512, offset := block * 512 }

variable {d} {s t : Drive} {block left : Nat} {write : Bool}

attribute [local simp] sfsRwblock

theorem sfsRwblock_ok (h : d.lhdIo write s = (none, t)) :
    d.sfsRwblock write left s = some (none, t) := by
  cases left <;> simp only [sfsRwblock, h]

theorem sfsRwblock_last (h : d.lhdIo write s = (some .eio, t)) :
    d.sfsRwblock write 0 s = some (some .eio, t) := by
  simp only [sfsRwblock, h]

/-- The same `uio` is used again. -/
theorem sfsRwblock_retry (h : d.lhdIo write s = (some .eio, t)) :
    d.sfsRwblock write (left + 1) s = d.sfsRwblock write left t := by
  simp only [sfsRwblock, h]

section

variable (hb : block < d.dBlocks) (hd : d.dBlocks < 4294967296)
include hb hd

/-- A call for a block in range makes one round; -/
theorem lhdIo_block (ho : s.offset = block * 512) (hr : s.resid = 512) :
    d.lhdIo write s = d.round write block s := by
  have hsector : s.offset / 512 % 4294967296 = block := by omega
  have hlen : s.resid / 512 % 4294967296 = 1 := by rw [hr]
  simp only [lhdIo, hsector, hlen]
  rw [if_neg (by omega), if_neg (by omega)]
  unfold rounds
  split
  · next h => rw [h]; rfl
  · rfl

/-- one for nothing makes none. -/
theorem lhdIo_nothing (ho : s.offset = block * 512 + 512) (hr : s.resid = 0) :
    d.lhdIo write s = (none, s) := by
  have hlen : s.resid / 512 % 4294967296 = 0 := by rw [hr]
  simp only [lhdIo, hlen]
  rw [if_neg (by omega), if_neg (by omega)]
  rfl

variable (hok : ∀ n, d.result n ≠ .invsect)
include hok

/-- A write: one request, and 0 whatever comes of it. -/
theorem transfer_write (s : Drive) (buf : Bytes) :
    ∃ t, d.transfer true block buf s = some (none, t) ∧ t.asked = s.asked + 1 ∧
      t.disk = update s.disk block
        (if d.result s.asked = .ok then blit zeros 0 buf 0 512 else d.junk s.asked) := by
  let u : Drive := { s with buf := buf, moved := 0, resid := 512, offset := block * 512 }
  have hround : d.lhdIo true u = d.round true block u := lhdIo_block hb hd rfl rfl
  refine ⟨(d.round true block u).2, ?_, rfl, rfl⟩
  cases hcode : d.result s.asked with
  | ok => exact sfsRwblock_ok (hround.trans (by simp [round, u, hcode, lhdCodeToErrno]))
  | invsect => exact absurd hcode (hok _)
  | media =>
    have heio : d.lhdIo true u = (some .eio, (d.round true block u).2) :=
      hround.trans (by simp [round, u, hcode, lhdCodeToErrno])
    -- the second call finds the `uio` used up
    refine (sfsRwblock_retry heio).trans (sfsRwblock_ok (lhdIo_nothing hb hd ?_ ?_))
    · simp [round, u, Drive.moves]
    · simp [round, u, Drive.moves]

/-- A read: the data if the request succeeds, and the same `uio` if not. -/
theorem lhdIo_read (hm : s.moved = 0) (hr : s.resid = 512) (ho : s.offset = block * 512) :
    d.result s.asked = .ok ∧ (∃ t, d.lhdIo false s = (none, t) ∧ t.disk = s.disk ∧
        t.buf = blit s.buf 0 (s.disk block) 0 512) ∨
      d.result s.asked ≠ .ok ∧ d.lhdIo false s = (some .eio, { s with asked := s.asked + 1 }) := by
  rw [lhdIo_block hb hd ho hr]
  cases hcode : d.result s.asked with
  | ok => exact .inl ⟨rfl, by simp [round, hcode, hm, hr, Drive.moves]⟩
  | invsect => exact absurd hcode (hok _)
  | media => exact .inr ⟨by decide, by simp [round, hcode, lhdCodeToErrno]⟩

/-- A read with `left` retries. -/
theorem sfsRwblock_read (left : Nat) (hm : s.moved = 0) (hr : s.resid = 512)
    (ho : s.offset = block * 512) :
    ∃ r t, d.sfsRwblock false left s = some (r, t) ∧ t.disk = s.disk ∧
      (r = none ∧ (∃ k ≤ left, d.result (s.asked + k) = .ok) ∧
          t.buf = blit s.buf 0 (s.disk block) 0 512 ∨
        r = some .eio ∧ ∀ k ≤ left, d.result (s.asked + k) ≠ .ok) := by
  induction left generalizing s with
  | zero =>
    rcases lhdIo_read hb hd hok hm hr ho with ⟨hcode, t, hio, hdisk, hbuf⟩ | ⟨hcode, hio⟩
    · exact ⟨none, t, sfsRwblock_ok hio, hdisk, .inl ⟨rfl, ⟨0, Nat.le_refl 0, hcode⟩, hbuf⟩⟩
    · refine ⟨_, _, sfsRwblock_last hio, rfl, .inr ⟨rfl, fun k hk => ?_⟩⟩
      rwa [Nat.le_zero.mp hk]
  | succ left ih =>
    rcases lhdIo_read hb hd hok hm hr ho with ⟨hcode, t, hio, hdisk, hbuf⟩ | ⟨hcode, hio⟩
    · exact ⟨none, t, sfsRwblock_ok hio, hdisk, .inl ⟨rfl, ⟨0, Nat.zero_le _, hcode⟩, hbuf⟩⟩
    · have hnext : ∀ k, s.asked + (k + 1) = s.asked + 1 + k := fun k => by omega
      obtain ⟨r, t, hrun, hdisk, hend⟩ := ih (s := { s with asked := s.asked + 1 }) hm hr ho
      refine ⟨r, t, (sfsRwblock_retry hio).trans hrun, hdisk, ?_⟩
      rcases hend with ⟨rfl, ⟨k, hk, hres⟩, hbuf⟩ | ⟨rfl, hall⟩
      · exact .inl ⟨rfl, ⟨k + 1, by omega, by rw [hnext]; exact hres⟩, hbuf⟩
      · refine .inr ⟨rfl, fun k hk => ?_⟩
        cases k with
        | zero => exact hcode
        | succ k =>
          rw [hnext]
          exact hall k (by omega)

end

end Lhd

/-- **Block transfers.** For every disk: `sfs_readblock` returns 0, with the data of the block, if
one of its eleven requests succeeds, and `EIO` if none does. `sfs_writeblock` makes one request and
returns 0 whatever comes of it; the block then has the data if the request succeeded, and what the
failed request has left there if not. -/
theorem block_transfers (d : Lhd) (block : Nat) (s : Drive) (buf : Bytes)
    (hb : block < d.dBlocks) (hd : d.dBlocks < 4294967296) (hok : ∀ n, d.result n ≠ .invsect) :
    (∃ r t, d.transfer false block buf s = some (r, t) ∧ t.disk = s.disk ∧
      (r = none ∧ (∃ k ≤ 10, d.result (s.asked + k) = .ok) ∧ (∀ k < 512, t.buf k = s.disk block k) ∨
        r = some .eio ∧ ∀ k ≤ 10, d.result (s.asked + k) ≠ .ok)) ∧
    ∃ t, d.transfer true block buf s = some (none, t) ∧ t.asked = s.asked + 1 ∧
      t.disk = update s.disk block (t.disk block) ∧
      (d.result s.asked = .ok ∧ (∀ k < 512, t.disk block k = buf k) ∨
        d.result s.asked ≠ .ok ∧ t.disk block = d.junk s.asked) := by
  have hsector : ∀ (dst src : Bytes), ∀ k < 512, blit dst 0 src 0 512 k = src k := by
    intro dst src k hk
    simpa using @blit_inside dst src 0 0 512 k hk
  constructor
  · obtain ⟨r, t, hrun, hdisk, hend⟩ := Lhd.sfsRwblock_read hb hd hok 10
      (s := { s with buf := buf, moved := 0, resid := 512, offset := block * 512 }) rfl rfl rfl
    refine ⟨r, t, hrun, hdisk, hend.imp_left fun ⟨hr, hex, hbuf⟩ => ⟨hr, hex, fun k hk => ?_⟩⟩
    rw [hbuf, hsector _ _ k hk]
  · obtain ⟨t, hrun, hasked, hdisk⟩ := Lhd.transfer_write hb hd hok s buf
    refine ⟨t, hrun, hasked, by rw [hdisk, Function.update_self], ?_⟩
    rw [hdisk, Function.update_self]
    by_cases hcode : d.result s.asked = .ok
    · rw [if_pos hcode]
      exact .inl ⟨hcode, hsector _ _⟩
    · rw [if_neg hcode]
      exact .inr ⟨hcode, rfl⟩

/-- A disk on which the first write fails: 0 is returned, and the data is not there. -/
theorem block_transfers_lost :
    let d : Lhd := ⟨16, fun n => if n = 0 then .media else .ok, fun _ => zeros⟩
    ∃ t, d.transfer true 3 (fun _ => 7) ⟨fun _ => zeros, 0, zeros, 0, 0, 0⟩ = some (none, t) ∧
      t.asked = 1 ∧ t.disk 3 0 = 0 := by
  intro d
  obtain ⟨-, t, hrun, hasked, -, hend⟩ := block_transfers d 3 ⟨fun _ => zeros, 0, zeros, 0, 0, 0⟩
    (fun _ => 7) (by decide) (by decide) (fun n => by simp only [d]; split <;> decide)
  obtain ⟨hcode, -⟩ | ⟨-, hdisk⟩ := hend
  · cases hcode
  · exact ⟨t, hrun, hasked, congrFun hdisk 0⟩

end OsPaging.Fs
