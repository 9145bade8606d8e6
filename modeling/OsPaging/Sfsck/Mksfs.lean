import OsPaging.Fs.SfsGuarantees
import OsPaging.Sfsck.Disk

/-!
# `mksfs`

Model of `userland/sbin/mksfs/mksfs.c`, which makes an empty volume, on the `disk.c` that it shares
with `sfsck`. The disk is opened after the volume name was checked; its block size is the one that
`main` wants.

`mksfs` writes the superblock, the freemap and the inode of the root directory and leaves every
other block as it is (**`returns_main`**). It does so on disks of 3 to 131072 blocks, since a
freemap has at most 32 blocks, and on a smaller disk the blocks past the end of the volume are
already in use. The number of freemap blocks wraps around to 0 on disks of more than 4294963200
blocks, which it therefore accepts too (`Accepts`, **`main_accepts`**). On a new volume `sfs_balloc`
returns no block that is reserved (**`fresh_volume`**).
-/

namespace OsPaging.Sfsck

open OsPaging.Lib OsPaging.Fs Function

variable {Q : Except Exit Unit → Mksfs → Prop} {left : Nat} {arg : List UInt8}

/-- The global variables of the program, and the disk. -/
structure Mksfs where
  nblocks : Nat
  disk : Nat → Bytes
  freemapbuf : Bytes

/-- A function of the program. -/
abbrev MksfsCall := Call Mksfs Exit

namespace Mksfs

/-- `assert`. -/
def check (p : Prop) [Decidable p] : MksfsCall Unit := if p then pure () else Call.fail .abort

def diskwrite (block : Nat) (data : Bytes) : MksfsCall Unit := do
  let s ← Call.read id
  if s.nblocks ≤ diskPlace block then Call.fail (.errx 1 "write")
  else Call.modify fun s => { s with disk := update s.disk (diskPlace block) data }

def allocblock (block : Nat) : MksfsCall Unit := do
  let s ← Call.read id
  check (bitmapIsset s.freemapbuf block = false)
  Call.modify fun s => { s with freemapbuf := bitmapMark s.freemapbuf block }

/-- A loop that allocates `left` blocks from `i` on. -/
def allocFrom : (left i : Nat) → MksfsCall Unit
  | 0, _ => pure ()
  | left + 1, i => do
    allocblock i
    allocFrom left (i + 1)

def initfreemap (fsblocks : Nat) : MksfsCall Unit := do
  if 32 < sfsFreemapblocks fsblocks then
    Call.fail (.errx 1 "Filesystem too large -- increase MAXFREEMAPBLOCKS and recompile")
  else do
    allocblock 0
    allocblock 1
    allocFrom (sfsFreemapblocks fsblocks) 2
    allocFrom (sfsFreemapbits fsblocks - fsblocks) fsblocks

/-- The superblock that `writesuper` writes. -/
def superblock (volname : List UInt8) (nblocks : Nat) : Bytes := fun k =>
  if 8 ≤ k ∧ k < 8 + volname.length then volname.getD (k - 8) 0
  else setWord (setWord zeros 0 0xabadf001) 1 nblocks k

def writesuper (volname : List UInt8) (nblocks : Nat) : MksfsCall Unit :=
  if 32 ≤ volname.length then Call.fail (.errx 1 "Volume name %s too long")
  else diskwrite 0 (superblock volname nblocks)

/-- `writefreemap`, from block `i` of the freemap on. -/
def writefreemap : (left i : Nat) → MksfsCall Unit
  | 0, _ => pure ()
  | left + 1, i => do
    let s ← Call.read id
    diskwrite (2 + i) fun k => s.freemapbuf (i * 512 + k)
    writefreemap left (i + 1)

def writerootdir : MksfsCall Unit :=
  diskwrite 1 (setHalf (setHalf (setWord zeros 0 0) 2 2) 3 1)

/-- The volume name in `main`: without its trailing colon. -/
def volname (arg : List UInt8) : Except Exit (List UInt8) :=
  let s := arg.dropWhile (· ≠ 58)
  if s ≠ [] ∧ s.length ≠ 1 then .error (.errx 1 "Illegal volume name %s")
  else if 47 ∈ arg.takeWhile (· ≠ 58) then .error (.errx 1 "Illegal volume name %s")
  else .ok (arg.takeWhile (· ≠ 58))

/-- `main`, with the volume name as it was given. -/
def main (arg : List UInt8) : MksfsCall Unit :=
  match volname arg with
  | .error e => Call.fail e
  | .ok volname => do
    let size ← Call.read Mksfs.nblocks
    initfreemap size
    writesuper volname size
    writefreemap (sfsFreemapblocks size) 0
    writerootdir

/-- The program before `main`, on a disk of `nblocks` blocks. -/
def init (nblocks : Nat) (disk : Nat → Bytes) : Mksfs := ⟨nblocks, disk, zeros⟩

/-! ## What it does -/

variable {s t : Mksfs} {N b i : Nat}

/-- The state with another freemap. -/
def withMap (s : Mksfs) (v : Bytes) : Mksfs := { s with freemapbuf := v }

theorem returns_allocblock :
    (allocblock b).Returns s Q ↔ if bitmapIsset s.freemapbuf b = true then Q (.error .abort) s
      else Q (.ok ()) (s.withMap (bitmapMark s.freemapbuf b)) := by
  unfold allocblock check
  rw [Call.returns_bindRead, Call.returns_bind]
  dsimp only [id_eq]
  by_cases hb : bitmapIsset s.freemapbuf b = true
  · rw [if_pos hb, if_neg (by simp [hb]), Call.returns_fail, Call.andthen_error]
  · rw [if_neg hb, if_pos (by simpa using hb), Call.returns_pure, Call.andthen_ok,
      Call.returns_modify]
    rfl

/-- The blocks of the freemap of `t` are those of `s` and those with `p`. -/
def Allocates (p : Nat → Prop) [DecidablePred p] (s t : Mksfs) : Prop :=
  ∃ v, t = s.withMap v ∧ ∀ b, bitmapIsset v b = (bitmapIsset s.freemapbuf b || decide (p b))

theorem returns_allocblock_free (h : bitmapIsset s.freemapbuf b = false) :
    (allocblock b).Returns s fun r t => r = .ok () ∧ Allocates (· = b) s t := by
  rw [returns_allocblock, if_neg (by simp [h])]
  refine ⟨rfl, _, rfl, fun c => ?_⟩
  rw [bitmapIsset_mark]
  grind

theorem returns_allocFrom (h : ∀ b, i ≤ b → b < i + left → bitmapIsset s.freemapbuf b = false) :
    (allocFrom left i).Returns s fun r t => r = .ok () ∧
      Allocates (fun b => i ≤ b ∧ b < i + left) s t := by
  induction left generalizing i s with
  | zero =>
    refine Call.returns_pure.mpr ⟨rfl, s.freemapbuf, rfl, fun b => ?_⟩
    rw [decide_eq_false (by omega), Bool.or_false]
  | succ left ih =>
    unfold allocFrom
    rw [Call.returns_bind]
    refine (returns_allocblock_free (h i (le_refl i) (by omega))).mono ?_
    rintro _ _ ⟨rfl, v, rfl, hv⟩
    rw [Call.andthen_ok]
    refine (ih fun b hb hlt => ?_).mono ?_
    · refine (hv b).trans ?_
      grind
    · rintro r _ ⟨hr, w, rfl, hw⟩
      refine ⟨hr, w, rfl, fun b => ?_⟩
      rw [hw]
      change (bitmapIsset v b || _) = _
      grind

theorem returns_allocFrom_used (h : bitmapIsset s.freemapbuf i = true) :
    (allocFrom (left + 1) i).Returns s fun r _ => r ≠ .ok () := by
  unfold allocFrom
  rw [Call.returns_bind, returns_allocblock, if_pos h, Call.andthen_error]
  simp

/-- The sizes of disks that `mksfs` formats: the last kind has so many blocks that the number of
freemap blocks wraps around to 0. -/
def Accepts (N : Nat) : Prop := 3 ≤ N ∧ N ≤ 131072 ∨ 4294963201 ≤ N

theorem Accepts.blocks (h : Accepts N) (hN : N < 4294967296) :
    sfsFreemapblocks N ≤ 32 ∧ 2 + sfsFreemapblocks N ≤ N := by
  unfold Accepts at h
  unfold sfsFreemapblocks sfsFreemapbits
  omega

/-- The blocks that are in use on a new volume. -/
def used (N b : Nat) : Bool := b < 2 + sfsFreemapblocks N ∨ N ≤ b ∧ b < sfsFreemapbits N

theorem eq_bitmapOf {v : Bytes} {f : Nat → Bool} (h : ∀ b, bitmapIsset v b = f b) :
    v = bitmapOf f := by
  funext k
  refine UInt8.toNat_inj.mp (Nat.eq_of_testBit_eq fun j => ?_)
  by_cases hj : j < 8
  · have hv := h (k * 8 + j)
    rw [← bitmapIsset_bitmapOf (f := f), bitmapIsset_eq, bitmapIsset_eq,
      show (k * 8 + j) / 8 = k by omega, show (k * 8 + j) % 8 = j by omega] at hv
    exact hv
  · have hpow : 2 ^ 8 ≤ 2 ^ j := Nat.pow_le_pow_right (by decide) (Nat.le_of_not_lt hj)
    rw [Nat.testBit_lt_two_pow ((v k).toNat_lt.trans_le hpow),
      Nat.testBit_lt_two_pow ((bitmapOf f k).toNat_lt.trans_le hpow)]

/-- The first part of `initfreemap`: the superblock, the root and the freemap. -/
theorem returns_reserved {n : Nat} {m : MksfsCall Unit} (hs : s.freemapbuf = zeros)
    (hm : ∀ v, (∀ b, bitmapIsset v b = decide (b < 2 + n)) → m.Returns (s.withMap v) Q) :
    (allocblock 0 >>= fun _ => allocblock 1 >>= fun _ => allocFrom n 2 >>= fun _ =>
      m).Returns s Q := by
  have hz : ∀ b, bitmapIsset s.freemapbuf b = false := fun b => by
    rw [hs, bitmapIsset_eq]
    simp [zeros]
  refine (returns_allocblock_free (hz 0)).bind ?_ (by rintro e t ⟨he, -⟩; cases he)
  rintro _ _ ⟨-, v0, rfl, hv0⟩
  have h1 : bitmapIsset v0 1 = false := by simp [hv0, hz]
  refine (returns_allocblock_free h1).bind ?_ (by rintro e t ⟨he, -⟩; cases he)
  rintro _ _ ⟨-, v1, rfl, hv1⟩
  replace hv1 : ∀ b, bitmapIsset v1 b = decide (b = 0 ∨ b = 1) := fun b => by
    refine (hv1 b).trans ?_
    change (bitmapIsset v0 b || _) = _
    rw [hv0, hz, Bool.false_or, ← Bool.decide_or]
  refine (returns_allocFrom (s := s.withMap v1) fun b hb hlt => ?_).bind ?_
    (by rintro e t ⟨he, -⟩; cases he)
  · exact (hv1 b).trans (decide_eq_false (by omega))
  rintro _ _ ⟨-, v2, rfl, hv2⟩
  refine hm v2 fun b => ?_
  refine (hv2 b).trans ?_
  change (bitmapIsset v1 b || _) = _
  grind

theorem returns_initfreemap (h32 : sfsFreemapblocks N ≤ 32)
    (hroom : 2 + sfsFreemapblocks N ≤ N ∨ sfsFreemapbits N ≤ N) (hs : s.freemapbuf = zeros) :
    (initfreemap N).Returns s fun r t => r = .ok () ∧ t = s.withMap (bitmapOf (used N)) := by
  unfold initfreemap
  rw [if_neg (by omega)]
  refine returns_reserved hs fun v hv => ?_
  refine (returns_allocFrom (s := s.withMap v) fun b hb hlt => ?_).mono ?_
  · exact (hv b).trans (decide_eq_false (by omega))
  rintro _ _ ⟨rfl, w, rfl, hw⟩
  refine ⟨rfl, congrArg s.withMap (eq_bitmapOf fun b => (hw b).trans ?_)⟩
  change (bitmapIsset v b || _) = _
  rw [hv, ← Bool.decide_or]
  exact decide_eq_decide.mpr (by omega)

theorem returns_initfreemap_small (h : N < 2 + sfsFreemapblocks N) (hbits : N < sfsFreemapbits N)
    (hs : s.freemapbuf = zeros) : (initfreemap N).Returns s fun r _ => r ≠ .ok () := by
  unfold initfreemap
  split_ifs
  · exact Call.returns_fail.mpr (by simp)
  refine returns_reserved hs fun v hv => ?_
  obtain ⟨left, hleft⟩ : ∃ left, sfsFreemapbits N - N = left + 1 :=
    ⟨_, (Nat.succ_pred (by omega)).symm⟩
  rw [hleft]
  exact returns_allocFrom_used ((hv N).trans (decide_eq_true h))

theorem diskPlace_of_lt (hb : b < 8388608) : diskPlace b = b := by
  unfold diskPlace
  omega

theorem returns_diskwrite {X : Bytes} (hb : b < 8388608) :
    (diskwrite b X).Returns s Q ↔ if s.nblocks ≤ b then Q (.error (.errx 1 "write")) s
      else Q (.ok ()) { s with disk := update s.disk b X } := by
  unfold diskwrite
  rw [Call.returns_bindRead, diskPlace_of_lt hb]
  dsimp only [id_eq]
  split_ifs
  · exact Call.returns_fail
  · exact Call.returns_modify

theorem returns_writefreemap (hi : 2 + i + left ≤ s.nblocks) (hlt : i + left ≤ 32) :
    (writefreemap left i).Returns s fun r t => r = .ok () ∧ t = { s with
      disk := fun b => if 2 + i ≤ b ∧ b < 2 + i + left then
        fun k => s.freemapbuf ((b - 2) * 512 + k) else s.disk b } := by
  induction left generalizing i s with
  | zero =>
    refine Call.returns_pure.mpr ⟨rfl, ?_⟩
    have hdisk : (fun b => if 2 + i ≤ b ∧ b < 2 + i + 0 then
        fun k => s.freemapbuf ((b - 2) * 512 + k) else s.disk b) = s.disk :=
      funext fun b => if_neg (by omega)
    rw [hdisk]
  | succ left ih =>
    unfold writefreemap
    rw [Call.returns_bindRead, Call.returns_bind,
      returns_diskwrite (by omega), if_neg (by omega), Call.andthen_ok]
    grind

/-- The volume that `mksfs` makes. -/
def image (N : Nat) (volname : List UInt8) (old : Nat → Bytes) : Nat → Bytes := fun b =>
  if b = 0 then superblock volname N
  else if b = 1 then sfsInode 2 1 0 0
  else if b < 2 + sfsFreemapblocks N then fun k => bitmapOf (used N) ((b - 2) * 512 + k)
  else old b

theorem setWord_zero {X : Bytes} (h : ∀ k, k / 4 = i → X k = 0) : setWord X i 0 = X := by
  funext k
  by_cases hk : k / 4 = i
  · rw [h k hk]
    unfold setWord
    rw [if_pos hk]
    split_ifs <;> rfl
  · exact setWord_of_ne hk

theorem rootdir_eq : setHalf (setHalf (setWord zeros 0 0) 2 2) 3 1 = sfsInode 2 1 0 0 := by
  have hX : ∀ k, k / 4 ≠ 1 → setHalf (setHalf zeros 2 2) 3 1 k = 0 := fun k hk => by
    rw [setHalf_of_ne (by omega), setHalf_of_ne (by omega)]
    rfl
  unfold sfsInode
  rw [setWord_zero (X := zeros) fun _ _ => rfl,
    setWord_zero (X := setHalf _ 3 1) fun k hk => hX k (by omega),
    setWord_zero fun k hk => hX k (by omega)]

variable {name : List UInt8} {old : Nat → Bytes}

theorem returns_main_iff {R : Except Exit Unit → Mksfs → Prop} (hname : volname arg = .ok name) :
    (main arg).Returns (init N old) R ↔ (initfreemap N >>= fun _ => writesuper name N >>= fun _ =>
      writefreemap (sfsFreemapblocks N) 0 >>= fun _ => writerootdir).Returns (init N old) R := by
  unfold main
  rw [hname]
  exact Call.returns_bindRead

/-- **What `mksfs` does.** -/
theorem returns_main (h : Accepts N) (hN : N < 4294967296)
    (hname : volname arg = .ok name) (hlen : name.length < 32) :
    (main arg).Returns (init N old) fun r t => r = .ok () ∧ t.disk = image N name old := by
  obtain ⟨h32, hroom⟩ := h.blocks hN
  rw [returns_main_iff hname]
  refine (returns_initfreemap h32 (by omega) rfl).bind ?_ (by rintro e t ⟨he, -⟩; cases he)
  rintro _ _ ⟨-, rfl⟩
  unfold writesuper
  rw [if_neg (by omega), Call.returns_bind, returns_diskwrite (by decide),
    if_neg (by change ¬N ≤ 0; omega), Call.andthen_ok, Call.returns_bind]
  refine (returns_writefreemap (by change 2 + 0 + sfsFreemapblocks N ≤ N; omega) (by omega)).mono ?_
  rintro _ _ ⟨rfl, rfl⟩
  unfold writerootdir
  rw [Call.andthen_ok, returns_diskwrite (by decide), if_neg (by change ¬N ≤ 1; omega), rootdir_eq]
  refine ⟨rfl, funext fun b => ?_⟩
  unfold image
  dsimp only [withMap, init]
  grind

theorem returns_main_refuses (hN : N < 4294967296)
    (hname : volname arg = .ok name) (h : ¬Accepts N ∨ 32 ≤ name.length) :
    (main arg).Returns (init N old) fun r _ => r ≠ .ok () := by
  rw [returns_main_iff hname]
  by_cases h32 : 32 < sfsFreemapblocks N
  · unfold initfreemap
    rw [if_pos h32]
    exact Call.returns_bind.mpr (Call.returns_fail.mpr (by simp))
  by_cases hsmall : N < 2 + sfsFreemapblocks N ∧ N < sfsFreemapbits N
  · refine (returns_initfreemap_small hsmall.1 hsmall.2 rfl).bind ?_ fun e t he => by simp
    exact fun _ _ hr => absurd rfl hr
  refine (returns_initfreemap (by omega) (by omega) rfl).bind ?_ (by rintro e t ⟨he, -⟩; cases he)
  rintro _ _ ⟨-, rfl⟩
  unfold writesuper
  split_ifs with hlen
  · exact Call.returns_bind.mpr (Call.returns_fail.mpr (by simp))
  · -- the disk has no blocks at all
    obtain rfl : N = 0 := by
      unfold Accepts at h
      unfold sfsFreemapblocks sfsFreemapbits at *
      omega
    have h0 : ((init 0 old).withMap (bitmapOf (used 0))).nblocks ≤ 0 := Nat.le_refl 0
    rw [Call.returns_bind, returns_diskwrite (by decide), if_pos h0]
    simp

/-- `mksfs` formats disks of the sizes in `Accepts`, and no others. -/
theorem main_accepts (hN : N < 4294967296)
    (h : main arg (init N old) = some (.ok (), t)) :
    Accepts N ∧ ∃ name, t.disk = image N name old := by
  cases hname : volname arg with
  | error e =>
    unfold main at h
    rw [hname] at h
    cases h
  | ok name =>
    by_cases hok : ¬Accepts N ∨ 32 ≤ name.length
    · exact absurd rfl ((returns_main_refuses hN hname hok).of_eq h)
    · have hacc : Accepts N := by
        by_contra hno
        exact hok (.inl hno)
      exact ⟨hacc, name, ((returns_main hacc hN hname (by omega)).of_eq h).2⟩

/-! ## The new volume -/

theorem word_superblock (hi : i < 2) :
    word (superblock name N) i = word (setWord (setWord zeros 0 0xabadf001) 1 N) i :=
  word_congr fun k hk => if_neg (by omega)

theorem image_super : image N name old 0 = superblock name N := rfl

theorem image_magic : word (image N name old 0) 0 = 0xabadf001 := by
  rw [image_super, word_superblock (by decide), word_setWord_of_ne (by decide)]
  exact word_setWord_self

theorem nblocks_image (hN : N < 4294967296) : sfsNblocks (image N name old) = N := by
  unfold sfsNblocks
  rw [image_super, word_superblock (by decide), word_setWord_self, Nat.mod_eq_of_lt hN]

theorem image_freemap (hb : b < sfsFreemapbits N) :
    bitmapIsset (sfsFreemapOf (image N name old) (sfsFreemapblocks N)) b = used N b := by
  have hbits : sfsFreemapbits N = sfsFreemapblocks N * 4096 := by
    unfold sfsFreemapblocks sfsFreemapbits
    omega
  have hbyte : sfsFreemapOf (image N name old) (sfsFreemapblocks N) (b / 8) =
      bitmapOf (used N) (b / 8) := by
    unfold sfsFreemapOf image
    rw [if_pos (by omega), if_neg (by omega), if_neg (by omega), if_pos (by omega)]
    exact congrArg _ (by omega)
  rw [bitmapIsset_congr hbyte, bitmapIsset_bitmapOf]

inductive BlockOp
  | balloc
  | bfree (diskblock : Nat)
deriving DecidableEq, Repr

/-- `sfs_balloc`, or `sfs_bfree` of a block that is allocated, with the list of those blocks. -/
def BlockStep (x : Sfs × List Nat) (op : BlockOp) (y : Sfs × List Nat) : Prop :=
  match op with
  | .balloc => ∃ r, sfsBalloc x.1 = some (r, y.1) ∧ y.2 = r.toOption.toList ++ x.2
  | .bfree b => b ∈ x.2 ∧ sfsBfree b x.1 = some (.ok (), y.1) ∧ y.2 = x.2.erase b

/-- The mounted volume: the blocks in use are those of a new volume and the allocated ones. -/
structure Fresh (N : Nat) (x : Sfs × List Nat) : Prop where
  nblocks : x.1.nblocks = N
  dBlocks : x.1.dBlocks = N
  nodup : x.2.Nodup
  inside : ∀ b ∈ x.2, b < sfsFreemapbits N ∧ used N b = false
  freemap : ∀ b < sfsFreemapbits N, bitmapIsset x.1.freemap b = (used N b || decide (b ∈ x.2))

variable {x y : Sfs × List Nat}

namespace Fresh

/-- A bit of the freemap that is clear is a block of the volume. -/
theorem lt_of_clear (hb : b < sfsFreemapbits N) (hu : used N b = false) :
    2 + sfsFreemapblocks N ≤ b ∧ b < N := by
  have := of_decide_eq_false hu
  omega

theorem balloc (h : Fresh N x) (hN : N < 4294967296) :
    sfsBalloc.Returns x.1 fun r t => Fresh N (t, r.toOption.toList ++ x.2) ∧
      Call.Settled (· = .enospc)
        (fun b => 2 + sfsFreemapblocks N ≤ b ∧ b < N ∧ b ∉ x.2) r := by
  obtain rfl : x.1.nblocks = N := h.nblocks
  unfold sfsBalloc
  rw [Call.returns_bindRead]
  dsimp only [id_eq]
  cases ha : bitmapAlloc (sfsFreemapbits x.1.nblocks) x.1.freemap with
  | none => exact Call.returns_fail.mpr ⟨h, rfl⟩
  | some b =>
    obtain ⟨hlt, hb⟩ := bitmapAlloc_clear ha (sfsFreemapbits_mod _)
    rw [h.freemap b hlt, Bool.or_eq_false_iff, decide_eq_false_iff_not] at hb
    obtain ⟨hfirst, hin⟩ := lt_of_clear hlt hb.1
    have hrange : (b * 512 / 512 + 1) % 4294967296 ≤ x.1.dBlocks := by
      rw [h.dBlocks]
      omega
    unfold sfsWriteblock sfsRwblockWrite
    simp only [Call.returns_bind, Call.returns_assert, Call.andthen_ok, Call.returns_read,
      Call.returns_modify, Call.returns_pure, id_eq]
    refine ⟨hin, hrange, ⟨rfl, h.dBlocks, List.nodup_cons.mpr ⟨hb.2, h.nodup⟩, ?_, ?_⟩,
      hfirst, hin, hb.2⟩
    · intro c hc
      obtain rfl | hc := List.mem_cons.mp hc
      · exact ⟨hlt, hb.1⟩
      · exact h.inside c hc
    · intro c hc
      change bitmapIsset (bitmapMark x.1.freemap b) c = (used _ c || decide (c ∈ b :: x.2))
      rw [bitmapIsset_mark]
      by_cases hcb : c = b
      · simp [hcb]
      · rw [update_of_ne hcb, h.freemap c hc]
        simp [hcb]

theorem bfree (h : Fresh N x) (hb : b ∈ x.2) {t : Sfs} (hs : sfsBfree b x.1 = some (.ok (), t)) :
    Fresh N (t, x.2.erase b) := by
  have hret : (sfsBfree b).Returns x.1 fun _ t => Fresh N (t, x.2.erase b) := by
    obtain ⟨hlt, hu⟩ := h.inside b hb
    unfold sfsBfree
    simp only [Call.returns_read, Call.returns_bind, Call.returns_assert, Call.andthen_ok,
      Call.returns_modify, id_eq]
    rw [h.nblocks, h.freemap b hlt]
    refine ⟨hlt, by simp [hb], h.nblocks, h.dBlocks, h.nodup.erase b,
      fun c hc => h.inside c (List.mem_of_mem_erase hc), fun c hc => ?_⟩
    change bitmapIsset (bitmapUnmark x.1.freemap b) c = (used N c || decide (c ∈ x.2.erase b))
    rw [bitmapIsset_unmark]
    by_cases hcb : c = b
    · rw [hcb, update_self, hu, decide_eq_false h.nodup.not_mem_erase]
      rfl
    · rw [update_of_ne hcb, h.freemap c hc]
      simp [List.mem_erase_of_ne hcb]
  exact hret.of_eq hs

theorem step (h : Fresh N x) (hN : N < 4294967296) {op : BlockOp} (hs : BlockStep x op y) :
    Fresh N y := by
  obtain ⟨t, held⟩ := y
  cases op with
  | balloc =>
    obtain ⟨r, hr, rfl⟩ := hs
    exact ((h.balloc hN).of_eq hr).1
  | bfree b =>
    obtain ⟨hb, hr, rfl⟩ := hs
    exact h.bfree hb hr

end Fresh

/-- **A new volume never allocates a reserved block.** The freemap that `mksfs` writes marks exactly
the superblock, the inode of the root, the freemap and the bits past the end. After a mount and any
run of `sfs_balloc` and of `sfs_bfree` of allocated blocks, `sfs_balloc` returns: a block of the
volume that is none of these and that is not allocated, or `ENOSPC`. -/
theorem fresh_volume {arg : List UInt8} (hN : N < 4294967296)
    (hmk : main arg (init N old) = some (.ok (), t)) :
    (∀ b < sfsFreemapbits N, bitmapIsset (sfsFreemapOf t.disk (sfsFreemapblocks N)) b = true ↔
      b = 0 ∨ b = 1 ∨ 2 ≤ b ∧ b < 2 + sfsFreemapblocks N ∨ N ≤ b) ∧
    ∀ kmallocs s, sfsDomount 512 (.blank t.disk N kmallocs) = some (.ok (), s) →
      ∀ ops x, Run BlockStep (s, []) ops x →
        sfsBalloc.Returns x.1 fun r _ => Call.Settled (· = .enospc)
          (fun b => 2 + sfsFreemapblocks N ≤ b ∧ b < N ∧ b ∉ x.2) r := by
  obtain ⟨hacc, name, hdisk⟩ := main_accepts hN hmk
  rw [hdisk]
  refine ⟨fun b hb => ?_, fun kmallocs s hmount ops x hrun => ?_⟩
  · rw [image_freemap hb]
    unfold used
    rw [decide_eq_true_eq]
    omega
  · have hs := (sfsDomount_eq N kmallocs image_magic (by rw [nblocks_image hN]; exact
      (hacc.blocks hN).2) hN).of_eq hmount
    obtain rfl : s = .mounted (image N name old) N kmallocs := hs
    have h0 : Fresh N (.mounted (image N name old) N kmallocs, []) := by
      refine ⟨Sfs.nblocks_mounting.trans (nblocks_image hN), rfl, List.nodup_nil, by simp,
        fun b hb => ?_⟩
      have hmap : (Sfs.mounted (image N name old) N kmallocs).freemap =
          sfsFreemapOf (image N name old) (sfsFreemapblocks N) :=
        congrArg (fun n => sfsFreemapOf _ (sfsFreemapblocks n)) (nblocks_image hN)
      rw [hmap, image_freemap hb]
      simp
    have h := hrun.invariant h0 fun _ _ _ h hs => h.step hN hs
    exact (h.balloc hN).mono fun _ _ hr => hr.2

/-- A volume of 16 blocks: the first three are reserved. -/
theorem fresh_volume_sixteen : ∃ t s, main [118] (init 16 fun _ => zeros) = some (.ok (), t) ∧
    sfsDomount 512 (.blank t.disk 16 fun _ => true) = some (.ok (), s) ∧
    sfsBalloc.Returns s fun r _ =>
      Call.Settled (· = .enospc) (fun b => 2 + sfsFreemapblocks 16 ≤ b ∧ b < 16 ∧ b ∉ []) r := by
  have hacc : Accepts 16 := .inl (by decide)
  obtain ⟨r, t, hmk, rfl, ht⟩ : (main [118]).Returns (init 16 fun _ => zeros) fun r t =>
      r = .ok () ∧ t.disk = image 16 [118] fun _ => zeros :=
    returns_main hacc (by decide) rfl (by decide)
  obtain ⟨r, s, hmount, hs⟩ := sfsDomount_eq 16 (fun _ => true) (D := t.disk)
    (by rw [ht]; exact image_magic) (by rw [ht, nblocks_image (by decide)]; decide) (by decide)
  cases r with
  | error e =>
    obtain ⟨-, k, -, hk⟩ := hs
    cases hk
  | ok _ =>
    exact ⟨t, s, hmk, hmount, (fresh_volume (by decide) hmk).2 _ s hmount [] (s, []) .nil⟩

end Mksfs

end OsPaging.Sfsck
