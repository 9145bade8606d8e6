import OsPaging.Fs.SfsCalls
import OsPaging.Fs.SfsStores

/-!
# The volume behind a mounted SFS

What a mounted file system stands for is one disk image: `Sfs.cur` has the inode in memory for
each inode that is loaded and the block on disk for every other block. It is the image that a
sync would leave. `SfsOk L s` is the invariant of a mounted file system with the inodes `L`: the
accounts of that image and the freemap in memory are exact (`volume`), and the house is in order
(`SfsHouse`): the table of vnodes has one vnode for an inode, a clean inode and a clean freemap
are on disk as they are in memory, the superblock is as it was mounted.

A state changes in three ways below the level of the vnode table: a block that is no inode is
written, the inode of a loaded vnode changes, the freemap changes. Each keeps the house in order.
-/

namespace OsPaging.Fs

open OsPaging.Lib Function

/-- The inode is loaded. -/
def Sfs.Opened (s : Sfs) (i : Nat) : Prop := ∃ p ∈ s.vnodes, (s.vn p).ino = i

/-- The image that the file system stands for. -/
def Sfs.cur (s : Sfs) (b : Nat) : Bytes :=
  match s.vnodes.find? fun p => (s.vn p).ino == b with
  | some p => (s.vn p).inode
  | none => s.disk b

/-- The blocks in use. -/
def Sfs.used (s : Sfs) (b : Nat) : Bool := bitmapIsset s.freemap b

/-- All but the accounts: the vnode table, the device, and what is on disk already. -/
structure SfsHouse (L : Nat → Prop) (s : Sfs) : Prop where
  distinct : ∀ p ∈ s.vnodes, ∀ q ∈ s.vnodes, (s.vn p).ino = (s.vn q).ino → p = q
  nodup : s.vnodes.Nodup
  fresh : ∀ p ∈ s.vnodes, p < s.nextVn
  counted : ∀ p ∈ s.vnodes, 0 < (s.vn p).refcount
  device : s.nblocks ≤ s.dBlocks
  sectors : s.dBlocks < 4294967296
  live : ∀ i, s.Opened i → L i
  clean : ∀ p ∈ s.vnodes, (s.vn p).dirty = false → s.disk (s.vn p).ino = (s.vn p).inode
  freemap : s.freemapdirty = false → ∀ j, j < sfsFreemapblocks s.nblocks → ∀ k, k < 512 →
    s.disk (2 + j) k = s.freemap (j * 512 + k)
  magic : word (s.disk 0) 0 = 0xabadf001
  nblocks : word (s.disk 0) 1 = s.nblocks
  super : s.superdirty = false
  last : ∀ i b, s.last i = some b → L i ∧ (¬s.Opened i → s.disk i = b)

/-- The invariant of a mounted file system with the inodes `L`. -/
structure SfsOk (L : Nat → Prop) (s : Sfs) : Prop extends SfsHouse L s where
  volume : SfsVolume s.nblocks s.cur s.used L

/-- What calls below the vnode table leave alone: the table, the numbers and the reference counts
in it, the superblock, and what is known of vnodes that are gone. -/
structure SfsFrame (s t : Sfs) : Prop where
  vnodes : t.vnodes = s.vnodes
  ino : ∀ p, (t.vn p).ino = (s.vn p).ino
  refcount : ∀ p, (t.vn p).refcount = (s.vn p).refcount
  sb : t.sb = s.sb
  nextVn : t.nextVn = s.nextVn
  last : t.last = s.last

variable {L : Nat → Prop} {s t u : Sfs} {p q b i j : Nat} {X : Bytes} {f : Bytes → Bytes}

namespace SfsFrame

theorem refl : SfsFrame s s := ⟨rfl, fun _ => rfl, fun _ => rfl, rfl, rfl, rfl⟩

variable (h : SfsFrame s t)
include h

theorem trans (h' : SfsFrame t u) : SfsFrame s u where
  vnodes := h'.vnodes.trans h.vnodes
  ino p := (h'.ino p).trans (h.ino p)
  refcount p := (h'.refcount p).trans (h.refcount p)
  sb := h'.sb.trans h.sb
  nextVn := h'.nextVn.trans h.nextVn
  last := h'.last.trans h.last

theorem nblocks : t.nblocks = s.nblocks := by
  unfold Sfs.nblocks
  rw [h.sb]

theorem opened : t.Opened i ↔ s.Opened i := by
  unfold Sfs.Opened
  rw [h.vnodes]
  exact exists_congr fun p => by rw [h.ino]

theorem mem (hp : p ∈ s.vnodes) : p ∈ t.vnodes := by rwa [h.vnodes]

end SfsFrame

/-! ## The image -/

theorem Sfs.cur_of_mem (hd : ∀ p ∈ s.vnodes, ∀ q ∈ s.vnodes, (s.vn p).ino = (s.vn q).ino → p = q)
    (hp : p ∈ s.vnodes) : s.cur (s.vn p).ino = (s.vn p).inode := by
  unfold Sfs.cur
  grind

theorem Sfs.cur_of_not_opened (hb : ¬s.Opened b) : s.cur b = s.disk b := by
  unfold Sfs.cur
  rw [List.find?_eq_none.mpr]
  intro p hp hpb
  exact hb ⟨p, hp, by simpa using hpb⟩

namespace SfsHouse

variable (h : SfsHouse L s)
include h

theorem cur_of_mem (hp : p ∈ s.vnodes) : s.cur (s.vn p).ino = (s.vn p).inode :=
  Sfs.cur_of_mem h.distinct hp

theorem live_of_mem (hp : p ∈ s.vnodes) : L (s.vn p).ino := h.live _ ⟨p, hp, rfl⟩

theorem not_opened (hb : ¬L b) : ¬s.Opened b := fun ho => hb (h.live b ho)

theorem inRange (hb : b < s.nblocks) : (b + 1) % 4294967296 ≤ s.dBlocks := by
  have := h.device
  grind

end SfsHouse

/-! ## Block I/O -/

theorem returns_sfsReadblock (h : SfsHouse L s) (hb : b < s.nblocks)
    {Q : Except Errno Bytes → Sfs → Prop} :
    (sfsReadblock b).Returns s Q ↔ Q (.ok (s.disk b)) s := by
  have hr := h.inRange hb
  unfold sfsReadblock sfsRwblockRead
  rw [Nat.mul_div_cancel b (by decide)]
  simp [hr]

/-- The state after a block was written. -/
def Sfs.put (s : Sfs) (b : Nat) (X : Bytes) : Sfs := { s with disk := update s.disk b X }

theorem returns_sfsWriteblock (h : SfsHouse L s) (hb : b < s.nblocks)
    {Q : Except Errno Unit → Sfs → Prop} :
    (sfsWriteblock b X).Returns s Q ↔ Q (.ok ()) (s.put b X) := by
  have hr := h.inRange hb
  unfold sfsWriteblock sfsRwblockWrite Sfs.put
  rw [Nat.mul_div_cancel b (by decide)]
  simp [hr]

/-! ## A block is written -/

theorem SfsFrame.put : SfsFrame s (s.put b X) :=
  ⟨rfl, fun _ => rfl, fun _ => rfl, rfl, rfl, rfl⟩

theorem Sfs.cur_put (hb : ¬s.Opened b) : (s.put b X).cur = update s.cur b X := by
  funext c
  by_cases hc : c = b
  · subst hc
    rw [update_self, Sfs.cur_of_not_opened (s := s.put c X) hb]
    exact update_self _ _ _
  · rw [update_of_ne hc]
    unfold Sfs.cur
    change (match s.vnodes.find? fun p => (s.vn p).ino == c with
      | some p => (s.vn p).inode
      | none => update s.disk b X c) = _
    rw [update_of_ne hc]

theorem SfsHouse.put (h : SfsHouse L s) (hd : SfsDataBlock s.nblocks b) (hb : ¬L b) :
    SfsHouse L (s.put b X) where
  distinct := h.distinct
  nodup := h.nodup
  fresh := h.fresh
  counted := h.counted
  device := h.device
  sectors := h.sectors
  live := h.live
  clean q hq hc := by
    have hne : (s.vn q).ino ≠ b := fun he => hb (he ▸ h.live_of_mem hq)
    exact (update_of_ne hne _ _).trans (h.clean q hq hc)
  freemap hc j hj k hk := by
    have hj' : j < sfsFreemapblocks s.nblocks := hj
    have hne : 2 + j ≠ b := by
      rintro rfl
      exact hd.2.2 ⟨by omega, by omega⟩
    have hput : (s.put b X).disk (2 + j) = s.disk (2 + j) := update_of_ne hne _ _
    rw [hput]
    exact h.freemap hc j hj k hk
  magic := by
    have hput : (s.put b X).disk 0 = s.disk 0 := update_of_ne hd.1.symm _ _
    rw [hput]
    exact h.magic
  nblocks := by
    have hput : (s.put b X).disk 0 = s.disk 0 := update_of_ne hd.1.symm _ _
    rw [hput]
    exact h.nblocks
  super := h.super
  last i c hi := by
    obtain ⟨hL, hc⟩ := h.last i c hi
    refine ⟨hL, fun ho => ?_⟩
    have hne : i ≠ b := fun he => hb (he ▸ hL)
    exact (update_of_ne hne _ _).trans (hc ho)

/-! ## An inode in memory changes -/

theorem SfsFrame.setInode : SfsFrame s (s.setInode p f) where
  vnodes := rfl
  ino q := by
    by_cases hq : q = p
    · subst hq
      simp [Sfs.setInode]
    · simp [Sfs.setInode, hq]
  refcount q := by
    by_cases hq : q = p
    · subst hq
      simp [Sfs.setInode]
    · simp [Sfs.setInode, hq]
  sb := rfl
  nextVn := rfl
  last := rfl

theorem Sfs.inode_setInode : ((s.setInode p f).vn p).inode = f (s.vn p).inode := by
  simp [Sfs.setInode]

theorem Sfs.vn_setInode_of_ne (hq : q ≠ p) : (s.setInode p f).vn q = s.vn q :=
  update_of_ne hq _ _

theorem SfsHouse.distinct_of_frame (h : SfsHouse L s) (hfr : SfsFrame s t) :
    ∀ q ∈ t.vnodes, ∀ r ∈ t.vnodes, (t.vn q).ino = (t.vn r).ino → q = r := by
  intro q hq r hr
  rw [hfr.vnodes] at hq hr
  rw [hfr.ino, hfr.ino]
  exact h.distinct q hq r hr

theorem SfsHouse.cur_setInode (h : SfsHouse L s) (hp : p ∈ s.vnodes) :
    (s.setInode p f).cur = update s.cur (s.vn p).ino (f (s.vn p).inode) := by
  have hfr : SfsFrame s (s.setInode p f) := .setInode
  funext b
  by_cases hb : s.Opened b
  · obtain ⟨q, hq, rfl⟩ := hb
    have hcur := Sfs.cur_of_mem (h.distinct_of_frame hfr) hq
    rw [hfr.ino] at hcur
    rw [hcur]
    by_cases hqp : q = p
    · subst hqp
      rw [update_self, Sfs.inode_setInode]
    · have hne : (s.vn q).ino ≠ (s.vn p).ino := fun he => hqp (h.distinct q hq p hp he)
      rw [update_of_ne hne, Sfs.vn_setInode_of_ne hqp, h.cur_of_mem hq]
  · have hne : b ≠ (s.vn p).ino := fun he => hb ⟨p, hp, he.symm⟩
    rw [update_of_ne hne, Sfs.cur_of_not_opened hb,
      Sfs.cur_of_not_opened (s := s.setInode p f) fun ho => hb (hfr.opened.mp ho)]
    rfl

theorem SfsHouse.setInode (h : SfsHouse L s) : SfsHouse L (s.setInode p f) := by
  have hfr : SfsFrame s (s.setInode p f) := .setInode
  refine { h with
    distinct := h.distinct_of_frame hfr, counted := ?_, live := ?_, clean := ?_, last := ?_ }
  · intro q hq
    rw [hfr.refcount]
    exact h.counted q hq
  · intro j hj
    exact h.live j (hfr.opened.mp hj)
  · intro q hq hc
    by_cases hqp : q = p
    · subst hqp
      exact absurd hc (by simp [Sfs.setInode])
    · rw [Sfs.vn_setInode_of_ne hqp] at hc ⊢
      exact h.clean q hq hc
  · intro j c hj
    obtain ⟨hL, hc⟩ := h.last j c hj
    exact ⟨hL, fun ho => hc fun ho' => ho (hfr.opened.mpr ho')⟩

/-! ## The freemap changes -/

/-- The state after the freemap changed. -/
def Sfs.withFreemap (s : Sfs) (v : Bytes) : Sfs := { s with freemap := v, freemapdirty := true }

theorem SfsFrame.withFreemap {v : Bytes} : SfsFrame s (s.withFreemap v) :=
  ⟨rfl, fun _ => rfl, fun _ => rfl, rfl, rfl, rfl⟩

theorem SfsHouse.withFreemap {v : Bytes} (h : SfsHouse L s) : SfsHouse L (s.withFreemap v) :=
  { h with freemap := fun hc => absurd hc (by simp [Sfs.withFreemap]) }

/-! ## The `uio` of the call moves on -/

/-- The state with another `uio`. -/
def Sfs.withUio (s : Sfs) (v : Uio) : Sfs := { s with uio := v }

theorem SfsFrame.withUio {v : Uio} : SfsFrame s (s.withUio v) :=
  ⟨rfl, fun _ => rfl, fun _ => rfl, rfl, rfl, rfl⟩

theorem SfsOk.withUio {v : Uio} (h : SfsOk L s) : SfsOk L (s.withUio v) := { h with }

/-! ## Work on one file -/

/-- What a call that works on file `i` does: the invariant stays, and the other files are
untouched. -/
structure SfsWork (L : Nat → Prop) (i : Nat) (s t : Sfs) : Prop where
  ok : SfsOk L t
  frame : SfsFrame s t
  others : ∀ j, L j → j ≠ i → SfsSame s.cur t.cur j

/-- The same, and file `i` reads as before. -/
structure SfsQuiet (L : Nat → Prop) (i : Nat) (s t : Sfs) : Prop extends SfsWork L i s t where
  file : sfsFile t.cur i = sfsFile s.cur i
  uio : t.uio = s.uio

theorem SfsWork.refl (h : SfsOk L s) : SfsWork L i s s := ⟨h, .refl, fun _ _ _ => .refl⟩

theorem SfsWork.trans (h : SfsWork L i s t) (h' : SfsWork L i t u) : SfsWork L i s u :=
  ⟨h'.ok, h.frame.trans h'.frame, fun j hj hne => (h.others j hj hne).trans (h'.others j hj hne)⟩

/-- Work on a file from a house in order and a change of the image. -/
theorem SfsWork.of_change (h : SfsHouse L t) (hc : SfsChange s.nblocks L i s.cur t.cur t.used)
    (hfr : SfsFrame s t) : SfsWork L i s t := by
  refine ⟨⟨h, ?_⟩, hfr, hc.others⟩
  rw [hfr.nblocks]
  exact hc.volume

theorem SfsQuiet.refl (h : SfsOk L s) : SfsQuiet L i s s := ⟨.refl h, rfl, rfl⟩

theorem SfsQuiet.trans (h : SfsQuiet L i s t) (h' : SfsQuiet L i t u) : SfsQuiet L i s u :=
  ⟨h.toSfsWork.trans h'.toSfsWork, h'.file.trans h.file, h'.uio.trans h.uio⟩

end OsPaging.Fs
