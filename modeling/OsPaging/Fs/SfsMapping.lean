import OsPaging.Fs.SfsState

/-!
# SFS: what block allocation and block mapping do

Specifications of `sfs_balloc`, `sfs_bfree`, `sfs_bmap` and `sfs_itrunc` over the image of the
volume.

* `sfs_bmap` without allocation reads the block map of the file. With allocation it maps a block
  that reads as zeros, so that no file changes; on `ENOSPC` it may leave an indirect block without
  entries behind, which the file owns.
* `sfs_itrunc` unmaps blocks: of the direct ones those from `blocklen` on, of the others those
  after `blocklen`. While it goes through the indirect block, the freemap in memory runs ahead of
  the image; the accounts are exact again when the block was written or freed.
-/

namespace OsPaging.Fs

open OsPaging.Lib Function

open Call (returns_bind andthen_ok returns_bindRead returns_pure)

variable {L : Nat → Prop} {s t u : Sfs} {p q b i j k : Nat} {X : Bytes} {f : Bytes → Bytes}
variable {Q : Except Errno Nat → Sfs → Prop} {D : Nat → Bytes} {blocklen : Nat}
    {hasnonzero iddirty : Bool}

/-! ## Blocks of a file -/

namespace SfsOk

variable (h : SfsOk L s)
include h

theorem not_live_of_free (hb : s.used b = false) : ¬L b := fun hL =>
  h.volume.not_owns_of_free hL hb .self

theorem disk_of_not_live (hb : ¬L b) : s.disk b = s.cur b :=
  (Sfs.cur_of_not_opened (h.not_opened hb)).symm

theorem not_live_indirect (hi : L i) (h0 : sfiIndirect (s.cur i) ≠ 0) :
    ¬L (sfiIndirect (s.cur i)) := fun hL => h.volume.indirect_ne hi hL h0 rfl

theorem not_live_blockAt (hi : L i) (h0 : sfsBlockAt s.cur i k ≠ 0) :
    ¬L (sfsBlockAt s.cur i k) := fun hL => h.volume.blockAt_ne hi hL h0 rfl

theorem lt_of_owns (hi : L i) (hb : SfsOwns s.cur i b) : b < s.nblocks :=
  (h.volume.dataBlock_of_owns hi hb).2.1

theorem lt_freemapbits (hi : L i) (hb : SfsOwns s.cur i b) : b < sfsFreemapbits s.nblocks :=
  (h.lt_of_owns hi hb).trans_le h.volume.le_freemapbits

end SfsOk

/-! ## `sfs_balloc` and `sfs_bfree` -/

/-- The state after block `b` was allocated. -/
def Sfs.alloc (s : Sfs) (b : Nat) : Sfs :=
  (s.withFreemap (bitmapMark s.freemap b)).put b zeros

theorem SfsFrame.alloc : SfsFrame s (s.alloc b) := SfsFrame.withFreemap.trans .put

@[simp] theorem Sfs.used_alloc : (s.alloc b).used = update s.used b true := bitmapIsset_mark

theorem SfsOk.cur_alloc (h : SfsOk L s) (hb : s.used b = false) :
    (s.alloc b).cur = update s.cur b zeros :=
  Sfs.cur_put (s := s.withFreemap (bitmapMark s.freemap b)) (h.not_opened (h.not_live_of_free hb))

theorem SfsOk.house_alloc (h : SfsOk L s) (hb : s.used b = false)
    (hlt : b < sfsFreemapbits s.nblocks) : SfsHouse L (s.alloc b) :=
  h.toSfsHouse.withFreemap.put (h.volume.dataBlock_of_free hb hlt) (h.not_live_of_free hb)

theorem sfsFreemapbits_mod (n : Nat) : sfsFreemapbits n % 8 = 0 := by
  unfold sfsFreemapbits
  omega

theorem returns_sfsBalloc (h : SfsOk L s) (hfull : Q (.error .enospc) s)
    (hsome : ∀ b, s.used b = false → b < sfsFreemapbits s.nblocks → Q (.ok b) (s.alloc b)) :
    sfsBalloc.Returns s Q := by
  unfold sfsBalloc
  rw [returns_bindRead]
  dsimp only [id_eq]
  cases ha : bitmapAlloc (sfsFreemapbits s.nblocks) s.freemap with
  | none => exact Call.returns_fail.mpr hfull
  | some b =>
    obtain ⟨hlt, hb⟩ := bitmapAlloc_clear ha (sfsFreemapbits_mod _)
    have hN : b < s.nblocks := (h.volume.dataBlock_of_free hb hlt).2.1
    have hh : SfsHouse L (s.withFreemap (bitmapMark s.freemap b)) := h.toSfsHouse.withFreemap
    rw [Call.returns_bindModify, Call.returns_bindAssert, returns_bind]
    exact ⟨hN, (returns_sfsWriteblock hh hN).mpr (returns_pure.mpr (hsome b hb hlt))⟩

/-- The state after block `b` was freed. -/
def Sfs.free (s : Sfs) (b : Nat) : Sfs := s.withFreemap (bitmapUnmark s.freemap b)

theorem SfsFrame.free : SfsFrame s (s.free b) := .withFreemap

@[simp] theorem Sfs.used_free : (s.free b).used = update s.used b false := bitmapIsset_unmark

@[simp] theorem Sfs.cur_free : (s.free b).cur = s.cur := rfl

@[simp] theorem Sfs.vn_free : (s.free b).vn = s.vn := rfl

theorem SfsHouse.free (h : SfsHouse L s) : SfsHouse L (s.free b) := h.withFreemap

theorem returns_sfsBfree (hlt : b < sfsFreemapbits s.nblocks) (hb : s.used b = true)
    {Q : Except Errno Unit → Sfs → Prop} :
    (sfsBfree b).Returns s Q ↔ Q (.ok ()) (s.free b) := by
  have hb : bitmapIsset s.freemap b = true := hb
  unfold sfsBfree
  simp [hlt, hb, Sfs.free, Sfs.withFreemap]

/-! ## `sfs_bmap` -/

theorem returns_sfsHandBack_zero : (sfsHandBack 0).Returns s Q ↔ Q (.ok 0) s := by
  unfold sfsHandBack
  rw [if_pos rfl, returns_pure]

theorem returns_sfsHandBack (h : SfsOk L s) (hi : L i) (hb : SfsOwns s.cur i b) (h0 : b ≠ 0) :
    (sfsHandBack b).Returns s Q ↔ Q (.ok b) s := by
  have hlt := h.lt_of_owns hi hb
  have hu : bitmapIsset s.freemap b = true := h.volume.used_of_owns hi hb
  unfold sfsHandBack sfsBused
  rw [if_neg h0]
  simp [hlt, hu]

theorem returns_sfsHandBack_blockAt (h : SfsOk L s) (hi : L i) :
    (sfsHandBack (sfsBlockAt s.cur i k)).Returns s Q ↔ Q (.ok (sfsBlockAt s.cur i k)) s := by
  by_cases h0 : sfsBlockAt s.cur i k = 0
  · rw [h0]
    exact returns_sfsHandBack_zero
  · exact returns_sfsHandBack h hi (.data h0) h0

theorem sfsBlockAt_direct (hk : k < 15) : sfsBlockAt D i k = sfiDirect (D i) k :=
  if_pos hk

theorem sfsBlockAt_indirect (hk : 15 ≤ k) (hk' : k < 143) (h0 : sfiIndirect (D i) ≠ 0) :
    sfsBlockAt D i k = word (D (sfiIndirect (D i))) (k - 15) := by
  rw [sfsBlockAt, if_neg (by omega), if_pos ⟨hk', h0⟩]

theorem sfsBlockAt_none (hk : 15 ≤ k) (h0 : sfiIndirect (D i) = 0) : sfsBlockAt D i k = 0 := by
  rw [sfsBlockAt, if_neg (by omega), if_neg fun hc => hc.2 h0]

/-- A block that is mapped is found, and without allocation also one that is not. -/
theorem returns_sfsBmap_found {doalloc : Bool} (h : SfsOk L s) (hp : p ∈ s.vnodes) (hk : k < 143)
    (h0 : doalloc = true → sfsBlockAt s.cur (s.vn p).ino k ≠ 0) :
    (sfsBmap p k doalloc).Returns s Q ↔ Q (.ok (sfsBlockAt s.cur (s.vn p).ino k)) s := by
  have hi := h.live_of_mem hp
  have hcur := h.cur_of_mem hp
  generalize (s.vn p).ino = i at h0 hi hcur ⊢
  unfold sfsBmap
  by_cases hk15 : k < 15
  · rw [sfsBlockAt_direct hk15] at h0 ⊢
    unfold sfsBmapDirect
    rw [if_pos hk15, returns_bindRead, ← hcur, if_neg fun hc => h0 hc.2 hc.1,
      ← sfsBlockAt_direct (D := s.cur) hk15]
    exact returns_sfsHandBack_blockAt h hi
  · rw [if_neg hk15, if_neg (by omega), returns_bindRead, ← hcur]
    by_cases hind : sfiIndirect (s.cur i) = 0
    · have hnone := sfsBlockAt_none (D := s.cur) (by omega : 15 ≤ k) hind
      rw [if_pos hind, if_neg fun hd => h0 hd hnone, returns_pure, hnone]
    · have hlt := h.lt_of_owns hi (.indirect hind)
      rw [sfsBlockAt_indirect (by omega) hk hind] at h0
      rw [if_neg hind, returns_bind, returns_sfsReadblock h.toSfsHouse hlt, andthen_ok,
        h.disk_of_not_live (h.not_live_indirect hi hind)]
      unfold sfsBmapLeaf
      rw [Nat.mod_eq_of_lt (by omega : k - 15 < 128), if_neg fun hc => h0 hc.2 hc.1,
        ← sfsBlockAt_indirect (by omega) hk hind]
      exact returns_sfsHandBack_blockAt h hi

theorem returns_sfsBmap_efbig {doalloc : Bool} (hk : 143 ≤ k) :
    (sfsBmap p k doalloc).Returns s Q ↔ Q (.error .efbig) s := by
  unfold sfsBmap
  rw [if_neg (by omega), if_pos (by omega), Call.returns_fail]

/-- The errors of a mapping with allocation. -/
def SfsNoBlock (k : Nat) (e : Errno) : Prop := e = .enospc ∨ e = .efbig ∧ 143 ≤ k

/-- What `sfs_bmap` with allocation returns: a block of the file. -/
def SfsGotBlock (i k : Nat) (t : Sfs) (b : Nat) : Prop :=
  k < 143 ∧ b ≠ 0 ∧ sfsBlockAt t.cur i k = b

/-- The block is not an inode, so that memory holds no newer copy of it. -/
theorem SfsGotBlock.on_disk (hb : SfsGotBlock i k t b) (h : SfsOk L t) (hi : L i) :
    b < t.nblocks ∧ t.disk b = t.cur b := by
  obtain ⟨-, h0, rfl⟩ := hb
  exact ⟨h.lt_of_owns hi (.data h0), h.disk_of_not_live (h.not_live_blockAt hi h0)⟩

theorem returns_sfsHandBack_got (h : SfsOk L t) (hi : L i) (hb : SfsGotBlock i k t b)
    (hQ : Q (.ok b) t) : (sfsHandBack b).Returns t Q := by
  obtain ⟨-, h0, rfl⟩ := hb
  exact (returns_sfsHandBack_blockAt h hi).mpr hQ

theorem SfsOk.alloc_setInode (h : SfsOk L s) (hp : p ∈ s.vnodes) (hb : s.used b = false)
    (hlt : b < sfsFreemapbits s.nblocks)
    (hc : SfsChange s.nblocks L (s.vn p).ino s.cur (update (update s.cur b zeros) (s.vn p).ino
      (f (s.cur (s.vn p).ino))) (update s.used b true)) :
    ((s.alloc b).setInode p f).cur =
        update (update s.cur b zeros) (s.vn p).ino (f (s.cur (s.vn p).ino)) ∧
      SfsWork L (s.vn p).ino s ((s.alloc b).setInode p f) := by
  have hh := h.house_alloc hb hlt
  have hcur : ((s.alloc b).setInode p f).cur =
      update (update s.cur b zeros) (s.vn p).ino (f (s.cur (s.vn p).ino)) := by
    rw [hh.cur_setInode (by exact hp), h.cur_alloc hb, h.cur_of_mem hp]
    rfl
  refine ⟨hcur, .of_change hh.setInode ?_ (SfsFrame.alloc.trans .setInode)⟩
  rw [hcur]
  exact Sfs.used_alloc (s := s) ▸ hc

theorem returns_sfsBmapDirect (h : SfsOk L s) (hp : p ∈ s.vnodes) (hk : k < 15) :
    (sfsBmapDirect p k true).Returns s fun r t => SfsQuiet L (s.vn p).ino s t ∧
      Call.Settled (SfsNoBlock k) (SfsGotBlock (s.vn p).ino k t) r := by
  have hi := h.live_of_mem hp
  unfold sfsBmapDirect
  rw [returns_bindRead, ← h.cur_of_mem hp]
  by_cases h0 : sfiDirect (s.cur (s.vn p).ino) k = 0
  · rw [if_pos ⟨h0, rfl⟩, returns_bind]
    refine returns_sfsBalloc h ⟨.refl h, .inl rfl⟩ fun b hb hlt => ?_
    rw [andthen_ok, Call.returns_bindModify]
    obtain ⟨hchange, hblk, hfile⟩ := h.volume.mapDirect hi hb hlt hk h0 rfl
    obtain ⟨hcur, hwork⟩ := h.alloc_setInode (f := (setWord · (2 + k) b)) hp hb hlt hchange
    have hgot : SfsGotBlock (s.vn p).ino k ((s.alloc b).setInode p (setWord · (2 + k) b)) b :=
      ⟨by omega, (h.volume.dataBlock_of_free hb hlt).1, by rw [hcur, hblk, update_self]⟩
    exact returns_sfsHandBack_got hwork.ok hi hgot ⟨⟨hwork, by rw [hcur, hfile], rfl⟩, hgot⟩
  · rw [if_neg fun hc => h0 hc.1]
    have hgot : SfsGotBlock (s.vn p).ino k s (sfiDirect (s.cur (s.vn p).ino) k) :=
      ⟨by omega, h0, sfsBlockAt_direct hk⟩
    exact returns_sfsHandBack_got h hi hgot ⟨.refl h, hgot⟩

/-- The last part of `sfs_bmap`, once the file has an indirect block. -/
theorem returns_sfsBmapLeaf (h : SfsOk L s) (hi : L i) (hk : 15 ≤ k) (hk' : k < 143)
    (hind : sfiIndirect (s.cur i) ≠ 0) :
    (sfsBmapLeaf (sfiIndirect (s.cur i)) (s.cur (sfiIndirect (s.cur i))) (k - 15) true).Returns s
      fun r t => SfsQuiet L i s t ∧ Call.Settled (SfsNoBlock k) (SfsGotBlock i k t) r := by
  have hleaf := sfsBlockAt_indirect (i := i) (D := s.cur) hk hk' hind
  have hlt' := h.lt_of_owns hi (.indirect hind)
  have hnot := h.not_live_indirect hi hind
  have hdb := h.volume.dataBlock_of_owns hi (.indirect hind)
  unfold sfsBmapLeaf
  by_cases h0 : sfsBlockAt s.cur i k = 0
  · rw [if_pos ⟨hleaf ▸ h0, rfl⟩, returns_bind]
    refine returns_sfsBalloc h ⟨.refl h, .inl rfl⟩ fun b hb hlt => ?_
    have hb0 : b ≠ 0 := (h.volume.dataBlock_of_free hb hlt).1
    have hh := h.house_alloc hb hlt
    obtain ⟨hchange, hblk, hfile⟩ := h.volume.mapLeaf hi hb hlt hk hk' hind h0 rfl
    rw [andthen_ok, returns_bind, returns_sfsWriteblock hh hlt', andthen_ok]
    generalize hX : setWord (s.cur (sfiIndirect (s.cur i))) (k - 15) b = X at hchange hblk hfile ⊢
    have hcur : ((s.alloc b).put (sfiIndirect (s.cur i)) X).cur =
        update (update s.cur b zeros) (sfiIndirect (s.cur i)) X := by
      rw [Sfs.cur_put (hh.not_opened hnot), h.cur_alloc hb]
    have hwork : SfsWork L i s ((s.alloc b).put (sfiIndirect (s.cur i)) X) := by
      refine .of_change (hh.put hdb hnot) ?_ (SfsFrame.alloc.trans .put)
      rw [hcur]
      exact Sfs.used_alloc (s := s) ▸ hchange
    have hgot : SfsGotBlock i k ((s.alloc b).put (sfiIndirect (s.cur i)) X) b :=
      ⟨hk', hb0, by rw [hcur, hblk, update_self]⟩
    exact returns_sfsHandBack_got hwork.ok hi hgot ⟨⟨hwork, by rw [hcur, hfile], rfl⟩, hgot⟩
  · rw [if_neg fun hc => h0 (hleaf.trans hc.1)]
    have hgot : SfsGotBlock i k s (word (s.cur (sfiIndirect (s.cur i))) (k - 15)) :=
      ⟨hk', hleaf ▸ h0, hleaf⟩
    exact returns_sfsHandBack_got h hi hgot ⟨.refl h, hgot⟩

/-- `sfs_bmap` with allocation returns a block of the file; no file changes, but for the blocks
that it owns. -/
theorem returns_sfsBmap_alloc (h : SfsOk L s) (hp : p ∈ s.vnodes) :
    (sfsBmap p k true).Returns s fun r t => SfsQuiet L (s.vn p).ino s t ∧
      Call.Settled (SfsNoBlock k) (SfsGotBlock (s.vn p).ino k t) r := by
  by_cases hbig : 143 ≤ k
  · exact (returns_sfsBmap_efbig hbig).mpr ⟨.refl h, .inr ⟨rfl, hbig⟩⟩
  have hi := h.live_of_mem hp
  unfold sfsBmap
  by_cases hk15 : k < 15
  · rw [if_pos hk15]
    exact returns_sfsBmapDirect h hp hk15
  rw [if_neg hk15, if_neg (by omega), returns_bindRead, ← h.cur_of_mem hp,
    Nat.mod_eq_of_lt (by omega : k - 15 < 128)]
  by_cases h0 : sfiIndirect (s.cur (s.vn p).ino) = 0
  · rw [if_pos h0, if_pos rfl, returns_bind]
    refine returns_sfsBalloc h ⟨.refl h, .inl rfl⟩ fun b hb hlt => ?_
    rw [andthen_ok, Call.returns_bindModify]
    obtain ⟨hchange, -, hfile⟩ := h.volume.mapIndirect hi hb hlt h0 rfl
    obtain ⟨hcur, hwork⟩ := h.alloc_setInode (f := (setWord · 17 b)) hp hb hlt hchange
    have hquiet : SfsQuiet L (s.vn p).ino s ((s.alloc b).setInode p (setWord · 17 b)) :=
      ⟨hwork, by rw [hcur, hfile], rfl⟩
    -- the new indirect block is `b`, and reads as zeros
    have hind : sfiIndirect (((s.alloc b).setInode p (setWord · 17 b)).cur (s.vn p).ino) = b := by
      rw [hcur, update_self, sfiIndirect_setIndirect (h.volume.lt_of_free hb hlt)]
    have hzero : ((s.alloc b).setInode p (setWord · 17 b)).cur b = zeros := by
      rw [hcur, update_of_ne (h.volume.ne_of_free hi hb), update_self]
    have hleaf := returns_sfsBmapLeaf (k := k) hwork.ok hi (by omega) (by omega)
      (by rw [hind]; exact (h.volume.dataBlock_of_free hb hlt).1)
    rw [hind, hzero] at hleaf
    refine hleaf.mono fun r t ht => ⟨hquiet.trans ht.1, ht.2⟩
  · have hlt := h.lt_of_owns hi (.indirect h0)
    rw [if_neg h0, returns_bind, returns_sfsReadblock h.toSfsHouse hlt, andthen_ok,
      h.disk_of_not_live (h.not_live_indirect hi h0)]
    exact returns_sfsBmapLeaf h hi (by omega) (by omega) h0

/-! ## `sfs_itrunc` -/

/-- File `i` gives up its blocks `k` with `S k` and keeps the others. -/
structure SfsTrims (L : Nat → Prop) (i : Nat) (S : Nat → Prop) (s t : Sfs) : Prop
    extends SfsWork L i s t where
  uio : t.uio = s.uio
  type : sfiType (t.cur i) = sfiType (s.cur i)
  links : sfiLinkcount (t.cur i) = sfiLinkcount (s.cur i)
  gone : ∀ k, S k → sfsBlockAt t.cur i k = 0
  kept : ∀ k, ¬S k → sfsBlockAt t.cur i k = sfsBlockAt s.cur i k

variable {S S' : Nat → Prop}

theorem SfsTrims.refl (h : SfsOk L s) (hS : ∀ k, S k → sfsBlockAt s.cur i k = 0) :
    SfsTrims L i S s s :=
  ⟨.refl h, rfl, rfl, rfl, hS, fun _ _ => rfl⟩

theorem SfsTrims.trans (h : SfsTrims L i S s t) (h' : SfsTrims L i S' t u) :
    SfsTrims L i (fun k => S k ∨ S' k) s u where
  toSfsWork := h.toSfsWork.trans h'.toSfsWork
  uio := h'.uio.trans h.uio
  type := h'.type.trans h.type
  links := h'.links.trans h.links
  gone k hk := by
    by_cases hk' : S' k
    · exact h'.gone k hk'
    · rw [h'.kept k hk', h.gone k (hk.resolve_right hk')]
  kept k hk := by
    rw [h'.kept k fun hk' => hk (.inr hk'), h.kept k fun hk' => hk (.inl hk')]

theorem SfsTrims.congr (h : SfsTrims L i S s t) (hS : ∀ k, k < 143 → (S k ↔ S' k)) :
    SfsTrims L i S' s t where
  toSfsWork := h.toSfsWork
  uio := h.uio
  type := h.type
  links := h.links
  gone k hk := by
    by_cases hk' : k < 143
    · exact h.gone k ((hS k hk').mpr hk)
    · exact sfsBlockAt_of_ge (by omega)
  kept k hk := by
    by_cases hk' : k < 143
    · exact h.kept k fun hc => hk ((hS k hk').mp hc)
    · rw [sfsBlockAt_of_ge (by omega), sfsBlockAt_of_ge (by omega)]

/-- A block is freed and taken out of the inode; the freemap may be ahead of the image. -/
theorem SfsOk.free_setInode (h : SfsOk L s) (hp : p ∈ s.vnodes) (hh : SfsHouse L u)
    (hsame : u.cur = s.cur ∧ u.vn = s.vn) (hfr : SfsFrame s u)
    (hc : SfsChange s.nblocks L (s.vn p).ino s.cur
      (update s.cur (s.vn p).ino (f (s.cur (s.vn p).ino))) (u.free b).used) :
    ((u.free b).setInode p f).cur = update s.cur (s.vn p).ino (f (s.cur (s.vn p).ino)) ∧
      SfsWork L (s.vn p).ino s ((u.free b).setInode p f) := by
  have hh : SfsHouse L (u.free b) := hh.free
  have hcur : ((u.free b).setInode p f).cur =
      update s.cur (s.vn p).ino (f (s.cur (s.vn p).ino)) := by
    rw [hh.cur_setInode (hfr.mem hp), Sfs.vn_free, Sfs.cur_free, hsame.1, hsame.2, h.cur_of_mem hp]
  refine ⟨hcur, .of_change hh.setInode ?_ (hfr.trans (SfsFrame.free.trans .setInode))⟩
  rw [hcur]
  exact hc

theorem SfsOk.trimDirect (h : SfsOk L s) (hp : p ∈ s.vnodes) (hk : k < 15)
    (h0 : sfiDirect (s.cur (s.vn p).ino) k ≠ 0) :
    SfsTrims L (s.vn p).ino (· = k) s
      ((s.free (sfiDirect (s.cur (s.vn p).ino) k)).setInode p (setWord · (2 + k) 0)) := by
  obtain ⟨hchange, hblk⟩ := h.volume.unmapDirect (h.live_of_mem hp) hk h0 rfl
  obtain ⟨hcur, hwork⟩ := h.free_setInode (f := (setWord · (2 + k) 0)) hp h.toSfsHouse ⟨rfl, rfl⟩
    .refl (Sfs.used_free (s := s) ▸ hchange)
  refine ⟨hwork, rfl, ?_, ?_, ?_, fun l hl => ?_⟩
  · rw [hcur, update_self, sfiType_setDirect]
  · rw [hcur, update_self, sfiLinkcount_setDirect]
  · rintro l rfl
    rw [hcur, hblk, update_self]
  · rw [hcur, hblk, update_of_ne hl]

theorem returns_sfsItruncDirect (left c : Nat) (h : SfsOk L s) (hp : p ∈ s.vnodes)
    (hc : c + left ≤ 15) :
    (sfsItruncDirect p blocklen left c).Returns s fun r t => r = .ok () ∧
      SfsTrims L (s.vn p).ino (fun k => c ≤ k ∧ k < c + left ∧ blocklen ≤ k) s t := by
  induction left generalizing s c with
  | zero =>
    refine returns_pure.mpr ⟨rfl, .refl h fun k hk => ?_⟩
    omega
  | succ left ih =>
    have hi := h.live_of_mem hp
    have hcur := h.cur_of_mem hp
    unfold sfsItruncDirect
    rw [returns_bindRead, ← hcur]
    by_cases hfree : blocklen ≤ c ∧ sfiDirect (s.cur (s.vn p).ino) c ≠ 0
    · obtain ⟨hle, h0⟩ := hfree
      have hown : SfsOwns s.cur (s.vn p).ino (sfiDirect (s.cur (s.vn p).ino) c) := by
        rw [← sfsBlockAt_direct (D := s.cur) (by omega : c < 15)] at h0 ⊢
        exact .data h0
      have htrim := h.trimDirect hp (by omega) h0
      rw [if_pos ⟨hle, h0⟩, returns_bind, returns_sfsBfree (h.lt_freemapbits hi hown)
        (h.volume.used_of_owns hi hown), andthen_ok, Call.returns_bindModify]
      refine (ih (c + 1) htrim.ok (htrim.frame.mem hp) (by omega)).mono fun r t ht => ⟨ht.1, ?_⟩
      have ht := ht.2
      rw [htrim.frame.ino] at ht
      refine (htrim.trans ht).congr fun k _ => ?_
      omega
    · rw [if_neg hfree]
      refine (ih (c + 1) h hp (by omega)).mono fun r t ht => ⟨ht.1, ?_⟩
      -- block `c` is kept or was not there
      have hone : SfsTrims L (s.vn p).ino (fun k => k = c ∧ blocklen ≤ k) s s := by
        refine .refl h fun k hk => ?_
        obtain ⟨rfl, hle⟩ := hk
        rw [sfsBlockAt_direct (by omega)]
        by_contra h0
        exact hfree ⟨hle, h0⟩
      refine (hone.trans ht.2).congr fun k _ => ?_
      omega

/-- The state of `sfs_itrunc` in the indirect block of file `i` with entry `j` next: the freemap
has lost the blocks of the entries that were cleared in the buffer `X`. -/
structure SfsLeaves (L : Nat → Prop) (i blocklen : Nat) (s : Sfs) (j : Nat) (u : Sfs) (X : Bytes)
    (hasnonzero iddirty : Bool) : Prop where
  house : SfsHouse L u
  cur : u.cur = s.cur
  frame : SfsFrame s u
  uio : u.uio = s.uio
  vn : u.vn = s.vn
  used : ∀ b, u.used b = true ↔ s.used b = true ∧
    ¬(b ≠ 0 ∧ ∃ k, (15 ≤ k ∧ k < 15 + j ∧ blocklen < k) ∧ sfsBlockAt s.cur i k = b)
  entries : ∀ l, l < 128 → word X l = if l < j ∧ blocklen < 15 + l then 0
    else word (s.cur (sfiIndirect (s.cur i))) l
  nonzero : hasnonzero = true ↔ ∃ l < j, word X l ≠ 0
  clean : iddirty = false → X = s.cur (sfiIndirect (s.cur i))

theorem SfsOk.leaves_start (h : SfsOk L s) :
    SfsLeaves L i blocklen s 0 s (s.cur (sfiIndirect (s.cur i))) false false := by
  refine ⟨h.toSfsHouse, rfl, .refl, rfl, rfl, fun b => ?_, fun l _ => ?_, ?_, fun _ => rfl⟩
  · grind
  · rw [if_neg (by omega)]
  · simp

theorem SfsLeaves.word_next (hj : j < 128) (hind : sfiIndirect (s.cur i) ≠ 0)
    (hl : SfsLeaves L i blocklen s j u X hasnonzero iddirty) :
    word X j = sfsBlockAt s.cur i (15 + j) := by
  rw [hl.entries j hj, if_neg (by omega), sfsBlockAt_indirect (by omega) (by omega) hind,
    Nat.add_sub_cancel_left]

theorem SfsLeaves.free (h : SfsOk L s) (hi : L i) (hind : sfiIndirect (s.cur i) ≠ 0) (hj : j < 128)
    (hl : SfsLeaves L i blocklen s j u X hasnonzero iddirty) (hlt : blocklen < 15 + j)
    (h0 : word X j ≠ 0) :
    word X j < sfsFreemapbits u.nblocks ∧ u.used (word X j) = true ∧
      SfsLeaves L i blocklen s (j + 1) (u.free (word X j)) (setWord X j 0) hasnonzero true := by
  have hX := hl.word_next hj hind
  have hb0 : sfsBlockAt s.cur i (15 + j) ≠ 0 := hX ▸ h0
  have hother : ∀ k, sfsBlockAt s.cur i k = sfsBlockAt s.cur i (15 + j) → k = 15 + j :=
    fun k hk => h.volume.blockAt_inj hi hb0 hk
  refine ⟨?_, ?_, ?_⟩
  · rw [hX, hl.frame.nblocks]
    exact h.lt_freemapbits hi (.data hb0)
  · rw [hX, hl.used]
    refine ⟨h.volume.used_of_owns hi (.data hb0), ?_⟩
    grind
  refine ⟨hl.house.free, hl.cur, hl.frame.trans .free, hl.uio, hl.vn, fun b => ?_, fun l hl' => ?_,
    ?_, nofun⟩
  · rw [Sfs.used_free, hX]
    by_cases hb : b = sfsBlockAt s.cur i (15 + j)
    · grind
    · rw [update_of_ne hb, hl.used b]
      grind
  · by_cases hlj : l = j
    · subst hlj
      rw [word_setWord_self, if_pos ⟨by omega, hlt⟩]
    · rw [word_setWord_of_ne hlj, hl.entries l hl']
      grind
  · rw [hl.nonzero]
    have hsame : ∀ l, l ≠ j → word (setWord X j 0) l = word X l := fun l => word_setWord_of_ne
    have hself : word (setWord X j 0) j = 0 := by simp
    grind

theorem SfsLeaves.skip (hj : j < 128) (hind : sfiIndirect (s.cur i) ≠ 0)
    (hl : SfsLeaves L i blocklen s j u X hasnonzero iddirty)
    (hskip : ¬(blocklen < 15 + j ∧ word X j ≠ 0)) :
    SfsLeaves L i blocklen s (j + 1) u X (hasnonzero || word X j != 0) iddirty := by
  have hX := hl.word_next hj hind
  refine ⟨hl.house, hl.cur, hl.frame, hl.uio, hl.vn, fun b => ?_, fun l hl' => ?_, ?_, hl.clean⟩
  · rw [hl.used b]
    grind
  · have := hl.entries l hl'
    by_cases hlj : l = j <;> grind
  · rw [Bool.or_eq_true, hl.nonzero, bne_iff_ne]
    grind

theorem returns_sfsItruncLeaves {left : Nat} (h : SfsOk L s) (hi : L i)
    (hind : sfiIndirect (s.cur i) ≠ 0) (hj : j + left = 128)
    (hl : SfsLeaves L i blocklen s j u X hasnonzero iddirty) :
    (sfsItruncLeaves blocklen left j X hasnonzero iddirty).Returns u fun r t =>
      ∃ X hasnonzero iddirty, r = .ok (X, hasnonzero, iddirty) ∧
        SfsLeaves L i blocklen s 128 t X hasnonzero iddirty := by
  induction left generalizing j u X hasnonzero iddirty with
  | zero =>
    obtain rfl : j = 128 := by omega
    exact returns_pure.mpr ⟨_, _, _, rfl, hl⟩
  | succ left ih =>
    unfold sfsItruncLeaves
    by_cases hfree : blocklen < 15 + j ∧ word X j ≠ 0
    · obtain ⟨hlt, hused, hl'⟩ := hl.free h hi hind (by omega) hfree.1 hfree.2
      rw [if_pos hfree, returns_bind, returns_sfsBfree hlt hused, andthen_ok]
      exact ih (by omega) hl'
    · rw [if_neg hfree]
      exact ih (by omega) (hl.skip (by omega) hind hfree)

/-- The blocks that `sfs_itrunc` frees by way of the indirect block. -/
def SfsPast (blocklen k : Nat) : Prop := 15 ≤ k ∧ k < 143 ∧ blocklen < k

/-- After all entries, with a buffer that has none left: the indirect block goes too. -/
theorem SfsLeaves.trimIndirect (h : SfsOk L s) (hp : p ∈ s.vnodes)
    (hind : sfiIndirect (s.cur (s.vn p).ino) ≠ 0)
    (hl : SfsLeaves L (s.vn p).ino blocklen s 128 u X false iddirty) :
    SfsTrims L (s.vn p).ino (SfsPast blocklen) s
      ((u.free (sfiIndirect (s.cur (s.vn p).ino))).setInode p (setWord · 17 0)) := by
  have hzero : ∀ l, l < 128 → word X l = 0 := by
    intro l hl'
    by_contra hne
    exact absurd (hl.nonzero.mpr ⟨l, hl', hne⟩) (by decide)
  -- what was not cleared was 0 already
  have hkept : ∀ k, 15 ≤ k → ¬SfsPast blocklen k → sfsBlockAt s.cur (s.vn p).ino k = 0 := by
    intro k hk hpast
    by_cases hk' : k < 143
    · have := hl.entries (k - 15) (by omega)
      rw [hzero (k - 15) (by omega), if_neg fun hc => hpast ⟨hk, hk', by omega⟩] at this
      rw [sfsBlockAt_indirect hk hk' hind, ← this]
    · exact sfsBlockAt_of_ge (by omega)
  obtain ⟨hchange, hblk⟩ := h.volume.unmapIndirect (X := setWord (s.cur (s.vn p).ino) 17 0)
    (u.free (sfiIndirect (s.cur (s.vn p).ino))).used (h.live_of_mem hp) rfl fun b => by
      rw [Sfs.used_free]
      by_cases hb : b = sfiIndirect (s.cur (s.vn p).ino)
      · grind
      · rw [update_of_ne hb, hl.used b]
        refine and_congr_right fun _ => not_congr (and_congr_right fun hb0 => ?_)
        constructor
        · grind
        · rintro (hb' | ⟨k, hk, hkb⟩)
          · exact absurd hb'.symm hb
          · have hpast : SfsPast blocklen k := by
              grind
            exact ⟨k, ⟨hk, hpast.2.1, hpast.2.2⟩, hkb⟩
  obtain ⟨hcur, hwork⟩ := h.free_setInode (f := (setWord · 17 0)) hp hl.house ⟨hl.cur, hl.vn⟩
    hl.frame hchange
  refine ⟨hwork, hl.uio, ?_, ?_, fun k hk => ?_, fun k hk => ?_⟩
  · rw [hcur, update_self, sfiType_setIndirect]
  · rw [hcur, update_self, sfiLinkcount_setIndirect]
  · rw [hcur, hblk, if_neg (by have := hk.1; omega)]
  · grind

theorem SfsLeaves.indirect_gone (hp : p ∈ s.vnodes)
    (hl : SfsLeaves L (s.vn p).ino blocklen s 128 u X false iddirty) :
    sfiIndirect (((u.free b).setInode p (setWord · 17 0)).cur (s.vn p).ino) = 0 := by
  have hh : SfsHouse L (u.free b) := hl.house.free
  rw [hh.cur_setInode (hl.frame.mem hp), Sfs.vn_free, hl.vn, update_self]
  exact sfiIndirect_setIndirect (by decide)

/-- After all entries, with a buffer that was changed: it is written. -/
theorem SfsLeaves.trimWritten (h : SfsOk L s) (hi : L i) (hind : sfiIndirect (s.cur i) ≠ 0)
    (hl : SfsLeaves L i blocklen s 128 u X hasnonzero iddirty) :
    SfsTrims L i (SfsPast blocklen) s (u.put (sfiIndirect (s.cur i)) X) := by
  have hnot := h.not_live_indirect hi hind
  have hdb := h.volume.dataBlock_of_owns hi (.indirect hind)
  have hne := h.volume.indirect_ne hi hi hind
  have hcur : (u.put (sfiIndirect (s.cur i)) X).cur = update s.cur (sfiIndirect (s.cur i)) X := by
    rw [Sfs.cur_put (hl.house.not_opened hnot), hl.cur]
  have hgone : ∀ k, SfsPast blocklen k → word X (k - 15) = 0 := by
    intro k hk
    obtain ⟨h15, h143, hlt⟩ := hk
    rw [hl.entries (k - 15) (by omega), if_pos ⟨by omega, by omega⟩]
  have hkept : ∀ k, 15 ≤ k → k < 143 → ¬SfsPast blocklen k →
      word X (k - 15) = word (s.cur (sfiIndirect (s.cur i))) (k - 15) := by
    intro k h15 h143 hk
    rw [hl.entries (k - 15) (by omega), if_neg fun hc => hk ⟨h15, h143, by omega⟩]
  have hchange := h.volume.unmapLeaves (S := SfsPast blocklen) u.used hi hind
    (fun k hk => ⟨hk.1, hk.2.1⟩) hgone hkept fun b => by
      rw [hl.used b]
      rfl
  have hwork : SfsWork L i s (u.put (sfiIndirect (s.cur i)) X) := by
    refine .of_change (hl.house.put ?_ hnot) ?_ (hl.frame.trans .put)
    · rw [hl.frame.nblocks]
      exact hdb
    · rw [hcur]
      exact hchange
  refine ⟨hwork, hl.uio, ?_, ?_, ?_, ?_⟩
  · rw [hcur, update_of_ne hne.symm]
  · rw [hcur, update_of_ne hne.symm]
  · intro k hk
    rw [hcur, sfsBlockAt_update_indirect hind hne, if_neg (by have := hk.1; omega),
      if_pos hk.2.1, hgone k hk]
  · intro k hk
    rw [hcur, sfsBlockAt_update_indirect hind hne]
    split_ifs with h15 h143
    · rw [sfsBlockAt_direct h15]
    · rw [hkept k (by omega) h143 hk, sfsBlockAt_indirect (by omega) h143 hind]
    · rw [sfsBlockAt_of_ge (by omega)]

/-- After all entries, with a buffer that was not changed: nothing was freed. -/
theorem SfsLeaves.trimNothing (h : SfsOk L s) (hind : sfiIndirect (s.cur i) ≠ 0)
    (hl : SfsLeaves L i blocklen s 128 u X hasnonzero false) :
    SfsTrims L i (SfsPast blocklen) s u := by
  have hgone : ∀ k, SfsPast blocklen k → sfsBlockAt s.cur i k = 0 := by
    intro k hk
    obtain ⟨h15, h143, hlt⟩ := hk
    rw [sfsBlockAt_indirect h15 h143 hind, ← hl.clean rfl, hl.entries (k - 15) (by omega),
      if_pos ⟨by omega, by omega⟩]
  have hused : u.used = s.used := by
    funext b
    rw [Bool.eq_iff_iff, hl.used b, and_iff_left_iff_imp]
    rintro - ⟨hb0, k, hk, hkb⟩
    exact hb0 (hkb.symm.trans (hgone k hk))
  have hok : SfsOk L u := by
    refine ⟨hl.house, ?_⟩
    rw [hl.frame.nblocks, hl.cur, hused]
    exact h.volume
  have hcur := hl.cur
  exact ⟨⟨hok, hl.frame, fun j _ _ => hcur ▸ .refl⟩, hl.uio, by rw [hcur], by rw [hcur],
    hcur ▸ hgone, fun k _ => by rw [hcur]⟩

/-- A file with an indirect block maps a block by it. -/
def SfsNeeded (D : Nat → Bytes) (i : Nat) : Prop :=
  sfiIndirect (D i) ≠ 0 → ∃ k, 15 ≤ k ∧ sfsBlockAt D i k ≠ 0

variable (h : SfsOk L s) (hp : p ∈ s.vnodes)
include h hp

theorem returns_sfsItruncIndirect :
    (sfsItruncIndirect p blocklen).Returns s fun r t => r = .ok () ∧
      SfsTrims L (s.vn p).ino (SfsPast blocklen) s t ∧
      (blocklen < 142 → SfsNeeded t.cur (s.vn p).ino) := by
  have hi := h.live_of_mem hp
  have hcur := h.cur_of_mem hp
  unfold sfsItruncIndirect
  rw [returns_bindRead, ← hcur]
  by_cases hgo : blocklen < 142 ∧ sfiIndirect (s.cur (s.vn p).ino) ≠ 0
  · have hind := hgo.2
    have hlt := h.lt_of_owns hi (.indirect hind)
    rw [if_pos hgo, returns_bind, returns_sfsReadblock h.toSfsHouse hlt, andthen_ok,
      h.disk_of_not_live (h.not_live_indirect hi hind), returns_bind]
    refine (returns_sfsItruncLeaves h hi hind (j := 0) rfl h.leaves_start).mono ?_
    rintro _ u ⟨X, hasnonzero, iddirty, rfl, hl⟩
    rw [andthen_ok]
    dsimp only
    split_ifs with hnone hdirty
    · subst hnone
      have hown : u.used (sfiIndirect (s.cur (s.vn p).ino)) = true := by
        rw [hl.used]
        refine ⟨h.volume.used_of_owns hi (.indirect hind), ?_⟩
        rintro ⟨-, k, -, hk⟩
        exact h.volume.blockAt_ne_indirect hi hi (by rw [hk]; exact hind) hk
      rw [returns_bind, returns_sfsBfree ?_ hown, andthen_ok, Call.returns_modify]
      · refine ⟨rfl, hl.trimIndirect h hp hind, fun _ h0 => absurd ?_ h0⟩
        exact hl.indirect_gone hp
      · rw [hl.frame.nblocks]
        exact h.lt_freemapbits hi (.indirect hind)
    · obtain ⟨l, hl', hne⟩ := hl.nonzero.mp (Bool.eq_true_of_not_eq_false hnone)
      rw [returns_sfsWriteblock hl.house (by rwa [hl.frame.nblocks])]
      refine ⟨rfl, hl.trimWritten h hi hind, fun _ _ => ⟨15 + l, by omega, ?_⟩⟩
      have hnot := h.not_live_indirect hi hind
      rw [Sfs.cur_put (hl.house.not_opened hnot), hl.cur,
        sfsBlockAt_update_indirect hind (h.volume.indirect_ne hi hi hind), if_neg (by omega),
        if_pos (by omega), Nat.add_sub_cancel_left]
      exact hne
    · obtain ⟨l, hl', hne⟩ := hl.nonzero.mp (Bool.eq_true_of_not_eq_false hnone)
      obtain rfl : iddirty = false := Bool.eq_false_of_not_eq_true hdirty
      refine returns_pure.mpr ⟨rfl, hl.trimNothing h hind, fun _ _ => ⟨15 + l, by omega, ?_⟩⟩
      rw [hl.cur, sfsBlockAt_indirect (by omega) (by omega) hind, ← hl.clean rfl,
        Nat.add_sub_cancel_left]
      exact hne
  · rw [if_neg hgo, returns_pure]
    refine ⟨rfl, .refl h fun k hk => ?_, fun hlt h0 => absurd ⟨hlt, h0⟩ hgo⟩
    obtain ⟨h15, h143, hlt⟩ := hk
    exact sfsBlockAt_none h15 (by_contra fun h0 => hgo ⟨by omega, h0⟩)

theorem SfsOk.head (hd : ∀ X k, k < 15 → sfiDirect (f X) k = sfiDirect X k)
    (hind : ∀ X, sfiIndirect (f X) = sfiIndirect X) :
    SfsWork L (s.vn p).ino s (s.setInode p f) ∧
      (s.setInode p f).cur = update s.cur (s.vn p).ino (f (s.cur (s.vn p).ino)) ∧
      sfsBlockAt (s.setInode p f).cur (s.vn p).ino = sfsBlockAt s.cur (s.vn p).ino ∧
      sfsByte (s.setInode p f).cur (s.vn p).ino = sfsByte s.cur (s.vn p).ino := by
  have hi := h.live_of_mem hp
  have hcur : (s.setInode p f).cur = update s.cur (s.vn p).ino (f (s.cur (s.vn p).ino)) := by
    rw [h.cur_setInode hp, h.cur_of_mem hp]
  obtain ⟨hchange, hblk, hbyte⟩ := h.volume.storeHead (X := f (s.cur (s.vn p).ino)) hi
    (fun k hk => hd _ k hk) (hind _)
  refine ⟨.of_change h.toSfsHouse.setInode ?_ .setInode, hcur, ?_, ?_⟩
  · rw [hcur]
    exact hchange
  · rw [hcur, hblk]
  · rw [hcur, hbyte]

/-- The blocks that `sfs_itrunc` frees. -/
def SfsTrunc (blocklen k : Nat) : Prop := if k < 15 then blocklen ≤ k else blocklen < k

/-- `sfs_itrunc` frees the blocks past the new end, but for one: block `blocklen` of the file, if
the indirect block maps it. -/
theorem returns_sfsItrunc (len : Int) :
    (sfsItrunc p len).Returns s fun r t => r = .ok () ∧
      SfsTrims L (s.vn p).ino (SfsTrunc (sfsBlocklen len)) s t ∧
      sfiSize (t.cur (s.vn p).ino) = (len % 4294967296).toNat ∧
      (sfsBlocklen len < 142 → SfsNeeded t.cur (s.vn p).ino) := by
  unfold sfsItrunc
  rw [returns_bind]
  refine (returns_sfsItruncDirect 15 0 h hp (by omega)).mono ?_
  rintro _ t ⟨rfl, ht⟩
  rw [andthen_ok, returns_bind]
  refine (returns_sfsItruncIndirect ht.ok (ht.frame.mem hp)).mono ?_
  rintro _ u ⟨rfl, hu, hneed⟩
  rw [andthen_ok, Call.returns_modify]
  rw [ht.frame.ino] at hu hneed
  have hpu : p ∈ u.vnodes := hu.frame.mem (ht.frame.mem hp)
  obtain ⟨hwork, hcur, hblk, -⟩ := hu.ok.head (f := (setWord · 0 (len % 4294967296).toNat)) hpu
    (fun X k hk => word_setWord_of_ne (by omega)) fun X => word_setWord_of_ne (by decide)
  rw [hu.frame.ino, ht.frame.ino] at hwork hcur hblk
  have htrim : SfsTrims L (s.vn p).ino (fun _ => False) u
      (u.setInode p (setWord · 0 (len % 4294967296).toNat)) := by
    refine ⟨hwork, rfl, ?_, ?_, fun _ hf => hf.elim, fun k _ => by rw [hblk]⟩
    · rw [hcur, update_self]
      exact half_setWord_of_ne (by decide)
    · rw [hcur, update_self]
      exact half_setWord_of_ne (by decide)
  refine ⟨rfl, ((ht.trans hu).trans htrim).congr fun k hk => ?_, ?_, fun hlt h0 => ?_⟩
  · rw [or_false]
    unfold SfsPast SfsTrunc
    split_ifs <;> omega
  · rw [hcur, update_self]
    refine word_setWord_self.trans (Nat.mod_eq_of_lt ?_)
    grind
  · rw [hblk]
    refine hneed hlt ?_
    rw [hcur, update_self] at h0
    exact fun hz => h0 ((word_setWord_of_ne (by decide)).trans hz)

end OsPaging.Fs
