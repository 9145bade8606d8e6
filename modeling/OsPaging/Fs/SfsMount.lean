import OsPaging.Fs.SfsVnodes

/-!
# SFS: sync and mount

`sfs_sync` writes the inodes that are dirty, then the freemap. Directories, data and indirect blocks
are on disk already, so after it the disk is the image that the file system stands for.

`sfs_domount` reads the superblock and the freemap; `Sfs.mounted` is the file system it leaves.
-/

namespace OsPaging.Fs

open OsPaging.Lib Function

variable {L : Nat → Prop} {s t u : Sfs} {p q b i j k : Nat}

/-! ## `sfs_sync` -/

theorem SfsSynced.still (h : SfsSynced L p s t) : SfsStill L s t :=
  { h with }

theorem returns_sfsSyncVnodes {l : List Nat} (h : SfsOk L s) (hl : ∀ p ∈ l, p ∈ s.vnodes) :
    (sfsSyncVnodes l).Returns s fun r t => r = .ok () ∧ SfsStill L s t ∧
      (∀ p ∈ l, (t.vn p).dirty = false) ∧ ∀ q, (t.vn q).dirty = true → (s.vn q).dirty = true := by
  induction l generalizing s with
  | nil => exact Call.returns_pure.mpr ⟨rfl, .refl h, nofun, fun _ hq => hq⟩
  | cons p l ih =>
    obtain ⟨hp, hl⟩ := List.forall_mem_cons.mp hl
    unfold sfsSyncVnodes
    rw [Call.returns_bind]
    refine (returns_sfsSyncInode h hp).mono ?_
    rintro _ t ⟨rfl, ht⟩
    rw [Call.andthen_ok]
    refine (ih ht.ok fun q hq => ht.frame.mem (hl q hq)).mono ?_
    rintro _ u ⟨rfl, hu, hclean, hdirty⟩
    refine ⟨rfl, ht.still.trans hu, ?_, fun q hq => ht.dirty q (hdirty q hq)⟩
    refine List.forall_mem_cons.mpr ⟨?_, hclean⟩
    -- a clean inode stays clean
    by_contra hc
    have := hdirty p (Bool.eq_true_of_not_eq_false hc)
    rw [ht.clean] at this
    exact absurd this (by decide)

/-- A block of the freemap is written while the freemap is dirty. -/
theorem SfsOk.putFreemap {X : Bytes} (h : SfsOk L s) (hj : j < sfsFreemapblocks s.nblocks)
    (hdirty : s.freemapdirty = true) : SfsIdle L s (s.put (2 + j) X) := by
  have hnot : ¬SfsDataBlock s.nblocks (2 + j) := fun hd => hd.2.2 ⟨by omega, by omega⟩
  have hown : ∀ i, L i → ¬SfsOwns s.cur i (2 + j) := fun i hi ho =>
    hnot (h.volume.dataBlock_of_owns hi ho)
  have hnl : ¬L (2 + j) := fun hL => hown _ hL .self
  have hput : ∀ b, b ≠ 2 + j → (s.put (2 + j) X).disk b = s.disk b := fun b hb =>
    update_of_ne hb _ _
  have hcur : (s.put (2 + j) X).cur = update s.cur (2 + j) X := Sfs.cur_put (h.not_opened hnl)
  have hsame : ∀ i, L i → SfsSame s.cur (s.put (2 + j) X).cur i := by
    intro i hi
    rw [hcur]
    exact sfsSame_update (hown i hi)
  refine ⟨⟨⟨h.distinct, h.nodup, h.fresh, h.counted, h.device, h.sectors, h.live, fun q hq hc => ?_,
    fun hc => absurd (hdirty.symm.trans hc) (by decide), ?_, ?_, h.super, fun i c hi => ?_⟩, ?_⟩,
    .put, hsame, rfl⟩
  · have hne : (s.vn q).ino ≠ 2 + j := fun he => hnl (he ▸ h.live_of_mem hq)
    exact (hput _ hne).trans (h.clean q hq hc)
  · rw [hput 0 (by omega)]
    exact h.magic
  · rw [hput 0 (by omega)]
    exact h.nblocks
  · obtain ⟨hL, hc⟩ := h.last i c hi
    refine ⟨hL, fun ho => ?_⟩
    rw [hput i fun he => hnl (he ▸ hL)]
    exact hc ho
  · exact h.volume.of_same hsame

theorem SfsIdle.trans (h : SfsIdle L s t) (h' : SfsIdle L t u) : SfsIdle L s u :=
  ⟨h'.ok, h.frame.trans h'.frame, fun j hj => (h.same j hj).trans (h'.same j hj),
    h'.uio.trans h.uio⟩

theorem SfsIdle.refl (h : SfsOk L s) : SfsIdle L s s := (SfsStill.refl h).idle

/-- What writing the freemap leaves alone. -/
structure SfsFreemapSame (s t : Sfs) : Prop where
  freemap : t.freemap = s.freemap
  dirty : t.freemapdirty = s.freemapdirty
  vn : t.vn = s.vn

theorem returns_sfsFreemapWrite (left : Nat) (h : SfsOk L s)
    (hj : j + left = sfsFreemapblocks s.nblocks)
      (hroom : 2 + sfsFreemapblocks s.nblocks ≤ s.nblocks)
    (hdirty : s.freemapdirty = true)
    (hdone : ∀ i < j, ∀ k < 512, s.disk (2 + i) k = s.freemap (i * 512 + k)) :
    (sfsFreemapWrite left j).Returns s fun r t => r = .ok () ∧ SfsIdle L s t ∧ SfsFreemapSame s t ∧
      ∀ i < sfsFreemapblocks s.nblocks, ∀ k < 512, t.disk (2 + i) k = t.freemap (i * 512 + k) := by
  induction left generalizing s j with
  | zero =>
    obtain rfl : j = sfsFreemapblocks s.nblocks := by omega
    exact Call.returns_pure.mpr ⟨rfl, .refl h, ⟨rfl, rfl, rfl⟩, hdone⟩
  | succ left ih =>
    unfold sfsFreemapWrite
    rw [Call.returns_bindRead, Call.returns_bind,
      returns_sfsWriteblock h.toSfsHouse (by omega), Call.andthen_ok]
    dsimp only [id_eq]
    have hput := h.putFreemap (X := fun k => s.freemap (j * 512 + k)) (j := j) (by omega) hdirty
    refine (ih (j := j + 1) hput.ok (by rw [hput.frame.nblocks]; omega)
      (by rw [hput.frame.nblocks]; exact hroom) hdirty ?_).mono ?_
    · intro i hi k hk
      by_cases hij : i = j
      · subst hij
        have hself : (s.put (2 + i) fun k => s.freemap (i * 512 + k)).disk (2 + i) =
          fun k => s.freemap (i * 512 + k) := update_self _ _ _
        rw [hself]
        rfl
      · have hother : (s.put (2 + j) fun k => s.freemap (j * 512 + k)).disk (2 + i) =
          s.disk (2 + i) := update_of_ne (by omega) _ _
        rw [hother]
        exact hdone i (by omega) k hk
    · rintro _ t ⟨rfl, ht, hsame, hdisk⟩
      refine ⟨rfl, hput.trans ht, { hsame with }, ?_⟩
      rw [hput.frame.nblocks] at hdisk
      exact hdisk

/-- The file system is on disk as it is in memory. -/
structure SfsFlushed (L : Nat → Prop) (s t : Sfs) : Prop extends SfsIdle L s t where
  disk : t.disk = t.cur
  freemap : ∀ i < sfsFreemapblocks t.nblocks, ∀ k < 512, t.disk (2 + i) k = t.freemap (i * 512 + k)
  used : t.used = s.used

theorem SfsHouse.disk_of_clean (h : SfsHouse L s)
    (hc : ∀ p ∈ s.vnodes, (s.vn p).dirty = false) : s.disk = s.cur := by
  funext b
  by_cases hb : s.Opened b
  · obtain ⟨p, hp, rfl⟩ := hb
    rw [h.cur_of_mem hp]
    exact h.clean p hp (hc p hp)
  · rw [Sfs.cur_of_not_opened hb]

theorem returns_sfsSync (h : SfsOk L s) (hroom : 2 + sfsFreemapblocks s.nblocks ≤ s.nblocks) :
    sfsSync.Returns s fun r t => r = .ok () ∧ SfsFlushed L s t := by
  unfold sfsSync
  rw [Call.returns_bindRead, Call.returns_bind]
  refine (returns_sfsSyncVnodes h fun p hp => hp).mono ?_
  rintro _ t ⟨rfl, ht, hclean, -⟩
  rw [Call.andthen_ok, Call.returns_bind]
  have hfm : sfsSyncFreemap.Returns t fun r u => r = .ok () ∧ SfsIdle L t u ∧ u.vn = t.vn ∧
      u.used = t.used ∧ ∀ i < sfsFreemapblocks u.nblocks, ∀ k < 512,
        u.disk (2 + i) k = u.freemap (i * 512 + k) := by
    unfold sfsSyncFreemap
    rw [Call.returns_bindRead]
    dsimp only [id_eq]
    split_ifs with hd
    · rw [Call.returns_bind]
      rw [← ht.frame.nblocks] at hroom
      refine (returns_sfsFreemapWrite _ ht.ok (Nat.zero_add _) hroom hd nofun).mono ?_
      rintro _ u ⟨rfl, hu, hsame, hdisk⟩
      rw [Call.andthen_ok, Call.returns_modify]
      rw [← hu.frame.nblocks] at hdisk
      have hok : SfsOk L { u with freemapdirty := false } :=
        { hu.ok with freemap := fun _ => hdisk }
      refine ⟨rfl, ⟨hok, { hu.frame with }, hu.same, hu.uio⟩, hsame.vn, ?_, hdisk⟩
      unfold Sfs.used
      rw [← hsame.freemap]
    · exact Call.returns_pure.mpr ⟨rfl, .refl ht.ok, rfl, rfl,
        ht.ok.freemap (Bool.eq_false_of_not_eq_true hd)⟩
  refine hfm.mono ?_
  rintro _ u ⟨rfl, hu, hvn, hused, hdisk⟩
  rw [Call.andthen_ok]
  unfold sfsSyncSuperblock
  rw [Call.returns_bindRead]
  dsimp only [id_eq]
  rw [if_neg (by rw [hu.ok.super]; decide), Call.returns_pure]
  refine ⟨rfl, ht.idle.trans hu, ?_, hdisk, hused.trans ht.used⟩
  refine hu.ok.disk_of_clean fun p hp => ?_
  rw [hvn]
  rw [hu.frame.vnodes, ht.frame.vnodes] at hp
  exact hclean p hp

/-! ## `sfs_domount` -/

variable {D : Nat → Bytes} {dBlocks : Nat} {kmallocs : Nat → Bool}

/-- The blocks of a volume, as its superblock says. -/
def sfsNblocks (D : Nat → Bytes) : Nat := word (D 0) 1

/-- The freemap of a volume, its first `n` blocks. -/
def sfsFreemapOf (D : Nat → Bytes) (n : Nat) : Bytes := fun q =>
  if q < n * 512 then D (2 + q / 512) (q % 512) else 0

/-- The file system in the middle of a mount, when `n` blocks of the freemap were read. -/
def Sfs.mounting (D : Nat → Bytes) (dBlocks : Nat) (kmallocs : Nat → Bool) (n : Nat) : Sfs :=
  { Sfs.blank D dBlocks kmallocs with
    sb := update (D 0) 39 0
    asked := 4
    freemap := sfsFreemapOf D n }

/-- The file system after a mount. -/
def Sfs.mounted (D : Nat → Bytes) (dBlocks : Nat) (kmallocs : Nat → Bool) : Sfs :=
  .mounting D dBlocks kmallocs (sfsFreemapblocks (sfsNblocks D))

theorem word_update_of_ge {X : Bytes} {v : UInt8} (hj : k * 4 + 4 ≤ j) :
    word (update X j v) k = word X k :=
  word_congr fun b hb => update_of_ne (by omega) _ _

theorem Sfs.nblocks_mounting {n : Nat} :
    (Sfs.mounting D dBlocks kmallocs n).nblocks = sfsNblocks D :=
  word_update_of_ge (by decide)

theorem sfsFreemapOf_succ {n : Nat} :
    blit (sfsFreemapOf D n) (n * 512) (D (2 + n)) 0 512 = sfsFreemapOf D (n + 1) := by
  funext q
  unfold blit sfsFreemapOf
  grind

theorem returns_sfsReadblock_of_le (hb : b < dBlocks) (hlt : dBlocks < 4294967296)
    (hs : s.dBlocks = dBlocks) {Q : Except Errno Bytes → Sfs → Prop} :
    (sfsReadblock b).Returns s Q ↔ Q (.ok (s.disk b)) s := by
  have hr : (b + 1) % 4294967296 ≤ s.dBlocks := by
    rw [Nat.mod_eq_of_lt (by omega), hs]
    omega
  unfold sfsReadblock sfsRwblockRead
  rw [Nat.mul_div_cancel b (by decide)]
  simp [hr]

theorem returns_sfsFreemapRead (left : Nat) (hlt : dBlocks < 4294967296)
    (hroom : 2 + (j + left) ≤ dBlocks) {Q : Except Errno Unit → Sfs → Prop} :
    (sfsFreemapRead left j).Returns (.mounting D dBlocks kmallocs j) Q ↔
      Q (.ok ()) (.mounting D dBlocks kmallocs (j + left)) := by
  induction left generalizing j with
  | zero => exact Call.returns_pure
  | succ left ih =>
    unfold sfsFreemapRead
    rw [Call.returns_bind, returns_sfsReadblock_of_le (by omega) hlt rfl, Call.andthen_ok,
      Call.returns_bindModify]
    have hnext : { Sfs.mounting D dBlocks kmallocs j with
        freemap := blit (sfsFreemapOf D j) (j * 512) (D (2 + j)) 0 512 } =
        Sfs.mounting D dBlocks kmallocs (j + 1) := by
      rw [sfsFreemapOf_succ]
      rfl
    change (sfsFreemapRead left (j + 1)).Returns { Sfs.mounting D dBlocks kmallocs j with
      freemap := blit (sfsFreemapOf D j) (j * 512) (D (2 + j)) 0 512 } Q ↔ _
    grind

theorem returns_after_kmalloc {α : Type} {m : SfsCall α} {Q : Except Errno α → Sfs → Prop} (n : Nat)
    (hk : s.kmallocs = kmallocs) (ha : s.asked = n)
      (he : kmallocs n = false → Q (.error .enomem) s.asks)
    (hm : m.Returns s.asks Q) : (kmalloc >>= fun _ => m).Returns s Q := by
  unfold kmalloc
  rw [Call.returns_bind, Call.returns_bindRead, Call.returns_bindModify]
  dsimp only [id_eq]
  split_ifs with hmem
  · exact Call.returns_pure.mpr hm
  · refine Call.returns_fail.mpr (he ?_)
    grind

/-- A mount that succeeds leaves `Sfs.mounted`; it succeeds if there is memory. -/
theorem sfsDomount_eq (dBlocks : Nat) (kmallocs : Nat → Bool) (hmagic : word (D 0) 0 = 0xabadf001)
    (hroom : 2 + sfsFreemapblocks (sfsNblocks D) ≤ dBlocks) (hlt : dBlocks < 4294967296) :
    (sfsDomount 512).Returns (.blank D dBlocks kmallocs) fun r t => Call.Settled
      (fun e => e = .enomem ∧ ∃ k < 4, kmallocs k = false)
      (fun _ => t = .mounted D dBlocks kmallocs) r := by
  unfold sfsDomount
  rw [if_neg (by decide)]
  refine returns_after_kmalloc 0 rfl rfl (fun he => ⟨rfl, 0, by decide, he⟩) ?_
  refine returns_after_kmalloc 1 rfl rfl (fun he => ⟨rfl, 1, by decide, he⟩) ?_
  rw [Call.returns_bind, returns_sfsReadblock_of_le (by omega) hlt rfl, Call.andthen_ok]
  have hsb : (Sfs.blank D dBlocks kmallocs).asks.asks.disk 0 = D 0 := rfl
  rw [hsb, if_neg (not_not.mpr hmagic), Call.returns_bindModify]
  refine returns_after_kmalloc 2 rfl rfl (fun he => ⟨rfl, 2, by decide, he⟩) ?_
  refine returns_after_kmalloc 3 rfl rfl (fun he => ⟨rfl, 3, by decide, he⟩) ?_
  rw [Call.returns_bindRead]
  have hzero : sfsFreemapOf D 0 = zeros := by
    funext q
    exact if_neg (by omega)
  have hs : ({ (Sfs.blank D dBlocks kmallocs).asks.asks with sb := update (D 0) 39 0 } :
      Sfs).asks.asks =
      .mounting D dBlocks kmallocs 0 := by
    unfold Sfs.mounting
    rw [hzero]
    rfl
  rw [hs]
  dsimp only [id_eq]
  rw [Sfs.nblocks_mounting, returns_sfsFreemapRead _ hlt (by omega), Nat.zero_add]
  rfl

end OsPaging.Fs
