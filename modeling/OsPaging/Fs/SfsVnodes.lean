import OsPaging.Fs.SfsMapping

/-!
# SFS: what the vnode functions do

Specifications of `sfs_sync_inode`, `sfs_reclaim`, `vnode_incref` and `vnode_decref`,
`sfs_loadvnode` and `sfs_makeobj`. They change the table of vnodes and, at its two ends, the set of
inodes: `sfs_makeobj` adds one, and `sfs_reclaim` drops one that has no links.

`Sfs.rc` is the reference count of a vnode, 0 for one that is not in the table.
-/

namespace OsPaging.Fs

open OsPaging.Lib Function

open Call (returns_bind andthen_ok returns_bindAssert returns_bindRead returns_pure)

variable {L L' : Nat → Prop} {s t u : Sfs} {p q b i j k ino type : Nat} {X : Bytes}

/-- The references to a vnode. -/
def Sfs.rc (s : Sfs) (p : Nat) : Nat := if p ∈ s.vnodes then (s.vn p).refcount else 0

/-- What every call leaves alone: the superblock, and which inode a vnode is for. -/
structure SfsMoves (s t : Sfs) : Prop where
  sb : t.sb = s.sb
  nextVn : s.nextVn ≤ t.nextVn
  ino : ∀ p, p < s.nextVn → (t.vn p).ino = (s.vn p).ino

theorem SfsMoves.refl : SfsMoves s s := ⟨rfl, le_refl _, fun _ _ => rfl⟩

theorem SfsMoves.trans (h : SfsMoves s t) (h' : SfsMoves t u) : SfsMoves s u where
  sb := h'.sb.trans h.sb
  nextVn := h.nextVn.trans h'.nextVn
  ino p hp := (h'.ino p (hp.trans_le h.nextVn)).trans (h.ino p hp)

theorem SfsFrame.moves (h : SfsFrame s t) : SfsMoves s t := ⟨h.sb, h.nextVn.ge, fun p _ => h.ino p⟩

theorem SfsFrame.rc (h : SfsFrame s t) : t.rc = s.rc := by
  funext p
  unfold Sfs.rc
  rw [h.vnodes, h.refcount]

theorem SfsHouse.rc_pos (h : SfsHouse L s) : 0 < s.rc p ↔ p ∈ s.vnodes := by
  unfold Sfs.rc
  split_ifs with hp
  · exact iff_of_true (h.counted p hp) hp
  · exact iff_of_false (lt_irrefl 0) hp

theorem SfsHouse.rc_of_mem (hp : p ∈ s.vnodes) : s.rc p = (s.vn p).refcount := if_pos hp

theorem SfsHouse.rc_nextVn (h : SfsHouse L s) : s.rc s.nextVn = 0 :=
  if_neg fun hp => lt_irrefl _ (h.fresh _ hp)

/-! ## `kmalloc` -/

/-- Memory was asked for. -/
def Sfs.asks (s : Sfs) : Sfs := { s with asked := s.asked + 1 }

theorem returns_kmalloc {Q : Except Errno Unit → Sfs → Prop} (hok : Q (.ok ()) s.asks)
    (hfail : Q (.error .enomem) s.asks) : kmalloc.Returns s Q := by
  unfold kmalloc
  rw [returns_bindRead, Call.returns_bindModify]
  split_ifs
  · exact returns_pure.mpr hok
  · exact Call.returns_fail.mpr hfail

theorem SfsFrame.asks : SfsFrame s s.asks := ⟨rfl, fun _ => rfl, fun _ => rfl, rfl, rfl, rfl⟩

theorem SfsHouse.asks (h : SfsHouse L s) : SfsHouse L s.asks :=
  { h with }

/-! ## `sfs_sync_inode` -/

/-- An inode was written to its block. -/
def Sfs.flush (s : Sfs) (p : Nat) : Sfs :=
  { s.put (s.vn p).ino (s.vn p).inode with vn := update s.vn p { s.vn p with dirty := false } }

theorem Sfs.vn_flush_of_ne (hq : q ≠ p) : (s.flush p).vn q = s.vn q := update_of_ne hq _ _

theorem Sfs.vn_flush_self : (s.flush p).vn p = { s.vn p with dirty := false } := update_self _ _ _

theorem Sfs.inode_flush : ((s.flush p).vn q).inode = (s.vn q).inode := by
  by_cases hq : q = p
  · rw [hq, Sfs.vn_flush_self]
  · rw [Sfs.vn_flush_of_ne hq]

theorem SfsFrame.flush : SfsFrame s (s.flush p) where
  vnodes := rfl
  ino q := by
    by_cases hq : q = p
    · rw [hq, Sfs.vn_flush_self]
    · rw [Sfs.vn_flush_of_ne hq]
  refcount q := by
    by_cases hq : q = p
    · rw [hq, Sfs.vn_flush_self]
    · rw [Sfs.vn_flush_of_ne hq]
  sb := rfl
  nextVn := rfl
  last := rfl

theorem SfsHouse.cur_flush (h : SfsHouse L s) (hp : p ∈ s.vnodes) : (s.flush p).cur = s.cur := by
  have hfr : SfsFrame s (s.flush p) := .flush
  funext b
  by_cases hb : s.Opened b
  · obtain ⟨q, hq, rfl⟩ := hb
    have hcur := Sfs.cur_of_mem (h.distinct_of_frame hfr) hq
    rw [hfr.ino] at hcur
    rw [hcur, h.cur_of_mem hq, Sfs.inode_flush]
  · have hne : b ≠ (s.vn p).ino := fun he => hb ⟨p, hp, he.symm⟩
    rw [Sfs.cur_of_not_opened hb,
      Sfs.cur_of_not_opened (s := s.flush p) fun ho => hb (hfr.opened.mp ho)]
    exact update_of_ne hne _ _

theorem SfsHouse.flush (h : SfsHouse L s) (hp : p ∈ s.vnodes)
    (hd : SfsDataBlock s.nblocks (s.vn p).ino) : SfsHouse L (s.flush p) := by
  have hfr : SfsFrame s (s.flush p) := .flush
  have hdisk : ∀ b, b ≠ (s.vn p).ino → (s.flush p).disk b = s.disk b := fun b hb =>
    update_of_ne hb _ _
  refine ⟨h.distinct_of_frame hfr, h.nodup, h.fresh, ?_, h.device, h.sectors, ?_, ?_, ?_, ?_, ?_,
    h.super, ?_⟩
  · intro q hq
    rw [hfr.refcount]
    exact h.counted q hq
  · exact fun i hi => h.live i (hfr.opened.mp hi)
  · intro q hq hc
    rw [hfr.ino, Sfs.inode_flush]
    by_cases hqp : q = p
    · rw [hqp]
      exact update_self _ _ _
    · have hne : (s.vn q).ino ≠ (s.vn p).ino := fun he => hqp (h.distinct q hq p hp he)
      rw [Sfs.vn_flush_of_ne hqp] at hc
      rw [hdisk _ hne]
      exact h.clean q hq hc
  · intro hc j hj k hk
    have hne : 2 + j ≠ (s.vn p).ino := fun he => hd.2.2 (he ▸ ⟨by omega, Nat.add_lt_add_left hj 2⟩)
    rw [hdisk _ hne]
    exact h.freemap hc j hj k hk
  · rw [hdisk _ hd.1.symm]
    exact h.magic
  · rw [hdisk _ hd.1.symm]
    exact h.nblocks
  · intro i c hi
    obtain ⟨hL, hc⟩ := h.last i c hi
    refine ⟨hL, fun ho => ?_⟩
    have hno : ¬s.Opened i := fun ho' => ho (hfr.opened.mpr ho')
    have hne : i ≠ (s.vn p).ino := fun he => hno ⟨p, hp, he.symm⟩
    rw [hdisk _ hne]
    exact hc hno

theorem SfsOk.flush (h : SfsOk L s) (hp : p ∈ s.vnodes) : SfsOk L (s.flush p) := by
  refine ⟨h.toSfsHouse.flush hp (h.volume.dataBlock_of_owns (h.live_of_mem hp) .self), ?_⟩
  rw [h.cur_flush hp]
  exact h.volume

/-- After `sfs_sync_inode` the inode is on disk as it is in memory. -/
structure SfsSynced (L : Nat → Prop) (p : Nat) (s t : Sfs) : Prop where
  ok : SfsOk L t
  frame : SfsFrame s t
  cur : t.cur = s.cur
  used : t.used = s.used
  uio : t.uio = s.uio
  inode : ∀ q, (t.vn q).inode = (s.vn q).inode
  clean : (t.vn p).dirty = false
  dirty : ∀ q, (t.vn q).dirty = true → (s.vn q).dirty = true

theorem returns_sfsSyncInode (h : SfsOk L s) (hp : p ∈ s.vnodes) :
    (sfsSyncInode p).Returns s fun r t => r = .ok () ∧ SfsSynced L p s t := by
  unfold sfsSyncInode
  rw [returns_bindRead]
  split_ifs with hdirty
  · rw [returns_bind, returns_sfsWriteblock h.toSfsHouse
      (h.lt_of_owns (h.live_of_mem hp) .self),
      andthen_ok, Call.returns_modify]
    refine ⟨rfl, h.flush hp, .flush, h.cur_flush hp, rfl, rfl, fun q => Sfs.inode_flush, ?_, ?_⟩
    · exact congrArg SfsVnode.dirty Sfs.vn_flush_self
    · intro q hq
      by_cases hqp : q = p
      · exact hqp ▸ hdirty
      · exact (congrArg SfsVnode.dirty (Sfs.vn_flush_of_ne hqp)).symm.trans hq
  · exact returns_pure.mpr ⟨rfl, h, .refl, rfl, rfl, rfl, fun _ => rfl,
      Bool.eq_false_of_not_eq_true hdirty, fun _ hq => hq⟩

/-! ## A vnode goes -/

theorem Sfs.opened_drop (h : SfsHouse L s) (hp : p ∈ s.vnodes) :
    (s.drop p).Opened i ↔ s.Opened i ∧ i ≠ (s.vn p).ino := by
  constructor
  · rintro ⟨q, hq, rfl⟩
    have hq' : q ∈ s.vnodes := List.mem_of_mem_erase hq
    refine ⟨⟨q, hq', rfl⟩, fun he => ?_⟩
    obtain rfl := h.distinct q hq' p hp he
    exact h.nodup.not_mem_erase hq
  · rintro ⟨⟨q, hq, rfl⟩, hne⟩
    refine ⟨q, (List.mem_erase_of_ne ?_).mpr hq, rfl⟩
    rintro rfl
    exact hne rfl

theorem Sfs.rc_drop (h : SfsHouse L s) : (s.drop p).rc = update s.rc p 0 := by
  funext q
  by_cases hq : q = p
  · rw [hq, update_self]
    exact if_neg h.nodup.not_mem_erase
  · rw [update_of_ne hq]
    unfold Sfs.rc
    exact if_congr (List.mem_erase_of_ne hq) rfl rfl

theorem SfsHouse.cur_drop (h : SfsHouse L s) (hp : p ∈ s.vnodes) (hc : (s.vn p).dirty = false) :
    (s.drop p).cur = s.cur := by
  have hsub : ∀ q ∈ (s.drop p).vnodes, q ∈ s.vnodes := fun q hq => List.mem_of_mem_erase hq
  funext b
  by_cases hb : (s.drop p).Opened b
  · obtain ⟨q, hq, rfl⟩ := id hb
    have hcur := Sfs.cur_of_mem (s := s.drop p)
      (fun q hq r hr => h.distinct q (hsub q hq) r (hsub r hr)) hq
    exact hcur.trans (h.cur_of_mem (hsub q hq)).symm
  · rw [Sfs.cur_of_not_opened hb]
    by_cases hbp : b = (s.vn p).ino
    · rw [hbp, h.cur_of_mem hp]
      exact h.clean p hp hc
    · have hno : ¬s.Opened b := fun ho => hb ((Sfs.opened_drop h hp).mpr ⟨ho, hbp⟩)
      exact (Sfs.cur_of_not_opened hno).symm

theorem SfsHouse.drop (h : SfsHouse L s) (hp : p ∈ s.vnodes) (hc : (s.vn p).dirty = false)
    (hL' : ∀ i, L i → i ≠ (s.vn p).ino → L' i)
    (hkeep : sfiLinkcount (s.vn p).inode ≠ 0 → L' (s.vn p).ino) : SfsHouse L' (s.drop p) where
  distinct q hq r hr := h.distinct q (List.mem_of_mem_erase hq) r (List.mem_of_mem_erase hr)
  nodup := h.nodup.erase p
  fresh q hq := h.fresh q (List.mem_of_mem_erase hq)
  counted q hq := h.counted q (List.mem_of_mem_erase hq)
  device := h.device
  sectors := h.sectors
  live i hi := by
    obtain ⟨ho, hne⟩ := (Sfs.opened_drop h hp).mp hi
    exact hL' i (h.live i ho) hne
  clean q hq := h.clean q (List.mem_of_mem_erase hq)
  freemap := h.freemap
  magic := h.magic
  nblocks := h.nblocks
  super := h.super
  last i c hi := by
    have hi : update s.last (s.vn p).ino (if sfiLinkcount (s.vn p).inode = 0 then none
      else some (s.vn p).inode) i = some c := hi
    by_cases hip : i = (s.vn p).ino
    · subst hip
      rw [update_self] at hi
      split_ifs at hi with h0
      cases hi
      exact ⟨hkeep h0, fun _ => h.clean p hp hc⟩
    · rw [update_of_ne hip] at hi
      obtain ⟨hLi, hci⟩ := h.last i c hi
      exact ⟨hL' i hLi hip, fun ho => hci fun ho' => ho ((Sfs.opened_drop h hp).mpr ⟨ho', hip⟩)⟩

/-- What goes with the last reference to an inode without links: the inode. -/
def SfsWithout (L : Nat → Prop) (i : Nat) : Nat → Prop := fun j => L j ∧ j ≠ i

theorem SfsOk.drop_freed (h : SfsOk L s) (hp : p ∈ s.vnodes) (hc : (s.vn p).dirty = false)
    (hlinks : sfiLinkcount (s.vn p).inode = 0)
    (hblk : ∀ k, sfsBlockAt s.cur (s.vn p).ino k = 0)
    (hind : sfiIndirect (s.cur (s.vn p).ino) = 0) :
    SfsOk (SfsWithout L (s.vn p).ino) ((s.free (s.vn p).ino).drop p) ∧
      ((s.free (s.vn p).ino).drop p).cur = s.cur := by
  have hh : SfsHouse L (s.free (s.vn p).ino) := h.toSfsHouse.free
  have hcur : ((s.free (s.vn p).ino).drop p).cur = s.cur := hh.cur_drop (by exact hp) hc
  refine ⟨⟨hh.drop (by exact hp) hc (fun i hi hne => ⟨hi, hne⟩) fun h0 => absurd hlinks h0, ?_⟩,
    hcur⟩
  rw [hcur]
  have hvol : SfsVolume s.nblocks s.cur (update s.used (s.vn p).ino false)
      (SfsWithout L (s.vn p).ino) :=
    h.volume.forget (h.live_of_mem hp) hblk hind fun j => Iff.rfl
  exact Sfs.used_free (s := s) ▸ hvol

theorem SfsOk.drop_kept (h : SfsOk L s) (hp : p ∈ s.vnodes) (hc : (s.vn p).dirty = false) :
    SfsOk L (s.drop p) := by
  refine ⟨h.toSfsHouse.drop hp hc (fun i hi _ => hi) fun _ => h.live_of_mem hp, ?_⟩
  rw [h.cur_drop hp hc]
  exact h.volume

/-! ## Reference counts -/

/-- The state with another reference count. -/
def Sfs.withRef (s : Sfs) (p n : Nat) : Sfs :=
  { s with vn := update s.vn p { s.vn p with refcount := n } }

theorem Sfs.vn_withRef {n : Nat} :
    ((s.withRef p n).vn q).ino = (s.vn q).ino ∧ ((s.withRef p n).vn q).inode = (s.vn q).inode ∧
      ((s.withRef p n).vn q).dirty = (s.vn q).dirty := by
  unfold Sfs.withRef
  grind

theorem SfsMoves.withRef {n : Nat} : SfsMoves s (s.withRef p n) :=
  ⟨rfl, le_refl _, fun _ _ => Sfs.vn_withRef.1⟩

theorem Sfs.opened_withRef {n : Nat} : (s.withRef p n).Opened i ↔ s.Opened i :=
  exists_congr fun _ => and_congr_right fun _ => by rw [Sfs.vn_withRef.1]

theorem Sfs.cur_withRef {n : Nat} : (s.withRef p n).cur = s.cur := by
  have hvn : (s.withRef p n).vnodes = s.vnodes := rfl
  funext b
  unfold Sfs.cur
  have hino : (fun q => ((s.withRef p n).vn q).ino == b) = fun q => (s.vn q).ino == b :=
    funext fun q => by rw [Sfs.vn_withRef.1]
  rw [hvn, hino]
  cases s.vnodes.find? fun q => (s.vn q).ino == b with
  | none => rfl
  | some q => exact Sfs.vn_withRef.2.1

theorem Sfs.rc_withRef {n : Nat} (hp : p ∈ s.vnodes) :
    (s.withRef p n).rc = update s.rc p n := by
  funext q
  by_cases hq : q = p
  · rw [hq, update_self]
    refine (if_pos (by exact hp)).trans ?_
    simp [Sfs.withRef]
  · rw [update_of_ne hq]
    refine if_congr Iff.rfl ?_ rfl
    simp [Sfs.withRef, hq]

theorem SfsOk.withRef {n : Nat} (h : SfsOk L s) (hn : 0 < n) : SfsOk L (s.withRef p n) := by
  refine { h with distinct := ?_, counted := ?_, live := ?_, clean := ?_, last := ?_, volume := ?_ }
  · intro q hq r hr
    rw [Sfs.vn_withRef.1, Sfs.vn_withRef.1]
    exact h.distinct q hq r hr
  · intro q hq
    by_cases hqp : q = p
    · subst hqp
      simpa [Sfs.withRef] using hn
    · have : ((s.withRef p n).vn q).refcount = (s.vn q).refcount := by simp [Sfs.withRef, hqp]
      rw [this]
      exact h.counted q hq
  · exact fun i hi => h.live i (Sfs.opened_withRef.mp hi)
  · intro q hq hc
    rw [Sfs.vn_withRef.2.2] at hc
    rw [Sfs.vn_withRef.1, Sfs.vn_withRef.2.1]
    exact h.clean q hq hc
  · intro i c hi
    obtain ⟨hL, hc⟩ := h.last i c hi
    exact ⟨hL, fun ho => hc fun ho' => ho (Sfs.opened_withRef.mpr ho')⟩
  · rw [Sfs.cur_withRef]
    exact h.volume

/-- A call that changes no file and only adds a reference to vnode `p`, which it may have to load.
-/
structure SfsHeld (L : Nat → Prop) (p : Nat) (s t : Sfs) : Prop where
  ok : SfsOk L t
  moves : SfsMoves s t
  cur : t.cur = s.cur
  used : t.used = s.used
  uio : t.uio = s.uio
  last : t.last = s.last
  rc : t.rc = update s.rc p (s.rc p + 1)
  opened : ∀ i, t.Opened i ↔ s.Opened i ∨ i = (t.vn p).ino

theorem SfsHeld.mem (h : SfsHeld L p s t) : p ∈ t.vnodes := by
  rw [← h.ok.rc_pos, h.rc, update_self]
  exact Nat.succ_pos _

theorem returns_vnodeIncref (h : SfsOk L s) (hp : p ∈ s.vnodes) :
    (vnodeIncref p).Returns s fun r t => r = .ok () ∧ SfsHeld L p s t ∧
      (t.vn p).ino = (s.vn p).ino := by
  unfold vnodeIncref
  rw [Call.returns_modify]
  have hino : ((s.withRef p ((s.vn p).refcount + 1)).vn p).ino = (s.vn p).ino := Sfs.vn_withRef.1
  refine ⟨rfl, ⟨h.withRef (Nat.succ_pos _), .withRef, Sfs.cur_withRef, rfl, rfl, rfl, ?_,
    fun i => ?_⟩, hino⟩
  · exact (Sfs.rc_withRef hp).trans (by rw [SfsHouse.rc_of_mem hp])
  · refine Sfs.opened_withRef.trans ?_
    rw [iff_self_or]
    rintro rfl
    exact ⟨p, hp, hino.symm⟩

/-- The inodes after a reference to vnode `p` was dropped: the last one takes an inode without links
with it. -/
def Sfs.liveAfter (s : Sfs) (L : Nat → Prop) (p : Nat) : Nat → Prop := fun i =>
  L i ∧ ¬(i = (s.vn p).ino ∧ s.rc p = 1 ∧ sfiLinkcount (s.vn p).inode = 0)

/-- A call that drops a reference to vnode `p` and changes no other file. -/
structure SfsDropped (L : Nat → Prop) (p : Nat) (s t : Sfs) : Prop where
  ok : SfsOk (s.liveAfter L p) t
  moves : SfsMoves s t
  same : ∀ j, s.liveAfter L p j → SfsSame s.cur t.cur j
  uio : t.uio = s.uio
  rc : t.rc = update s.rc p (s.rc p - 1)
  opened : ∀ i, t.Opened i ↔ s.Opened i ∧ ¬(i = (s.vn p).ino ∧ s.rc p = 1)
  last : ∀ i, i ≠ (s.vn p).ino → t.last i = s.last i

section

variable (h : SfsOk L s) (hp : p ∈ s.vnodes)
include h hp

/-- The last reference to a vnode whose inode has no links. -/
theorem returns_sfsReclaim_freed (hrc : s.rc p = 1) (hlinks : sfiLinkcount (s.vn p).inode = 0) :
    (sfsReclaim p).Returns s fun r t => r = .ok () ∧ SfsDropped L p s t := by
  have hrc' : (s.vn p).refcount = 1 := (SfsHouse.rc_of_mem hp).symm.trans hrc
  unfold sfsReclaim
  rw [returns_bindRead, if_neg (by simpa using hrc'), if_pos hlinks, returns_bind]
  refine (returns_sfsItrunc h hp 0).mono ?_
  rintro _ t ⟨rfl, ht, -, hneed⟩
  rw [andthen_ok, returns_bind]
  refine (returns_sfsSyncInode ht.ok (ht.frame.mem hp)).mono ?_
  rintro _ u ⟨rfl, hu⟩
  have hfr := ht.frame.trans hu.frame
  have hpu : p ∈ u.vnodes := hfr.mem hp
  have hino : (u.vn p).ino = (s.vn p).ino := hfr.ino p
  have hlinks' : sfiLinkcount (u.vn p).inode = 0 := by
    rw [hu.inode, ← ht.ok.cur_of_mem (ht.frame.mem hp), ht.frame.ino, ht.links, h.cur_of_mem hp,
      hlinks]
  -- all of its blocks are gone
  have hgone : ∀ k, sfsBlockAt u.cur (u.vn p).ino k = 0 := by
    intro k
    rw [hu.cur, hino]
    refine ht.gone k ?_
    unfold SfsTrunc
    split_ifs with hk
    · exact Nat.zero_le k
    · have : sfsBlocklen 0 = 0 := by decide
      omega
  have hind : sfiIndirect (u.cur (u.vn p).ino) = 0 := by
    by_contra h0
    rw [hu.cur, hino] at h0
    obtain ⟨k, -, hk⟩ := hneed (by decide) h0
    refine hk ?_
    have := hgone k
    rwa [hu.cur, hino] at this
  have hown : SfsOwns u.cur (u.vn p).ino (u.vn p).ino := .self
  have hlive : L (u.vn p).ino := hu.ok.live_of_mem hpu
  obtain ⟨hok, hcur⟩ := hu.ok.drop_freed hpu hu.clean hlinks' hgone hind
  rw [andthen_ok, returns_bindRead, if_pos hlinks',
    returns_bind, returns_sfsBfree (hu.ok.lt_freemapbits hlive hown)
      (hu.ok.volume.used_of_owns hlive hown), andthen_ok, returns_bindRead,
        returns_bindAssert,
    Call.returns_modify]
  refine ⟨hpu, rfl, ?_⟩
  have hh : SfsHouse L (u.free (u.vn p).ino) := hu.ok.toSfsHouse.free
  have hL : s.liveAfter L p = SfsWithout L (u.vn p).ino := by
    funext j
    unfold Sfs.liveAfter SfsWithout
    rw [hino, hrc, hlinks]
    simp
  refine ⟨hL ▸ hok, ?_, ?_, ?_, ?_, ?_, ?_⟩
  · refine (hfr.trans (.free (b := (u.vn p).ino))).moves.trans ⟨rfl, le_refl _, fun _ _ => rfl⟩
  · intro j hj
    rw [hL] at hj
    rw [hcur, hu.cur]
    exact ht.others j hj.1 (by rw [← hino]; exact hj.2)
  · exact hu.uio.trans ht.uio
  · rw [Sfs.rc_drop hh, hrc]
    exact congrArg (update · p 0) (hfr.trans (.free (b := (u.vn p).ino))).rc
  · intro i
    rw [Sfs.opened_drop hh (by exact hpu), hrc]
    refine and_congr (hfr.trans (.free (b := (u.vn p).ino))).opened ?_
    rw [and_iff_left rfl, ← hino]
    exact Iff.rfl
  · intro i hne
    refine (update_of_ne (by rw [Sfs.vn_free, hino]; exact hne) _ _).trans ?_
    rw [← hfr.last]
    rfl

theorem returns_sfsReclaim_kept (hrc : s.rc p = 1) (hlinks : sfiLinkcount (s.vn p).inode ≠ 0) :
    (sfsReclaim p).Returns s fun r t => r = .ok () ∧ SfsDropped L p s t := by
  have hrc' : (s.vn p).refcount = 1 := (SfsHouse.rc_of_mem hp).symm.trans hrc
  unfold sfsReclaim
  rw [returns_bindRead, if_neg (by simpa using hrc'), if_neg hlinks, returns_bind]
  refine (returns_sfsSyncInode h hp).mono ?_
  rintro _ u ⟨rfl, hu⟩
  have hpu : p ∈ u.vnodes := hu.frame.mem hp
  have hino : (u.vn p).ino = (s.vn p).ino := hu.frame.ino p
  rw [andthen_ok, returns_bindRead, if_neg (by rw [hu.inode]; exact hlinks), returns_bindRead,
    returns_bindAssert, Call.returns_modify]
  refine ⟨hpu, rfl, ?_⟩
  have hL : s.liveAfter L p = L := by
    funext j
    unfold Sfs.liveAfter
    simp [hlinks]
  refine ⟨?_, ?_, ?_, hu.uio, ?_, ?_, ?_⟩
  · rw [hL]
    exact hu.ok.drop_kept hpu hu.clean
  · exact hu.frame.moves.trans ⟨rfl, le_refl _, fun _ _ => rfl⟩
  · intro j _
    rw [hu.ok.cur_drop hpu hu.clean, hu.cur]
    exact .refl
  · rw [Sfs.rc_drop hu.ok.toSfsHouse, hrc, hu.frame.rc]
  · intro i
    rw [Sfs.opened_drop hu.ok.toSfsHouse hpu, hrc, hu.frame.opened, hino, and_iff_left rfl]
  · intro i hne
    refine (update_of_ne (by rw [hino]; exact hne) _ _).trans ?_
    rw [hu.frame.last]

theorem returns_vnodeDecref :
    (vnodeDecref p).Returns s fun r t => r = .ok () ∧ SfsDropped L p s t := by
  have hpos := h.counted p hp
  have hrc : s.rc p = (s.vn p).refcount := SfsHouse.rc_of_mem hp
  unfold vnodeDecref
  rw [returns_bindRead, returns_bindAssert]
  refine ⟨hpos, ?_⟩
  split_ifs with hmany
  · rw [Call.returns_modify]
    refine ⟨rfl, ?_⟩
    have hL : s.liveAfter L p = L := by
      funext j
      unfold Sfs.liveAfter
      grind
    refine ⟨?_, .withRef, fun j _ => ?_, rfl, ?_, fun i => ?_, fun _ _ => rfl⟩
    · rw [hL]
      exact h.withRef (by omega)
    · have hcur : (s.withRef p ((s.vn p).refcount - 1)).cur = s.cur := Sfs.cur_withRef
      exact hcur ▸ .refl
    · rw [hrc]
      exact Sfs.rc_withRef hp
    · refine Sfs.opened_withRef.trans (and_iff_left ?_).symm
      rintro ⟨-, hone⟩
      omega
  · have hone : s.rc p = 1 := by omega
    rw [returns_bind, Call.returns_attempt]
    have hreclaim : (sfsReclaim p).Returns s fun r t => r = .ok () ∧ SfsDropped L p s t := by
      by_cases hlinks : sfiLinkcount (s.vn p).inode = 0
      · exact returns_sfsReclaim_freed h hp hone hlinks
      · exact returns_sfsReclaim_kept h hp hone hlinks
    refine hreclaim.mono ?_
    rintro r t ⟨-, ht⟩
    exact returns_pure.mpr ⟨rfl, ht⟩

end

/-! ## `sfs_loadvnode` -/

theorem returns_sfsBused (hlt : b < s.nblocks) {Q : Except Errno Bool → Sfs → Prop} :
    (sfsBused b).Returns s Q ↔ Q (.ok (s.used b)) s := by
  unfold sfsBused
  simp [hlt, Sfs.used]

theorem returns_sfsFindvnode {l : List Nat}
    (hl : ∀ p ∈ l, (s.vn p).ino < s.nblocks ∧ s.used (s.vn p).ino = true)
    {Q : Except Errno (Option Nat) → Sfs → Prop} :
    (sfsFindvnode ino l).Returns s Q ↔ Q (.ok (l.find? fun p => (s.vn p).ino = ino)) s := by
  induction l with
  | nil => exact returns_pure
  | cons p l ih =>
    obtain ⟨⟨hlt, hused⟩, hl⟩ := List.forall_mem_cons.mp hl
    unfold sfsFindvnode
    rw [returns_bindRead, returns_bind,
      returns_sfsBused hlt, andthen_ok, returns_bindAssert, List.find?_cons]
    refine (and_iff_right hused).trans ?_
    by_cases hpi : (s.vn p).ino = ino
    · rw [if_pos hpi, returns_pure, decide_eq_true hpi]
    · rw [if_neg hpi, ih hl, decide_eq_false hpi]

section Enter

variable {dirty : Bool}

theorem Sfs.vn_enter_self : (s.enter ino X dirty).vn s.nextVn = ⟨ino, X, dirty, 1⟩ :=
  update_self _ _ _

theorem Sfs.vn_enter_of_lt (hq : q < s.nextVn) : (s.enter ino X dirty).vn q = s.vn q :=
  update_of_ne hq.ne _ _

theorem Sfs.mem_enter : q ∈ (s.enter ino X dirty).vnodes ↔ q ∈ s.vnodes ∨ q = s.nextVn :=
  List.mem_append.trans (or_congr_right List.mem_singleton)

theorem SfsMoves.enter : SfsMoves s (s.enter ino X dirty) :=
  ⟨rfl, Nat.le_succ _, fun _ hq => by rw [Sfs.vn_enter_of_lt hq]⟩

theorem SfsHouse.opened_enter (h : SfsHouse L s) :
    (s.enter ino X dirty).Opened i ↔ s.Opened i ∨ i = ino := by
  constructor
  · rintro ⟨q, hq, rfl⟩
    obtain hq | rfl := Sfs.mem_enter.mp hq
    · exact .inl ⟨q, hq, by rw [Sfs.vn_enter_of_lt (h.fresh q hq)]⟩
    · exact .inr (by rw [Sfs.vn_enter_self])
  · rintro (⟨q, hq, rfl⟩ | rfl)
    · exact ⟨q, Sfs.mem_enter.mpr (.inl hq), by rw [Sfs.vn_enter_of_lt (h.fresh q hq)]⟩
    · exact ⟨s.nextVn, Sfs.mem_enter.mpr (.inr rfl), by rw [Sfs.vn_enter_self]⟩

theorem SfsHouse.rc_enter (h : SfsHouse L s) :
    (s.enter ino X dirty).rc = update s.rc s.nextVn (s.rc s.nextVn + 1) := by
  funext q
  by_cases hq : q = s.nextVn
  · rw [hq, update_self, h.rc_nextVn]
    refine (if_pos (Sfs.mem_enter.mpr (.inr rfl))).trans ?_
    rw [Sfs.vn_enter_self]
  · rw [update_of_ne hq]
    unfold Sfs.rc
    by_cases hmem : q ∈ s.vnodes
    · rw [if_pos hmem, if_pos (Sfs.mem_enter.mpr (.inl hmem)), Sfs.vn_enter_of_lt (h.fresh q hmem)]
    · rw [if_neg hmem, if_neg fun hc => (Sfs.mem_enter.mp hc).elim hmem hq]

theorem SfsHouse.distinct_enter (dirty : Bool) (h : SfsHouse L s) (hno : ¬s.Opened ino) :
    ∀ q ∈ (s.enter ino X dirty).vnodes, ∀ r ∈ (s.enter ino X dirty).vnodes,
      ((s.enter ino X dirty).vn q).ino = ((s.enter ino X dirty).vn r).ino → q = r := by
  intro q hq r hr he
  obtain hq | rfl := Sfs.mem_enter.mp hq
  · rw [Sfs.vn_enter_of_lt (h.fresh q hq)] at he
    obtain hr | rfl := Sfs.mem_enter.mp hr
    · rw [Sfs.vn_enter_of_lt (h.fresh r hr)] at he
      exact h.distinct q hq r hr he
    · rw [Sfs.vn_enter_self] at he
      exact absurd ⟨q, hq, he⟩ hno
  · obtain hr | rfl := Sfs.mem_enter.mp hr
    · rw [Sfs.vn_enter_self, Sfs.vn_enter_of_lt (h.fresh r hr)] at he
      exact absurd ⟨r, hr, he.symm⟩ hno
    · rfl

theorem SfsHouse.cur_enter (h : SfsHouse L s) (hno : ¬s.Opened ino) :
    (s.enter ino X dirty).cur = update s.cur ino X := by
  have hd := h.distinct_enter (X := X) dirty hno
  funext b
  by_cases hb : b = ino
  · subst hb
    have hcur := Sfs.cur_of_mem hd (Sfs.mem_enter.mpr (.inr rfl))
    rw [Sfs.vn_enter_self] at hcur
    rw [update_self, hcur]
  · rw [update_of_ne hb]
    by_cases ho : s.Opened b
    · obtain ⟨q, hq, rfl⟩ := ho
      have hcur := Sfs.cur_of_mem hd (Sfs.mem_enter.mpr (.inl hq))
      rw [Sfs.vn_enter_of_lt (h.fresh q hq)] at hcur
      rw [hcur, h.cur_of_mem hq]
    · have ho' : ¬(s.enter ino X dirty).Opened b := fun hc =>
        (h.opened_enter.mp hc).elim ho hb
      rw [Sfs.cur_of_not_opened ho, Sfs.cur_of_not_opened ho']
      rfl

/-- A vnode for inode `ino` comes into the table; it is new, or on disk as in memory. -/
theorem SfsHouse.enter (h : SfsHouse L s) (hno : ¬s.Opened ino) (hL : ∀ i, L i → L' i)
    (hino : L' ino) (hc : dirty = false → s.disk ino = X) :
    SfsHouse L' (s.enter ino X dirty) where
  distinct := h.distinct_enter dirty hno
  nodup := by
    refine List.nodup_append.mpr ⟨h.nodup, by simp, fun a ha b hb hab => ?_⟩
    rw [List.mem_singleton] at hb
    exact (h.fresh a ha).ne (hab.trans hb)
  fresh q hq := by
    obtain hq | rfl := Sfs.mem_enter.mp hq
    · exact (h.fresh q hq).trans (Nat.lt_succ_self _)
    · exact Nat.lt_succ_self _
  counted q hq := by
    obtain hq | rfl := Sfs.mem_enter.mp hq
    · rw [Sfs.vn_enter_of_lt (h.fresh q hq)]
      exact h.counted q hq
    · rw [Sfs.vn_enter_self]
      exact Nat.one_pos
  device := h.device
  sectors := h.sectors
  live i hi := by
    obtain hi | rfl := h.opened_enter.mp hi
    · exact hL i (h.live i hi)
    · exact hino
  clean q hq := by
    obtain hq | rfl := Sfs.mem_enter.mp hq
    · rw [Sfs.vn_enter_of_lt (h.fresh q hq)]
      exact h.clean q hq
    · rw [Sfs.vn_enter_self]
      exact hc
  freemap := h.freemap
  magic := h.magic
  nblocks := h.nblocks
  super := h.super
  last i c hi := by
    obtain ⟨hLi, hci⟩ := h.last i c hi
    exact ⟨hL i hLi, fun ho => hci fun ho' => ho (h.opened_enter.mpr (.inl ho'))⟩

end Enter

theorem SfsOk.asks (h : SfsOk L s) : SfsOk L s.asks := ⟨h.toSfsHouse.asks, h.volume⟩

/-- A call that changes nothing that a file or a vnode is made of. -/
structure SfsStill (L : Nat → Prop) (s t : Sfs) : Prop where
  ok : SfsOk L t
  frame : SfsFrame s t
  cur : t.cur = s.cur
  used : t.used = s.used
  uio : t.uio = s.uio

theorem SfsStill.refl (h : SfsOk L s) : SfsStill L s s := ⟨h, .refl, rfl, rfl, rfl⟩

theorem SfsStill.asks (h : SfsOk L s) : SfsStill L s s.asks := ⟨h.asks, .asks, rfl, rfl, rfl⟩

theorem SfsStill.trans (h : SfsStill L s t) (h' : SfsStill L t u) : SfsStill L s u :=
  ⟨h'.ok, h.frame.trans h'.frame, h'.cur.trans h.cur, h'.used.trans h.used, h'.uio.trans h.uio⟩

theorem SfsOk.used_of_mem (h : SfsOk L s) (hp : p ∈ s.vnodes) :
    (s.vn p).ino < s.nblocks ∧ s.used (s.vn p).ino = true :=
  ⟨h.lt_of_owns (h.live_of_mem hp) .self, h.volume.used_of_owns (h.live_of_mem hp) .self⟩

theorem returns_sfsLoadvnode (h : SfsOk L s) (hi : L ino)
    (htype : sfiType (s.cur ino) = 1 ∨ sfiType (s.cur ino) = 2) :
    (sfsLoadvnode ino 0).Returns s fun r t => Call.Settled (fun _ => SfsStill L s t)
      (fun p => SfsHeld L p s t ∧ (t.vn p).ino = ino) r := by
  unfold sfsLoadvnode
  rw [returns_bindRead, returns_bind]
  refine (returns_sfsFindvnode fun p hp => h.used_of_mem hp).mpr ?_
  rw [andthen_ok]
  cases hf : s.vnodes.find? fun p => (s.vn p).ino = ino with
  | some p =>
    have hp := List.mem_of_find?_eq_some hf
    have hpi : (s.vn p).ino = ino := by simpa using List.find?_some hf
    dsimp only
    rw [returns_bindAssert]
    refine ⟨rfl, ?_⟩
    rw [returns_bind]
    refine (returns_vnodeIncref h hp).mono ?_
    rintro _ t ⟨rfl, ht, hino⟩
    exact returns_pure.mpr ⟨ht, hino.trans hpi⟩
  | none =>
    have hno : ¬s.Opened ino := by
      rintro ⟨p, hp, hpi⟩
      simpa [hpi] using List.find?_eq_none.mp hf p hp
    have hcur : s.disk ino = s.cur ino := (Sfs.cur_of_not_opened hno).symm
    have hlt := h.lt_of_owns hi .self
    dsimp only
    rw [returns_bind]
    refine returns_kmalloc ?_ (SfsStill.asks h)
    rw [andthen_ok, returns_bind, returns_sfsBused (s := s.asks) hlt, andthen_ok,
      returns_bindAssert]
    refine ⟨h.volume.used_of_owns hi .self, ?_⟩
    rw [returns_bind, returns_sfsReadblock (s := s.asks) h.asks.toSfsHouse hlt, andthen_ok]
    have hdisk : s.asks.disk ino = s.cur ino := hcur
    rw [hdisk]
    unfold sfsInitvnode
    rw [if_pos rfl, returns_bindAssert]
    refine ⟨htype, ?_⟩
    rw [returns_bind]
    refine returns_kmalloc ?_ ((SfsStill.asks h).trans (.asks h.asks))
    rw [andthen_ok, returns_bindRead, Call.returns_bindModify, returns_pure]
    dsimp only [id_eq]
    have hh : SfsHouse L s.asks.asks := h.asks.asks.toSfsHouse
    have hcur' : (s.asks.asks.enter ino (s.cur ino) false).cur = s.cur := by
      rw [hh.cur_enter hno]
      exact update_eq_self _ _
    refine ⟨⟨⟨hh.enter hno (fun _ h => h) hi fun _ => hcur, ?_⟩, ?_, hcur', rfl, rfl, rfl,
      hh.rc_enter, fun i => ?_⟩, congrArg SfsVnode.ino Sfs.vn_enter_self⟩
    · rw [hcur']
      exact h.volume
    · exact (SfsFrame.asks.trans .asks).moves.trans .enter
    · exact hh.opened_enter.trans (or_congr_right (by rw [Sfs.vn_enter_self]))

/-! ## `sfs_makeobj` -/

/-- One more inode. -/
def SfsWith (L : Nat → Prop) (i : Nat) : Nat → Prop := fun j => L j ∨ j = i

/-- A new inode, with vnode `p`. -/
structure SfsMade (L : Nat → Prop) (type p : Nat) (s t : Sfs) : Prop where
  ok : SfsOk (SfsWith L (t.vn p).ino) t
  new : ¬L (t.vn p).ino
  moves : SfsMoves s t
  same : ∀ j, L j → SfsSame s.cur t.cur j
  inode : t.cur (t.vn p).ino = setHalf zeros 2 type
  uio : t.uio = s.uio
  last : t.last = s.last
  rc : t.rc = update s.rc p (s.rc p + 1)
  opened : ∀ i, t.Opened i ↔ s.Opened i ∨ i = (t.vn p).ino

theorem SfsMade.mem (h : SfsMade L type p s t) : p ∈ t.vnodes := by
  rw [← h.ok.rc_pos, h.rc, update_self]
  exact Nat.succ_pos _

/-- A call that changes no file. -/
structure SfsIdle (L : Nat → Prop) (s t : Sfs) : Prop where
  ok : SfsOk L t
  frame : SfsFrame s t
  same : ∀ j, L j → SfsSame s.cur t.cur j
  uio : t.uio = s.uio

theorem SfsStill.idle (h : SfsStill L s t) : SfsIdle L s t :=
  ⟨h.ok, h.frame, fun j _ => by rw [h.cur]; exact .refl, h.uio⟩

theorem SfsOk.free_alloc (h : SfsOk L s) (hb : s.used b = false) (hh : SfsHouse L u)
    (hfr : SfsFrame (s.alloc b) u) (hcur : u.cur = (s.alloc b).cur)
      (hused : u.used = (s.alloc b).used)
    (huio : u.uio = s.uio) : SfsIdle L s (u.free b) := by
  have hsame : ∀ j, L j → SfsSame s.cur (u.free b).cur j := by
    intro j hj
    rw [Sfs.cur_free, hcur, h.cur_alloc hb]
    exact sfsSame_update (h.volume.not_owns_of_free hj hb)
  have hfr' : SfsFrame s (u.free b) := SfsFrame.alloc.trans (hfr.trans .free)
  refine ⟨⟨hh.free, ?_⟩, hfr', hsame, huio⟩
  have hback : (u.free b).used = s.used := by
    rw [Sfs.used_free, hused, Sfs.used_alloc, update_idem, ← hb, update_eq_self]
  rw [hfr'.nblocks, hback]
  exact h.volume.of_same hsame

theorem sfiType_new : sfiType (setHalf zeros 2 type) = type % 65536 := half_setHalf_self

theorem sfiLinkcount_new : sfiLinkcount (setHalf zeros 2 type) = 0 :=
  (half_setHalf_of_ne (by decide)).trans half_zeros

theorem sfiSize_new : sfiSize (setHalf zeros 2 type) = 0 :=
  (word_setHalf_of_ne (by decide)).trans word_zeros

theorem sfsBlockAt_new {D : Nat → Bytes} (h : D i = setHalf zeros 2 type) : sfsBlockAt D i k =
    0 := by
  have hind : sfiIndirect (D i) = 0 := by
    rw [h]
    exact (word_setHalf_of_ne (by decide)).trans word_zeros
  by_cases hk : k < 15
  · rw [sfsBlockAt_direct hk, h]
    exact (word_setHalf_of_ne (by omega)).trans word_zeros
  · exact sfsBlockAt_none (by omega) hind

theorem returns_sfsMakeobj (h : SfsOk L s) (htype : type = 1 ∨ type = 2) :
    (sfsMakeobj type).Returns s fun r t => Call.Settled (fun _ => SfsIdle L s t)
      (fun p => SfsMade L type p s t) r := by
  unfold sfsMakeobj
  rw [returns_bind]
  refine returns_sfsBalloc h (SfsStill.refl h).idle fun b hb hlt => ?_
  rw [andthen_ok, returns_bind, Call.returns_attempt]
  have hh := h.house_alloc hb hlt
  have hdb := h.volume.dataBlock_of_free hb hlt
  have hnew := h.not_live_of_free hb
  have hno : ¬s.Opened b := h.not_opened hnew
  have hused : (s.alloc b).used b = true := by rw [Sfs.used_alloc, update_self]
  have hbits : b < sfsFreemapbits s.nblocks := hlt
  have hlt' : b < (s.alloc b).nblocks := hdb.2.1
  -- memory runs out: the block goes back
  have hfail : ∀ u, SfsHouse L u → SfsFrame (s.alloc b) u → u.cur = (s.alloc b).cur →
      u.used = (s.alloc b).used → u.uio = s.uio →
      (do sfsBfree b; Call.fail .enomem : SfsCall Nat).Returns u fun r t =>
        Call.Settled (fun _ => SfsIdle L s t) (fun p => SfsMade L type p s t) r := by
    intro u hu hfr hcur hused' huio
    have hb' : u.used b = true := by rw [hused', hused]
    have hlt'' : b < sfsFreemapbits u.nblocks := by
      rw [hfr.nblocks]
      exact hbits
    rw [returns_bind, returns_sfsBfree hlt'' hb', andthen_ok, Call.returns_fail]
    exact h.free_alloc hb hu hfr hcur hused' huio
  unfold sfsLoadvnode
  rw [returns_bindRead, returns_bind]
  have hvn : ∀ p ∈ (s.alloc b).vnodes, ((s.alloc b).vn p).ino < (s.alloc b).nblocks ∧
      (s.alloc b).used ((s.alloc b).vn p).ino = true := by
    intro p hp
    obtain ⟨h1, h2⟩ := h.used_of_mem (p := p) hp
    refine ⟨h1, ?_⟩
    rw [Sfs.used_alloc]
    by_cases hpb : (s.vn p).ino = b
    · exact absurd ⟨p, hp, hpb⟩ hno
    · exact (update_of_ne hpb _ _).trans h2
  refine (returns_sfsFindvnode hvn).mpr ?_
  have hf : (s.alloc b).vnodes.find? (fun p => ((s.alloc b).vn p).ino = b) = none := by
    refine List.find?_eq_none.mpr fun p hp hc => hno ⟨p, hp, of_decide_eq_true hc⟩
  rw [andthen_ok, hf]
  dsimp only
  rw [returns_bind]
  refine returns_kmalloc ?_ (hfail _ hh.asks .asks rfl rfl rfl)
  rw [andthen_ok, returns_bind, returns_sfsBused (s := (s.alloc b).asks) hlt',
    andthen_ok, returns_bindAssert]
  refine ⟨hused, ?_⟩
  rw [returns_bind, returns_sfsReadblock (s := (s.alloc b).asks) hh.asks hlt', andthen_ok]
  have hdisk : (s.alloc b).asks.disk b = zeros := update_self _ _ _
  rw [hdisk]
  unfold sfsInitvnode
  rw [if_neg (by omega), returns_bindAssert]
  refine ⟨half_zeros, ?_⟩
  rw [returns_bindAssert]
  refine ⟨htype, ?_⟩
  rw [returns_bind]
  refine returns_kmalloc ?_ (hfail _ hh.asks.asks (SfsFrame.asks.trans .asks) rfl rfl rfl)
  rw [andthen_ok, returns_bindRead, Call.returns_bindModify, returns_pure, andthen_ok]
  refine returns_pure.mpr ?_
  dsimp only [id_eq]
  -- the new vnode
  have hh' : SfsHouse L (s.alloc b).asks.asks := hh.asks.asks
  have hcur : ((s.alloc b).asks.asks.enter b (setHalf zeros 2 type) true).cur =
      update s.cur b (setHalf zeros 2 type) := by
    rw [hh'.cur_enter hno]
    change update (s.alloc b).cur b _ = _
    rw [h.cur_alloc hb, update_idem]
  have hino : ((s.alloc b).asks.asks.enter b (setHalf zeros 2 type) true).vn
      (s.alloc b).asks.asks.nextVn = ⟨b, setHalf zeros 2 type, true, 1⟩ := Sfs.vn_enter_self
  have hsame : ∀ j, L j → SfsSame s.cur (update s.cur b (setHalf zeros 2 type)) j := fun j hj =>
    sfsSame_update (h.volume.not_owns_of_free hj hb)
  have hD : update s.cur b (setHalf zeros 2 type) b = setHalf zeros 2 type := update_self _ _ _
  have hvol : SfsVolume s.nblocks (update s.cur b (setHalf zeros 2 type)) (update s.used b true)
      (SfsWith L b) :=
    h.volume.enroll hb hlt hsame (fun k => sfsBlockAt_new hD)
      (by rw [hD]; exact (word_setHalf_of_ne (by decide)).trans word_zeros) fun j => Iff.rfl
  refine ⟨?_, ?_, ?_, ?_, ?_, rfl, rfl, ?_, ?_⟩
  · rw [hino]
    refine ⟨hh'.enter hno (fun i hi => .inl hi) (.inr rfl) nofun, ?_⟩
    rw [hcur]
    exact Sfs.used_alloc (s := s) ▸ hvol
  · rw [hino]
    exact hnew
  · exact (SfsFrame.alloc.trans (SfsFrame.asks.trans .asks)).moves.trans .enter
  · rw [hcur]
    exact hsame
  · rw [hino, hcur]
    exact hD
  · rw [hh'.rc_enter]
    have hrc : (s.alloc b).asks.asks.rc = s.rc :=
      (SfsFrame.alloc.trans (SfsFrame.asks.trans .asks)).rc
    rw [hrc]
  · intro i
    rw [hino]
    exact hh'.opened_enter

end OsPaging.Fs
