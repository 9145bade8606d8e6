import OsPaging.Fs.SfsImages

/-!
# What SFS guarantees

Results about every run of calls from the mount of a consistent volume on, with `ENOSPC` and
`ENOMEM` at any point and without disk errors:

* `sfs_accounts_exact`: block accounting is exact;
* `sfs_directory_refines_map`: the root directory is a map from names to inodes;
* `sfs_lifetimes_exact`: inodes and vnodes live as long as they should;
* `sfs_sync_remount`: a sync and a fresh mount give the same files and the same freemap.

On volumes of more than 8388608 blocks the first and the last fail once data is written
(`sfs_accounts_fail`, `sfs_sync_remount_fails`): `sfs_blockio` writes a whole block to
`diskblock * SFS_BLOCKSIZE`, a product of 32 bits, and so into another file's inode.
-/

namespace OsPaging.Fs

open OsPaging.Lib Function

/-- The labels of a run: the calls and what they returned. -/
abbrev SfsLabels := List (SfsOp × Except Errno SfsAnswer)

variable {D : Nat → Bytes} {es : SfsLabels} {t u : SfsSys} {N i : Nat}

/-- A run of calls from the mount of the volume `D` on. -/
def SfsRun (D : Nat → Bytes) (es : SfsLabels) (t : SfsSys) : Prop :=
  ∃ dBlocks kmallocs fs, sfsNblocks D ≤ dBlocks ∧ dBlocks < 4294967296 ∧
    sfsDomount 512 (.blank D dBlocks kmallocs) = some (.ok (), fs) ∧
    Run SfsSys.Step (.ofMount fs) es t

/-- Data is moved only on volumes of at most 8388608 blocks. -/
def SfsSmall (N : Nat) (es : SfsLabels) : Prop := ∀ e ∈ es, e.1.MovesData → N ≤ 8388608

theorem SfsConsistent.run (hD : SfsConsistent D) (hrun : SfsRun D es t)
    (hsmall : SfsSmall (sfsNblocks D) es) :
    SfsSysOk (sfsNblocks D) (sfiLinkcount (D 1)) t := by
  obtain ⟨dBlocks, kmallocs, fs, hdev, hlt, hmount, hrun⟩ := hrun
  exact (hD.sys hdev hlt hmount).1.run hrun hsmall

/-! ## Runs of a list of calls -/

/-- Make the calls of a list, if the callers hold what they pass. -/
def SfsSys.runs (a : SfsSys) : List SfsOp → Option (SfsLabels × SfsSys)
  | [] => some ([], a)
  | op :: ops =>
    if a.Holds op then
      match a.exec op with
      | none => none
      | some (r, b) => (b.runs ops).map fun (es, c) => ((op, r) :: es, c)
    else none

theorem SfsSys.run_of_runs {ops : List SfsOp} {a : SfsSys} (h : a.runs ops = some (es, t)) :
    Run SfsSys.Step a es t ∧ es.map Prod.fst = ops := by
  induction ops generalizing a es with
  | nil =>
    cases h
    exact ⟨.nil, rfl⟩
  | cons op ops ih =>
    unfold SfsSys.runs at h
    split_ifs at h with hh
    split at h
    next => exact absurd h nofun
    next r b hb =>
      obtain ⟨⟨es', t'⟩, hes, he⟩ := Option.map_eq_some_iff.mp h
      cases he
      have hone : Run SfsSys.Step a [(op, r)] b := Run.nil.snoc ⟨hh, hb⟩
      obtain ⟨hrun, hops⟩ := ih hes
      exact ⟨hone.append hrun, congrArg (op :: ·) hops⟩

/-- A run on a device as large as the volume, with enough memory, to a state with a property that
can be evaluated and from which another one follows. -/
theorem SfsRun.exists_imp (ops : List SfsOp) (P : SfsLabels → SfsSys → Prop)
    {Q : SfsLabels → SfsSys → Prop} [∀ es t, Decidable (P es t)] (hD : SfsConsistent D)
    (hn : sfsNblocks D = N) (hlt : N < 4294967296)
    (h : ((SfsSys.ofMount (.mounted D N fun _ => true)).runs ops).any
      (fun x => P x.1 x.2) = true) (hQ : ∀ es t, SfsRun D es t → P es t → Q es t) :
    ∃ es t, SfsRun D es t ∧ es.map Prod.fst = ops ∧ Q es t := by
  subst hn
  obtain ⟨r, fs, hmount, hfs⟩ := sfsDomount_eq (sfsNblocks D) (fun _ => true) hD.magic hD.room hlt
  obtain ⟨rfl, rfl⟩ : r = .ok () ∧ fs = .mounted D (sfsNblocks D) fun _ => true := by
    cases r with
    | error e =>
      obtain ⟨-, k, -, hk⟩ := hfs
      exact absurd hk (by decide)
    | ok _ => exact ⟨rfl, hfs⟩
  cases hr : (SfsSys.ofMount (.mounted D (sfsNblocks D) fun _ => true)).runs ops with
  | none =>
    rw [hr] at h
    cases h
  | some x =>
    rw [hr] at h
    obtain ⟨hrun, hops⟩ := SfsSys.run_of_runs hr
    have hrun : SfsRun D x.1 x.2 := ⟨_, _, _, le_refl _, hlt, hmount, hrun⟩
    exact ⟨x.1, x.2, hrun, hops, hQ _ _ hrun (of_decide_eq_true h)⟩

/-! ## Block accounting -/

/-- **Block accounting is exact.** Every state reached has exact accounts, and from there every call
returns. -/
theorem sfs_accounts_exact (hD : SfsConsistent D) (hrun : SfsRun D es t)
    (hsmall : SfsSmall (sfsNblocks D) es) :
    SfsVolume (sfsNblocks D) t.fs.cur t.fs.used t.fs.Live ∧
      ∀ op, t.Holds op → (op.MovesData → sfsNblocks D ≤ 8388608) →
        ∃ r u, t.exec op = some (r, u) := by
  have h := hD.run hrun hsmall
  refine ⟨?_, fun op hh hN => ?_⟩
  · rw [← h.nblocks]
    exact h.tree.ok.volume
  · obtain ⟨r, u, hexec, -⟩ := h.exec hh hN
    exact ⟨r, u, hexec⟩

/-- A write to a file and the removal of its name while it is open, on a volume of 16 blocks. -/
theorem sfs_accounts_exact_small : ∃ es t, SfsRun (sfsEmpty 16 fun _ => zeros) es t ∧
    es.map Prod.fst = [.getroot, .creat 0 sfsNameA true, .write 1 600 [1, 2, 3] 3,
      .remove 0 sfsNameA] ∧
    es.map Prod.snd = [.ok (.vnode 0), .ok (.vnode 1), .ok .done, .ok .done] ∧
    SfsVolume 16 t.fs.cur t.fs.used t.fs.Live := by
  have hD := sfsEmpty_sixteen
  have hn := sfsEmpty_sixteen_nblocks
  refine SfsRun.exists_imp _
    (fun es _ => es.map Prod.snd = [.ok (.vnode 0), .ok (.vnode 1), .ok .done, .ok .done]) hD hn
    (by decide) (by decide) fun es t hrun hes => ⟨hes, ?_⟩
  rw [← hn]
  exact (sfs_accounts_exact hD hrun fun e _ _ => by rw [hn]; decide).1

/-- A block of data that looks like an inode whose data is in block 2. -/
def sfsForged : List UInt8 := (List.range 512).map (sfsInode 1 1 512 2)

/-- A write of one block to file `a` of the large volume lands in the inode of file `b`, which then
names a block of the freemap. -/
theorem sfs_accounts_fail : SfsConsistent sfsLarge ∧ ∃ es t, SfsRun sfsLarge es t ∧
    es.map Prod.fst = [.getroot, .lookup 0 sfsNameA, .write 1 0 sfsForged 512] ∧
    sfsLookup t.fs.cur sfsNameB.1 = some 2053 ∧ sfsBlockAt t.fs.cur 2053 0 = 2 ∧
    ¬SfsVolume (sfsNblocks sfsLarge) t.fs.cur t.fs.used t.fs.Live := by
  refine ⟨sfsLarge_consistent, ?_⟩
  refine SfsRun.exists_imp _
    (fun _ t => sfsLookup t.fs.cur sfsNameB.1 = some 2053 ∧ 0 < sfsLinks t.fs.cur 1 2053 ∧
      sfsBlockAt t.fs.cur 2053 0 = 2)
    sfsLarge_consistent sfsLarge_nblocks (by decide) (by decide +kernel) ?_
  rintro es t - ⟨hname, hlinks, hblk⟩
  refine ⟨hname, hblk, fun hv => ?_⟩
  have hlive : t.fs.Live 2053 := .inr (.inl ⟨by decide, hlinks⟩)
  have hdata := hv.dataBlock_of_owns hlive (.data (k := 0) (by rw [hblk]; decide))
  rw [hblk, sfsLarge_nblocks] at hdata
  exact hdata.2.2 (by decide)

/-! ## The directory -/

/-- **The root directory is a map from names to inodes.** In every state reached the entries in use
define the partial map `sfsLookup`, each name has one entry, and the link count of a regular file is
the number of its entries. Every call from there changes the map as its name says, and not at all if
it fails. -/
theorem sfs_directory_refines_map (hD : SfsConsistent D) (hrun : SfsRun D es t)
    (hsmall : SfsSmall (sfsNblocks D) es) :
    (∀ j < sfsSlots t.fs.cur 1, ∀ k < sfsSlots t.fs.cur 1, sfsDirIno t.fs.cur 1 j ≠ 0 →
      sfsDirIno t.fs.cur 1 k ≠ 0 → sfsDirName t.fs.cur 1 j = sfsDirName t.fs.cur 1 k → j = k) ∧
    (∀ n i, sfsLookup t.fs.cur n = some i ↔ ∃ j < sfsSlots t.fs.cur 1,
      sfsDirIno t.fs.cur 1 j = i ∧ i ≠ 0 ∧ sfsDirName t.fs.cur 1 j = n) ∧
    (∀ i, t.fs.Live i → i ≠ 1 → sfiType (t.fs.cur i) = 1 ∧
      sfiLinkcount (t.fs.cur i) = sfsLinks t.fs.cur 1 i) ∧
    ∀ op r u, t.Step (op, r) u → (op.MovesData → sfsNblocks D ≤ 8388608) →
      op.Remaps r (fun v => (u.fs.vn v).ino) (sfsLookup t.fs.cur) (sfsLookup u.fs.cur) := by
  have h := hD.run hrun hsmall
  refine ⟨h.tree.dir.unique, fun n i => h.tree.dir.lookup_eq_some, fun i hi h1 => ?_,
    fun op r u hs hN => (h.step hs hN).1.2⟩
  obtain ⟨htype, hlinks⟩ := h.tree.file i hi h1
  grind

/-- A file with two names loses the first of them. -/
theorem sfs_directory_refines_map_small : ∃ es t, SfsRun (sfsEmpty 16 fun _ => zeros) es t ∧
    es.map Prod.fst = [.getroot, .creat 0 sfsNameA true, .link 0 sfsNameB 1, .remove 0 sfsNameA] ∧
    sfsLookup t.fs.cur sfsNameA.1 = none ∧ sfsLookup t.fs.cur sfsNameB.1 = some 3 ∧
    sfiLinkcount (t.fs.cur 3) = sfsLinks t.fs.cur 1 3 := by
  have hD := sfsEmpty_sixteen
  have hn := sfsEmpty_sixteen_nblocks
  refine SfsRun.exists_imp _
    (fun _ t => sfsLookup t.fs.cur sfsNameA.1 = none ∧ sfsLookup t.fs.cur sfsNameB.1 = some 3 ∧
      0 < sfsLinks t.fs.cur 1 3) hD hn (by decide) (by decide) ?_
  rintro es t hrun ⟨ha, hb, hlinks⟩
  obtain ⟨-, -, hfile, -⟩ := sfs_directory_refines_map hD hrun fun e _ _ => by rw [hn]; decide
  exact ⟨ha, hb, (hfile 3 (.inr (.inl ⟨by decide, hlinks⟩)) (by decide)).2⟩

/-! ## The lifetimes of vnodes and inodes -/

/-- **Vnode lifetimes are exact.** In every state reached an inode has at most one vnode, reference
counts are the references held, and the blocks of an inode with a vnode are in use. In every call
from there an inode goes, with all its blocks, if and only if after the call it has neither a name
nor a vnode; and a vnode that is loaded has the inode that was there, which is the one its
predecessor had when it was reclaimed (`last`). -/
theorem sfs_lifetimes_exact (hD : SfsConsistent D) (hrun : SfsRun D es t)
    (hsmall : SfsSmall (sfsNblocks D) es) :
    (∀ p ∈ t.fs.vnodes, ∀ q ∈ t.fs.vnodes, (t.fs.vn p).ino = (t.fs.vn q).ino → p = q) ∧
    (∀ p ∈ t.fs.vnodes, (t.fs.vn p).refcount = t.refs p ∧ 0 < t.refs p) ∧
    (∀ p, p ∉ t.fs.vnodes → t.refs p = 0) ∧
    (∀ p ∈ t.fs.vnodes, ∀ b, SfsOwns t.fs.cur (t.fs.vn p).ino b → t.fs.used b = true) ∧
    ∀ op r u, t.Step (op, r) u → (op.MovesData → sfsNblocks D ≤ 8388608) →
      (∀ i, t.fs.Live i → ((∀ b, SfsOwns t.fs.cur i b → u.fs.used b = false) ↔
        i ≠ 1 ∧ sfsLinks u.fs.cur 1 i = 0 ∧ ∀ p ∈ u.fs.vnodes, (u.fs.vn p).ino ≠ i)) ∧
      (∀ p ∈ u.fs.vnodes, p ∉ t.fs.vnodes → t.fs.Live (u.fs.vn p).ino →
        (u.fs.vn p).inode = t.fs.cur (u.fs.vn p).ino) ∧
      ∀ p ∈ u.fs.vnodes, p ∉ t.fs.vnodes → ¬t.fs.Opened (u.fs.vn p).ino →
        ∀ b, t.fs.last (u.fs.vn p).ino = some b → (u.fs.vn p).inode = b := by
  have h := hD.run hrun hsmall
  have hok := h.tree.ok
  refine ⟨hok.distinct, fun p hp => ?_, fun p hp => ?_, fun p hp b hb => ?_, fun op r u hs hN => ?_⟩
  · rw [← h.refs]
    exact ⟨(SfsHouse.rc_of_mem hp).symm, hok.rc_pos.mpr hp⟩
  · rw [← h.refs]
    exact if_neg hp
  · exact hok.volume.used_of_owns (hok.live_of_mem hp) hb
  obtain ⟨⟨hdoes, -⟩, hu⟩ := h.step hs hN
  have hload : ∀ p ∈ u.fs.vnodes, p ∉ t.fs.vnodes → t.fs.Live (u.fs.vn p).ino →
      (u.fs.vn p).inode = t.fs.cur (u.fs.vn p).ino := by
    intro p hp hnew hlive
    rw [← hu.tree.ok.cur_of_mem hp]
    exact hdoes.reload p hp hnew hlive
  refine ⟨fun i hi => ?_, hload, fun p hp hnew hno b hb => ?_⟩
  · have hgone : (i ≠ 1 ∧ sfsLinks u.fs.cur 1 i = 0 ∧ ∀ p ∈ u.fs.vnodes, (u.fs.vn p).ino ≠ i) ↔
        ¬u.fs.Live i := by
      have h0 := h.tree.ne_zero hi
      unfold Sfs.Live Sfs.Opened
      grind
    rw [hgone]
    constructor
    · -- the inode's own block is in use as long as it lives
      intro hfree hlive
      have := hu.tree.ok.volume.used_of_owns hlive .self
      rw [hfree i .self] at this
      exact absurd this (by decide)
    · exact fun hno => hdoes.freed i hi hno
  · obtain ⟨hlive, hdisk⟩ := hok.last _ b hb
    rw [hload p hp hnew hlive, Sfs.cur_of_not_opened hno, hdisk hno]

/-- A file is made, closed and opened again. -/
theorem sfs_lifetimes_exact_small : ∃ es t u, SfsRun (sfsEmpty 16 fun _ => zeros) es t ∧
    es.map Prod.fst = [.getroot, .creat 0 sfsNameA true, .decref 1] ∧
    t.Step (.lookup 0 sfsNameA, .ok (.vnode 2)) u ∧
    t.fs.last 3 = some (u.fs.vn 2).inode := by
  have hD := sfsEmpty_sixteen
  have hn := sfsEmpty_sixteen_nblocks
  simp only [exists_and_left]
  refine SfsRun.exists_imp _
    (fun _ t => t.Holds (.lookup 0 sfsNameA) ∧
      (t.exec (.lookup 0 sfsNameA)).any (fun x => x.1 = .ok (.vnode 2) ∧ 2 ∈ x.2.fs.vnodes ∧
        (x.2.fs.vn 2).ino = 3) = true ∧
      2 ∉ t.fs.vnodes ∧ (∀ p ∈ t.fs.vnodes, (t.fs.vn p).ino ≠ 3) ∧ (t.fs.last 3).isSome = true)
    hD hn (by decide) (by decide) ?_
  rintro es t hrun ⟨hh, hlook, hnew, hno, hlast⟩
  obtain ⟨⟨r, u⟩, hexec, hu⟩ := (Option.any_eq_true _ _).mp hlook
  obtain ⟨rfl, hmem, hino⟩ := of_decide_eq_true hu
  obtain ⟨b, hb⟩ := Option.isSome_iff_exists.mp hlast
  have hstep : t.Step (.lookup 0 sfsNameA, .ok (.vnode 2)) u := ⟨hh, hexec⟩
  obtain ⟨-, -, -, -, hcalls⟩ := sfs_lifetimes_exact hD hrun fun e _ _ => by rw [hn]; decide
  obtain ⟨-, -, hreload⟩ := hcalls _ _ _ hstep nofun
  have hinode : (u.fs.vn 2).inode = b := by
    refine hreload 2 hmem hnew ?_ b ?_
    · rw [hino]
      rintro ⟨p, hp, hp3⟩
      exact hno p hp hp3
    · rw [hino]
      exact hb
  grind

/-! ## Sync and remount -/

/-- What a file system `s` and one mounted afresh agree on: the names, the inode behind each name,
every file, and the freemap. -/
structure SfsAgree (s fresh : Sfs) : Prop where
  names : sfsLookup fresh.cur = sfsLookup s.cur
  files : ∀ i, s.Live i → fresh.cur i = s.cur i ∧ sfsFile fresh.cur i = sfsFile s.cur i
  freemap : ∀ b < sfsFreemapbits s.nblocks, fresh.used b = s.used b

/-- The image on disk after a sync is a volume like the one in memory. -/
theorem SfsFlushed.agree {L : Nat → Prop} {c x dBlocks : Nat} {kmallocs : Nat → Bool} {s t : Sfs}
    (hf : SfsFlushed L s t) (h : SfsTree c x 0 L s) :
    SfsAgree s (.mounted t.disk dBlocks kmallocs) := by
  have hcur : (Sfs.mounted t.disk dBlocks kmallocs).cur = t.cur := hf.disk
  have hn : sfsNblocks t.disk = s.nblocks := hf.ok.nblocks.trans hf.frame.nblocks
  refine ⟨?_, fun i hi => ?_, fun b hb => ?_⟩
  · rw [hcur]
    exact sfsLookup_of_file (hf.same 1 h.root_live).file
  · rw [← h.eq_live] at hi
    rw [hcur]
    exact ⟨(hf.same i hi).inode, (hf.same i hi).file⟩
  · rw [← hf.used]
    refine bitmapIsset_congr ?_
    change sfsFreemapOf t.disk (sfsFreemapblocks (sfsNblocks t.disk)) (b / 8) = t.freemap (b / 8)
    have hbits : sfsFreemapbits s.nblocks = sfsFreemapblocks s.nblocks * 4096 := by
      unfold sfsFreemapblocks sfsFreemapbits
      omega
    have hlt : b / 8 / 512 < sfsFreemapblocks t.nblocks := by
      rw [hf.frame.nblocks]
      omega
    unfold sfsFreemapOf
    rw [hn, if_pos (by omega), hf.freemap _ hlt _ (Nat.mod_lt _ (by decide))]
    exact congrArg _ (by omega)

/-- **Sync and remount preserve the volume.** A sync at the end of a run succeeds, and a mount of
the disk it leaves gives, unless memory runs out, a file system that agrees with the one in memory.
-/
theorem sfs_sync_remount (dBlocks : Nat) (kmallocs : Nat → Bool) (hD : SfsConsistent D)
    (hrun : SfsRun D es t) (hsmall : SfsSmall (sfsNblocks D) es) (hdev : sfsNblocks D ≤ dBlocks)
    (hlt : dBlocks < 4294967296) :
    ∃ u, t.exec .sync = some (.ok .done, u) ∧
      (sfsDomount 512).Returns (.blank u.fs.disk dBlocks kmallocs) fun r fresh => Call.Settled
        (fun e => e = .enomem ∧ ∃ k < 4, kmallocs k = false) (fun _ => SfsAgree t.fs fresh) r := by
  have h := hD.run hrun hsmall
  have hroom := h.room
  obtain ⟨r, v, hsync, rfl, hv⟩ := returns_sfsSync h.tree.ok (by rw [h.nblocks]; exact hroom)
  have hn : sfsNblocks v.disk = sfsNblocks D :=
      hv.ok.nblocks.trans (hv.frame.nblocks.trans h.nblocks)
  refine ⟨⟨v, t.refs⟩, ?_, ?_⟩
  · have hcall : SfsOp.sync.call t.fs = some (.ok .done, v) := by
      change (answerDone sfsSync) t.fs = _
      rw [answerDone, Call.bind_apply, hsync]
      rfl
    unfold SfsSys.exec
    rw [hcall]
    rfl
  · refine (sfsDomount_eq dBlocks kmallocs hv.ok.magic (by rw [hn]; omega) hlt).mono ?_
    rintro (e | _) fresh hfresh
    · exact hfresh
    · obtain rfl : fresh = _ := hfresh
      exact hv.agree h.tree

/-- A file is written, then the volume is synced and mounted afresh: the file is there. -/
theorem sfs_sync_remount_small : ∃ es t u fresh, SfsRun (sfsEmpty 16 fun _ => zeros) es t ∧
    es.map Prod.fst = [.getroot, .creat 0 sfsNameA true, .write 1 600 [1, 2, 3] 3] ∧
    t.exec .sync = some (.ok .done, u) ∧
    sfsDomount 512 (.blank u.fs.disk 16 fun _ => true) = some (.ok (), fresh) ∧
    sfsLookup fresh.cur sfsNameA.1 = some 3 ∧ sfsByte fresh.cur 3 601 = 2 := by
  have hD := sfsEmpty_sixteen
  have hn := sfsEmpty_sixteen_nblocks
  simp only [exists_and_left]
  refine SfsRun.exists_imp _
    (fun _ t => sfsLookup t.fs.cur sfsNameA.1 = some 3 ∧ 0 < sfsLinks t.fs.cur 1 3 ∧
      sfsByte t.fs.cur 3 601 = 2) hD hn (by decide) (by decide) ?_
  rintro es t hrun ⟨hname, hlinks, hbyte⟩
  obtain ⟨u, hsync, r, fresh, hmount, hfresh⟩ := sfs_sync_remount 16 (fun _ => true) hD hrun
    (fun e _ _ => by rw [hn]; decide) hn.le (by decide)
  cases r with
  | error e =>
    obtain ⟨-, k, -, hk⟩ := hfresh
    exact absurd hk (by decide)
  | ok _ =>
    have hfile := (hfresh.files 3 (.inr (.inl ⟨by decide, hlinks⟩))).2
    refine ⟨u, hsync, fresh, hmount, ?_, ?_⟩
    · rw [hfresh.names]
      exact hname
    · exact (congrFun (congrArg SfsFile.bytes hfile) 601).trans hbyte

/-- On the large volume the inode of file `b`, in memory and clean, is overwritten on disk by a
write to file `a`. The sync does not write it, and after the remount the file has another size. -/
theorem sfs_sync_remount_fails : SfsConsistent sfsLarge ∧ ∃ es t u fresh, SfsRun sfsLarge es t ∧
    es.map Prod.fst = [.getroot, .lookup 0 sfsNameA, .lookup 0 sfsNameB,
      .write 1 0 sfsForged 512] ∧
    t.exec .sync = some (.ok .done, u) ∧
    sfsDomount 512 (.blank u.fs.disk 8392704 fun _ => true) = some (.ok (), fresh) ∧
    sfsLookup t.fs.cur sfsNameB.1 = some 2053 ∧ sfiSize (t.fs.cur 2053) = 0 ∧
    sfiSize (fresh.cur 2053) = 512 ∧ ¬SfsAgree t.fs fresh := by
  refine ⟨sfsLarge_consistent, ?_⟩
  simp only [exists_and_left]
  refine SfsRun.exists_imp _
    (fun _ t => sfsLookup t.fs.cur sfsNameB.1 = some 2053 ∧ 0 < sfsLinks t.fs.cur 1 2053 ∧
      sfiSize (t.fs.cur 2053) = 0 ∧
      (t.exec .sync).any (fun x => x.1 = .ok .done ∧ word (x.2.fs.disk 0) 0 = 0xabadf001 ∧
        sfsNblocks x.2.fs.disk = 8392704 ∧ sfiSize (x.2.fs.disk 2053) = 512) = true)
    sfsLarge_consistent sfsLarge_nblocks (by decide) (by decide +kernel) ?_
  rintro es t - ⟨hname, hlinks, hsize, hsync⟩
  obtain ⟨⟨r, u⟩, hexec, hu⟩ := (Option.any_eq_true _ _).mp hsync
  obtain ⟨rfl, hmagic, hn, hdisk⟩ := of_decide_eq_true hu
  obtain ⟨r, fresh, hmount, hfresh⟩ := sfsDomount_eq 8392704 (fun _ => true)
    hmagic (by rw [hn]; decide) (by decide)
  cases r with
  | error e =>
    obtain ⟨-, k, -, hk⟩ := hfresh
    exact absurd hk (by decide)
  | ok _ =>
    obtain rfl : fresh = _ := hfresh
    refine ⟨u, hexec, _, hmount, hname, hsize, hdisk, fun hagree => ?_⟩
    have hinode := (hagree.files 2053 (.inr (.inl ⟨by decide, hlinks⟩))).1
    have hsame : sfiSize (u.fs.disk 2053) = sfiSize (t.fs.cur 2053) := congrArg sfiSize hinode
    grind

end OsPaging.Fs
