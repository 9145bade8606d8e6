import OsPaging.Fs.SfsData
import OsPaging.Fs.SfsTree

/-!
# SFS: what the calls of the VFS layer do

`SfsDoes` is what a call does to a mounted file system whose invariant holds: the invariant stays;
the references, the directory and the files change as the call says and not otherwise; an inode
that goes has no name and no reference left, and then all its blocks are free. `returns_call` says
that every call returns and does that. A failed call is a call too: its change is no change.

The directory is the map `sfsLookup` from names to inodes.
-/

namespace OsPaging.Fs

open OsPaging.Lib Function

open Call (returns_bind andthen_ok returns_bindRead returns_bindModify returns_pure)

variable {L L' W : Nat → Prop} {s t u : Sfs} {p q i j c x y slot ino dir : Nat} {name : SfsName}
variable {α : Type} {Q : Except Errno α → Sfs → Prop}
  {rc : Nat → Nat} {m : List UInt8 → Option Nat}

/-- The inodes of a mounted file system: the root, what has a name, what is open. -/
def Sfs.Live (s : Sfs) (i : Nat) : Prop :=
  i = 1 ∨ i ≠ 0 ∧ 0 < sfsLinks s.cur 1 i ∨ s.Opened i

theorem SfsTree.eq_live {a : Int} (h : SfsTree c x a L s) : L = s.Live :=
  funext fun i => propext (h.live i)

/-- What a call does. It writes only to the files `W`; after it the references are `rc` and the
directory is `m`. -/
structure SfsDoes (c : Nat) (W : Nat → Prop) (rc : Nat → Nat) (m : List UInt8 → Option Nat)
    (s t : Sfs) : Prop where
  tree : SfsTree c 0 0 t.Live t
  moves : SfsMoves s t
  refs : t.rc = rc
  map : sfsLookup t.cur = m
  reload : ∀ p ∈ t.vnodes, p ∉ s.vnodes → s.Live (t.vn p).ino →
    t.cur (t.vn p).ino = s.cur (t.vn p).ino
  freed : ∀ i, s.Live i → ¬t.Live i → ∀ b, SfsOwns s.cur i b → t.used b = false
  kept : ∀ i, i ≠ 1 → ¬W i → s.Live i → t.Live i →
    sfiSize (t.cur i) = sfiSize (s.cur i) ∧ sfsByte t.cur i = sfsByte s.cur i
  new : ∀ i, ¬s.Live i → t.Live i → sfiSize (t.cur i) = 0 ∧ ∀ pos, sfsByte t.cur i pos = 0

/-! ## Ways to do it -/

theorem SfsHouse.mem_of_rc (h : SfsHouse L s) (ht : SfsHouse L' t) (hrc : t.rc p ≤ s.rc p)
    (hp : p ∈ t.vnodes) : p ∈ s.vnodes :=
  h.rc_pos.mp ((ht.rc_pos.mpr hp).trans_le hrc)

theorem SfsFlow.does (hf : SfsFlow L s t) (h : SfsTree c x 0 L s) (ht : SfsTree c y 0 L t)
    (hrc : t.rc = rc) (hmap : sfsLookup t.cur = m) (hnew : t.cur = s.cur ∨ t.rc = s.rc) :
    SfsDoes c W rc m s t := by
  have hL := h.eq_live
  have hL' := ht.eq_live
  refine ⟨hL' ▸ ht.balance rfl, hf.moves, hrc, hmap, fun p hp hps _ => ?_, fun i hi hno => ?_,
    fun i h1 _ hi _ => ?_, fun i hno hi => ?_⟩
  · obtain hcur | hrc := hnew
    · rw [hcur]
    · exact absurd (h.ok.toSfsHouse.mem_of_rc ht.ok.toSfsHouse (congrFun hrc p).le hp) hps
  · rw [← hL] at hi
    rw [← hL'] at hno
    exact absurd hi hno
  · rw [← hL] at hi
    exact ⟨(hf.alike i hi h1).size, (hf.alike i hi h1).byte⟩
  · rw [← hL] at hno
    rw [← hL'] at hi
    exact absurd hi hno

theorem SfsTree.does_nothing (h : SfsTree c x 0 L s) : SfsDoes c W s.rc (sfsLookup s.cur) s s :=
  SfsFlow.refl.does h h rfl rfl (.inl rfl)

theorem SfsStill.does (hs : SfsStill L s t) (h : SfsTree c x 0 L s) :
    SfsDoes c W s.rc (sfsLookup s.cur) s t :=
  hs.flow.does h (h.still hs) hs.frame.rc (by rw [hs.cur]) (.inl hs.cur)

theorem SfsIdle.does (hi : SfsIdle L s t) (h : SfsTree c x 0 L s) :
    SfsDoes c W s.rc (sfsLookup s.cur) s t :=
  hi.flow.does h (h.idle hi) hi.frame.rc
    (sfsLookup_of_file (hi.same 1 h.root_live).file) (.inr hi.frame.rc)

theorem SfsHeld.does (hh : SfsHeld L p s t) (h : SfsTree c x 0 L s) :
    SfsDoes c W (update s.rc p (s.rc p + 1)) (sfsLookup s.cur) s t :=
  hh.flow.does h (h.held hh) hh.rc (by rw [hh.cur]) (.inl hh.cur)

theorem SfsQuiet.does (hq : SfsQuiet L 1 s t) (h : SfsTree c x 0 L s) :
    SfsDoes c W s.rc (sfsLookup s.cur) s t :=
  hq.toSfsWork.flow.does h (h.quiet hq) hq.frame.rc (sfsLookup_of_file hq.file) (.inr hq.frame.rc)

/-- The blocks of an inode that goes with its last reference are free. -/
theorem SfsDropped.freed {b : Nat} (hd : SfsDropped L p s t) (h : SfsTree c x 0 L s)
    (hi : L i) (hno : ¬s.liveAfter L p i) (hb : SfsOwns s.cur i b) : t.used b = false := by
  by_contra hused
  have hdb : SfsDataBlock t.nblocks b := by
    have := h.ok.volume.dataBlock_of_owns hi hb
    unfold Sfs.nblocks at this ⊢
    rw [hd.moves.sb]
    exact this
  obtain ⟨r, hr⟩ := (hd.ok.volume.accounts.used_iff b hdb).mp (Bool.eq_true_of_not_eq_false hused)
  have hown := hr.owns
  have hlive := hr.live
  rw [(hd.same _ hlive).owns] at hown
  obtain rfl := h.ok.volume.owner_unique hi hlive.1 hb hown
  exact hno hlive

theorem SfsDropped.does (hd : SfsDropped L p t u) (hf : SfsFlow L s t) (h : SfsTree c x 0 L s)
    (ht : SfsTree c y 0 L t) (hp : p ∈ t.vnodes) (hrc : u.rc = rc) (hle : ∀ q, u.rc q ≤ s.rc q)
    (hmap : sfsLookup t.cur = m) : SfsDoes c W rc m s u := by
  have hu := ht.dropped hp hd
  have hL := h.eq_live
  have hL' := hu.eq_live
  have hflow : SfsFlow (t.liveAfter L p) s u := (hf.mono fun i hi => hi.1).trans hd.flow
  refine ⟨hL' ▸ hu.balance rfl, hflow.moves, hrc, ?_, fun q hq hqs => ?_, fun i hi hno b hb => ?_,
    fun i h1 _ _ hi => ?_, fun i hno hi => ?_⟩
  · rw [sfsLookup_of_file (hd.same 1 (ht.root_after hp)).file, hmap]
  · exact absurd (h.ok.toSfsHouse.mem_of_rc hu.ok.toSfsHouse (hle q) hq) hqs
  · rw [← hL] at hi
    rw [← hL'] at hno
    have h1 : i ≠ 1 := by
      rintro rfl
      exact hno (ht.root_after hp)
    exact hd.freed ht hi hno (((hf.alike i hi h1).owns b).mpr hb)
  · rw [← hL'] at hi
    exact ⟨(hflow.alike i hi h1).size, (hflow.alike i hi h1).byte⟩
  · rw [← hL] at hno
    rw [← hL'] at hi
    exact absurd hi.1 hno

/-! ## Lookups -/

/-- `sfs_lookonce`: the vnode of the inode that a name stands for, and the slot of the name. -/
theorem returns_sfsLookonce (h : SfsTree c x 0 L s) (hp : dir ∈ s.vnodes)
    (hdir : (s.vn dir).ino = 1) :
    (sfsLookonce dir name).Returns s fun r t => Call.Settled (fun _ => SfsStill L s t)
      (fun v => SfsHeld L v.1 s t ∧ (t.vn v.1).ino = sfsDirIno s.cur 1 v.2 ∧
        v.2 < sfsSlots s.cur 1 ∧ sfsDirIno s.cur 1 v.2 ≠ 0 ∧
        sfsDirName s.cur 1 v.2 = name.1) r := by
  have hd := h.dir
  unfold sfsLookonce
  rw [← hdir] at hd ⊢
  rw [returns_bind]
  refine returns_sfsDirFindname h.ok hp hd fun r hr => ?_
  rw [hdir] at hr ⊢
  rw [andthen_ok]
  cases hf : r.found with
  | none => exact Call.returns_fail.mpr (SfsStill.refl h.ok)
  | some f =>
    obtain ⟨slot, ino⟩ := f
    obtain ⟨hslot, rfl, h0, hname⟩ := hr.found slot ino hf
    obtain ⟨hlive, h1⟩ := h.live_of_named hslot h0
    refine (returns_sfsLoadvnode h.ok hlive (h.type_loads hlive)).bind ?_ fun e t ht => ht
    rintro q t ⟨ht, hq⟩
    have hcount := (h.file _ hlive h1).2
    have hpos : 0 < sfsLinks s.cur 1 (sfsDirIno s.cur 1 slot) := sfsLinks_pos.mpr ⟨slot, hslot, rfl⟩
    rw [returns_bindRead, Call.returns_bindAssert, returns_pure]
    refine ⟨?_, ht, hq, hslot, h0, hname⟩
    rw [← ht.ok.cur_of_mem ht.mem, hq, ht.cur]
    simp only [ite_self, add_zero] at hcount
    omega

theorem returns_sfsGetroot (h : SfsTree c x 0 L s) :
    sfsGetroot.Returns s fun r t => Call.Settled (fun _ => SfsStill L s t)
      (fun p => SfsHeld L p s t) r := by
  unfold sfsGetroot
  refine (returns_sfsLoadvnode h.ok h.root_live (h.type_loads h.root_live)).bind ?_
    fun e t ht => ht
  rintro p t ⟨ht, hp⟩
  have htype : sfiType (t.vn p).inode = 2 := by
    rw [← ht.ok.cur_of_mem ht.mem, hp, ht.cur]
    exact h.dir.type
  rw [returns_bindRead, if_pos htype]
  exact returns_pure.mpr ht

/-! ## New names -/

theorem SfsLinked.lookup_none (hl : SfsLinked L 1 name ino slot s t) (hd : SfsDirOk s.cur 1) :
    sfsLookup s.cur name.1 = none := by
  refine hd.lookup_ext fun i => iff_of_false nofun ?_
  rintro ⟨j, hj, rfl, h0, hname⟩
  exact hl.absent j hj h0 hname

theorem SfsTree.linked (h : SfsTree c x 0 L s) (hl : SfsLinked L 1 name (s.vn p).ino slot s t)
    (hp : p ∈ s.vnodes) (hne : (s.vn p).ino ≠ 1) :
    SfsTree c 0 0 L (t.countUp p) ∧ SfsFlow L s (t.countUp p) ∧ (t.countUp p).rc = s.rc ∧
      sfsLookup (t.countUp p).cur = update (sfsLookup s.cur) name.1 (some (s.vn p).ino) ∧
      sfsFile (t.countUp p).cur 1 = sfsFile t.cur 1 := by
  have hi := h.ok.live_of_mem hp
  have hpt : p ∈ t.vnodes := hl.frame.mem hp
  have hino : (t.vn p).ino = (s.vn p).ino := hl.frame.ino p
  have ht := h.link hl hi hne
  -- there are not so many entries that the count could overflow
  have hlt : sfiLinkcount (t.vn p).inode < 65535 := by
    have hcount := (ht.file _ hi hne).2
    have hle : sfsLinks t.cur 1 (s.vn p).ino ≤ sfsSlots t.cur 1 := sfsLinks_le_slots
    have hslots := ht.dir.slots_le
    rw [← hino, ht.ok.cur_of_mem hpt, hino, if_pos rfl] at hcount
    omega
  rw [← hino] at ht hne
  obtain ⟨htree, hflow, hroot⟩ := ht.countUp hpt hne hlt
  refine ⟨htree.balance (by decide), hl.toSfsWork.flow.trans hflow, ?_, ?_, hroot⟩
  · exact (SfsFrame.setInode (s := t)).rc.trans hl.frame.rc
  · rw [sfsLookup_of_file hroot, hl.lookup h.dir (h.lt hi) (h.ne_zero hi)]

theorem returns_sfsLink {file : Nat} (h : SfsTree c x 0 L s) (hp : dir ∈ s.vnodes)
    (hdir : (s.vn dir).ino = 1) (hf : file ∈ s.vnodes) :
    (sfsLink dir name file).Returns s fun r t => Call.Settled
      (fun _ => SfsDoes c W s.rc (sfsLookup s.cur) s t)
      (fun _ => sfsLookup s.cur name.1 = none ∧
        SfsDoes c W s.rc (update (sfsLookup s.cur) name.1 (some (s.vn file).ino)) s t) r := by
  have hd := h.dir
  unfold sfsLink
  rw [returns_bindRead]
  split_ifs with htype
  · exact Call.returns_fail.mpr h.does_nothing
  have hne : (s.vn file).ino ≠ 1 := by
    intro h1
    rw [← h.ok.cur_of_mem hf] at htype
    exact htype ((h.type_eq_two (h.ok.live_of_mem hf)).mpr h1)
  rw [← hdir] at hd
  refine (returns_sfsDirLink h.ok hp hd).bind ?_ fun e t ht => ?_
  · rw [hdir]
    intro slot t ht
    obtain ⟨htree, hflow, hrc, hmap, -⟩ := h.linked ht hf hne
    exact Call.returns_modify.mpr
      ⟨ht.lookup_none h.dir, hflow.does h htree hrc hmap (.inr hrc)⟩
  · rw [hdir] at ht
    exact SfsQuiet.does ht h

/-- A reference to a file that was just made is dropped again: the file goes. -/
theorem SfsMade.does_undone (hm : SfsMade L 1 p s t) (h : SfsTree c x 0 L s)
    (hq : SfsQuiet (SfsWith L (t.vn p).ino) 1 t u) {w : Sfs}
    (hd : SfsDropped (SfsWith L (t.vn p).ino) p u w) :
    SfsDoes c W s.rc (sfsLookup s.cur) s w := by
  have ht : SfsTree c 0 0 (SfsWith L (t.vn p).ino) t := h.made hm
  have hu := ht.quiet hq
  have hpu : p ∈ u.vnodes := hq.frame.mem hm.mem
  have hw := hu.dropped hpu hd
  have hino : (u.vn p).ino = (t.vn p).ino := hq.frame.ino p
  have hrcp : s.rc p = 0 := by
    by_contra hpos
    have hps : p ∈ s.vnodes := h.ok.rc_pos.mp (Nat.pos_of_ne_zero hpos)
    refine hm.new ?_
    rw [hm.moves.ino p (h.ok.fresh p hps)]
    exact h.ok.live_of_mem hps
  have hrcu : u.rc p = 1 := by rw [hq.frame.rc, hm.rc, update_self, hrcp]
  have hlinks : sfiLinkcount (u.vn p).inode = 0 := by
    have h1 : (t.vn p).ino ≠ 1 := fun hc => hm.new (hc ▸ h.root_live)
    rw [← hu.ok.cur_of_mem hpu, hino, (hq.others _ (.inr rfl) h1).inode, hm.inode]
    exact sfiLinkcount_new
  have hL : u.liveAfter (SfsWith L (t.vn p).ino) p = L := by
    funext i
    refine propext ⟨?_, fun hi => ⟨.inl hi, ?_⟩⟩
    · rintro ⟨hi | rfl, hstay⟩
      · exact hi
      · exact absurd ⟨hino.symm, hrcu, hlinks⟩ hstay
    · rintro ⟨rfl, -⟩
      exact hm.new (hino ▸ hi)
  have hflow : SfsFlow L s w := by
    refine (hm.flow.trans ?_).trans (hL ▸ hd.flow)
    exact hq.toSfsWork.flow.mono fun i hi => .inl hi
  have hrc : w.rc = s.rc := by
    rw [hd.rc, hrcu, hq.frame.rc, hm.rc, update_idem, Nat.sub_self, ← hrcp, update_eq_self]
  rw [hL] at hw
  refine hflow.does h hw hrc ?_ (.inr hrc)
  have hroot := hd.same 1 (hu.root_after hpu)
  rw [sfsLookup_of_file hroot.file, sfsLookup_of_file hq.file,
    sfsLookup_of_file (hm.same 1 h.root_live).file]

theorem SfsMade.does_named (hm : SfsMade L 1 p s t) (h : SfsTree c x 0 L s)
    (hl : SfsLinked (SfsWith L (t.vn p).ino) 1 name (t.vn p).ino slot t u) :
    SfsDoes c W (update s.rc p (s.rc p + 1))
      (update (sfsLookup s.cur) name.1 (some (t.vn p).ino)) s (u.countUp p) := by
  have ht : SfsTree c 0 0 (SfsWith L (t.vn p).ino) t := h.made hm
  have h1 : (t.vn p).ino ≠ 1 := fun hc => hm.new (hc ▸ h.root_live)
  obtain ⟨htree, hflow, hrc, hmap, -⟩ := ht.linked hl hm.mem h1
  have hL := h.eq_live
  have hL' := htree.eq_live
  have hold : SfsFlow L s (u.countUp p) := hm.flow.trans (hflow.mono fun i hi => .inl hi)
  refine ⟨hL' ▸ htree, hold.moves, hrc.trans hm.rc, ?_, fun q hq hqs hlive => ?_,
    fun i hi hno => ?_, fun i hi1 _ hi _ => ?_, fun i hno hi => ?_⟩
  · rw [hmap, sfsLookup_of_file (hm.same 1 h.root_live).file]
  · -- the new vnode is for a new inode
    rw [← hL] at hlive
    have hqp : q = p := by
      by_contra hne
      refine hqs (h.ok.toSfsHouse.mem_of_rc htree.ok.toSfsHouse ?_ hq)
      rw [hrc, hm.rc, update_of_ne hne]
    subst hqp
    rw [hflow.moves.ino q (hm.ok.fresh q hm.mem)] at hlive
    exact absurd hlive hm.new
  · rw [← hL] at hi
    rw [← hL'] at hno
    exact absurd (Or.inl hi) hno
  · rw [← hL] at hi
    exact ⟨(hold.alike i hi hi1).size, (hold.alike i hi hi1).byte⟩
  · rw [← hL] at hno
    rw [← hL'] at hi
    obtain rfl : i = (t.vn p).ino := hi.resolve_left hno
    have halike := hflow.alike _ (.inr rfl) h1
    refine ⟨?_, fun pos => ?_⟩
    · rw [halike.size, hm.inode, sfiSize_new]
    · rw [halike.byte]
      unfold sfsByte
      rw [if_pos (sfsBlockAt_new hm.inode)]

/-- `sfs_creat`: the name stands for the inode of the vnode that is handed out. The inode is new if
the name is. -/
theorem returns_sfsCreat {excl : Bool} (h : SfsTree c x 0 L s) (hp : dir ∈ s.vnodes)
    (hdir : (s.vn dir).ino = 1) :
    (sfsCreat dir name excl).Returns s fun r t => Call.Settled
      (fun _ => SfsDoes c W s.rc (sfsLookup s.cur) s t)
      (fun p => (sfsLookup s.cur name.1 = none ∧ ¬s.Live (t.vn p).ino ∨
          excl = false ∧ sfsLookup s.cur name.1 = some (t.vn p).ino) ∧
        SfsDoes c W (update s.rc p (s.rc p + 1))
          (update (sfsLookup s.cur) name.1 (some (t.vn p).ino)) s t) r := by
  have hd := h.dir
  unfold sfsCreat
  rw [← hdir] at hd
  rw [returns_bind]
  refine returns_sfsDirFindname h.ok hp hd fun r hr => ?_
  rw [hdir] at hr hd
  rw [andthen_ok]
  cases hf : r.found with
  | some f =>
    obtain ⟨slot, ino⟩ := f
    obtain ⟨hslot, rfl, h0, hname⟩ := hr.found slot ino hf
    obtain ⟨hlive, h1⟩ := h.live_of_named hslot h0
    dsimp only
    split_ifs with hex
    · exact Call.returns_fail.mpr h.does_nothing
    refine (returns_sfsLoadvnode h.ok hlive (h.type_loads hlive)).mono ?_
    rintro (e | q) t ht
    · exact SfsStill.does ht h
    · obtain ⟨ht, hq⟩ := ht
      have hmap : sfsLookup s.cur name.1 = some (t.vn q).ino :=
        hd.lookup_eq_some.mpr ⟨slot, hslot, hq.symm, by rw [hq]; exact h0, hname⟩
      refine ⟨.inr ⟨Bool.eq_false_of_not_eq_true hex, hmap⟩, ?_⟩
      rw [← hmap, update_eq_self]
      exact ht.does h
  | none =>
    dsimp only
    refine (returns_sfsMakeobj h.ok (.inl rfl)).bind ?_ fun e t ht => SfsIdle.does ht h
    intro p t ht
    have htree : SfsTree c 0 0 (SfsWith L (t.vn p).ino) t := h.made ht
    have hlt : dir < s.nextVn := h.ok.fresh dir hp
    have hdt : dir ∈ t.vnodes := by
      refine ht.ok.rc_pos.mp ?_
      rw [ht.rc]
      by_cases hdp : dir = p
      · rw [hdp, update_self]
        exact Nat.succ_pos _
      · rw [update_of_ne hdp]
        exact h.ok.rc_pos.mpr hp
    have hdir' : (t.vn dir).ino = 1 := (ht.moves.ino dir hlt).trans hdir
    have hd' := htree.dir
    rw [← hdir'] at hd'
    rw [returns_bindRead, returns_bind, Call.returns_attempt]
    refine (returns_sfsDirLink ht.ok hdt hd').mono ?_
    rw [hdir']
    rintro (e | slot) u hu
    · rw [andthen_ok]
      refine (returns_vnodeDecref hu.ok (hu.frame.mem ht.mem)).bind ?_ nofun
      rintro - w ⟨-, hw⟩
      exact Call.returns_fail.mpr (ht.does_undone h hu hw)
    · rw [andthen_ok, returns_bindModify, returns_pure]
      have hino : ((u.countUp p).vn p).ino = (t.vn p).ino :=
        (SfsFrame.setInode.ino p).trans (hu.frame.ino p)
      rw [Call.Settled, hino]
      refine ⟨.inl ⟨?_, h.eq_live ▸ ht.new⟩, ht.does_named h hu⟩
      rw [← sfsLookup_of_file (ht.same 1 h.root_live).file]
      exact hu.lookup_none htree.dir

/-! ## Names that go -/

/-- The end of `sfs_remove` and of `sfs_rename`: the entry is cleared, its file has one link less,
and the reference to it is dropped. -/
theorem returns_unlinked (h : SfsTree c x 0 L s) (hslot : slot < sfsSlots s.cur 1)
    (h0 : sfsDirIno s.cur 1 slot ≠ 0) (hq : q ∈ s.vnodes)
    (hino : (s.vn q).ino = sfsDirIno s.cur 1 slot) (he : SfsEntered L 1 slot zeros s t) :
    (do
      let v ← Call.read fun s => s.vn q
      Call.assert (0 < sfiLinkcount v.inode)
      Call.modify fun s => s.countDown q
      vnodeDecref q : SfsCall Unit).Returns t fun r w => r = .ok () ∧ ∃ u, SfsFlow L s u ∧
        SfsTree c 0 0 L u ∧ q ∈ u.vnodes ∧ u.rc = s.rc ∧
        sfsLookup u.cur = update (sfsLookup s.cur) (sfsDirName s.cur 1 slot) none ∧
        SfsDropped L q u w := by
  obtain ⟨-, h1⟩ := h.live_of_named hslot h0
  have ht := h.unlink hslot h0 ⟨q, hq, hino⟩ he
  have hqt : q ∈ t.vnodes := he.frame.mem hq
  rw [← hino] at h1 ht
  have hino' : (t.vn q).ino = (s.vn q).ino := he.frame.ino q
  have hpos : 0 < sfiLinkcount (t.vn q).inode := by
    have hcount := (ht.file _ (ht.ok.live_of_mem hqt) (by rw [hino']; exact h1)).2
    rw [ht.ok.cur_of_mem hqt, hino', if_pos rfl] at hcount
    omega
  have hmap := h.lookup_unlink hslot h0 he ht.dir
  rw [← hino'] at h1 ht
  obtain ⟨htree, hflow, hroot⟩ := ht.countDown hqt h1 hpos
  have hqu : q ∈ (t.countDown q).vnodes := SfsFrame.setInode.mem hqt
  rw [returns_bindRead, Call.returns_bindAssert, returns_bindModify]
  refine ⟨hpos, (returns_vnodeDecref htree.ok hqu).mono ?_⟩
  rintro _ w ⟨rfl, hw⟩
  refine ⟨rfl, t.countDown q, he.toSfsWork.flow.trans hflow, htree.balance (by decide), hqu, ?_, ?_,
    hw⟩
  · exact (SfsFrame.setInode (s := t)).rc.trans he.frame.rc
  · rw [sfsLookup_of_file hroot, hmap]

theorem SfsHeld.mem_of_mem (hh : SfsHeld L q s t) (h : SfsHouse L s) (hp : p ∈ s.vnodes) :
    p ∈ t.vnodes := by
  refine hh.ok.rc_pos.mp ?_
  rw [hh.rc]
  by_cases hpq : p = q
  · rw [hpq, update_self]
    exact Nat.succ_pos _
  · rw [update_of_ne hpq]
    exact h.rc_pos.mpr hp

theorem update_succ_pred (rc : Nat → Nat) (q : Nat) :
    update (update rc q (rc q + 1)) q (update rc q (rc q + 1) q - 1) = rc := by
  grind

theorem returns_sfsRemove (h : SfsTree c x 0 L s) (hp : dir ∈ s.vnodes)
    (hdir : (s.vn dir).ino = 1) :
    (sfsRemove dir name).Returns s fun r t => Call.Settled
      (fun _ => SfsDoes c W s.rc (sfsLookup s.cur) s t)
      (fun _ => sfsLookup s.cur name.1 ≠ none ∧
        SfsDoes c W s.rc (update (sfsLookup s.cur) name.1 none) s t) r := by
  unfold sfsRemove
  refine (returns_sfsLookonce h hp hdir).bind ?_ fun e t ht => SfsStill.does ht h
  rintro ⟨q, slot⟩ t ⟨ht, hino, hslot, h0, hname⟩
  have htree := h.held ht
  have hdt := ht.mem_of_mem h.ok.toSfsHouse hp
  have hdir' : (t.vn dir).ino = 1 := (ht.moves.ino dir (h.ok.fresh dir hp)).trans hdir
  dsimp only at ht hino hslot h0 hname ⊢
  have hsome : sfsLookup s.cur name.1 ≠ none := by
    rw [h.dir.lookup_eq_some.mpr ⟨slot, hslot, rfl, h0, hname⟩]
    exact nofun
  rw [← ht.cur] at hino hslot h0 hname
  have hun : (sfsDirUnlink dir slot).Returns t _ := returns_sfsDirUnlink ht.ok hdt
    (by rw [hdir']; exact htree.dir) (by rw [hdir']; exact hslot) (by rw [hdir']; exact h0)
  rw [returns_bind, Call.returns_attempt]
  refine hun.mono ?_
  rw [hdir']
  rintro _ u ⟨rfl, hu⟩
  rw [andthen_ok]
  refine (returns_unlinked htree hslot h0 ht.mem hino hu).mono ?_
  rintro _ w ⟨rfl, v, hflow, hv, hqv, hrc, hmap, hw⟩
  have hrcw : w.rc = s.rc := by rw [hw.rc, hrc, ht.rc, update_succ_pred]
  refine ⟨hsome, hw.does (ht.flow.trans hflow) h hv hqv hrcw (fun q => by rw [hrcw]) ?_⟩
  rw [hmap, hname, ht.cur]

theorem returns_sfsRename {n1 n2 : SfsName} (h : SfsTree c x 0 L s) (hp : dir ∈ s.vnodes)
    (hdir : (s.vn dir).ino = 1) :
    (sfsRename dir n1 n2).Returns s fun r t => Call.Settled
      (fun _ => SfsDoes c W s.rc (sfsLookup s.cur) s t)
      (fun _ => sfsLookup s.cur n1.1 ≠ none ∧ sfsLookup s.cur n2.1 = none ∧
        SfsDoes c W s.rc
          (update (update (sfsLookup s.cur) n2.1 (sfsLookup s.cur n1.1)) n1.1 none) s t) r := by
  unfold sfsRename
  rw [returns_bindRead, Call.returns_bindAssert]
  refine ⟨hdir, ?_⟩
  refine (returns_sfsLookonce h hp hdir).bind ?_ fun e t ht => SfsStill.does ht h
  rintro ⟨q, slot⟩ t ⟨ht, hino, hslot, h0, hname⟩
  have htree := h.held ht
  have hdt := ht.mem_of_mem h.ok.toSfsHouse hp
  have hdir' : (t.vn dir).ino = 1 := (ht.moves.ino dir (h.ok.fresh dir hp)).trans hdir
  dsimp only at ht hino hslot h0 hname ⊢
  obtain ⟨hlive, h1⟩ := h.live_of_named hslot h0
  have hsome : sfsLookup s.cur n1.1 = some (t.vn q).ino :=
    h.dir.lookup_eq_some.mpr ⟨slot, hslot, hino.symm, by rw [hino]; exact h0, hname⟩
  have htype : sfiType (t.vn q).inode = 1 := by
    rw [← ht.ok.cur_of_mem ht.mem, hino, ht.cur]
    exact (h.file _ hlive h1).1
  rw [← hino] at h1
  rw [returns_bindRead, Call.returns_bindAssert]
  refine ⟨htype, ?_⟩
  have hlink : (sfsDirLink dir n2 (t.vn q).ino).Returns t _ :=
    returns_sfsDirLink ht.ok hdt (by rw [hdir']; exact htree.dir)
  rw [returns_bind, Call.returns_attempt]
  refine hlink.mono ?_
  rw [hdir']
  rintro (e | slot2) u hu
  · -- the new name could not be entered
    have hqu : q ∈ u.vnodes := hu.frame.mem ht.mem
    rw [andthen_ok]
    refine (returns_vnodeDecref hu.ok hqu).bind ?_ nofun
    rintro - w ⟨-, hw⟩
    have hrcw : w.rc = s.rc := by rw [hw.rc, hu.frame.rc, ht.rc, update_succ_pred]
    refine Call.returns_fail.mpr (hw.does (ht.flow.trans hu.toSfsWork.flow) h (htree.quiet hu) hqu
      hrcw (fun q => by rw [hrcw]) ?_)
    rw [sfsLookup_of_file hu.file, ht.cur]
  · have hnone : sfsLookup s.cur n2.1 = none := by
      rw [← ht.cur]
      exact hu.lookup_none htree.dir
    obtain ⟨hv, hflow, hrc, hmap, hroot⟩ := htree.linked hu ht.mem h1
    -- the old entry is still where it was
    have hslots := (hu.slots htree.dir hu.le).1
    rw [← ht.cur] at hslot h0 hname hino
    have hne : slot ≠ slot2 := by
      rintro rfl
      exact h0 (hu.free hslot)
    obtain ⟨hs', hi', hn', -⟩ := sfsLinks_eq hroot
    rw [← hu.dirIno_of_ne hne, ← hi'] at h0 hino
    rw [← hu.dirName_of_ne hne, ← hn'] at hname
    have hslot' : slot < sfsSlots (u.countUp q).cur 1 := by
      rw [hs', hslots]
      exact hslot.trans_le (Nat.le_max_left _ _)
    have hfr : SfsFrame t (u.countUp q) := hu.frame.trans .setInode
    have hdir'' : ((u.countUp q).vn dir).ino = 1 := (hfr.ino dir).trans hdir'
    have hun : (sfsDirUnlink dir slot).Returns (u.countUp q) _ :=
      returns_sfsDirUnlink hv.ok (hfr.mem hdt) (by rw [hdir'']; exact hv.dir)
        (by rw [hdir'']; exact hslot') (by rw [hdir'']; exact h0)
    rw [andthen_ok, returns_bindModify]
    unfold sfsRenameOld
    rw [returns_bind, Call.returns_attempt]
    refine hun.mono ?_
    rw [hdir'']
    rintro _ w ⟨rfl, hw⟩
    rw [andthen_ok]
    refine (returns_unlinked hv hslot' h0 (hfr.mem ht.mem) ((hfr.ino q).trans hino) hw).mono ?_
    rintro _ z ⟨rfl, v, hflow', hv', hqv, hrc', hmap', hz⟩
    have hrcz : z.rc = s.rc := by rw [hz.rc, hrc', hrc, ht.rc, update_succ_pred]
    refine ⟨?_, hnone, hz.does ((ht.flow.trans hflow).trans hflow') h hv' hqv hrcz
      (fun q => by rw [hrcz]) ?_⟩
    · rw [hsome]
      exact nofun
    · rw [hmap', hname, hmap, hsome, ht.cur]

/-! ## Data and references -/

theorem SfsWork.does (hw : SfsWork L i s t) (h : SfsTree c x 0 L s) (hi : i ≠ 1)
    (htype : sfiType (t.cur i) = sfiType (s.cur i))
    (hlinks : sfiLinkcount (t.cur i) = sfiLinkcount (s.cur i)) :
    SfsDoes c (· = i) s.rc (sfsLookup s.cur) s t := by
  have ht := h.work hi hw htype hlinks
  have hL := h.eq_live
  have hL' := ht.eq_live
  refine ⟨hL' ▸ ht.balance rfl, hw.frame.moves, hw.frame.rc, ?_, fun p hp hps => ?_,
    fun j hj hno => ?_, fun j h1 hji hj _ => ?_, fun j hno hj => ?_⟩
  · exact sfsLookup_of_file (hw.others 1 h.root_live hi.symm).file
  · rw [hw.frame.vnodes] at hp
    exact absurd hp hps
  · rw [← hL] at hj
    rw [← hL'] at hno
    exact absurd hj hno
  · rw [← hL] at hj
    have := (hw.others j hj hji).alike
    exact ⟨this.size, this.byte⟩
  · rw [← hL] at hno
    rw [← hL'] at hj
    exact absurd hj hno

theorem SfsFlow.withUio {v : Uio} : SfsFlow L s (s.withUio v) :=
  .of_same (SfsFrame.withUio (v := v)).moves fun _ _ => .refl

theorem SfsTree.does_withUio {v : Uio} (h : SfsTree c x 0 L s) :
    SfsDoes c W s.rc (sfsLookup s.cur) s (s.withUio v) :=
  SfsFlow.withUio.does h (h.of_same h.ok.withUio (fun _ _ => .refl) fun _ hi => hi)
    SfsFrame.withUio.rc rfl (.inl rfl)

section

variable (h : SfsTree c x 0 L s) (hp : p ∈ s.vnodes)
include h hp

theorem returns_onDir {m : SfsCall α} (hm : (s.vn p).ino = 1 → m.Returns s Q)
    (hfail : Q (.error .enotdir) s) : (onDir p m).Returns s Q := by
  unfold onDir
  rw [returns_bindRead]
  split_ifs with htype
  · rw [← h.ok.cur_of_mem hp] at htype
    exact hm ((h.type_eq_two (h.ok.live_of_mem hp)).mp htype)
  · exact Call.returns_fail.mpr hfail

theorem returns_onFile_file {m : SfsCall α} (h1 : (s.vn p).ino ≠ 1) :
    (onFile p m).Returns s Q ↔ m.Returns s Q := by
  have htype : sfiType (s.vn p).inode ≠ 2 := by
    rw [← h.ok.cur_of_mem hp]
    exact fun h2 => h1 ((h.type_eq_two (h.ok.live_of_mem hp)).mp h2)
  unfold onFile
  rw [returns_bindRead, if_neg htype]

theorem returns_onFile_dir {m : SfsCall α} (h1 : (s.vn p).ino = 1) :
    (onFile p m).Returns s Q ↔ Q (.error .eisdir) s := by
  have htype : sfiType (s.vn p).inode = 2 := by
    rw [← h.ok.cur_of_mem hp]
    exact (h.type_eq_two (h.ok.live_of_mem hp)).mpr h1
  unfold onFile
  rw [returns_bindRead, if_pos htype, Call.returns_fail]

theorem returns_onFile {m : SfsCall α} (hm : (s.vn p).ino ≠ 1 → m.Returns s Q)
    (hfail : Q (.error .eisdir) s) : (onFile p m).Returns s Q := by
  by_cases h1 : (s.vn p).ino = 1
  · exact (returns_onFile_dir h hp h1).mpr hfail
  · exact (returns_onFile_file h hp h1).mpr (hm h1)

end

theorem returns_answerDone {m : SfsCall Unit} {Q : Except Errno SfsAnswer → Sfs → Prop} :
    (answerDone m).Returns s Q ↔ m.Returns s fun r t => Q (r.map fun _ => .done) t := by
  unfold answerDone
  rw [returns_bind]
  refine exists_congr fun r => exists_congr fun t => and_congr_right fun _ => ?_
  cases r with
  | error e => exact Iff.rfl
  | ok a => exact returns_pure

theorem returns_answerVnode {m : SfsCall Nat} {Q : Except Errno SfsAnswer → Sfs → Prop} :
    (answerVnode m).Returns s Q ↔ m.Returns s fun r t => Q (r.map .vnode) t := by
  unfold answerVnode
  rw [returns_bind]
  refine exists_congr fun r => exists_congr fun t => and_congr_right fun _ => ?_
  cases r with
  | error e => exact Iff.rfl
  | ok a => exact returns_pure

/-- A write: how much of the data was taken is what the `uio` says. -/
theorem returns_write (offset good : Nat) (data : List UInt8) (h : SfsTree c x 0 L s)
    (hp : p ∈ s.vnodes) (hN : s.nblocks ≤ 8388608) (h1 : (s.vn p).ino ≠ 1) :
    (do
      Call.modify fun s => { s with uio := ⟨offset, data.length, .write, data, good⟩ }
      answerDone (sfsIo p) : SfsCall SfsAnswer).Returns s fun r t => ∃ m ≤ data.length,
        SfsDoes c (· = (s.vn p).ino) s.rc (sfsLookup s.cur) s t ∧
        (∀ j, s.Live j → j ≠ (s.vn p).ino → SfsSame s.cur t.cur j) ∧
        t.uio.resid = data.length - m ∧
        sfiSize (t.cur (s.vn p).ino) = sfsGrown (sfiSize (s.cur (s.vn p).ino)) offset m ∧
        (offset + m < 2199023255552 → sfsByte t.cur (s.vn p).ino =
          splice (sfsByte s.cur (s.vn p).ino) offset data m) ∧
        Call.Settled (SfsWriteError ⟨offset, data.length, .write, data, good⟩ data.length)
          (fun a => a = .done ∧ m = data.length) r := by
  rw [returns_bindModify, returns_answerDone]
  unfold sfsIo
  rw [returns_bindRead]
  have hok : SfsOk L (s.withUio ⟨offset, data.length, .write, data, good⟩) := h.ok.withUio
  refine (returns_sfsIoWrite hok hp hN rfl).mono ?_
  rintro r t ⟨m, hm, hw, huio, hsize, htype, hlinks, hbyte, hr⟩
  have hfr : SfsFrame s (s.withUio ⟨offset, data.length, .write, data, good⟩) := .withUio
  have hw' : SfsWork L (s.vn p).ino s t := ⟨hw.ok, hfr.trans hw.frame, hw.others⟩
  refine ⟨m, hm, hw'.does h h1 htype hlinks, ?_, ?_, hsize, hbyte, ?_⟩
  · rw [← h.eq_live]
    exact hw.others
  · rw [huio, Uio.resid_taken]
    rfl
  · cases r with
    | error e => exact hr
    | ok a => exact ⟨rfl, hr⟩

/-- A read delivers the bytes before the end of the file. -/
theorem returns_read (offset len good : Nat) (h : SfsTree c x 0 L s) (hp : p ∈ s.vnodes)
    (hN : s.nblocks ≤ 8388608) :
    (do
      Call.modify fun s => { s with uio := ⟨offset, len, .read, [], good⟩ }
      sfsIo p
      let u ← Call.read Sfs.uio
      pure (.bytes u.buf) : SfsCall SfsAnswer).Returns s fun r t =>
        (∃ v, t = s.withUio v) ∧ Call.Settled
          (SfsOverrun ⟨offset, len, .read, [], good⟩
            (min len (sfiSize (s.cur (s.vn p).ino) - offset)))
          (fun a => a = .bytes ((List.range (min len (sfiSize (s.cur (s.vn p).ino) - offset))).map
            fun k => sfsByte s.cur (s.vn p).ino (offset + k))) r := by
  rw [returns_bindModify]
  unfold sfsIo
  rw [returns_bind, returns_bindRead]
  have hok : SfsOk L (s.withUio ⟨offset, len, .read, [], good⟩) := h.ok.withUio
  refine (returns_sfsIoRead hok hp hN rfl).mono ?_
  rintro (e | a) t ⟨v, m, rfl, hbuf, -, hr⟩
  · exact ⟨⟨v, rfl⟩, hr⟩
  · rw [andthen_ok, returns_bindRead, returns_pure]
    refine ⟨⟨v, rfl⟩, ?_⟩
    obtain rfl : m = min len (sfiSize (s.cur (s.vn p).ino) - offset) := hr
    exact congrArg SfsAnswer.bytes hbuf

theorem SfsTrims.byte_zero (ht : SfsTrims L i (SfsTrunc 0) s t) (pos : Nat) :
    sfsByte t.cur i pos = 0 := by
  unfold sfsByte
  rw [if_pos (ht.gone _ ?_)]
  unfold SfsTrunc
  split_ifs <;> omega

end OsPaging.Fs
