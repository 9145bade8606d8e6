import OsPaging.Fs.SfsMount
import OsPaging.Fs.SfsOps

/-!
# Runs of a mounted SFS

A volume is consistent (`SfsConsistent`) if its accounts are exact, its root directory names regular
files only, each name once, and the link counts are right. From a mount of such a volume on, every
call returns, and every state is one of `SfsSysOk`: the invariant of `SfsTree` holds and the
reference counts are the references that the callers hold. What a call does is `SfsDoes`.

Volumes of more than 8388608 blocks are included as long as no data is read or written:
`sfs_blockio` computes the position on disk of a whole block in 32 bits.
-/

namespace OsPaging.Fs

open OsPaging.Lib Function

variable {L : Nat → Prop} {s t : Sfs} {D : Nat → Bytes} {c x dBlocks : Nat} {kmallocs : Nat → Bool}
  {op : SfsOp} {r : Except Errno SfsAnswer} {a b : SfsSys}
    {es : List (SfsOp × Except Errno SfsAnswer)}

/-! ## What each call is for -/

/-- The calls that move data. -/
def SfsOp.MovesData : SfsOp → Prop
  | .read _ _ _ _ | .write _ _ _ _ => True
  | _ => False

/-- The files that a call may write to, by their inodes. -/
def SfsOp.Writes (ino : Nat → Nat) : SfsOp → Nat → Prop
  | .write v _ _ _, i | .truncate v _, i => i = ino v
  | _, _ => False

/-- What a call that returned `r` means for the names: `m` before it and `m'` after it. `ino` has
the inodes of the vnodes. -/
def SfsOp.Remaps (op : SfsOp) (r : Except Errno SfsAnswer) (ino : Nat → Nat)
    (m m' : List UInt8 → Option Nat) : Prop :=
  match op, r with
  | .creat _ name excl, .ok (.vnode v) => m' = update m name.1 (some (ino v)) ∧
      (m name.1 = none ∧ (∀ n, m n ≠ some (ino v)) ∨ excl = false ∧ m name.1 = some (ino v))
  | .link _ name file, .ok _ => m' = update m name.1 (some (ino file)) ∧ m name.1 = none
  | .remove _ name, .ok _ => m' = update m name.1 none ∧ m name.1 ≠ none
  | .rename _ n1 n2, .ok _ => m' = update (update m n2.1 (m n1.1)) n1.1 none ∧
      m n1.1 ≠ none ∧ m n2.1 = none
  | _, _ => m' = m

/-- What a call that returned `r` does. -/
def SfsOp.Does (op : SfsOp) (c : Nat) (r : Except Errno SfsAnswer) (s t : Sfs) : Prop :=
  SfsDoes c (op.Writes fun v => (s.vn v).ino) (op.settle r s.rc) (sfsLookup t.cur) s t ∧
    op.Remaps r (fun v => (t.vn v).ino) (sfsLookup s.cur) (sfsLookup t.cur)

theorem SfsDoes.does {m : List UInt8 → Option Nat}
    (h : SfsDoes c (op.Writes fun v => (s.vn v).ino) (op.settle r s.rc) m s t)
    (hm : op.Remaps r (fun v => (t.vn v).ino) (sfsLookup s.cur) m) : op.Does c r s t := by
  obtain rfl := h.map
  exact ⟨h, hm⟩

/-- A new inode has no name yet. -/
theorem SfsTree.lookup_ne (h : SfsTree c x 0 L s) {i : Nat} (hi : ¬s.Live i) (n : List UInt8) :
    sfsLookup s.cur n ≠ some i := by
  intro hn
  obtain ⟨j, hj, hji, h0, -⟩ := h.dir.lookup_eq_some.mp hn
  exact hi (.inr (.inl ⟨h0, sfsLinks_pos.mpr ⟨j, hj, hji⟩⟩))

/-- **Every call returns and does what it is for.** -/
theorem returns_call (h : SfsTree c x 0 L s) (hp : ∀ v ∈ op.vnodes, v ∈ s.vnodes)
    (hroom : 2 + sfsFreemapblocks s.nblocks ≤ s.nblocks)
    (hN : op.MovesData → s.nblocks ≤ 8388608) :
    op.call.Returns s fun r t => op.Does c r s t := by
  cases op with simp only [SfsOp.vnodes, List.mem_cons, List.not_mem_nil, or_false,
    forall_eq_or_imp, forall_eq, false_imp_iff, forall_const] at hp
  | getroot =>
    refine returns_answerVnode.mpr ((returns_sfsGetroot h).mono ?_)
    rintro (e | p) t ht
    · exact (SfsStill.does ht h).does rfl
    · exact (SfsHeld.does ht h).does rfl
  | lookup dir name =>
    refine returns_onDir h hp (fun hdir => returns_answerVnode.mpr ?_) (h.does_nothing.does rfl)
    refine (returns_sfsLookonce h hp hdir).bind ?_ fun e t ht => (SfsStill.does ht h).does rfl
    rintro ⟨q, slot⟩ t ⟨ht, -⟩
    exact Call.returns_pure.mpr ((SfsHeld.does ht h).does rfl)
  | creat dir name excl =>
    refine returns_onDir h hp (fun hdir => returns_answerVnode.mpr ?_) (h.does_nothing.does rfl)
    refine (returns_sfsCreat (W := fun _ => False) h hp hdir).mono ?_
    rintro (e | q) t ht
    · exact SfsDoes.does ht rfl
    · obtain ⟨hnew, ht⟩ := ht
      refine ht.does ⟨rfl, hnew.imp_left fun hn => ⟨hn.1, h.lookup_ne hn.2⟩⟩
  | link dir name file =>
    obtain ⟨hp, hf⟩ := hp
    refine returns_onDir h hp (fun hdir => returns_answerDone.mpr ?_) (h.does_nothing.does rfl)
    refine (returns_sfsLink (W := fun _ => False) h hp hdir hf).mono ?_
    rintro (e | _) t ht
    · exact SfsDoes.does ht rfl
    · obtain ⟨hnone, ht⟩ := ht
      have hino := ht.moves.ino file (h.ok.fresh file hf)
      exact ht.does ⟨by rw [← hino], hnone⟩
  | remove dir name =>
    refine returns_onDir h hp (fun hdir => returns_answerDone.mpr ?_) (h.does_nothing.does rfl)
    refine (returns_sfsRemove (W := fun _ => False) h hp hdir).mono ?_
    rintro (e | _) t ht
    · exact SfsDoes.does ht rfl
    · exact ht.2.does ⟨rfl, ht.1⟩
  | rename dir n1 n2 =>
    refine returns_onDir h hp (fun hdir => returns_answerDone.mpr ?_) (h.does_nothing.does rfl)
    refine (returns_sfsRename (W := fun _ => False) h hp hdir).mono ?_
    rintro (e | _) t ht
    · exact SfsDoes.does ht rfl
    · exact ht.2.2.does ⟨rfl, ht.1, ht.2.1⟩
  | incref v =>
    refine returns_answerDone.mpr ((returns_vnodeIncref h.ok hp).mono ?_)
    rintro _ t ⟨rfl, ht, -⟩
    exact (ht.does h).does rfl
  | decref v =>
    refine returns_answerDone.mpr ((returns_vnodeDecref h.ok hp).mono ?_)
    rintro _ t ⟨rfl, ht⟩
    refine (ht.does .refl h h hp ht.rc (fun q => ?_) rfl).does rfl
    rw [ht.rc]
    grind
  | read v offset len good =>
    refine returns_onFile h hp (fun _ => ?_) (h.does_nothing.does rfl)
    refine (returns_read _ _ _ h hp (hN trivial)).mono ?_
    rintro (e | ans) t ⟨⟨u, rfl⟩, ht⟩
    · exact h.does_withUio.does rfl
    · obtain rfl := ht
      exact h.does_withUio.does rfl
  | write v offset data good =>
    refine returns_onFile h hp (fun h1 => ?_) (h.does_nothing.does rfl)
    refine (returns_write _ _ _ h hp (hN trivial) h1).mono ?_
    rintro (e | ans) t ⟨m, -, ht, -, -, -, -, hr⟩
    · exact ht.does rfl
    · obtain ⟨rfl, -⟩ := hr
      exact ht.does rfl
  | truncate v len =>
    refine returns_onFile h hp (fun h1 => returns_answerDone.mpr ?_) (h.does_nothing.does rfl)
    refine (returns_sfsItrunc h.ok hp len).mono ?_
    rintro _ t ⟨rfl, ht, -⟩
    exact (ht.toSfsWork.does h h1 ht.type ht.links).does rfl
  | fsync v =>
    refine returns_answerDone.mpr ((returns_sfsSyncInode h.ok hp).mono ?_)
    rintro _ t ⟨rfl, ht⟩
    exact (ht.still.does h).does rfl
  | sync =>
    refine returns_answerDone.mpr ((returns_sfsSync h.ok hroom).mono ?_)
    rintro _ t ⟨rfl, ht⟩
    exact (ht.toSfsIdle.does h).does rfl

/-! ## The volume that is mounted -/

/-- The inodes of a volume: the root and what it names. -/
def SfsNamed (D : Nat → Bytes) (i : Nat) : Prop := i = 1 ∨ i ≠ 0 ∧ 0 < sfsLinks D 1 i

/-- **A consistent volume.** It has a superblock and a root directory. The root names regular files,
each name once; the link counts are the numbers of names; the freemap has the blocks in use. -/
structure SfsConsistent (D : Nat → Bytes) : Prop where
  magic : word (D 0) 0 = 0xabadf001
  room : 2 + sfsFreemapblocks (sfsNblocks D) ≤ sfsNblocks D
  dir : SfsDirOk D 1
  rootKept : sfiLinkcount (D 1) ≠ 0
  unnamed : sfsLinks D 1 1 = 0
  file : ∀ i, i ≠ 0 → 0 < sfsLinks D 1 i →
    sfiType (D i) = 1 ∧ sfiLinkcount (D i) = sfsLinks D 1 i
  volume : SfsVolume (sfsNblocks D) D
    (bitmapIsset (sfsFreemapOf D (sfsFreemapblocks (sfsNblocks D)))) (SfsNamed D)

theorem Sfs.cur_mounting {n : Nat} : (Sfs.mounting D dBlocks kmallocs n).cur = D := rfl

theorem Sfs.not_opened_mounting {n i : Nat} : ¬(Sfs.mounting D dBlocks kmallocs n).Opened i := by
  rintro ⟨p, hp, -⟩
  exact absurd hp (List.not_mem_nil)

theorem SfsConsistent.tree (h : SfsConsistent D) (hdev : sfsNblocks D ≤ dBlocks)
    (hlt : dBlocks < 4294967296) :
    SfsTree (sfiLinkcount (D 1)) 0 0 (SfsNamed D) (.mounted D dBlocks kmallocs) where
  ok :=
    { distinct := nofun
      nodup := List.nodup_nil
      fresh := nofun
      counted := nofun
      device := by
        rw [Sfs.mounted, Sfs.nblocks_mounting]
        exact hdev
      sectors := hlt
      live := fun i hi => absurd hi Sfs.not_opened_mounting
      clean := nofun
      freemap := by
        intro _ j hj k hk
        rw [Sfs.mounted, Sfs.nblocks_mounting] at hj
        refine Eq.symm ((if_pos (by omega)).trans ?_)
        rw [show (j * 512 + k) / 512 = j by omega, show (j * 512 + k) % 512 = k by omega]
        rfl
      magic := h.magic
      nblocks := Sfs.nblocks_mounting.symm
      super := rfl
      last := nofun
      volume := by
        rw [Sfs.mounted, Sfs.nblocks_mounting]
        exact h.volume }
  dir := h.dir
  rootLinks := rfl
  rootKept := h.rootKept
  unnamed := h.unnamed
  live i := by
    unfold SfsNamed
    rw [Sfs.mounted, Sfs.cur_mounting]
    have hno : ¬(Sfs.mounted D dBlocks kmallocs).Opened i := Sfs.not_opened_mounting
    rw [Sfs.mounted] at hno
    tauto
  file i hi h1 := by
    obtain ⟨h0, hpos⟩ := hi.resolve_left h1
    obtain ⟨htype, hlinks⟩ := h.file i h0 hpos
    refine ⟨htype, ?_⟩
    rw [ite_self, add_zero]
    exact congrArg Nat.cast hlinks

/-! ## Runs -/

/-- The invariant of the system: that of the file system, and the reference counts are the
references that are held. -/
structure SfsSysOk (N c : Nat) (a : SfsSys) : Prop where
  tree : SfsTree c 0 0 a.fs.Live a.fs
  refs : a.fs.rc = a.refs
  nblocks : a.fs.nblocks = N
  room : 2 + sfsFreemapblocks N ≤ N

variable {N : Nat}

theorem SfsConsistent.sys (h : SfsConsistent D) (hdev : sfsNblocks D ≤ dBlocks)
    (hlt : dBlocks < 4294967296) (hmount : sfsDomount 512 (.blank D dBlocks kmallocs) =
      some (.ok (), s)) :
    SfsSysOk (sfsNblocks D) (sfiLinkcount (D 1)) (.ofMount s) ∧ s =
      .mounted D dBlocks kmallocs := by
  have hroom := h.room
  obtain ⟨r, t, hrt, hs⟩ := sfsDomount_eq dBlocks kmallocs h.magic (by omega) hlt
  rw [hmount] at hrt
  cases hrt
  obtain rfl : s = .mounted D dBlocks kmallocs := hs
  have htree : SfsTree _ _ _ _ (.mounted D dBlocks kmallocs) := h.tree hdev hlt
  exact ⟨⟨htree.eq_live ▸ htree, rfl, Sfs.nblocks_mounting, hroom⟩, rfl⟩

theorem SfsSysOk.held (h : SfsSysOk N c a) (hh : a.Holds op) : ∀ v ∈ op.vnodes,
    v ∈ a.fs.vnodes := by
  intro v hv
  refine h.tree.ok.rc_pos.mp ?_
  rw [h.refs]
  exact hh v hv

theorem SfsSysOk.exec (h : SfsSysOk N c a) (hh : a.Holds op) (hN : op.MovesData → N ≤ 8388608) :
    ∃ r b, a.exec op = some (r, b) ∧ op.Does c r a.fs b.fs ∧ SfsSysOk N c b := by
  obtain ⟨r, t, hcall, hdoes⟩ := returns_call h.tree (h.held hh) (by rw [h.nblocks]; exact h.room)
    (by rw [h.nblocks]; exact hN)
  refine ⟨r, ⟨t, op.settle r a.refs⟩, ?_, hdoes, ⟨hdoes.1.tree, ?_, ?_, h.room⟩⟩
  · unfold SfsSys.exec
    rw [hcall]
    rfl
  · rw [← h.refs]
    exact hdoes.1.refs
  · rw [← h.nblocks]
    exact congrArg (word · 1) hdoes.1.moves.sb

theorem SfsSys.Step.call_eq (hs : a.Step (op, r) b) : op.call a.fs = some (r, b.fs) := by
  obtain ⟨-, hexec⟩ := hs
  obtain ⟨⟨r', t⟩, hcall, he⟩ := Option.map_eq_some_iff.mp hexec
  cases he
  exact hcall

theorem SfsSysOk.step (h : SfsSysOk N c a) (hs : a.Step (op, r) b)
    (hN : op.MovesData → N ≤ 8388608) :
    op.Does c r a.fs b.fs ∧ SfsSysOk N c b := by
  obtain ⟨r', b', hexec, hdoes⟩ := h.exec hs.1 hN
  have : some (r, b) = some (r', b') := hs.2.symm.trans hexec
  cases this
  exact hdoes

theorem SfsSysOk.run (h : SfsSysOk N c a) (hrun : Run SfsSys.Step a es b)
    (hN : ∀ e ∈ es, e.1.MovesData → N ≤ 8388608) : SfsSysOk N c b := by
  refine hrun.history (R := fun es b => (∀ e ∈ es, e.1.MovesData → N ≤ 8388608) → SfsSysOk N c b)
    (fun _ => h) (fun es s e t ih hs hN => ?_) hN
  rw [List.forall_mem_append] at hN
  exact ((ih hN.1).step hs (hN.2 e (List.mem_singleton.mpr rfl))).2

end OsPaging.Fs
