import OsPaging.Fs.SfsDir
import OsPaging.Fs.SfsVnodes
import OsPaging.Lib.Lists

/-!
# SFS: the directory tree

SFS has one directory, the root (inode 1). `SfsTree` is the invariant of a mounted file system with
its directory: the inodes are the root, what the root names, and what is open; all but the root are
regular files, and their link counts are the numbers of entries that name them.

In the middle of a call that links or unlinks, one link count is off: that of inode `x`, by `a`.
Between calls `a` is 0.
-/

namespace OsPaging.Fs

open OsPaging.Lib Function

variable {L L' : Nat → Prop} {s t u : Sfs} {D D' : Nat → Bytes} {p i j k n c x y slot ino : Nat}
  {a a' : Int} {name : SfsName} {sd : Bytes}

theorem sfsLinks_eq (h : sfsFile D' 1 = sfsFile D 1) :
    sfsSlots D' 1 = sfsSlots D 1 ∧ sfsDirIno D' 1 = sfsDirIno D 1 ∧
      sfsDirName D' 1 = sfsDirName D 1 ∧ sfsLinks D' 1 = sfsLinks D 1 := by
  have hsize : sfiSize (D' 1) = sfiSize (D 1) := congrArg SfsFile.size h
  have hbytes : sfsByte D' 1 = sfsByte D 1 := congrArg SfsFile.bytes h
  have hentry : sfsEntry D' 1 = sfsEntry D 1 := by
    unfold sfsEntry
    rw [hbytes]
  have hslots : sfsSlots D' 1 = sfsSlots D 1 := by
    unfold sfsSlots
    rw [hsize]
  have hino : sfsDirIno D' 1 = sfsDirIno D 1 := by
    unfold sfsDirIno
    rw [hentry]
  refine ⟨hslots, hino, ?_, ?_⟩
  · unfold sfsDirName
    rw [hentry]
  · unfold sfsLinks
    rw [hslots, hino]

theorem SfsDirOk.of_file (hd : SfsDirOk D 1) (h : sfsFile D' 1 = sfsFile D 1) : SfsDirOk D' 1 := by
  obtain ⟨hslots, hino, hname, -⟩ := sfsLinks_eq h
  have hsize : sfiSize (D' 1) = sfiSize (D 1) := congrArg SfsFile.size h
  refine ⟨(congrArg SfsFile.type h).trans hd.type, ?_, ?_, ?_⟩
  · rw [hsize]
    exact hd.whole
  · rw [hsize]
    exact hd.fits
  · rw [hslots, hino, hname]
    exact hd.unique

theorem sfsLinks_le_slots : sfsLinks D 1 i ≤ sfsSlots D 1 :=
  List.countP_le_length.trans_eq List.length_range

theorem sfsLinks_pos : 0 < sfsLinks D 1 i ↔ ∃ j < sfsSlots D 1, sfsDirIno D 1 j = i := by
  unfold sfsLinks
  rw [List.countP_pos_iff]
  simp

theorem SfsDirOk.slots_le (hd : SfsDirOk D 1) : sfsSlots D 1 ≤ 1144 := by
  have := hd.fits
  unfold sfsSlots
  omega

/-! ## The invariant -/

/-- The file system with its directory; the link count of inode `x` is off by `a`, and the root's is
`c`. -/
structure SfsTree (c x : Nat) (a : Int) (L : Nat → Prop) (s : Sfs) : Prop where
  ok : SfsOk L s
  dir : SfsDirOk s.cur 1
  rootLinks : sfiLinkcount (s.cur 1) = c
  rootKept : c ≠ 0
  unnamed : sfsLinks s.cur 1 1 = 0
  live : ∀ i, L i ↔ i = 1 ∨ i ≠ 0 ∧ 0 < sfsLinks s.cur 1 i ∨ s.Opened i
  file : ∀ i, L i → i ≠ 1 → sfiType (s.cur i) = 1 ∧
    (sfiLinkcount (s.cur i) : Int) = sfsLinks s.cur 1 i + if i = x then a else 0

namespace SfsTree

variable (h : SfsTree c x a L s)
include h

theorem root_live : L 1 := (h.live 1).mpr (.inl rfl)

theorem ne_zero (hi : L i) : i ≠ 0 := (h.ok.volume.dataBlock_of_owns hi .self).1

theorem lt (hi : L i) : i < 4294967296 := by
  have h1 := h.ok.lt_of_owns hi .self
  have h2 := h.ok.volume.bound
  omega

theorem type_eq_two (hi : L i) : sfiType (s.cur i) = 2 ↔ i = 1 := by
  constructor
  · intro h2
    by_contra hne
    rw [(h.file i hi hne).1] at h2
    exact absurd h2 (by decide)
  · rintro rfl
    exact h.dir.type

theorem type_loads (hi : L i) : sfiType (s.cur i) = 1 ∨ sfiType (s.cur i) = 2 := by
  by_cases h1 : i = 1
  · exact .inr ((h.type_eq_two hi).mpr h1)
  · exact .inl (h.file i hi h1).1

/-- An entry names an inode that is there, and not the root. -/
theorem live_of_named (hj : j < sfsSlots s.cur 1) (h0 : sfsDirIno s.cur 1 j ≠ 0) :
    L (sfsDirIno s.cur 1 j) ∧ sfsDirIno s.cur 1 j ≠ 1 := by
  have hpos : 0 < sfsLinks s.cur 1 (sfsDirIno s.cur 1 j) := sfsLinks_pos.mpr ⟨j, hj, rfl⟩
  refine ⟨(h.live _).mpr (.inr (.inl ⟨h0, hpos⟩)), fun h1 => ?_⟩
  rw [h1, h.unnamed] at hpos
  exact lt_irrefl 0 hpos

theorem of_root (hok : SfsOk L' t) (hroot : sfsFile t.cur 1 = sfsFile s.cur 1)
    (hlive : ∀ i, L' i ↔ i = 1 ∨ i ≠ 0 ∧ 0 < sfsLinks s.cur 1 i ∨ t.Opened i)
    (hfile : ∀ i, L' i → i ≠ 1 → sfiType (t.cur i) = 1 ∧
      (sfiLinkcount (t.cur i) : Int) = sfsLinks s.cur 1 i + if i = y then a' else 0) :
    SfsTree c y a' L' t := by
  obtain ⟨-, -, -, hlinks⟩ := sfsLinks_eq hroot
  refine ⟨hok, h.dir.of_file hroot, ?_, h.rootKept, ?_, ?_, ?_⟩
  · exact (congrArg SfsFile.links hroot).trans h.rootLinks
  · rw [hlinks]
    exact h.unnamed
  · rw [hlinks]
    exact hlive
  · rw [hlinks]
    exact hfile

/-- A change that leaves all files alone, and opens only inodes that are there. -/
theorem of_same (hok : SfsOk L t) (hsame : ∀ j, L j → SfsSame s.cur t.cur j)
    (hopen : ∀ i, s.Opened i → t.Opened i) : SfsTree c x a L t := by
  refine h.of_root hok (hsame 1 h.root_live).file (fun i => ?_) fun i hi h1 => ?_
  · constructor
    · intro hi
      obtain hi | hi | hi := (h.live i).mp hi
      · exact .inl hi
      · exact .inr (.inl hi)
      · exact .inr (.inr (hopen i hi))
    · rintro (hi | hi | hi)
      · exact (h.live i).mpr (.inl hi)
      · exact (h.live i).mpr (.inr (.inl hi))
      · exact hok.live i hi
  · rw [(hsame i hi).inode]
    exact h.file i hi h1

theorem held (ht : SfsHeld L p s t) : SfsTree c x a L t :=
  h.of_same ht.ok (fun j _ => by rw [ht.cur]; exact .refl) fun i hi => (ht.opened i).mpr (.inl hi)

theorem still (ht : SfsStill L s t) : SfsTree c x a L t :=
  h.of_same ht.ok (fun j _ => by rw [ht.cur]; exact .refl) fun _ hi => ht.frame.opened.mpr hi

theorem idle (ht : SfsIdle L s t) : SfsTree c x a L t :=
  h.of_same ht.ok ht.same fun _ hi => ht.frame.opened.mpr hi

/-- Work on a regular file that leaves its type and its links alone. -/
theorem work (hi : i ≠ 1) (ht : SfsWork L i s t)
    (htype : sfiType (t.cur i) = sfiType (s.cur i))
    (hlinks : sfiLinkcount (t.cur i) = sfiLinkcount (s.cur i)) : SfsTree c x a L t := by
  refine h.of_root ht.ok (ht.others 1 h.root_live hi.symm).file (fun j => ?_) fun j hj h1 => ?_
  · rw [h.live j, ht.frame.opened]
  · by_cases hji : j = i
    · rw [hji, htype, hlinks]
      exact h.file i (hji ▸ hj) hi
    · rw [(ht.others j hj hji).inode]
      exact h.file j hj h1

theorem quiet (ht : SfsQuiet L 1 s t) : SfsTree c x a L t := by
  refine h.of_root ht.ok ht.file (fun j => ?_) fun j hj h1 => ?_
  · rw [h.live j, ht.frame.opened]
  · rw [(ht.others j hj h1).inode]
    exact h.file j hj h1

/-- With nothing off, any inode may be the one that is off by nothing. -/
theorem balance (ha : a = 0) : SfsTree c y 0 L s := by
  refine { h with file := fun i hi h1 => ?_ }
  have := h.file i hi h1
  rw [ha] at this
  simpa using this

end SfsTree

/-! ## Files that stay as they are -/

/-- The files have the same bytes in the same blocks; their heads may differ. -/
structure SfsAlike (D D' : Nat → Bytes) (i : Nat) : Prop where
  size : sfiSize (D' i) = sfiSize (D i)
  byte : sfsByte D' i = sfsByte D i
  owns : ∀ b, SfsOwns D' i b ↔ SfsOwns D i b

theorem SfsSame.alike (h : SfsSame D D' i) : SfsAlike D D' i :=
  ⟨by rw [h.inode], h.byte, fun _ => h.owns⟩

theorem SfsAlike.trans {D'' : Nat → Bytes} (h : SfsAlike D D' i) (h' : SfsAlike D' D'' i) :
    SfsAlike D D'' i :=
  ⟨h'.size.trans h.size, h'.byte.trans h.byte, fun b => (h'.owns b).trans (h.owns b)⟩

/-- The regular files among `L` stay as they are. -/
structure SfsFlow (L : Nat → Prop) (s t : Sfs) : Prop where
  moves : SfsMoves s t
  alike : ∀ i, L i → i ≠ 1 → SfsAlike s.cur t.cur i

theorem SfsFlow.refl : SfsFlow L s s := ⟨.refl, fun _ _ _ => SfsSame.refl.alike⟩

theorem SfsFlow.trans (h : SfsFlow L s t) (h' : SfsFlow L t u) : SfsFlow L s u :=
  ⟨h.moves.trans h'.moves, fun i hi h1 => (h.alike i hi h1).trans (h'.alike i hi h1)⟩

theorem SfsFlow.mono (h : SfsFlow L s t) (hL : ∀ i, L' i → L i) : SfsFlow L' s t :=
  ⟨h.moves, fun i hi h1 => h.alike i (hL i hi) h1⟩

theorem SfsFlow.of_same (hm : SfsMoves s t) (hs : ∀ j, L j → SfsSame s.cur t.cur j) :
    SfsFlow L s t :=
  ⟨hm, fun i hi _ => (hs i hi).alike⟩

theorem SfsHeld.flow (h : SfsHeld L p s t) : SfsFlow L s t :=
  .of_same h.moves fun j _ => by rw [h.cur]; exact .refl

theorem SfsStill.flow (h : SfsStill L s t) : SfsFlow L s t :=
  .of_same h.frame.moves fun j _ => by rw [h.cur]; exact .refl

theorem SfsIdle.flow (h : SfsIdle L s t) : SfsFlow L s t := .of_same h.frame.moves h.same

theorem SfsMade.flow {type : Nat} (h : SfsMade L type p s t) : SfsFlow L s t :=
  .of_same h.moves h.same

theorem SfsDropped.flow (h : SfsDropped L p s t) : SfsFlow (s.liveAfter L p) s t :=
  .of_same h.moves h.same

theorem SfsWork.flow (h : SfsWork L 1 s t) : SfsFlow L s t :=
  ⟨h.frame.moves, fun i hi h1 => (h.others i hi h1).alike⟩

/-! ## Link counts -/

theorem sfiDirect_setHalf {X : Bytes} {v : Nat} : sfiDirect (setHalf X 3 v) k = sfiDirect X k :=
  word_setHalf_of_ne (by omega)

theorem sfiIndirect_setHalf {X : Bytes} {v : Nat} : sfiIndirect (setHalf X 3 v) = sfiIndirect X :=
  word_setHalf_of_ne (by decide)

section

variable (h : SfsTree c (s.vn p).ino a L s) (hp : p ∈ s.vnodes) (hne : (s.vn p).ino ≠ 1)
include h hp hne

theorem SfsTree.setLinks {g : Bytes → Nat} (hv : g (s.vn p).inode < 65536) :
    SfsTree c (s.vn p).ino (a + g (s.vn p).inode - sfiLinkcount (s.vn p).inode) L
        (s.setInode p fun b => setHalf b 3 (g b)) ∧
      SfsFlow L s (s.setInode p fun b => setHalf b 3 (g b)) ∧
      sfsFile (s.setInode p fun b => setHalf b 3 (g b)).cur 1 = sfsFile s.cur 1 := by
  obtain ⟨hwork, hcur, hblk, hbyte⟩ := h.ok.head (f := fun b => setHalf b 3 (g b)) hp
    (fun X k _ => sfiDirect_setHalf) fun X => sfiIndirect_setHalf
  have hi := h.ok.live_of_mem hp
  have hroot := (hwork.others 1 h.root_live hne.symm).file
  refine ⟨?_, ⟨hwork.frame.moves, fun i hi' _ => ?_⟩, hroot⟩
  · refine h.of_root hwork.ok hroot (fun j => ?_) fun j hj h1 => ?_
    · rw [h.live j, hwork.frame.opened]
    · by_cases hji : j = (s.vn p).ino
      · subst hji
        obtain ⟨htype, hlinks⟩ := h.file _ hi hne
        rw [if_pos rfl, h.ok.cur_of_mem hp] at hlinks
        rw [h.ok.cur_of_mem hp] at htype
        rw [hcur, update_self, if_pos rfl, h.ok.cur_of_mem hp]
        refine ⟨(half_setHalf_of_ne (by decide)).trans htype, ?_⟩
        have hset : sfiLinkcount (setHalf (s.vn p).inode 3 (g (s.vn p).inode)) =
            g (s.vn p).inode := half_setHalf_self.trans (Nat.mod_eq_of_lt hv)
        rw [hset]
        omega
      · have := h.file j hj h1
        rw [if_neg hji] at this
        rw [(hwork.others j hj hji).inode, if_neg hji]
        exact this
  · by_cases hii : i = (s.vn p).ino
    · subst hii
      refine ⟨?_, hbyte, fun b => ?_⟩
      · rw [hcur, update_self]
        exact word_setHalf_of_ne (by decide)
      · unfold SfsOwns
        rw [hblk, hcur, update_self, sfiIndirect_setHalf]
    · exact (hwork.others i hi' hii).alike

theorem SfsTree.countUp (hlt : sfiLinkcount (s.vn p).inode < 65535) :
    SfsTree c (s.vn p).ino (a + 1) L (s.countUp p) ∧ SfsFlow L s (s.countUp p) ∧
      sfsFile (s.countUp p).cur 1 = sfsFile s.cur 1 := by
  obtain ⟨htree, hrest⟩ := h.setLinks (g := fun b => sfiLinkcount b + 1) hp hne (by omega)
  have ha : a + ((sfiLinkcount (s.vn p).inode + 1 : Nat) : Int) - sfiLinkcount (s.vn p).inode =
      a + 1 := by omega
  exact ⟨ha ▸ htree, hrest⟩

theorem SfsTree.countDown (hpos : 0 < sfiLinkcount (s.vn p).inode) :
    SfsTree c (s.vn p).ino (a - 1) L (s.countDown p) ∧ SfsFlow L s (s.countDown p) ∧
      sfsFile (s.countDown p).cur 1 = sfsFile s.cur 1 := by
  have hlt : sfiLinkcount (s.vn p).inode < 65536 := half_lt
  obtain ⟨htree, hrest⟩ := h.setLinks (g := fun b => sfiLinkcount b - 1) hp hne (by omega)
  have ha : a + ((sfiLinkcount (s.vn p).inode - 1 : Nat) : Int) - sfiLinkcount (s.vn p).inode =
      a - 1 := by omega
  exact ⟨ha ▸ htree, hrest⟩

end

/-! ## Entries -/

/-- The entries after one was written, over another or as one more. -/
theorem SfsEntered.slots (h : SfsEntered L 1 slot sd s t) (hd : SfsDirOk s.cur 1)
    (hle : slot ≤ sfsSlots s.cur 1) :
    sfsSlots t.cur 1 = max (sfsSlots s.cur 1) (slot + 1) ∧
      sfiSize (t.cur 1) = sfsSlots t.cur 1 * 64 := by
  have hwhole := hd.whole
  have hsize := h.size
  unfold sfsSlots at hle ⊢
  omega

theorem SfsEntered.links_over (h : SfsEntered L 1 slot sd s t) (hd : SfsDirOk s.cur 1)
    (hlt : slot < sfsSlots s.cur 1) :
    sfsLinks t.cur 1 i + (if sfsDirIno s.cur 1 slot = i then 1 else 0) =
      sfsLinks s.cur 1 i + if sfdIno sd = i then 1 else 0 := by
  have hslots : sfsSlots t.cur 1 = sfsSlots s.cur 1 := by
    rw [(h.slots hd hlt.le).1]
    omega
  have hcount := countP_range_change (k := slot) (f := fun j => sfsDirIno s.cur 1 j = i)
    (g := fun j => sfsDirIno t.cur 1 j = i) hlt fun j hj => by rw [h.dirIno_of_ne hj]
  unfold sfsLinks
  rw [hslots]
  rw [h.dirIno_self] at hcount
  simpa using hcount

theorem SfsEntered.links_more (h : SfsEntered L 1 (sfsSlots s.cur 1) sd s t)
    (hd : SfsDirOk s.cur 1) :
    sfsLinks t.cur 1 i = sfsLinks s.cur 1 i + if sfdIno sd = i then 1 else 0 := by
  have hslots : sfsSlots t.cur 1 = sfsSlots s.cur 1 + 1 := by
    rw [(h.slots hd le_rfl).1]
    omega
  have hsame : (List.range (sfsSlots s.cur 1)).countP (fun j => sfsDirIno t.cur 1 j = i) =
      (List.range (sfsSlots s.cur 1)).countP fun j => sfsDirIno s.cur 1 j = i := by
    refine List.countP_congr fun j hj => ?_
    rw [h.dirIno_of_ne (List.mem_range.mp hj).ne]
  unfold sfsLinks
  rw [hslots, List.range_succ, List.countP_append, List.countP_singleton, hsame, h.dirIno_self]
  simp

theorem SfsLinked.links_named (h : SfsLinked L 1 name ino slot s t) (hd : SfsDirOk s.cur 1)
    (hino : ino < 4294967296) (hi : i ≠ 0) :
    sfsLinks t.cur 1 i = sfsLinks s.cur 1 i + if i = ino then 1 else 0 := by
  have hsd : sfdIno (sfsDirentry ino name) = ino := sfdIno_direntry hino
  by_cases hlt : slot < sfsSlots s.cur 1
  · have := h.links_over hd hlt (i := i)
    rw [h.free hlt, if_neg hi.symm, hsd] at this
    simpa [eq_comm] using this
  · obtain rfl : slot = sfsSlots s.cur 1 := le_antisymm h.le (not_lt.mp hlt)
    rw [h.links_more hd, hsd]
    simp [eq_comm]

theorem SfsLinked.dir (h : SfsLinked L 1 name ino slot s t) (hd : SfsDirOk s.cur 1) :
    SfsDirOk t.cur 1 := by
  obtain ⟨hslots, hsize⟩ := h.slots hd h.le
  have hname : sfsDirName t.cur 1 slot = name.1 := h.dirName_self.trans (sfdName_direntry h.short)
  have hold : ∀ j < sfsSlots t.cur 1, j ≠ slot → j < sfsSlots s.cur 1 := by
    have := h.le
    omega
  refine ⟨h.type.trans hd.type, by omega, ?_, fun j hj k hk hj0 hk0 hjk => ?_⟩
  · have := h.fits
    have := hd.slots_le
    omega
  · by_cases hjs : j = slot
    · by_cases hks : k = slot
      · rw [hjs, hks]
      · rw [h.dirIno_of_ne hks] at hk0
        rw [hjs, hname, h.dirName_of_ne hks] at hjk
        exact absurd hjk.symm (h.absent k (hold k hk hks) hk0)
    · rw [h.dirIno_of_ne hjs] at hj0
      rw [h.dirName_of_ne hjs] at hjk
      by_cases hks : k = slot
      · rw [hks, hname] at hjk
        exact absurd hjk (h.absent j (hold j hj hjs) hj0)
      · rw [h.dirIno_of_ne hks] at hk0
        rw [h.dirName_of_ne hks] at hjk
        exact hd.unique j (hold j hj hjs) k (hold k hk hks) hj0 hk0 hjk

theorem SfsTree.link (h : SfsTree c x 0 L s) (hl : SfsLinked L 1 name ino slot s t) (hino : L ino)
    (hne : ino ≠ 1) : SfsTree c ino (-1) L t := by
  have hlinks : ∀ {i}, i ≠ 0 → sfsLinks t.cur 1 i =
      sfsLinks s.cur 1 i + if i = ino then 1 else 0 := fun hi => hl.links_named h.dir (h.lt hino) hi
  refine ⟨hl.ok, hl.dir h.dir, hl.links.trans h.rootLinks, h.rootKept, ?_, fun i => ?_,
    fun i hi h1 => ?_⟩
  · rw [hlinks (by decide), h.unnamed, if_neg hne.symm]
  · rw [h.live i, hl.frame.opened]
    refine or_congr_right ?_
    by_cases hi0 : i = 0
    · simp [hi0]
    · rw [hlinks hi0]
      by_cases hii : i = ino
      · subst hii
        have := (h.live i).mp hino
        grind
      · simp [hii]
  · have hfile := h.file i hi h1
    rw [(hl.others i hi h1).inode, hlinks (h.ne_zero hi)]
    grind

/-- An entry is cleared, before the link count is lowered; its inode is open. -/
theorem SfsTree.unlink (h : SfsTree c x 0 L s) (hslot : slot < sfsSlots s.cur 1)
    (h0 : sfsDirIno s.cur 1 slot ≠ 0) (hopen : s.Opened (sfsDirIno s.cur 1 slot))
    (he : SfsEntered L 1 slot zeros s t) : SfsTree c (sfsDirIno s.cur 1 slot) 1 L t := by
  obtain ⟨-, hv1⟩ := h.live_of_named hslot h0
  have hslots : sfsSlots t.cur 1 = sfsSlots s.cur 1 := by
    rw [(he.slots h.dir hslot.le).1]
    omega
  have hlinks : ∀ {i}, i ≠ 0 → sfsLinks t.cur 1 i +
      (if i = sfsDirIno s.cur 1 slot then 1 else 0) = sfsLinks s.cur 1 i := by
    intro i hi
    have := he.links_over h.dir hslot (i := i)
    rw [sfdIno_zeros, if_neg hi.symm, add_zero] at this
    simpa [eq_comm] using this
  have hz : sfsDirIno t.cur 1 slot = 0 := he.dirIno_self.trans sfdIno_zeros
  refine ⟨he.ok, ⟨he.type.trans h.dir.type, ?_, ?_, fun j hj k hk hj0 hk0 hjk => ?_⟩,
    he.links.trans h.rootLinks, h.rootKept, ?_, fun i => ?_, fun i hi h1 => ?_⟩
  · have := (he.slots h.dir hslot.le).2
    omega
  · have := (he.slots h.dir hslot.le).2
    have := h.dir.slots_le
    omega
  · have hjs : j ≠ slot := fun hc => hj0 (hc ▸ hz)
    have hks : k ≠ slot := fun hc => hk0 (hc ▸ hz)
    rw [he.dirIno_of_ne hjs] at hj0
    rw [he.dirIno_of_ne hks] at hk0
    rw [he.dirName_of_ne hjs, he.dirName_of_ne hks] at hjk
    rw [hslots] at hj hk
    exact h.dir.unique j hj k hk hj0 hk0 hjk
  · have := hlinks (i := 1) (by decide)
    rw [h.unnamed] at this
    omega
  · rw [h.live i, he.frame.opened]
    grind
  · have hfile := h.file i hi h1
    have hl := hlinks (h.ne_zero hi)
    rw [(he.others i hi h1).inode]
    grind

/-! ## Inodes come and go -/

theorem SfsTree.made (h : SfsTree c x 0 L s) (hm : SfsMade L 1 p s t) :
    SfsTree c y 0 (SfsWith L (t.vn p).ino) t := by
  have h0 : (t.vn p).ino ≠ 0 := (hm.ok.volume.dataBlock_of_owns (.inr rfl) .self).1
  have hnone : sfsLinks s.cur 1 (t.vn p).ino = 0 := by
    by_contra hpos
    exact hm.new ((h.live _).mpr (.inr (.inl ⟨h0, Nat.pos_of_ne_zero hpos⟩)))
  refine (h.balance (y := y) rfl).of_root hm.ok (hm.same 1 h.root_live).file (fun i => ?_)
    fun i hi hi1 => ?_
  · unfold SfsWith
    rw [h.live i, hm.opened i]
    tauto
  · obtain hi | rfl := hi
    · rw [(hm.same i hi).inode]
      exact (h.balance (y := y) rfl).file i hi hi1
    · rw [hm.inode, sfiType_new, sfiLinkcount_new, hnone]
      simp

theorem SfsTree.root_after (h : SfsTree c x a L s) (hp : p ∈ s.vnodes) : s.liveAfter L p 1 := by
  refine ⟨h.root_live, ?_⟩
  rintro ⟨hp1, -, hlinks⟩
  refine h.rootKept ?_
  rw [← h.rootLinks, hp1, h.ok.cur_of_mem hp]
  exact hlinks

theorem SfsTree.dropped (h : SfsTree c x 0 L s) (hp : p ∈ s.vnodes) (hd : SfsDropped L p s t) :
    SfsTree c x 0 (s.liveAfter L p) t := by
  refine h.of_root hd.ok (hd.same 1 (h.root_after hp)).file (fun i => ?_) fun i hi h1 => ?_
  · rw [hd.opened i]
    constructor
    · rintro ⟨hi, hstay⟩
      obtain rfl | hi' | hi' := (h.live i).mp hi
      · exact .inl rfl
      · exact .inr (.inl hi')
      · by_cases hlast : i = (s.vn p).ino ∧ s.rc p = 1
        · -- the inode of the vnode that goes has links
          obtain ⟨rfl, hone⟩ := hlast
          by_cases h1 : (s.vn p).ino = 1
          · exact .inl h1
          · obtain ⟨-, hcount⟩ := h.file _ hi h1
            rw [h.ok.cur_of_mem hp] at hcount
            refine .inr (.inl ⟨h.ne_zero hi, ?_⟩)
            grind
        · exact .inr (.inr ⟨hi', hlast⟩)
    · rintro (rfl | ⟨h0, hpos⟩ | ⟨hi, hstay⟩)
      · exact h.root_after hp
      · have hi : L i := (h.live i).mpr (.inr (.inl ⟨h0, hpos⟩))
        refine ⟨hi, ?_⟩
        rintro ⟨rfl, -, hz⟩
        have h1 : (s.vn p).ino ≠ 1 := by
          intro hc
          rw [hc, h.unnamed] at hpos
          exact lt_irrefl 0 hpos
        obtain ⟨-, hcount⟩ := h.file _ hi h1
        rw [h.ok.cur_of_mem hp, hz] at hcount
        grind
      · exact ⟨(h.live i).mpr (.inr (.inr hi)), fun hc => hstay ⟨hc.1, hc.2.1⟩⟩
  · rw [(hd.same i hi).inode]
    exact h.file i hi.1 h1

/-! ## The directory as a map -/

/-- The inode that a name stands for. -/
def sfsLookup (D : Nat → Bytes) (name : List UInt8) : Option Nat :=
  ((List.range (sfsSlots D 1)).find? fun j => sfsDirIno D 1 j ≠ 0 ∧ sfsDirName D 1 j = name).map
    (sfsDirIno D 1)

theorem SfsDirOk.lookup_eq_some (hd : SfsDirOk D 1) {name : List UInt8} :
    sfsLookup D name = some i ↔
      ∃ j < sfsSlots D 1, sfsDirIno D 1 j = i ∧ i ≠ 0 ∧ sfsDirName D 1 j = name := by
  unfold sfsLookup
  rw [Option.map_eq_some_iff]
  constructor
  · grind
  · rintro ⟨j, hj, rfl, h0, hname⟩
    cases hf : (List.range (sfsSlots D 1)).find? fun j =>
        sfsDirIno D 1 j ≠ 0 ∧ sfsDirName D 1 j = name with
    | none =>
      exact absurd (List.find?_eq_none.mp hf j (List.mem_range.mpr hj)) (by simp [h0, hname])
    | some k =>
      have hmem := List.mem_range.mp (List.mem_of_find?_eq_some hf)
      have hprop : sfsDirIno D 1 k ≠ 0 ∧ sfsDirName D 1 k = name := by
        simpa using List.find?_some hf
      obtain rfl := hd.unique j hj k hmem h0 hprop.1 (hname.trans hprop.2.symm)
      exact ⟨j, rfl, rfl⟩

theorem SfsDirOk.lookup_ext (hd : SfsDirOk D 1) {name : List UInt8} {o : Option Nat}
    (h : ∀ i, o = some i ↔
      ∃ j < sfsSlots D 1, sfsDirIno D 1 j = i ∧ i ≠ 0 ∧ sfsDirName D 1 j = name) :
    sfsLookup D name = o :=
  Option.ext fun i => hd.lookup_eq_some.trans (h i).symm

theorem sfsLookup_of_file (h : sfsFile D' 1 = sfsFile D 1) : sfsLookup D' = sfsLookup D := by
  obtain ⟨hslots, hino, hname, -⟩ := sfsLinks_eq h
  funext name
  unfold sfsLookup
  rw [hslots, hino, hname]

theorem SfsLinked.lookup (h : SfsLinked L 1 name ino slot s t) (hd : SfsDirOk s.cur 1)
    (hino : ino < 4294967296) (h0 : ino ≠ 0) :
    sfsLookup t.cur = update (sfsLookup s.cur) name.1 (some ino) := by
  have hsd : sfsDirIno t.cur 1 slot = ino := h.dirIno_self.trans (sfdIno_direntry hino)
  have hsn : sfsDirName t.cur 1 slot = name.1 := h.dirName_self.trans (sfdName_direntry h.short)
  have hslots := (h.slots hd h.le).1
  funext nm
  refine (h.dir hd).lookup_ext fun i => ?_
  by_cases hnm : nm = name.1
  · subst hnm
    rw [update_self]
    constructor
    · intro hi
      cases hi
      exact ⟨slot, by omega, hsd, h0, hsn⟩
    · rintro ⟨j, hj, hji, hi0, hjn⟩
      by_cases hjs : j = slot
      · rw [← hji, hjs, hsd]
      · rw [h.dirIno_of_ne hjs] at hji
        rw [h.dirName_of_ne hjs] at hjn
        have := h.le
        exact absurd hjn (h.absent j (by omega) (hji ▸ hi0))
  · rw [update_of_ne hnm, hd.lookup_eq_some]
    constructor
    · rintro ⟨j, hj, hji, hi0, hjn⟩
      have hjs : j ≠ slot := by
        rintro rfl
        exact hi0 (hji ▸ h.free hj)
      exact ⟨j, by omega, by rw [h.dirIno_of_ne hjs]; exact hji, hi0,
        by rw [h.dirName_of_ne hjs]; exact hjn⟩
    · rintro ⟨j, hj, hji, hi0, hjn⟩
      have hjs : j ≠ slot := by
        rintro rfl
        exact hnm (hjn.symm.trans hsn)
      have := h.le
      rw [h.dirIno_of_ne hjs] at hji
      rw [h.dirName_of_ne hjs] at hjn
      exact ⟨j, by omega, hji, hi0, hjn⟩

theorem SfsTree.lookup_unlink (h : SfsTree c x a L s) (hslot : slot < sfsSlots s.cur 1)
    (h0 : sfsDirIno s.cur 1 slot ≠ 0) (he : SfsEntered L 1 slot zeros s t)
      (hdt : SfsDirOk t.cur 1) :
    sfsLookup t.cur = update (sfsLookup s.cur) (sfsDirName s.cur 1 slot) none := by
  have hz : sfsDirIno t.cur 1 slot = 0 := he.dirIno_self.trans sfdIno_zeros
  have hslots : sfsSlots t.cur 1 = sfsSlots s.cur 1 := by
    rw [(he.slots h.dir hslot.le).1]
    omega
  funext nm
  refine hdt.lookup_ext fun i => ?_
  rw [hslots]
  by_cases hnm : nm = sfsDirName s.cur 1 slot
  · subst hnm
    rw [update_self]
    refine iff_of_false nofun ?_
    rintro ⟨j, hj, hji, hi0, hjn⟩
    have hjs : j ≠ slot := by
      rintro rfl
      exact hi0 (hji ▸ hz)
    rw [he.dirIno_of_ne hjs] at hji
    rw [he.dirName_of_ne hjs] at hjn
    exact hjs (h.dir.unique j hj slot hslot (hji ▸ hi0) h0 hjn)
  · rw [update_of_ne hnm, h.dir.lookup_eq_some]
    refine exists_congr fun j => and_congr_right fun hj => ?_
    by_cases hjs : j = slot
    · grind
    · rw [he.dirIno_of_ne hjs, he.dirName_of_ne hjs]

end OsPaging.Fs
