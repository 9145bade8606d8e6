import OsPaging.Fs.SfsMapping

/-!
# SFS: what the directory functions do

The entries of a directory in an image (`sfsDirent`), and the specifications of `sfs_metaio`,
`sfs_dir_findname`, `sfs_dir_link` and `sfs_dir_unlink` over them. A directory in good order
(`SfsDirOk`) has a whole number of entries, no more than fit into the largest file, and no name
twice.
-/

namespace OsPaging.Fs

open OsPaging.Lib Function

variable {L : Nat → Prop} {s t u : Sfs} {D D' : Nat → Bytes} {p d i j k n len slot : Nat}
  {X sd : Bytes} {name : SfsName}

/-! ## Entries -/

/-- The bytes of entry `j` of directory `d`. -/
def sfsEntry (D : Nat → Bytes) (d j : Nat) : Bytes := fun k => sfsByte D d (j * 64 + k)

/-- The inode number in entry `j`; 0 if it is free. -/
def sfsDirIno (D : Nat → Bytes) (d j : Nat) : Nat := sfdIno (sfsEntry D d j)

/-- The name in entry `j`. -/
def sfsDirName (D : Nat → Bytes) (d j : Nat) : List UInt8 := sfdName (sfsEntry D d j)

/-- The number of entries. -/
def sfsSlots (D : Nat → Bytes) (d : Nat) : Nat := sfiSize (D d) / 64

/-- The number of entries of directory `d` that name inode `i`. -/
def sfsLinks (D : Nat → Bytes) (d i : Nat) : Nat :=
  (List.range (sfsSlots D d)).countP fun j => sfsDirIno D d j = i

/-- A directory in good order. -/
structure SfsDirOk (D : Nat → Bytes) (d : Nat) : Prop where
  type : sfiType (D d) = 2
  whole : sfiSize (D d) % 64 = 0
  fits : sfiSize (D d) ≤ 73216
  unique : ∀ j < sfsSlots D d, ∀ k < sfsSlots D d, sfsDirIno D d j ≠ 0 → sfsDirIno D d k ≠ 0 →
    sfsDirName D d j = sfsDirName D d k → j = k

theorem sfdIno_of_bytes (h : ∀ k < 64, X k = sd k) : sfdIno X = sfdIno sd :=
  word_congr fun k hk => h k (by omega)

theorem sfdName_of_bytes (h : ∀ k < 64, X k = sd k) : sfdName X = sfdName sd := by
  unfold sfdName
  congr 1
  refine List.map_congr_left fun k hk => h (4 + k) ?_
  have := List.mem_range.mp hk
  omega

@[simp] theorem sfdIno_zeros : sfdIno zeros = 0 := word_zeros

@[simp] theorem sfdIno_direntry (hi : i < 4294967296) : sfdIno (sfsDirentry i name) = i := by
  have h : sfdIno (sfsDirentry i name) = word (setWord zeros 0 i) 0 :=
    word_congr fun k hk => if_pos (by omega)
  rw [h, word_setWord_self, Nat.mod_eq_of_lt hi]

/-- A C string that fits is read back from its entry. -/
theorem sfdName_direntry (hlen : name.1.length ≤ 59) : sfdName (sfsDirentry i name) = name.1 := by
  have hbytes : (List.range 59).map (fun k => sfsDirentry i name (4 + k)) =
      name.1 ++ List.replicate (59 - name.1.length) 0 := by
    refine List.ext_getElem? fun k => ?_
    by_cases hk : k < 59
    · have hget : sfsDirentry i name (4 + k) = name.1.getD k 0 := by
        unfold sfsDirentry
        rw [if_neg (by omega), Nat.add_sub_cancel_left]
      grind
    · grind
  unfold sfdName
  rw [hbytes, List.takeWhile_append_of_pos]
  · cases 59 - name.1.length with
    | zero => simp
    | succ n => simp [List.replicate_succ]
  · grind

/-! ## `sfs_metaio` -/

theorem returns_sfsReaddir (h : SfsOk L s) (hp : p ∈ s.vnodes) (hslot : slot * 64 < 73216)
    {Q : Except Errno Bytes → Sfs → Prop}
    (hQ : ∀ X, (∀ k < 64, X k = sfsEntry s.cur (s.vn p).ino slot k) → Q (.ok X) s) :
    (sfsReaddir p slot).Returns s Q := by
  have hi := h.live_of_mem hp
  have hblk : ∀ k < 64, (slot * 64 + k) / 512 = slot * 64 / 512 ∧
      (slot * 64 + k) % 512 = slot * 64 % 512 + k := by
    intro k hk
    omega
  unfold sfsReaddir sfsMetaio
  rw [Nat.mod_eq_of_lt (by omega : slot * 64 / 512 < 4294967296), Call.returns_bind,
    show decide (UioRw.read = UioRw.write) = false from rfl,
    returns_sfsBmap_found h hp (by omega) (by simp), Call.andthen_ok]
  split_ifs with h0
  · rw [Call.returns_bindAssert, Call.returns_pure]
    refine ⟨rfl, hQ _ fun k hk => ?_⟩
    unfold sfsEntry sfsByte
    rw [(hblk k hk).1, if_pos h0]
    rfl
  · rw [Call.returns_bind, returns_sfsReadblock h.toSfsHouse (h.lt_of_owns hi (.data h0)),
      Call.andthen_ok]
    refine Call.returns_pure.mpr (hQ _ fun k hk => ?_)
    unfold sfsEntry sfsByte
    rw [(hblk k hk).1, if_neg h0, (hblk k hk).2, h.disk_of_not_live (h.not_live_blockAt hi h0)]

/-- Entry `slot` of directory `d` was written. -/
structure SfsEntered (L : Nat → Prop) (d slot : Nat) (sd : Bytes) (s t : Sfs) : Prop
    extends SfsWork L d s t where
  uio : t.uio = s.uio
  size : sfiSize (t.cur d) = max (sfiSize (s.cur d)) (slot * 64 + 64)
  type : sfiType (t.cur d) = sfiType (s.cur d)
  links : sfiLinkcount (t.cur d) = sfiLinkcount (s.cur d)
  entry : ∀ j, ∀ k < 64, sfsEntry t.cur d j k = if j = slot then sd k else sfsEntry s.cur d j k

/-- The store of an entry into the block that was mapped. -/
theorem SfsQuiet.stored {b : Nat} (sd : Bytes) (h : SfsQuiet L d s t) (hd : L d)
    (hgot : SfsGotBlock d (slot * 64 / 512) t b) :
    SfsWork L d s (t.put b (blit (t.cur b) (slot * 64 % 512) sd 0 64)) ∧
      (t.put b (blit (t.cur b) (slot * 64 % 512) sd 0 64)).cur d = t.cur d ∧
      ∀ j, ∀ k < 64, sfsEntry (t.put b (blit (t.cur b) (slot * 64 % 512) sd 0 64)).cur d j k =
        if j = slot then sd k else sfsEntry s.cur d j k := by
  obtain ⟨-, h0, rfl⟩ := hgot
  have hnot := h.ok.not_live_blockAt hd h0
  obtain ⟨hchange, hblk, hino, hbyte⟩ := h.ok.volume.store
    (X := blit (t.cur (sfsBlockAt t.cur d (slot * 64 / 512))) (slot * 64 % 512) sd 0 64) hd h0
  have hcur := Sfs.cur_put
    (X := blit (t.cur (sfsBlockAt t.cur d (slot * 64 / 512))) (slot * 64 % 512) sd 0 64)
    (h.ok.not_opened hnot)
  have hold : sfsByte t.cur d = sfsByte s.cur d := congrArg SfsFile.bytes h.file
  refine ⟨h.toSfsWork.trans (.of_change
    (h.ok.put (h.ok.volume.dataBlock_of_owns hd (.data h0)) hnot)
    ?_ .put), ?_, fun j k hk => ?_⟩
  · rw [hcur]
    exact hchange
  · rw [hcur, hino]
  · unfold sfsEntry
    rw [hcur, hbyte, ← hold]
    by_cases hpos : (j * 64 + k) / 512 = slot * 64 / 512
    · rw [if_pos hpos]
      by_cases hj : j = slot
      · rw [if_pos hj, blit, if_pos (by omega), Nat.zero_add]
        congr 1
        omega
      · rw [if_neg hj, blit, if_neg (by omega), sfsByte, hpos, if_neg h0]
    · rw [if_neg hpos, if_neg (by rintro rfl; omega)]

theorem returns_sfsWritedir_of_bmap {E : Errno → Prop} (h : SfsOk L s) (hp : p ∈ s.vnodes)
    (hslot : slot * 64 ≤ 73216)
    (hmap : (sfsBmap p (slot * 64 / 512) true).Returns s fun r t => SfsQuiet L (s.vn p).ino s t ∧
      Call.Settled E (SfsGotBlock (s.vn p).ino (slot * 64 / 512) t) r) :
    (sfsWritedir p slot sd).Returns s fun r t =>
      Call.Settled (fun e => SfsQuiet L (s.vn p).ino s t ∧ E e)
        (fun _ => slot < 1144 ∧ SfsEntered L (s.vn p).ino slot sd s t) r := by
  have hi := h.live_of_mem hp
  unfold sfsWritedir sfsMetaio
  rw [Nat.mod_eq_of_lt (by omega : slot * 64 / 512 < 4294967296), Call.returns_bind,
    show decide (UioRw.write = UioRw.write) = true from rfl]
  refine hmap.bind ?_ fun e t ht => ht
  rintro b t ⟨hq, hgot⟩
  obtain ⟨hlt, hb0, -⟩ := id hgot
  obtain ⟨hlt', hdisk⟩ := hgot.on_disk hq.ok hi
  obtain ⟨hwork, hino, hentry⟩ := hq.stored sd hi hgot
  have hpt := hwork.frame.mem hp
  have hfile := hq.file
  rw [if_neg hb0, Call.returns_bind, returns_sfsReadblock hq.ok.toSfsHouse hlt', Call.andthen_ok,
    hdisk]
  dsimp only
  rw [Call.returns_bind, returns_sfsWriteblock hq.ok.toSfsHouse hlt', Call.andthen_ok,
    Call.returns_bindModify, Call.returns_pure, Call.andthen_ok,
    Call.returns_pure]
  refine ⟨by omega, ?_⟩
  have hsize : sfiSize ((t.put b (blit (t.cur b) (slot * 64 % 512) sd 0 64)).vn p).inode =
      sfiSize (s.cur (s.vn p).ino) := by
    rw [← hwork.ok.cur_of_mem hpt, hwork.frame.ino, hino]
    exact congrArg SfsFile.size hfile
  split_ifs with hgrow
  · obtain ⟨hhead, hcur, -, hbyte⟩ := hwork.ok.head (f := (setWord · 0 (slot * 64 + 64))) hpt
      (fun X k hk => word_setWord_of_ne (by omega)) fun X => word_setWord_of_ne (by decide)
    rw [hwork.frame.ino] at hhead hcur hbyte
    refine ⟨hwork.trans hhead, hq.uio, ?_, ?_, ?_, fun j k hk => ?_⟩
    · rw [hcur, update_self, Nat.max_eq_right (by omega)]
      exact word_setWord_self.trans (Nat.mod_eq_of_lt (by omega))
    · rw [hcur, update_self, hino]
      exact (half_setWord_of_ne (by decide)).trans (congrArg SfsFile.type hfile)
    · rw [hcur, update_self, hino]
      exact (half_setWord_of_ne (by decide)).trans (congrArg SfsFile.links hfile)
    · rw [← hentry j k hk]
      unfold sfsEntry
      rw [hbyte]
  · refine ⟨hwork, hq.uio, ?_, ?_, ?_, hentry⟩
    · rw [hino, Nat.max_eq_left (by omega)]
      exact congrArg SfsFile.size hfile
    · rw [hino]
      exact congrArg SfsFile.type hfile
    · rw [hino]
      exact congrArg SfsFile.links hfile

theorem returns_sfsWritedir (h : SfsOk L s) (hp : p ∈ s.vnodes) (hslot : slot * 64 ≤ 73216) :
    (sfsWritedir p slot sd).Returns s fun r t =>
      Call.Settled (fun e => SfsQuiet L (s.vn p).ino s t ∧ SfsNoBlock (slot * 64 / 512) e)
        (fun _ => slot < 1144 ∧ SfsEntered L (s.vn p).ino slot sd s t) r :=
  returns_sfsWritedir_of_bmap h hp hslot (returns_sfsBmap_alloc h hp)

namespace SfsEntered

variable (h : SfsEntered L d slot sd s t)
include h

theorem dirIno_self : sfsDirIno t.cur d slot = sfdIno sd :=
  sfdIno_of_bytes fun k hk => by rw [h.entry slot k hk, if_pos rfl]

theorem dirName_self : sfsDirName t.cur d slot = sfdName sd :=
  sfdName_of_bytes fun k hk => by rw [h.entry slot k hk, if_pos rfl]

theorem dirIno_of_ne (hj : j ≠ slot) : sfsDirIno t.cur d j = sfsDirIno s.cur d j :=
  sfdIno_of_bytes fun k hk => by rw [h.entry j k hk, if_neg hj]

theorem dirName_of_ne (hj : j ≠ slot) : sfsDirName t.cur d j = sfsDirName s.cur d j :=
  sfdName_of_bytes fun k hk => by rw [h.entry j k hk, if_neg hj]

end SfsEntered

/-! ## `sfs_dir_findname` -/

/-- What the search for `name` has found in the entries before `i`. -/
structure SfsFound.Right (D : Nat → Bytes) (d : Nat) (name : SfsName) (i : Nat) (r : SfsFound) :
    Prop where
  found : ∀ j ino, r.found = some (j, ino) → j < i ∧ ino = sfsDirIno D d j ∧ ino ≠ 0 ∧
    sfsDirName D d j = name.1
  absent : r.found = none → ∀ j < i, sfsDirIno D d j ≠ 0 → sfsDirName D d j ≠ name.1
  empty : ∀ j, r.emptyslot = some j → j < i ∧ sfsDirIno D d j = 0
  full : r.emptyslot = none → ∀ j < i, sfsDirIno D d j ≠ 0

section

variable (h : SfsOk L s) (hp : p ∈ s.vnodes) (hd : SfsDirOk s.cur (s.vn p).ino)
include h hp hd

theorem returns_sfsDirFindnameLoop {left : Nat} {r : SfsFound}
    (hi : i + left = sfsSlots s.cur (s.vn p).ino) (hr : r.Right s.cur (s.vn p).ino name i)
    {Q : Except Errno SfsFound → Sfs → Prop}
    (hQ : ∀ r : SfsFound, r.Right s.cur (s.vn p).ino name (sfsSlots s.cur (s.vn p).ino) →
      Q (.ok r) s) :
    (sfsDirFindnameLoop p name left i r).Returns s Q := by
  induction left generalizing i r with
  | zero =>
    obtain rfl : i = sfsSlots s.cur (s.vn p).ino := by omega
    exact Call.returns_pure.mpr (hQ r hr)
  | succ left ih =>
    have hfits := hd.fits
    have hslots : sfsSlots s.cur (s.vn p).ino * 64 ≤ 73216 := by
      unfold sfsSlots
      omega
    unfold sfsDirFindnameLoop
    rw [Call.returns_bind]
    refine returns_sfsReaddir h hp (by omega) fun X hX => ?_
    have hino : sfdIno X = sfsDirIno s.cur (s.vn p).ino i := sfdIno_of_bytes hX
    have hname : sfdName X = sfsDirName s.cur (s.vn p).ino i := sfdName_of_bytes hX
    rw [Call.andthen_ok, hino, hname]
    split_ifs with h0 heq
    · -- a free entry
      refine ih (by omega) ⟨fun j ino hf => ?_, fun hf j hj hne => ?_, fun j he => ?_, nofun⟩
      · obtain ⟨hj, hrest⟩ := hr.found j ino hf
        exact ⟨by omega, hrest⟩
      · by_cases hji : j = i
        · exact absurd (hji ▸ h0) hne
        · exact hr.absent hf j (by omega) hne
      · grind
    · -- the name: it was not seen before
      have hnone : r.found = none := by
        cases hf : r.found with
        | none => rfl
        | some f =>
          obtain ⟨hj, hij, hne, hnm⟩ := hr.found f.1 f.2 hf
          have := hd.unique f.1 (by omega) i (by omega) (hij ▸ hne) h0 (hnm.trans heq.symm)
          omega
      rw [Call.returns_bindAssert]
      refine ⟨hnone, ih (by omega) ⟨fun j ino hf => ?_, nofun, fun j he => ?_, fun he j hj => ?_⟩⟩
      · grind
      · obtain ⟨hj, hz⟩ := hr.empty j he
        exact ⟨by omega, hz⟩
      · by_cases hji : j = i
        · exact hji ▸ h0
        · exact hr.full he j (by omega)
    · -- another name
      refine ih (by omega) ⟨fun j ino hf => ?_, fun hf j hj hne => ?_, fun j he => ?_,
        fun he j hj => ?_⟩
      · obtain ⟨hj, hrest⟩ := hr.found j ino hf
        exact ⟨by omega, hrest⟩
      · by_cases hji : j = i
        · exact hji ▸ heq
        · exact hr.absent hf j (by omega) hne
      · obtain ⟨hj, hz⟩ := hr.empty j he
        exact ⟨by omega, hz⟩
      · by_cases hji : j = i
        · exact hji ▸ h0
        · exact hr.full he j (by omega)

theorem returns_sfsDirNentries {Q : Except Errno Nat → Sfs → Prop} :
    (sfsDirNentries p).Returns s Q ↔ Q (.ok (sfsSlots s.cur (s.vn p).ino)) s := by
  have htype := hd.type
  have hwhole := hd.whole
  unfold sfsDirNentries sfsSlots
  rw [h.cur_of_mem hp] at htype hwhole ⊢
  simp [htype, hwhole]

theorem returns_sfsDirFindname {Q : Except Errno SfsFound → Sfs → Prop}
    (hQ : ∀ r : SfsFound, r.Right s.cur (s.vn p).ino name (sfsSlots s.cur (s.vn p).ino) →
      Q (.ok r) s) :
    (sfsDirFindname p name).Returns s Q := by
  unfold sfsDirFindname
  rw [Call.returns_bind, returns_sfsDirNentries h hp hd, Call.andthen_ok]
  refine returns_sfsDirFindnameLoop h hp hd (Nat.zero_add _) ⟨?_, ?_, ?_, ?_⟩ hQ
  · exact fun _ _ (hf : none = some _) => nomatch hf
  · exact fun _ j hj => absurd hj (Nat.not_lt_zero j)
  · exact fun _ (hf : none = some _) => nomatch hf
  · exact fun _ j hj => absurd hj (Nat.not_lt_zero j)

end

/-! ## `sfs_dir_link` and `sfs_dir_unlink` -/

/-- A new entry in `slot` of directory `d`: it was free or is one more, and the name was not
there. -/
structure SfsLinked (L : Nat → Prop) (d : Nat) (name : SfsName) (ino slot : Nat) (s t : Sfs) : Prop
    extends SfsEntered L d slot (sfsDirentry ino name) s t where
  short : name.1.length ≤ 59
  absent : ∀ j < sfsSlots s.cur d, sfsDirIno s.cur d j ≠ 0 → sfsDirName s.cur d j ≠ name.1
  le : slot ≤ sfsSlots s.cur d
  free : slot < sfsSlots s.cur d → sfsDirIno s.cur d slot = 0
  fits : slot < 1144

theorem returns_sfsDirLink {ino : Nat} (h : SfsOk L s) (hp : p ∈ s.vnodes)
    (hd : SfsDirOk s.cur (s.vn p).ino) :
    (sfsDirLink p name ino).Returns s fun r t =>
      Call.Settled (fun _ => SfsQuiet L (s.vn p).ino s t)
        (fun slot => SfsLinked L (s.vn p).ino name ino slot s t) r := by
  have hslots : sfsSlots s.cur (s.vn p).ino * 64 ≤ 73216 := by
    have := hd.fits
    unfold sfsSlots
    omega
  unfold sfsDirLink
  rw [Call.returns_bind]
  refine returns_sfsDirFindname h hp hd fun r hr => ?_
  rw [Call.andthen_ok]
  cases hf : r.found with
  | some f => exact Call.returns_fail.mpr (SfsQuiet.refl h)
  | none =>
    dsimp only
    split_ifs with hlen
    · exact Call.returns_fail.mpr (SfsQuiet.refl h)
    have habsent := hr.absent hf
    cases he : r.emptyslot with
    | some slot =>
      obtain ⟨hlt, hz⟩ := hr.empty slot he
      refine (returns_sfsWritedir h hp (by omega)).bind ?_ fun e t ht => ht.1
      rintro - t ⟨hfit, ht⟩
      exact Call.returns_pure.mpr ⟨ht, by omega, habsent, by omega, fun _ => hz, hfit⟩
    | none =>
      dsimp only
      rw [Call.returns_bind, returns_sfsDirNentries h hp hd, Call.andthen_ok]
      refine (returns_sfsWritedir h hp hslots).bind ?_ fun e t ht => ht.1
      rintro - t ⟨hfit, ht⟩
      exact Call.returns_pure.mpr ⟨ht, by omega, habsent, le_refl _, fun hc => by omega, hfit⟩

theorem sfsBlockAt_of_dirIno (hj : sfsDirIno D d j ≠ 0) : sfsBlockAt D d (j * 64 / 512) ≠ 0 := by
  intro h0
  refine hj (Eq.trans (sfdIno_of_bytes fun k hk => ?_) sfdIno_zeros)
  unfold sfsEntry sfsByte
  rw [show (j * 64 + k) / 512 = j * 64 / 512 by omega, if_pos h0]
  rfl

theorem returns_sfsDirUnlink (h : SfsOk L s) (hp : p ∈ s.vnodes)
    (hd : SfsDirOk s.cur (s.vn p).ino) (hslot : slot < sfsSlots s.cur (s.vn p).ino)
    (hino : sfsDirIno s.cur (s.vn p).ino slot ≠ 0) :
    (sfsDirUnlink p slot).Returns s fun r t =>
      r = .ok () ∧ SfsEntered L (s.vn p).ino slot zeros s t := by
  have hslots : sfsSlots s.cur (s.vn p).ino * 64 ≤ 73216 := by
    have := hd.fits
    unfold sfsSlots
    omega
  have h0 := sfsBlockAt_of_dirIno hino
  have hmap : (sfsBmap p (slot * 64 / 512) true).Returns s fun r t => SfsQuiet L (s.vn p).ino s t ∧
      Call.Settled (fun _ => False) (SfsGotBlock (s.vn p).ino (slot * 64 / 512) t) r :=
    (returns_sfsBmap_found h hp (by omega) fun _ => h0).mpr ⟨.refl h, by omega, h0, rfl⟩
  refine (returns_sfsWritedir_of_bmap h hp (by omega) hmap).mono ?_
  rintro (e | ⟨⟩) t ht
  · exact ht.2.elim
  · exact ⟨rfl, ht.2⟩

end OsPaging.Fs
