import OsPaging.Fs.SfsGuarantees

/-!
# SFS files as byte arrays

`SfsContents` is a file as its users see it: a size, and the byte at each position. `SfsOp.advance`
is what a call means for the files: a write puts the bytes that the `uio` says were taken at their
positions and moves the end of the file up to the last of them, a truncation leaves nothing, and
what does not exist holds nothing. A `SfsTracked` run carries these files along; nothing of it is
read back from the file system but how much of a write the `uio` reported.

`sfs_contents_refine`: what the file system holds are these files, and a read returns their bytes.
On a volume of more than 8388608 blocks this fails (`sfs_contents_fail`).
-/

namespace OsPaging.Fs

open OsPaging.Lib Function

/-- The contents of a file. -/
@[ext] structure SfsContents where
  size : Nat
  bytes : Nat → UInt8

/-- An empty file. -/
def SfsContents.empty : SfsContents := ⟨0, fun _ => 0⟩

/-- Bytes are written at `offset`. -/
def SfsContents.write (f : SfsContents) (offset : Nat) (data : List UInt8) : SfsContents :=
  if data = [] then f
  else ⟨max f.size (offset + data.length), splice f.bytes offset data data.length⟩

/-- What a read of `len` bytes at `offset` gives. -/
def SfsContents.read (f : SfsContents) (offset len : Nat) : List UInt8 :=
  (List.range (min len (f.size - offset))).map fun k => f.bytes (offset + k)

/-- The contents of file `i` of an image. -/
def sfsContents (D : Nat → Bytes) (i : Nat) : SfsContents := ⟨sfiSize (D i), sfsByte D i⟩

open Classical in
/-- What a call means for the files; `s` and `t` are the states before and after it. -/
noncomputable def SfsOp.advance (op : SfsOp) (s t : Sfs) (files : Nat → SfsContents) :
    Nat → SfsContents := fun i =>
  if s.Live i then
    match op with
    | .write v offset data _ =>
      if i = (s.vn v).ino then (files i).write offset (data.take (data.length - t.uio.resid))
      else files i
    | .truncate v _ => if i = (s.vn v).ino then .empty else files i
    | _ => files i
  else .empty

/-- A system with the files that its calls mean. -/
abbrev SfsTracked := SfsSys × (Nat → SfsContents)

/-- A step of the system and what it means. -/
def SfsTracked.Step (a : SfsTracked) (e : SfsOp × Except Errno SfsAnswer) (b : SfsTracked) : Prop :=
  a.1.Step e b.1 ∧ b.2 = e.1.advance a.1.fs b.1.fs a.2

/-- A run from the mount of the volume `D` on, and the files that it means. -/
def SfsTrackedRun (D : Nat → Bytes) (es : SfsLabels) (t : SfsTracked) : Prop :=
  ∃ dBlocks kmallocs fs, sfsNblocks D ≤ dBlocks ∧ dBlocks < 4294967296 ∧
    sfsDomount 512 (.blank D dBlocks kmallocs) = some (.ok (), fs) ∧
    Run SfsTracked.Step (.ofMount fs, sfsContents D) es t

/-- Calls within the maximum file size, and truncations to length 0. -/
def SfsOp.InRange : SfsOp → Prop
  | .read _ offset len _ => offset + len ≤ 73216
  | .write _ offset data _ => offset + data.length ≤ 73216
  | .truncate _ len => len = 0
  | _ => True

variable {D : Nat → Bytes} {es : SfsLabels} {a b : SfsSys} {c N v offset len good i : Nat}
  {data : List UInt8} {op : SfsOp} {r : Except Errno SfsAnswer} {files : Nat → SfsContents}

/-- The files are what the file system holds. -/
def SfsHolds (s : Sfs) (files : Nat → SfsContents) : Prop :=
  ∀ i, s.Live i → i ≠ 1 → files i = sfsContents s.cur i

/-! ## The three calls on data -/

theorem splice_take {g : Nat → UInt8} {m : Nat} (hm : m ≤ data.length) :
    splice g offset (data.take m) (data.take m).length = splice g offset data m := by
  funext pos
  unfold splice
  grind

theorem SfsContents.write_take {f : SfsContents} {m : Nat} (hm : m ≤ data.length)
    (hin : offset + data.length ≤ 73216) :
    f.write offset (data.take m) =
      ⟨sfsGrown f.size offset m, splice f.bytes offset data m⟩ := by
  have hlen : (data.take m).length = m := by rw [List.length_take, Nat.min_eq_left hm]
  unfold SfsContents.write sfsGrown
  by_cases h0 : m = 0
  · rw [if_pos (by rw [h0]; rfl), if_neg (by omega), h0, splice_zero]
  · rw [if_neg (fun hnil => h0 (by rw [← hlen, hnil]; rfl)), splice_take hm, hlen]
    grind

theorem SfsSysOk.write_step (h : SfsSysOk N c a) (hs : a.Step (.write v offset data good, r) b)
    (hN : N ≤ 8388608) (h1 : (a.fs.vn v).ino ≠ 1) (hin : offset + data.length ≤ 73216) :
    ∃ m ≤ data.length, (∀ j, a.fs.Live j → j ≠ (a.fs.vn v).ino → SfsSame a.fs.cur b.fs.cur j) ∧
      b.fs.uio.resid = data.length - m ∧
      sfsContents b.fs.cur (a.fs.vn v).ino =
        (sfsContents a.fs.cur (a.fs.vn v).ino).write offset (data.take m) ∧
      Call.Settled (fun e => e = .enospc ∨ e = .efault ∧ good < data.length)
        (fun ans => ans = .done ∧ m = data.length) r := by
  have hv := h.held hs.1 v (by simp [SfsOp.vnodes])
  have hret := returns_write offset good data h.tree hv
    (by rw [h.nblocks]; exact hN) h1
  obtain ⟨m, hm, -, hothers, hresid, hsize, hbytes, hr⟩ :=
    ((returns_onFile_file h.tree hv h1).mpr hret).of_eq hs.call_eq
  refine ⟨m, hm, hothers, hresid, ?_, ?_⟩
  · rw [SfsContents.write_take hm hin]
    exact SfsContents.ext hsize (hbytes (by omega))
  · cases r with
    | ok ans => exact hr
    | error e =>
      obtain rfl | ⟨rfl, hg⟩ | ⟨rfl, hbig⟩ := hr
      · exact .inl rfl
      · exact .inr ⟨rfl, hg⟩
      · exact absurd hbig (not_lt.mpr hin)

theorem SfsSysOk.read_step (h : SfsSysOk N c a) (hs : a.Step (.read v offset len good, r) b)
    (hN : N ≤ 8388608) (h1 : (a.fs.vn v).ino ≠ 1) (hin : offset + len ≤ 73216)
    (hgood : len ≤ good) :
    r = .ok (.bytes ((sfsContents a.fs.cur (a.fs.vn v).ino).read offset len)) ∧
      b.fs.cur = a.fs.cur := by
  have hv := h.held hs.1 v (by simp [SfsOp.vnodes])
  have hret := returns_read offset len good h.tree hv
    (by rw [h.nblocks]; exact hN)
  obtain ⟨⟨u, hu⟩, hr⟩ := ((returns_onFile_file h.tree hv h1).mpr hret).of_eq hs.call_eq
  refine ⟨?_, by rw [hu]; rfl⟩
  cases r with
  | ok ans => exact congrArg Except.ok hr
  | error e =>
    obtain ⟨-, hg⟩ | ⟨-, hbig⟩ := hr
    · grind
    · grind

theorem SfsSysOk.truncate_step (h : SfsSysOk N c a) (hs : a.Step (.truncate v 0, r) b)
    (h1 : (a.fs.vn v).ino ≠ 1) :
    sfsContents b.fs.cur (a.fs.vn v).ino = .empty := by
  have hv := h.held hs.1 v (by simp [SfsOp.vnodes])
  have hret : (answerDone (sfsItrunc v 0)).Returns a.fs fun _ t =>
      sfsContents t.cur (a.fs.vn v).ino = .empty := by
    refine returns_answerDone.mpr ((returns_sfsItrunc h.tree.ok hv 0).mono ?_)
    rintro - t ⟨-, ht, hsize, -⟩
    exact SfsContents.ext hsize (funext fun pos => ht.byte_zero pos)
  exact ((returns_onFile_file h.tree hv h1).mpr hret).of_eq hs.call_eq

/-! ## All calls -/

theorem SfsOp.advance_of_not_live {s t : Sfs} (hi : ¬s.Live i) :
    op.advance s t files i = .empty := if_neg hi

theorem SfsOp.advance_of_not_writes {s t : Sfs} (hi : s.Live i)
    (hw : ¬op.Writes (fun v => (s.vn v).ino) i) : op.advance s t files i = files i := by
  unfold SfsOp.advance
  rw [if_pos hi]
  cases op with
  | write v offset data good => exact if_neg hw
  | truncate v len => exact if_neg hw
  | _ => rfl

/-- Every call in range keeps the files what the file system holds. -/
theorem SfsHolds.step (hh : SfsHolds a.fs files) (h : SfsSysOk N c a) (hs : a.Step (op, r) b)
    (hN : N ≤ 8388608) (hin : op.InRange) : SfsHolds b.fs (op.advance a.fs b.fs files) := by
  obtain ⟨⟨hdoes, -⟩, -⟩ := h.step hs fun _ => hN
  intro i hi h1
  by_cases hlive : a.fs.Live i
  · by_cases hw : op.Writes (fun v => (a.fs.vn v).ino) i
    · cases op with
      | write v offset data good =>
        obtain rfl : i = (a.fs.vn v).ino := hw
        obtain ⟨m, hm, -, hresid, hcont, -⟩ := h.write_step hs hN h1 hin
        have htaken : data.length - b.fs.uio.resid = m := by omega
        unfold SfsOp.advance
        simp only [if_pos hlive, if_true]
        rw [htaken, hh _ hlive h1, hcont]
      | truncate v len =>
        obtain rfl : len = 0 := hin
        obtain rfl : i = (a.fs.vn v).ino := hw
        unfold SfsOp.advance
        simp only [if_pos hlive, if_true]
        rw [h.truncate_step hs h1]
      | _ => exact hw.elim
    · obtain ⟨hsize, hbyte⟩ := hdoes.kept i h1 hw hlive hi
      rw [SfsOp.advance_of_not_writes hlive hw, hh i hlive h1]
      exact SfsContents.ext hsize.symm hbyte.symm
  · obtain ⟨hsize, hbyte⟩ := hdoes.new i hlive hi
    rw [SfsOp.advance_of_not_live hlive]
    exact SfsContents.ext hsize.symm (funext fun pos => (hbyte pos).symm)

theorem SfsConsistent.tracked {t : SfsTracked} (hD : SfsConsistent D) (hrun : SfsTrackedRun D es t)
    (hN : sfsNblocks D ≤ 8388608) (hin : ∀ e ∈ es, e.1.InRange) :
    SfsSysOk (sfsNblocks D) (sfiLinkcount (D 1)) t.1 ∧ SfsHolds t.1.fs t.2 := by
  obtain ⟨dBlocks, kmallocs, fs, hdev, hlt, hmount, hrun⟩ := hrun
  obtain ⟨hsys, rfl⟩ := hD.sys hdev hlt hmount
  refine hrun.history (R := fun es t => (∀ e ∈ es, e.1.InRange) →
    SfsSysOk (sfsNblocks D) (sfiLinkcount (D 1)) t.1 ∧ SfsHolds t.1.fs t.2)
    (fun _ => ⟨hsys, fun _ _ _ => rfl⟩) (fun es a e b ih hs hin => ?_) hin
  rw [List.forall_mem_append] at hin
  obtain ⟨hok, hh⟩ := ih hin.1
  refine ⟨(hok.step hs.1 fun _ => hN).2, ?_⟩
  rw [hs.2]
  exact hh.step hok hs.1 hN (hin.2 e (List.mem_singleton.mpr rfl))

/-- **File data refines a byte array per file.** On a volume of at most 8388608 blocks: at the end
of every run in range each regular file is what the run means. From there a read returns the bytes
of the file and leaves every file alone; a write changes no other file, all of it, and puts the
prefix that the `uio` reports into its file, which is all of the data unless it fails. -/
theorem sfs_contents_refine {t : SfsTracked} (hD : SfsConsistent D) (hrun : SfsTrackedRun D es t)
    (hN : sfsNblocks D ≤ 8388608) (hin : ∀ e ∈ es, e.1.InRange) :
    (∀ i, t.1.fs.Live i → i ≠ 1 →
      sfiSize (t.1.fs.cur i) = (t.2 i).size ∧ sfsByte t.1.fs.cur i = (t.2 i).bytes) ∧
    (∀ v offset len good r u, t.1.Step (.read v offset len good, r) u → (t.1.fs.vn v).ino ≠ 1 →
      offset + len ≤ 73216 → len ≤ good →
      r = .ok (.bytes ((t.2 (t.1.fs.vn v).ino).read offset len)) ∧ u.fs.cur = t.1.fs.cur) ∧
    ∀ v offset data good r u, t.1.Step (.write v offset data good, r) u →
      (t.1.fs.vn v).ino ≠ 1 → offset + data.length ≤ 73216 →
      (∀ j, t.1.fs.Live j → j ≠ (t.1.fs.vn v).ino → sfsFile u.fs.cur j = sfsFile t.1.fs.cur j ∧
        u.fs.cur j = t.1.fs.cur j) ∧
      u.fs.uio.resid ≤ data.length ∧
      sfsContents u.fs.cur (t.1.fs.vn v).ino = (t.2 (t.1.fs.vn v).ino).write offset
        (data.take (data.length - u.fs.uio.resid)) ∧
      (r = .ok .done ∧ u.fs.uio.resid = 0 ∨ r = .error .enospc ∨
        r = .error .efault ∧ good < data.length) := by
  obtain ⟨h, hh⟩ := hD.tracked hrun hN hin
  refine ⟨fun i hi h1 => ?_, fun v offset len good r u hs h1 hin hgood => ?_,
    fun v offset data good r u hs h1 hin => ?_⟩
  · rw [hh i hi h1]
    exact ⟨rfl, rfl⟩
  · have hv := h.held hs.1 v (by simp [SfsOp.vnodes])
    rw [hh _ (h.tree.ok.live_of_mem hv) h1]
    exact h.read_step hs hN h1 hin hgood
  · have hv := h.held hs.1 v (by simp [SfsOp.vnodes])
    obtain ⟨m, hm, hothers, hresid, hcont, hr⟩ := h.write_step hs hN h1 hin
    have htaken : data.length - u.fs.uio.resid = m := by omega
    rw [hh _ (h.tree.ok.live_of_mem hv) h1, htaken]
    refine ⟨fun j hj hne => ⟨(hothers j hj hne).file, (hothers j hj hne).inode⟩, by omega, hcont,
      ?_⟩
    cases r with
    | ok ans =>
      obtain ⟨rfl, rfl⟩ := hr
      exact .inl ⟨rfl, by omega⟩
    | error e =>
      obtain rfl | ⟨rfl, hg⟩ := hr
      · exact .inr (.inl rfl)
      · exact .inr (.inr ⟨rfl, hg⟩)

/-- Every run can be tracked. -/
theorem SfsRun.tracked {t : SfsSys} (h : SfsRun D es t) : ∃ files,
    SfsTrackedRun D es (t, files) := by
  obtain ⟨dBlocks, kmallocs, fs, hdev, hlt, hmount, hrun⟩ := h
  obtain ⟨files, htracked⟩ := hrun.history (R := fun es t =>
    ∃ files, Run SfsTracked.Step (.ofMount fs, sfsContents D) es (t, files)) ⟨_, .nil⟩ (by
      rintro es s e u ⟨files, htracked⟩ hs
      exact ⟨e.1.advance s.fs u.fs files, htracked.snoc ⟨hs, rfl⟩⟩)
  exact ⟨files, dBlocks, kmallocs, fs, hdev, hlt, hmount, htracked⟩

/-- A file is written past its end and read back from before the write. -/
theorem sfs_contents_refine_small : ∃ es t u,
    SfsTrackedRun (sfsEmpty 16 fun _ => zeros) es t ∧
    es.map Prod.fst = [.getroot, .creat 0 sfsNameA true, .write 1 600 [1, 2, 3] 3] ∧
    t.1.Step (.read 1 599 8 8, .ok (.bytes ((t.2 3).read 599 8))) u ∧
    (t.2 3).read 599 8 = [0, 1, 2, 3] := by
  have hD := sfsEmpty_sixteen
  have hn := sfsEmpty_sixteen_nblocks
  obtain ⟨es, t, hrun, hops, hh, hino, hread⟩ := SfsRun.exists_imp
    [.getroot, .creat 0 sfsNameA true, .write 1 600 [1, 2, 3] 3]
    (fun _ t => t.Holds (.read 1 599 8 8) ∧ (t.fs.vn 1).ino = 3 ∧
      (t.exec (.read 1 599 8 8)).any (fun x => x.1 = .ok (.bytes [0, 1, 2, 3])) = true) hD
    hn (by decide) (by decide +kernel) fun _ _ _ => id
  obtain ⟨⟨r, u⟩, hexec, hr⟩ := (Option.any_eq_true _ _).mp hread
  obtain ⟨files, htracked⟩ := hrun.tracked
  have hin : ∀ e ∈ es, e.1.InRange := by
    intro e he
    have hmem := List.mem_map_of_mem (f := Prod.fst) he
    rw [hops] at hmem
    simp only [List.mem_cons, List.not_mem_nil, or_false] at hmem
    obtain h | h | h := hmem
    · rw [h]
      trivial
    · rw [h]
      trivial
    · rw [h]
      change 600 + 3 ≤ 73216
      decide
  obtain ⟨-, hreads, -⟩ := sfs_contents_refine hD htracked (by rw [hn]; decide) hin
  obtain ⟨hbytes, -⟩ := hreads 1 599 8 8 r u ⟨hh, hexec⟩ (by rw [hino]; decide) (by decide) le_rfl
  dsimp only at hbytes
  rw [hino] at hbytes
  refine ⟨es, (t, files), u, htracked, hops, ⟨hh, ?_⟩, ?_⟩
  · rw [← hbytes]
    exact hexec
  · grind

/-- On the large volume a block written to file `a` goes elsewhere, and a read of its first byte
still gives the old one. -/
theorem sfs_contents_fail : SfsConsistent sfsLarge ∧ ∃ es t u, SfsTrackedRun sfsLarge es t ∧
    es.map Prod.fst = [.getroot, .lookup 0 sfsNameA, .write 1 0 (List.replicate 512 7) 512] ∧
    t.1.Step (.read 1 0 1 1, .ok (.bytes [0])) u ∧ (t.1.fs.vn 1).ino = 2052 ∧
    (t.2 2052).read 0 1 = [7] := by
  refine ⟨sfsLarge_consistent, ?_⟩
  obtain ⟨es, a, hrun, hops, hh, hino, hlinks, hwrite⟩ := SfsRun.exists_imp
    [.getroot, .lookup 0 sfsNameA]
    (fun _ a => a.Holds (.write 1 0 (List.replicate 512 7) 512) ∧ (a.fs.vn 1).ino = 2052 ∧
      0 < sfsLinks a.fs.cur 1 2052 ∧
      (a.exec (.write 1 0 (List.replicate 512 7) 512)).any (fun x => x.2.fs.uio.resid = 0 ∧
        (x.2.fs.vn 1).ino = 2052 ∧ x.2.Holds (.read 1 0 1 1) ∧
        (x.2.exec (.read 1 0 1 1)).any (fun y => y.1 = .ok (.bytes [0])) = true) = true)
    sfsLarge_consistent sfsLarge_nblocks (by decide) (by decide +kernel) fun _ _ _ => id
  obtain ⟨⟨r, t⟩, hexec, ht⟩ := (Option.any_eq_true _ _).mp hwrite
  obtain ⟨hresid, hino', hh', hread⟩ := of_decide_eq_true ht
  obtain ⟨⟨r', u⟩, hexec', hr⟩ := (Option.any_eq_true _ _).mp hread
  obtain rfl : r' = .ok (.bytes [0]) := of_decide_eq_true hr
  obtain ⟨files, dBlocks, kmallocs, fs, hdev, hlt, hmount, htracked⟩ := hrun.tracked
  have hstep : SfsTracked.Step (a, files) (.write 1 0 (List.replicate 512 7) 512, r)
      (t, (SfsOp.write 1 0 (List.replicate 512 7) 512).advance a.fs t.fs files) :=
        ⟨⟨hh, hexec⟩, rfl⟩
  refine ⟨_, _, u, ⟨dBlocks, kmallocs, fs, hdev, hlt, hmount, htracked.snoc hstep⟩, ?_,
    ⟨hh', hexec'⟩,
    hino', ?_⟩
  · rw [List.map_append, hops]
    rfl
  · -- the write covers the first byte, whatever the file was before
    have hlive : a.fs.Live 2052 := .inr (.inl ⟨by decide, hlinks⟩)
    have hresid : t.fs.uio.resid = 0 := hresid
    dsimp only
    unfold SfsOp.advance
    simp only [if_pos hlive, hino, if_true, hresid]
    rw [List.length_replicate, Nat.sub_zero, List.take_replicate, Nat.min_self]
    generalize files 2052 = f
    have hsize : min 1 (max f.size (0 + 512) - 0) = 1 := by omega
    rw [SfsContents.write, if_neg (by simp)]
    unfold SfsContents.read
    dsimp only
    rw [List.length_replicate, hsize]
    rfl

end OsPaging.Fs
