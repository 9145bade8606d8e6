import Mathlib.Data.List.Perm.Subperm
import OsPaging.Sfsck.Passes

/-!
# `sfsck` terminates

The recursions of pass 1 and pass 2 follow pointers from the disk, which can form any graph. What
bounds them is the table of inodes: pass 1 goes into a directory only after it has entered it in
the table, and the table holds no inode twice and only numbers of blocks of the volume; pass 2
goes into a directory only after it has marked it visited.

Almost all functions leave the table and the marks alone (`Core`). `Pass1 N n` and `Pass2 n` are the
invariants of the two passes with what is left of their bound, `n`; each lemma about a function says
that it keeps them and does not end with `diverges` (`Call.Keeps`).
-/

namespace OsPaging.Sfsck

open OsPaging.Lib OsPaging.Fs Function

variable {s : Fsck} {N n ino : Nat}

/-- The program does not run forever. -/
def Ends (e : Exit) : Prop := e ≠ .diverges

theorem ends_abort : Ends .abort := nofun

theorem ends_errx (status : Nat) (msg : String) : Ends (.errx status msg) := nofun

/-- What the passes' bounds depend on is unchanged. -/
structure Same (s t : Fsck) : Prop where
  inodes : t.inodes = s.inodes
  sorted : t.inodesSorted = s.inodesSorted
  processed1 : t.processed1 = s.processed1
  processed2 : t.processed2 = s.processed2
  totalblocks : t.totalblocks = s.totalblocks

theorem Same.rfl : Same s s := ⟨.refl _, .refl _, .refl _, .refl _, .refl _⟩

/-- A property of the state that depends on nothing else. -/
def Core (P : Fsck → Prop) : Prop := ∀ s t, Same s t → P s → P t

/-- What a function that leaves the table alone can do: a change of the disk is counted. -/
structure Quiet (s t : Fsck) : Prop extends Same s t where
  writes : s.writes ≤ t.writes
  disk : t.writes = s.writes → t.disk = s.disk

/-- A property that survives such functions. -/
def Settles (P : Fsck → Prop) : Prop := ∀ s t, Quiet s t → P s → P t

theorem Core.settles {P : Fsck → Prop} (h : Core P) : Settles P := fun s t hst => h s t hst.toSame

/-! ## Functions that leave the table alone -/

section Quiet

variable {P : Fsck → Prop} (hP : Settles P)
include hP

theorem Settles.modify {f : Fsck → Fsck}
    (h : ∀ s, Same s (f s) ∧ (f s).writes = s.writes ∧ (f s).disk = s.disk) :
    (Call.modify f : FsckCall Unit).Keeps P Ends :=
  .modify fun s => hP s _ ⟨(h s).1, (h s).2.1.ge, fun _ => (h s).2.2⟩

omit hP in
theorem keeps_check {p : Prop} [Decidable p] : (check p).Keeps P Ends :=
  .ite (fun _ => .pure trivial) fun _ => .fail ends_abort

theorem keeps_setbadness (code : Nat) : (setbadness code).Keeps P Ends :=
  hP.modify fun _ => ⟨⟨rfl, rfl, rfl, rfl, rfl⟩, rfl, rfl⟩

omit hP in
theorem keeps_diskread (block : Nat) : (diskread block).Keeps P Ends :=
  .bindRead fun _ _ =>
    .ite (fun _ => .fail (ends_errx _ _)) fun _ => .pure trivial

theorem keeps_diskwrite (block : Nat) (data : Bytes) : (diskwrite block data).Keeps P Ends :=
  .bindRead fun _ _ =>
    .ite (fun _ => .fail (ends_errx _ _)) fun _ => .modify fun s => hP s _
      ⟨⟨rfl, rfl, rfl, rfl, rfl⟩, Nat.le_succ _, fun h => absurd h (Nat.succ_ne_self _)⟩

theorem keeps_domalloc (len : Nat) : (domalloc len).Keeps P Ends := by
  refine .bindRead fun s _ => ?_
  refine .seq (hP.modify fun _ => ⟨⟨rfl, rfl, rfl, rfl, rfl⟩, rfl, rfl⟩) fun _ => ?_
  exact .ite (fun _ => .pure trivial) fun _ => .fail (ends_errx _ _)

theorem keeps_uniqueid : uniqueid.Keeps P Ends := by
  refine .bindRead fun s _ => ?_
  exact .ret (hP.modify fun _ => ⟨⟨rfl, rfl, rfl, rfl, rfl⟩, rfl, rfl⟩)

theorem keeps_freemapBlockinuse (block : Nat) (how : BlockUsage) :
    (freemapBlockinuse block how).Keeps P Ends := by
  refine .bindRead fun s _ => ?_
  refine .seq (.onlyIf fun _ => keeps_setbadness hP _) fun _ => ?_
  exact hP.modify fun _ => ⟨⟨rfl, rfl, rfl, rfl, rfl⟩, rfl, rfl⟩

theorem keeps_freemapBlockfree (block : Nat) : (freemapBlockfree block).Keeps P Ends := by
  refine hP.modify fun s => ?_
  split_ifs
  · exact ⟨.rfl, rfl, rfl⟩
  · exact ⟨⟨rfl, rfl, rfl, rfl, rfl⟩, rfl, rfl⟩

theorem keeps_markFrom (how : BlockUsage) (left i : Nat) : (markFrom how left i).Keeps P Ends := by
  induction left generalizing i with
  | zero => exact .pure trivial
  | succ left ih => exact .seq (keeps_freemapBlockinuse hP _ _) fun _ => ih (i + 1)

theorem keeps_freemapSetup : freemapSetup.Keeps P Ends := by
  refine .bindRead fun s _ => ?_
  refine .seq (keeps_domalloc hP _) fun _ => .seq (keeps_domalloc hP _) fun _ => ?_
  refine .seq (hP.modify fun _ => ⟨⟨rfl, rfl, rfl, rfl, rfl⟩, rfl, rfl⟩) fun _ => ?_
  refine .seq (keeps_markFrom hP _ _ _) fun _ => ?_
  exact .seq (keeps_freemapBlockinuse hP _ _) fun _ => keeps_markFrom hP _ _ _

omit hP in
theorem keeps_freemapCheckBytes (i left j : Nat) (actual : Bytes) (bchanged : Bool)
    (alloccount freecount : Nat) :
    (freemapCheckBytes i left j actual bchanged alloccount freecount).Keeps P Ends := by
  induction left generalizing j actual bchanged alloccount freecount with
  | zero => exact .pure trivial
  | succ left ih => exact .bindRead fun s _ => .seq keeps_check fun _ => ih _ _ _ _ _

theorem keeps_freemapCheckBlocks (left i alloccount freecount : Nat) :
    (freemapCheckBlocks left i alloccount freecount).Keeps P Ends := by
  induction left generalizing i alloccount freecount with
  | zero => exact .pure trivial
  | succ left ih =>
    refine .seq (keeps_diskread _) fun _ => .seq (keeps_freemapCheckBytes _ _ _ _ _ _ _) fun _ => ?_
    exact .seq (.onlyIf fun _ => keeps_diskwrite hP _ _) fun _ => ih _ _ _

theorem keeps_freemapCheck : freemapCheck.Keeps P Ends := by
  refine .bindRead fun s _ => .seq (keeps_freemapCheckBlocks hP _ _ _ _) fun _ => ?_
  exact .seq (.onlyIf fun _ => keeps_setbadness hP _) fun _ =>
    .onlyIf fun _ => keeps_setbadness hP _

omit hP in
theorem keeps_bmap (sfi : Bytes) (fileblock : Nat) : (bmap sfi fileblock).Keeps P Ends := by
  refine .ite (fun _ => .pure trivial) fun _ => .ite (fun _ => ?_) fun _ => .pure trivial
  exact .ite (fun _ => .pure trivial) fun _ => .ret (keeps_diskread _)

omit hP in
theorem keeps_sfsReaddir (sfi : Bytes) (nd : Nat) : (sfsReaddir sfi nd).Keeps P Ends := by
  suffices h : ∀ nblocks i left, (sfsReaddirFrom sfi nblocks i left).Keeps P Ends from h _ _ _
  intro nblocks
  induction nblocks with
  | zero => exact fun i left => .pure trivial
  | succ nblocks ih =>
    intro i left
    refine .seq (keeps_bmap _ _) fun _ => .seq ?_ fun _ => ?_
    · exact .ite (fun _ => keeps_diskread _) fun _ => .pure trivial
    · exact .ret (ih _ _)

theorem keeps_sfsWritedirblock (diskblock : Nat) (d : List Bytes) :
    (sfsWritedirblock diskblock d).Keeps P Ends :=
  .ite (fun _ => keeps_diskwrite hP _ _) fun _ =>
    .ite (fun _ => keeps_setbadness hP _) fun _ => .pure trivial

theorem keeps_sfsWritedir (sfi : Bytes) (d : List Bytes) (nd : Nat) :
    (sfsWritedir sfi d nd).Keeps P Ends := by
  suffices h : ∀ nblocks i d, (sfsWritedirFrom sfi nblocks i d).Keeps P Ends from h _ _ _
  intro nblocks
  induction nblocks with
  | zero => exact fun i d => .pure trivial
  | succ nblocks ih =>
    intro i d
    exact .seq (keeps_bmap _ _) fun _ => .seq (keeps_sfsWritedirblock hP _ _) fun _ => ih _ _

theorem keeps_checkPtr (ptr cur fileblocks : Nat) (usage : BlockUsage) :
    (checkPtr ptr cur fileblocks usage).Keeps P Ends := by
  refine .bindRead fun s _ => .ite (fun _ => ?_) fun _ => .ite (fun _ => ?_) fun _ => .pure trivial
  · exact .ret (keeps_setbadness hP _)
  refine .ite (fun _ => ?_) fun _ => ?_
  · exact .ret (keeps_freemapBlockinuse hP _ _)
  · refine .seq (keeps_setbadness hP _) fun _ => ?_
    exact .ret (keeps_freemapBlockfree hP _)

theorem keeps_checkEntries (fileblocks : Nat) (usage : BlockUsage) (left i : Nat) (entries : Bytes)
    (localchanged : Bool) :
    (checkEntries fileblocks usage left i entries localchanged).Keeps P Ends := by
  induction left generalizing i entries localchanged with
  | zero => exact .pure trivial
  | succ left ih => exact .seq (keeps_checkPtr hP _ _ _ _) fun _ => ih _ _ _

theorem keeps_checkIndirectBlock (ientry fileblocks : Nat) (usage : BlockUsage) :
    (checkIndirectBlock ientry fileblocks usage).Keeps P Ends := by
  refine .bindRead fun s _ => .ite (fun _ => ?_) fun _ => .ite (fun _ => ?_) fun _ => .pure trivial
  · refine .seq (keeps_diskread _) fun _ => .seq (keeps_freemapBlockinuse hP _ _) fun _ => ?_
    refine .seq (keeps_checkEntries hP _ _ _ _ _ _) fun _ => .ite (fun _ => ?_) fun _ => ?_
    · refine .seq (keeps_setbadness hP _) fun _ => ?_
      exact .ret (keeps_freemapBlockfree hP _)
    · exact .ret (.onlyIf fun _ => keeps_diskwrite hP _ _)
  · exact .ret (keeps_setbadness hP _)

theorem keeps_checkDirect (fileblocks : Nat) (usage : BlockUsage) (left i : Nat) (sfi : Bytes)
    (changed : Bool) : (checkDirect fileblocks usage left i sfi changed).Keeps P Ends := by
  induction left generalizing i sfi changed with
  | zero => exact .pure trivial
  | succ left ih => exact .seq (keeps_checkPtr hP _ _ _ _) fun _ => ih _ _ _

theorem keeps_checkInodeBlocks (sfi : Bytes) (isdir : Bool) :
    (checkInodeBlocks sfi isdir).Keeps P Ends :=
  .seq (keeps_checkDirect hP _ _ _ _ _ _) fun _ =>
    .ret (keeps_checkIndirectBlock hP _ _ _)

theorem keeps_pass1DirInode (ino : Nat) : (pass1DirInode ino).Keeps P Ends := by
  refine .seq (keeps_diskread _) fun _ => .ite (fun _ => ?_) fun _ => .pure trivial
  exact .ret (keeps_setbadness hP _)

theorem keeps_adjustFilelinksFrom (infs : List InodeInfo) :
    (adjustFilelinksFrom infs).Keeps P Ends := by
  induction infs with
  | nil => exact .pure trivial
  | cons inf infs ih =>
    refine .ite (fun _ => ih) fun _ => .seq keeps_check fun _ => .seq keeps_check fun _ => ?_
    refine .seq (keeps_diskread _) fun _ => .seq keeps_check fun _ => .ite (fun _ => ?_) fun _ => ih
    exact .seq (keeps_setbadness hP _) fun _ => .seq (keeps_diskwrite hP _ _) fun _ => ih

theorem keeps_pass2Duplicates (vector : List Nat) (d : List Bytes) :
    (pass2Duplicates vector d).Keeps P Ends := by
  fun_induction pass2Duplicates vector d with
  | case1 i j vector d d1 d2 ih1 ih2 ih3 =>
    refine .seq keeps_check fun _ => .ite (fun _ => ih1) fun _ => .ite (fun _ => ?_) fun _ => ?_
    · exact .seq (keeps_setbadness hP _) fun _ => .ret ih2
    · refine .seq (keeps_uniqueid hP) fun id => .seq (keeps_setbadness hP _) fun _ => ?_
      exact .ret (ih3 id)
  | case2 d vector h => exact .pure trivial

theorem keeps_pass2Dots (ino parentino : Nat) (d : List Bytes) (dotseen dotdotseen : Bool) :
    (pass2Dots ino parentino d dotseen dotdotseen).Keeps P Ends := by
  induction d generalizing dotseen dotdotseen with
  | nil => exact .pure trivial
  | cons sd d ih =>
    refine .ite (fun _ => ?_) fun _ => .ite (fun _ => ?_) fun _ => ?_
    · refine .seq (.onlyIf fun _ => keeps_setbadness hP _) fun _ => .seq keeps_check fun _ => ?_
      exact .ret (ih _ _)
    · refine .seq (.onlyIf fun _ => keeps_setbadness hP _) fun _ => .seq keeps_check fun _ => ?_
      exact .ret (ih _ _)
    · exact .ret (ih _ _)

theorem keeps_pass2Insert (name : List UInt8) (ino : Nat) (seen : Bool) (dir : Dir) :
    (pass2Insert name ino seen dir).Keeps P Ends := by
  refine .ite (fun _ => .pure trivial) fun _ => ?_
  split
  · exact .ret (keeps_setbadness hP _)
  · split
    · exact .ret (keeps_setbadness hP _)
    · exact .ret (keeps_setbadness hP _)

theorem keeps_pass2Finish (ino : Nat) (dir : Dir) (subdirs : Nat) :
    (pass2Finish ino dir subdirs).Keeps P Ends := by
  refine .ite (fun _ => .seq (keeps_setbadness hP _) fun _ => ?_) fun _ => ?_
  · exact .seq (.onlyIf fun _ => keeps_sfsWritedir hP _ _ _) fun _ => keeps_diskwrite hP _ _
  · exact .seq (.onlyIf fun _ => keeps_sfsWritedir hP _ _ _) fun _ =>
      .onlyIf fun _ => keeps_diskwrite hP _ _

end Quiet

/-! ## The inode numbers in the entries of a directory -/

theorem checknullstring_of_lt {buf : Bytes} {off maxlen j : Nat} (h : 0 < maxlen) (hj : j < off) :
    (checknullstring buf off maxlen).1 j = buf j := by
  unfold checknullstring
  split_ifs
  · rfl
  · exact update_of_ne (by omega) _ _

theorem checkbadstring_of_lt {buf : Bytes} {left k j : Nat} (hj : j < k) :
    (checkbadstring buf left k).1 j = buf j := by
  fun_induction checkbadstring buf left k with
  | case1 => rfl
  | case2 => rfl
  | case3 buf left k _ _ ih =>
    grind
  | case4 buf left k _ _ ih => exact ih (by omega)

theorem sfdIno_congr {sd sd' : Bytes} (h : ∀ j < 4, sd' j = sd j) : sfdIno sd' = sfdIno sd :=
  word_congr fun k hk => h k (by omega)

@[simp] theorem sfdIno_printName (sd : Bytes) (name : List UInt8) :
    sfdIno (printName sd name) = sfdIno sd := by
  refine sfdIno_congr fun j hj => ?_
  unfold printName
  rw [if_neg (by omega), if_neg (by omega)]

@[simp] theorem sfdIno_clearEntry (sd : Bytes) : sfdIno (clearEntry sd) = 0 := by
  have h : sfdIno (clearEntry sd) = sfdIno (setWord sd 0 0) :=
    sfdIno_congr fun j hj => update_of_ne (by omega) _ _
  rw [h]
  exact word_setWord_self

/-- An entry that `pass1_direntry` leaves is free or names a block of the volume. -/
theorem yields_pass1Direntry {P : Fsck → Prop} (hP : Settles P) (hN : ∀ s, P s → s.totalblocks = N)
    (sd : Bytes) :
    (pass1Direntry sd).Yields P Ends fun r => sfdIno r.1 = 0 ∨ sfdIno r.1 < N := by
  refine .bindRead fun s hs => .ite (fun h0 => .ite (fun _ => ?_) fun _ => .pure (.inl h0))
    fun h0 => .ite (fun _ => ?_) fun hlt => ?_
  · have h : sfdIno (update sd 4 0) = sfdIno sd :=
      sfdIno_congr fun j hj => update_of_ne (by omega) _ _
    exact .seq (keeps_setbadness hP _) fun _ => .pure (.inl (h.trans h0))
  · exact .seq (keeps_setbadness hP _) fun _ => .pure (.inl (sfdIno_clearEntry sd))
  have hlt : sfdIno sd < N := by
    have := hN s hs
    omega
  refine .ite (fun _ => ?_) fun _ => .ite (fun _ => ?_) fun _ => .pure (.inr hlt)
  · refine .seq (keeps_uniqueid hP) fun id => .seq (keeps_setbadness hP _) fun _ => ?_
    exact .pure (.inr (by simpa using hlt))
  · refine .seq (keeps_setbadness hP _) fun _ => .pure (.inr ?_)
    refine lt_of_eq_of_lt (sfdIno_congr fun j hj => ?_) hlt
    rw [checkbadstring_of_lt hj, checknullstring_of_lt (by decide) hj]

theorem yields_pass1Direntries {P : Fsck → Prop} (hP : Settles P)
    (hN : ∀ s, P s → s.totalblocks = N) (d : List Bytes) :
    (pass1Direntries d).Yields P Ends fun r => ∀ sd ∈ r.1, sfdIno sd = 0 ∨ sfdIno sd < N := by
  induction d with
  | nil => exact .pure (by simp)
  | cons sd d ih =>
    refine .bind (yields_pass1Direntry hP hN sd) fun r hr => .bind ih fun rest hrest => .pure ?_
    exact List.forall_mem_cons.mpr ⟨hr, hrest⟩

/-- The numbers that the table of inodes can hold: the blocks of the volume, and the root. -/
def inodeBound (N : Nat) : Nat := max N 2

/-- What pass 1 keeps; its recursion can go `n` levels deeper. -/
structure Pass1 (N n : Nat) (s : Fsck) : Prop where
  total : s.totalblocks = N
  nodup : (s.inodes.map (·.ino)).Nodup
  bound : ∀ inf ∈ s.inodes, inf.ino < inodeBound N
  left : inodeBound N < s.inodes.length + n
  once : s.processed1.Nodup
  entered : ∀ ino ∈ s.processed1, ino ∈ s.inodes.map (·.ino)
  later : s.processed2 = []

theorem Pass1.mono {m : Nat} (h : Pass1 N n s) (hnm : n ≤ m) : Pass1 N m s :=
  { h with left := h.left.trans_le (Nat.add_le_add_left hnm _) }

/-- The table does not get longer than there are blocks, so the recursion does not get to its end.
-/
theorem Pass1.pos (h : Pass1 N 0 s) : False := by
  have hsub : s.inodes.map (·.ino) ⊆ List.range (inodeBound N) := by
    intro ino hino
    obtain ⟨inf, hinf, rfl⟩ := List.mem_map.mp hino
    exact List.mem_range.mpr (h.bound inf hinf)
  have hlen := (List.Nodup.subperm h.nodup hsub).length_le
  have hleft := h.left
  grind

theorem core_pass1 (N n : Nat) : Core (Pass1 N n) := by
  rintro s t h ⟨h1, h2, h3, h4, h5, h6, h7⟩
  refine ⟨?_, ?_, ?_, ?_, ?_, ?_, ?_⟩
  · rw [h.totalblocks, h1]
  · rwa [h.inodes]
  · rwa [h.inodes]
  · rwa [h.inodes]
  · rwa [h.processed1]
  · rwa [h.processed1, h.inodes]
  · rw [h.processed2, h7]

/-- The state of pass 1 in a directory, between its entry in the table and its processing. -/
structure Entered (N n ino : Nat) (s : Fsck) : Prop where
  inv : Pass1 N n s
  mem : ino ∈ s.inodes.map (·.ino)
  fresh : ino ∉ s.processed1

theorem core_entered (N n ino : Nat) : Core (Entered N n ino) := by
  rintro s t h ⟨h1, h2, h3⟩
  exact ⟨core_pass1 N n s t h h1, by rwa [h.inodes], by rwa [h.processed1]⟩

/-- A directory is processed once. -/
theorem Entered.process (h : Entered N n ino s) :
    Pass1 N n { s with processed1 := ino :: s.processed1 } :=
  { h.inv with
    once := List.nodup_cons.mpr ⟨h.fresh, h.inv.once⟩
    entered := List.forall_mem_cons.mpr ⟨h.mem, h.inv.entered⟩ }

/-- The invariant with what `inode_add` says about the inode. -/
def Adding (N n ino : Nat) (seen : Bool) (s : Fsck) : Prop :=
  seen = true ∧ Pass1 N (n + 1) s ∨ seen = false ∧ Entered N n ino s

theorem Adding.inv {seen : Bool} (h : Adding N n ino seen s) : Pass1 N (n + 1) s := by
  obtain ⟨-, h⟩ | ⟨-, h⟩ := h
  · exact h
  · exact h.inv.mono (Nat.le_succ n)

/-- A new inode takes one of the numbers that are left. -/
theorem Pass1.add {type : Nat} (h : Pass1 N (n + 1) s) (hino : ino < inodeBound N)
    (hnew : ino ∉ s.inodes.map (·.ino)) :
    Entered N n ino
      { s with inodes := s.inodes ++ [⟨ino, 0, false, type⟩], inodesSorted := false } := by
  refine ⟨⟨h.total, ?_, ?_, ?_, h.once, ?_, h.later⟩, by simp, fun hmem =>
    hnew (h.entered ino hmem)⟩
  · simp only [List.map_append, List.map_cons, List.map_nil]
    refine List.nodup_append.mpr ⟨h.nodup, by simp, ?_⟩
    grind
  · intro inf hinf
    obtain hinf | hinf := List.mem_append.mp hinf
    · exact h.bound inf hinf
    · rw [List.mem_singleton.mp hinf]
      exact hino
  · have := h.left
    grind
  · intro i hi
    simp only [List.map_append]
    exact List.mem_append_left _ (h.entered i hi)

theorem returns_inodeAdd (type : Nat) (hino : ino < inodeBound N) (h : Pass1 N (n + 1) s) :
    (inodeAdd ino type).Returns s fun r t => match r with
      | .ok seen => Adding N n ino seen t
      | .error e => Pass1 N (n + 1) t ∧ Ends e := by
  unfold inodeAdd
  rw [Call.returns_bindRead]
  dsimp only [id_eq]
  cases hf : s.inodes.find? (·.ino = ino) with
  | some inf =>
    have hk : (do check (inf.linkcount = 0); check (inf.type = type); pure true :
        FsckCall Bool).Yields (Pass1 N (n + 1)) Ends (· = true) :=
      .seq keeps_check fun _ => .seq keeps_check fun _ => .pure rfl
    refine (hk s h).mono ?_
    rintro (e | seen) t ⟨ht, hr⟩
    · exact ⟨ht, hr⟩
    · exact .inl ⟨hr, ht⟩
  | none =>
    have hnew : ino ∉ s.inodes.map (·.ino) := by
      grind
    -- the table may grow first, which changes nothing
    have hP : Core fun t => Pass1 N (n + 1) t ∧ ino ∉ t.inodes.map (·.ino) := by
      rintro u t hut ⟨hu, hu'⟩
      exact ⟨core_pass1 _ _ u t hut hu, by rwa [hut.inodes]⟩
    refine ((Call.Yields.onlyIf fun _ => keeps_domalloc hP.settles _) s ⟨h, hnew⟩).bind ?_ ?_
    · rintro - t ⟨⟨ht, ht'⟩, -⟩
      rw [Call.returns_bindModify, Call.returns_pure]
      exact .inr ⟨rfl, ht.add hino ht'⟩
    · rintro e t ⟨⟨ht, -⟩, he⟩
      exact ⟨ht, he⟩

theorem returns_pass1Inode (hino : ino < inodeBound N) (sfi : Bytes) (alreadychanged : Bool)
    (h : Pass1 N (n + 1) s) :
    (pass1Inode ino sfi alreadychanged).Returns s fun r t => match r with
      | .ok r => Adding N n ino r.1 t
      | .error e => Pass1 N (n + 1) t ∧ Ends e := by
  refine (returns_inodeAdd _ hino h).bind ?_ fun e t he => he
  rintro seen t (⟨rfl, ht⟩ | ⟨rfl, ht⟩)
  · have hk : (do check (alreadychanged = false); pure (true, sfi) :
        FsckCall (Bool × Bytes)).Yields (Pass1 N (n + 1)) Ends (·.1 = true) :=
      .seq keeps_check fun _ => .pure rfl
    refine (hk t ht).mono ?_
    rintro (e | r) u ⟨hu, hr⟩
    · exact ⟨hu, hr⟩
    · exact .inl ⟨hr, hu⟩
  · have hP := (core_entered N n ino).settles
    simp only [Bool.false_eq_true, if_false]
    refine Call.Returns.mono (P := fun r u => Entered N n ino u ∧ Call.Settled Ends (·.1 = false) r)
      ?_ ?_
    · refine Call.Yields.seq (keeps_freemapBlockinuse hP _ _) (fun _ => ?_) t ht
      refine .seq (.onlyIf fun _ => keeps_setbadness hP _) fun _ => ?_
      refine .seq (keeps_checkInodeBlocks hP _ _) fun _ => ?_
      exact .seq (.onlyIf fun _ => keeps_diskwrite hP _ _) fun _ => .pure rfl
    · rintro (e | r) u ⟨hu, hr⟩
      · exact ⟨hu.inv.mono (Nat.le_succ n), hr⟩
      · exact .inr ⟨hr, hu⟩

theorem keeps_pass1Inode (hino : ino < inodeBound N) (sfi : Bytes) (alreadychanged : Bool) :
    (pass1Inode ino sfi alreadychanged).Keeps (Pass1 N n) Ends := by
  intro s hs
  cases n with
  | zero => exact hs.pos.elim
  | succ n =>
    refine (returns_pass1Inode hino sfi alreadychanged hs).mono ?_
    rintro (e | r) t ht
    · exact ht
    · exact ⟨ht.inv, trivial⟩

theorem keeps_pass1Children {P : Fsck → Prop} (hP : Settles P) {E : Exit → Prop}
    (hE : ∀ e, Ends e → E e) {recurse : Nat → FsckCall Unit} {d : List Bytes}
    (hd : ∀ sd ∈ d, (recurse (sfdIno sd)).Keeps P E ∧
      ∀ sfi, (pass1Inode (sfdIno sd) sfi false).Keeps P E) :
    (pass1Children recurse d).Keeps P E := by
  induction d with
  | nil => exact .pure trivial
  | cons sd d ih =>
    obtain ⟨⟨hrec, hinode⟩, hd⟩ := List.forall_mem_cons.mp hd
    have ih := ih hd
    refine .ite (fun _ => .ret ih) fun _ => ?_
    refine .seq ((keeps_diskread _).errors hE) fun subsfi => .ite (fun _ => ?_) fun _ =>
      .ite (fun _ => ?_) fun _ => ?_
    · refine .seq (hinode _) fun _ => ?_
      refine .seq (.onlyIf fun _ => .modify fun s => hP s _ ?_) fun _ => .ret ih
      exact ⟨⟨rfl, rfl, rfl, rfl, rfl⟩, Nat.le_refl _, fun _ => rfl⟩
    · exact .seq hrec fun _ => .ret ih
    · exact .seq ((keeps_setbadness hP _).errors hE) fun _ => .ret ih

/-- A new directory: its entries are gone through one level down. -/
theorem returns_pass1DirEntries {recurse : Nat → FsckCall Unit}
    (hrec : ∀ ino < inodeBound N, (recurse ino).Keeps (Pass1 N n) Ends) (sfi : Bytes)
    (h : Entered N n ino s) :
    (pass1DirEntries recurse ino sfi).Returns s fun r t =>
      Pass1 N n t ∧ Call.Settled Ends (fun _ => True) r := by
  have hP := (core_entered N n ino).settles
  have hP' := (core_pass1 N n).settles
  refine (keeps_domalloc hP _ s h).bind ?_ fun e t ht => ⟨ht.1.inv, ht.2⟩
  rintro - t ⟨ht, -⟩
  refine (keeps_sfsReaddir _ _ t ht).bind ?_ fun e t ht => ⟨ht.1.inv, ht.2⟩
  rintro d u ⟨hu, -⟩
  rw [Call.returns_bindModify]
  refine Call.Yields.bind (yields_pass1Direntries hP' (fun _ hs => hs.total) d) (fun r hr => ?_) _
    hu.process
  have hd : ∀ sd ∈ r.1, sfdIno sd < inodeBound N := by
    intro sd hsd
    have := hr sd hsd
    unfold inodeBound
    omega
  refine .seq (keeps_pass1Children hP' (fun _ he => he) fun sd hsd => ?_) fun _ => .onlyIf fun _ =>
    keeps_sfsWritedir hP' _ _ _
  exact ⟨hrec _ (hd sd hsd), fun _ => keeps_pass1Inode (hd sd hsd) _ _⟩

/-- `pass1_dir` comes to an end: each level of the recursion has entered a directory in the table.
-/
theorem keeps_pass1Dir (hino : ino < inodeBound N) : (pass1Dir n ino).Keeps (Pass1 N n) Ends := by
  induction n generalizing ino with
  | zero => exact fun s hs => hs.pos.elim
  | succ n ih =>
    have hP := (core_pass1 N (n + 1)).settles
    refine .seq (keeps_pass1DirInode hP _) fun r => ?_
    refine .seq (hP.modify fun _ => ⟨⟨rfl, rfl, rfl, rfl, rfl⟩, rfl, rfl⟩) fun _ => ?_
    intro s hs
    refine (returns_pass1Inode hino _ _ hs).bind ?_ fun e t ht => ht
    rintro ⟨seen, sfi⟩ t (⟨rfl, ht⟩ | ⟨rfl, ht⟩)
    · exact Call.returns_pure.mpr ⟨ht, trivial⟩
    · refine (returns_pass1DirEntries (fun ino hino => ih hino) sfi ht).mono ?_
      exact fun r u hu => ⟨hu.1.mono (Nat.le_succ n), hu.2⟩

/-! ## Pass 2 -/

/-- The directory is marked visited in the table. -/
def Marked (s : Fsck) (ino : Nat) : Prop :=
  ∃ (k : Nat) (inf : InodeInfo), s.inodes[k]? = some inf ∧ inf.ino = ino ∧ inf.visited = true

/-- What pass 2 keeps; its recursion can go `n` levels deeper. -/
structure Pass2 (n : Nat) (s : Fsck) : Prop where
  nodup : (s.inodes.map (·.ino)).Nodup
  left : s.inodes.length < s.processed2.length + n
  once : s.processed2.Nodup
  marked : ∀ ino ∈ s.processed2, Marked s ino
  before : s.processed1.Nodup

theorem Pass2.mono {m : Nat} (h : Pass2 n s) (hnm : n ≤ m) : Pass2 m s :=
  { h with left := h.left.trans_le (Nat.add_le_add_left hnm _) }

theorem Pass2.pos (h : Pass2 0 s) : False := by
  have hsub : s.processed2 ⊆ s.inodes.map (·.ino) := by
    intro ino hino
    obtain ⟨k, inf, hk, rfl, -⟩ := h.marked ino hino
    exact List.mem_map_of_mem (List.mem_of_getElem? hk)
  have hlen := (List.Nodup.subperm h.once hsub).length_le
  have hleft := h.left
  rw [List.length_map] at hlen
  omega

theorem Same.marked {t : Fsck} (h : Same s t) (hm : Marked s ino) : Marked t ino := by
  unfold Marked
  rwa [h.inodes]

theorem core_pass2 (n : Nat) : Core (Pass2 n) := by
  rintro s t h ⟨h1, h2, h3, h4, h5⟩
  refine ⟨?_, ?_, ?_, ?_, ?_⟩
  · rwa [h.inodes]
  · rwa [h.inodes, h.processed2]
  · rwa [h.processed2]
  · rw [h.processed2]
    exact fun ino hino => h.marked (h4 ino hino)
  · rwa [h.processed1]

/-- The state of pass 2 in a directory, between its mark in the table and its processing. -/
structure Visiting (n ino : Nat) (s : Fsck) : Prop where
  inv : Pass2 (n + 1) s
  marked : Marked s ino
  fresh : ino ∉ s.processed2

theorem core_visiting (n ino : Nat) : Core (Visiting n ino) := by
  rintro s t h ⟨h1, h2, h3⟩
  exact ⟨core_pass2 _ s t h h1, h.marked h2, by rwa [h.processed2]⟩

theorem Visiting.process (h : Visiting n ino s) :
    Pass2 n { s with processed2 := ino :: s.processed2 } where
  nodup := h.inv.nodup
  left := by
    have := h.inv.left
    simp only [List.length_cons]
    omega
  once := List.nodup_cons.mpr ⟨h.fresh, h.inv.once⟩
  marked := List.forall_mem_cons.mpr ⟨h.marked, h.inv.marked⟩
  before := h.inv.before

/-- The binary search comes to an end, at a place where the inode is. -/
theorem inodeFindLoop_ends (inodes : List InodeInfo) (ino n min max : Nat)
    (h : max - min < n) :
    Call.Settled Ends (fun i => ∃ inf, inodes[i]? = some inf ∧ inf.ino = ino)
      (inodeFindLoop inodes ino n min max) := by
  induction n generalizing min max with
  | zero => omega
  | succ n ih =>
    unfold inodeFindLoop
    split_ifs with hlt heq
    · exact ends_abort
    · exact ends_errx _ _
    dsimp only
    split
    · exact ends_abort
    · rename_i inf hi
      split_ifs with h1 h2
      · exact ih _ _ (by omega)
      · exact ih _ _ (by omega)
      · exact ⟨inf, hi, by omega⟩

theorem returns_inodeFind (ino : Nat) (s : Fsck) :
    (inodeFind ino).Returns s fun r t => t = s ∧
      Call.Settled Ends (fun i => ∃ inf, s.inodes[i]? = some inf ∧ inf.ino = ino) r := by
  have hloop := inodeFindLoop_ends s.inodes ino (s.inodes.length + 1) 0 s.inodes.length
    (by omega)
  unfold inodeFind
  rw [Call.returns_bindRead]
  refine Call.Yields.seq (P := (· = s)) keeps_check (fun _ => ?_) s rfl
  refine .seq keeps_check fun _ => ?_
  dsimp only [id_eq]
  cases hr : inodeFindLoop s.inodes ino (s.inodes.length + 1) 0 s.inodes.length with
  | error e =>
    rw [hr] at hloop
    exact .fail hloop
  | ok i =>
    rw [hr] at hloop
    exact .pure hloop

/-- A change of an entry that keeps its number, and its mark if it has one. -/
theorem Pass2.setInfo {i : Nat} (h : Pass2 n s) {f : InodeInfo → InodeInfo}
    (hino : ∀ inf, (f inf).ino = inf.ino)
    (hvis : ∀ inf, inf.visited = true → (f inf).visited = true) :
    Pass2 n (s.setInfo i f) where
  nodup := by
    have heq : (s.inodes.modify i f).map (·.ino) = s.inodes.map (·.ino) := by
      refine List.ext_getElem? fun k => ?_
      grind
    exact heq ▸ h.nodup
  left := by
    unfold Fsck.setInfo
    rw [List.length_modify]
    exact h.left
  once := h.once
  marked := by
    intro ino hmem
    obtain ⟨k, inf, hk, rfl, hv⟩ := h.marked ino hmem
    refine ⟨k, if i = k then f inf else inf, ?_, ?_, ?_⟩
    · unfold Fsck.setInfo
      rw [List.getElem?_modify, hk]
      rfl
    · split_ifs
      · exact hino inf
      · rfl
    · grind
  before := h.before

theorem Pass2.unique {i k : Nat} (h : Pass2 n s) {a b : InodeInfo} (hi : s.inodes[i]? = some a)
    (hk : s.inodes[k]? = some b) (hab : a.ino = b.ino) : a = b := by
  have hi' : (s.inodes.map (·.ino))[i]? = some a.ino := by simp [hi]
  have hk' : (s.inodes.map (·.ino))[k]? = some a.ino := by simp [hk, hab]
  obtain ⟨hlt, -⟩ := List.getElem?_eq_some_iff.mp hi'
  have hik : i = k := (List.getElem?_inj hlt h.nodup).mp (hi'.trans hk'.symm)
  exact Option.some.inj (hi.symm.trans (hik ▸ hk))

theorem keeps_inodeAddlink (n ino : Nat) : (inodeAddlink ino).Keeps (Pass2 n) Ends := by
  intro s hs
  refine (returns_inodeFind ino s).bind ?_ ?_
  · rintro i t ⟨rfl, -⟩
    refine Call.Yields.bindRead (fun _ _ => .seq keeps_check fun _ => .seq keeps_check fun _ => ?_)
      t hs
    exact .modify fun s hs => hs.setInfo (fun _ => rfl) fun _ hv => hv
  · rintro e t ⟨rfl, he⟩
    exact ⟨hs, he⟩

/-- A directory that was not visited before is now marked, and was not processed. -/
theorem returns_inodeVisitdir (ino : Nat) (hs : Pass2 (n + 1) s) :
    (inodeVisitdir ino).Returns s fun r t =>
      Pass2 (n + 1) t ∧ Call.Settled Ends (fun visited => visited = false → Visiting n ino t)
        r := by
  refine (returns_inodeFind ino s).bind ?_ ?_
  · rintro i t ⟨rfl, inf, hi, rfl⟩
    rw [Call.returns_bindRead]
    have hget : t.inodes.getD i ⟨0, 0, false, 0⟩ = inf := by simp [List.getD, hi]
    dsimp only [id_eq]
    rw [hget]
    refine (keeps_check t (P := (· = t)) rfl).bind ?_ ?_
    · rintro - u ⟨rfl, -⟩
      refine (keeps_check u (P := (· = u)) rfl).bind ?_ ?_
      · rintro - t ⟨rfl, -⟩
        split_ifs with hv
        · exact Call.returns_pure.mpr ⟨hs, nofun⟩
        · rw [Call.returns_bindModify, Call.returns_pure]
          have ht := hs.setInfo (i := i) (f := fun inf => { inf with visited := true })
            (fun _ => rfl) fun _ _ => rfl
          refine ⟨ht, fun _ => ⟨ht, ⟨i, { inf with visited := true }, ?_, rfl, rfl⟩, ?_⟩⟩
          · unfold Fsck.setInfo
            rw [List.getElem?_modify, hi]
            simp
          · -- one that was processed is marked, and this one was not
            intro hmem
            obtain ⟨k, inf', hk, heq, hv'⟩ := hs.marked _ hmem
            exact hv (hs.unique hk hi heq ▸ hv')
      · rintro e u ⟨rfl, he⟩
        exact ⟨hs, he⟩
    · rintro e u ⟨rfl, he⟩
      exact ⟨hs, he⟩
  · rintro e t ⟨rfl, he⟩
    exact ⟨hs, he⟩

/-- The first part of `pass2_dir` takes a level of the recursion. -/
theorem returns_pass2Load (parentino : Nat) (h : Visiting n ino s) :
    (pass2Load ino parentino).Returns s fun r t =>
      Pass2 (n + 1) t ∧ Call.Settled Ends (fun _ => Pass2 n t) r := by
  have hP := (core_visiting n ino).settles
  have hP' := (core_pass2 n).settles
  have herr : ∀ (e : Exit) (t : Fsck), Visiting n ino t ∧ Ends e →
      Pass2 (n + 1) t ∧ Ends e := fun e t h => ⟨h.1.inv, h.2⟩
  refine (keeps_diskread ino s h).bind ?_ herr
  rintro sfi t ⟨ht, -⟩
  refine (keeps_domalloc hP _ t ht).bind ?_ herr
  rintro - t ⟨ht, -⟩
  refine (keeps_domalloc hP _ t ht).bind ?_ herr
  rintro - t ⟨ht, -⟩
  refine (keeps_sfsReaddir _ _ t ht).bind ?_ herr
  rintro d t ⟨ht, -⟩
  rw [Call.returns_bindModify]
  refine Call.Returns.mono (P := fun r t => Pass2 n t ∧ Call.Settled Ends (fun _ => True) r) ?_ ?_
  · refine Call.Yields.bindRead (fun _ _ => ?_) _ ht.process
    refine .seq (keeps_pass2Duplicates hP' _ _) fun _ => ?_
    refine .seq (keeps_pass2Dots hP' _ _ _ _ _) fun _ => ?_
    exact .seq (keeps_pass2Insert hP' _ _ _ _) fun _ => keeps_pass2Insert hP' _ _ _ _
  · rintro (e | r) u ⟨hu, hr⟩
    · exact ⟨hu.mono (Nat.le_succ n), hr⟩
    · exact ⟨hu.mono (Nat.le_succ n), hu⟩

theorem keeps_pass2Children {P : Fsck → Prop} (hP : Settles P) {E : Exit → Prop}
    (hE : ∀ e, Ends e → E e) (hlink : ∀ ino, (inodeAddlink ino).Keeps P E)
    {recurse : Nat → FsckCall Bool} (hrec : ∀ ino, (recurse ino).Keeps P E) (d : List Bytes) :
    (pass2Children recurse d).Keeps P E := by
  have hbad := (keeps_setbadness hP exitRecov).errors hE
  induction d with
  | nil => exact .pure trivial
  | cons sd d ih =>
    refine .ite (fun _ => .ret ih) fun _ => ?_
    refine .seq ((keeps_diskread _).errors hE) fun subsfi => .ite (fun _ => ?_) fun _ =>
      .ite (fun _ => ?_) fun _ => ?_
    · exact .seq (hlink _) fun _ => .ret ih
    · refine .seq (hrec _) fun _ => .ite (fun _ => ?_) fun _ => ?_
      · exact .seq hbad fun _ => .ret ih
      · exact .ret ih
    · exact .seq hbad fun _ => .ret ih

/-- `pass2_dir` comes to an end: each level of the recursion has marked a directory. -/
theorem keeps_pass2Dir (n ino parentino : Nat) :
    (pass2Dir n ino parentino).Keeps (Pass2 n) Ends := by
  induction n generalizing ino parentino with
  | zero => exact fun s hs => hs.pos.elim
  | succ n ih =>
    intro s hs
    refine (returns_inodeVisitdir ino hs).bind ?_ fun e t ht => ht
    rintro visited t ⟨ht, hvisit⟩
    cases visited with
    | true => exact Call.returns_pure.mpr ⟨ht, trivial⟩
    | false =>
      refine (returns_pass2Load parentino (hvisit rfl)).bind ?_ fun e u hu => hu
      rintro dir u ⟨-, hu⟩
      refine Call.Returns.mono (P := fun r v => Pass2 n v ∧ Call.Settled Ends (fun _ => True) r)
        ?_ ?_
      · have hP := (core_pass2 n).settles
        refine Call.Yields.seq (keeps_pass2Children hP (fun _ he => he) (keeps_inodeAddlink n)
          (fun sub => ih sub ino) _) (fun _ => ?_) u hu
        exact .ret (keeps_pass2Finish hP _ _ _)
      · exact fun r v hv => ⟨hv.1.mono (Nat.le_succ n), hv.2⟩

/-! ## The whole program -/

/-- Nothing is in the table yet. -/
structure Blank (s : Fsck) : Prop where
  inodes : s.inodes = []
  processed1 : s.processed1 = []
  processed2 : s.processed2 = []

theorem core_blank : Core Blank := by
  rintro s t h ⟨h1, h2, h3⟩
  exact ⟨h.inodes.trans h1, h.processed1.trans h2, h.processed2.trans h3⟩

theorem Blank.withSb (h : Blank s) (sb : Bytes) : Blank { s with sb := sb } :=
  { h with }

theorem keeps_sbLoad {P : Fsck → Prop} (hsb : ∀ s, P s → ∀ sb, P { s with sb := sb }) :
    sbLoad.Keeps P Ends := by
  refine .seq (keeps_diskread 0) fun sb => .seq (.modify fun s hs => hsb s hs sb) fun _ => ?_
  exact .ite (fun _ => .fail (ends_errx _ _)) fun _ => .seq keeps_check fun _ => keeps_check

theorem keeps_sbCheck {P : Fsck → Prop} (hP : Settles P)
    (hsb : ∀ s, P s → ∀ sb, P { s with sb := sb }) : sbCheck.Keeps P Ends := by
  refine .bindRead fun s _ => .seq (.modify fun s hs => hsb s hs _) fun _ => ?_
  refine .ite (fun _ => .seq (keeps_setbadness hP _) fun _ => ?_) fun _ => .pure trivial
  exact keeps_diskwrite hP _ _

theorem Blank.pass1 (h : Blank s) : Pass1 s.totalblocks (s.totalblocks + 3) s where
  total := rfl
  nodup := by simp [h.inodes]
  bound := by simp [h.inodes]
  left := by
    unfold inodeBound
    omega
  once := by simp [h.processed1]
  entered := by simp [h.processed1]
  later := h.processed2

/-- What holds between the passes. -/
structure Between (s : Fsck) : Prop where
  nodup : (s.inodes.map (·.ino)).Nodup
  once : s.processed1.Nodup
  later : s.processed2 = []

theorem core_between : Core Between := by
  rintro s t h ⟨h1, h2, h3⟩
  exact ⟨by rwa [h.inodes], by rwa [h.processed1], h.processed2.trans h3⟩

/-- Pass 2 can go as deep as the table is long. -/
theorem Between.pass2 (h : Between s) : Pass2 (s.inodes.length + 1) s where
  nodup := h.nodup
  left := by omega
  once := by simp [h.later]
  marked := by simp [h.later]
  before := h.once

/-- What holds at the end. -/
def Once (s : Fsck) : Prop := s.processed1.Nodup ∧ s.processed2.Nodup

theorem core_once : Core Once := by
  rintro s t h ⟨h1, h2⟩
  exact ⟨by rwa [h.processed1], by rwa [h.processed2]⟩

theorem Blank.once (h : Blank s) : Once s := by
  unfold Once
  rw [h.processed1, h.processed2]
  exact ⟨.nil, .nil⟩

theorem Between.done (h : Between s) : Once s := ⟨h.once, by simp [h.later]⟩

theorem returns_pass1 (h : Blank s) :
    pass1.Returns s fun r t => Once t ∧ Call.Settled Ends (fun _ => Between t) r := by
  have hP := core_blank.settles
  have herr : ∀ (e : Exit) (t : Fsck), Blank t ∧ Ends e → Once t ∧ Ends e :=
    fun e t h => ⟨h.1.once, h.2⟩
  refine (keeps_diskread 1 s h).bind ?_ herr
  rintro sfi t ⟨ht, -⟩
  refine Call.Returns.bind ((Call.Yields.onlyIf fun _ => .seq (keeps_setbadness hP _) fun _ =>
    keeps_diskwrite hP _ _) t ht) ?_ herr
  rintro - u ⟨hu, -⟩
  rw [Call.returns_bindRead]
  have hroot : 1 < inodeBound u.totalblocks := by
    unfold inodeBound
    omega
  refine (keeps_pass1Dir hroot u hu.pass1).mono ?_
  rintro (e | _) v ⟨hv, he⟩
  · exact ⟨⟨hv.once, by simp [hv.later]⟩, he⟩
  · exact ⟨⟨hv.once, by simp [hv.later]⟩, hv.nodup, hv.once, hv.later⟩

theorem keeps_inodeSorttable : inodeSorttable.Keeps Between Ends := by
  refine .modify fun s hs => ⟨?_, hs.once, hs.later⟩
  exact ((List.mergeSort_perm s.inodes _).map _).nodup_iff.mpr hs.nodup

theorem returns_pass2 (h : Between s) :
    pass2.Returns s fun r t => Once t ∧ Call.Settled Ends (fun _ => True) r := by
  unfold pass2
  rw [Call.returns_bindRead]
  refine (keeps_pass2Dir _ 1 1 s h.pass2).bind ?_ ?_
  · rintro _ t ⟨ht, -⟩
    exact Call.returns_pure.mpr ⟨⟨ht.before, ht.once⟩, trivial⟩
  · rintro e t ⟨ht, he⟩
    exact ⟨⟨ht.before, ht.once⟩, he⟩

theorem returns_fsckMain (h : Blank s) :
    fsckMain.Returns s fun r t => Once t ∧ Call.Settled Ends (fun _ => True) r := by
  have hblank : ∀ (e : Exit) (t : Fsck), Blank t ∧ Ends e → Once t ∧ Ends e :=
    fun e t h => ⟨h.1.once, h.2⟩
  have hbetween : ∀ (e : Exit) (t : Fsck), Between t ∧ Ends e → Once t ∧ Ends e :=
    fun e t h => ⟨h.1.done, h.2⟩
  refine (keeps_sbLoad (fun _ hs => hs.withSb) s h).bind ?_ hblank
  rintro - t ⟨h, -⟩
  refine (keeps_sbCheck core_blank.settles (fun _ hs => hs.withSb) t h).bind ?_ hblank
  rintro - t ⟨h, -⟩
  refine (keeps_freemapSetup core_blank.settles t h).bind ?_ hblank
  rintro - t ⟨h, -⟩
  refine (returns_pass1 h).bind ?_ fun e t h => h
  rintro _ t ⟨-, h⟩
  refine (keeps_freemapCheck core_between.settles t h).bind ?_ hbetween
  rintro - t ⟨h, -⟩
  refine (keeps_inodeSorttable t h).bind ?_ hbetween
  rintro - t ⟨h, -⟩
  refine (returns_pass2 h).bind ?_ fun e t h => h
  rintro - t ⟨h, -⟩
  exact Call.Yields.bindRead (fun s _ => keeps_adjustFilelinksFrom core_once.settles s.inodes) t h

/-- On every image, whatever its directories look like, `sfsck` comes to an end, and neither pass
has gone through the entries of a directory twice. -/
theorem sfsck_terminates (env : Env) (disk : Nat → Bytes) :
    ∃ r t, fsckMain (Fsck.init env disk) = some (r, t) ∧ r ≠ .error .diverges ∧
      t.processed1.Nodup ∧ t.processed2.Nodup := by
  obtain ⟨r, t, hrun, honce, hends⟩ :=
    returns_fsckMain (s := Fsck.init env disk) ⟨rfl, rfl, rfl⟩
  refine ⟨r, t, hrun, ?_, honce⟩
  rintro rfl
  exact hends rfl

end OsPaging.Sfsck
