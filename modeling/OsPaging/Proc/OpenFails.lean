import OsPaging.Proc.FileTables

/-!
# What a failed `open` leaves behind

`sys_open` (`kern/syscall/file_syscalls.c:30-68`) with `vfs_open` (`kern/vfs/vfspath.c:44-108`),
over the reference counts of the vnodes. `vfs_open` gives back every reference it took before it
returns an error (`vfsOpenRefs_error`). `sys_open` fills a slot of `SYSTEMFileTable` before it looks
for an entry of the process's table, and does not empty it when there is none.

The lookups and `VOP_CREAT` take a reference to what they return, and none if they fail.
-/

namespace OsPaging.Proc

open OsPaging.Vm OsPaging.Syscall Function

/-- `ENOENT`, `EMFILE` and `ENFILE` (`kern/include/kern/errno.h`). -/
abbrev enoent : Nat := 19

@[inherit_doc enoent]
abbrev emfile : Nat := 28

@[inherit_doc enoent]
abbrev enfile : Nat := 29

/-! ## `vfs_open` -/

/-- The reference counts of the vnodes; a vnode that is not in memory has none. -/
abbrev Refs := Nat → Nat

def vopIncref (refs : Refs) (vn : Nat) : Refs := update refs vn (refs vn + 1)

def vopDecref (refs : Refs) (vn : Nat) : Refs := update refs vn (refs vn - 1)

/-- What `vfs_open` gets from the rest of the VFS layer and from the file systems. -/
structure OpenEnv where
  /-- `vfs_lookparent`: an error, or the directory. -/
  lookparent : Except Nat Nat
  /-- `VOP_CREAT` in a directory. -/
  creat : Nat → Except Nat Nat
  lookup : Except Nat Nat
  /-- `VOP_EACHOPEN` and `VOP_TRUNCATE`: `0`, or an error. -/
  eachopen : Nat → Nat
  truncate : Nat → Nat

/-- `openflags & O_ACCMODE`, `O_CREAT` and `O_TRUNC` (`kern/include/kern/fcntl.h`). -/
def accmode (openflags : BitVec 32) : Nat := openflags.toNat % 4

@[inherit_doc accmode]
def creatFlag (openflags : BitVec 32) : Bool := openflags.getLsbD 2

@[inherit_doc accmode]
def truncFlag (openflags : BitVec 32) : Bool := openflags.getLsbD 4

/-- The vnode that `vfs_open` finds or creates (`vfspath.c:64-84`). -/
def vfsOpenFind (env : OpenEnv) (openflags : BitVec 32) (refs : Refs) : Except Nat Nat × Refs :=
  if creatFlag openflags then
    match env.lookparent with
    | .error err => (.error err, refs)
    | .ok dir =>
      let refs := vopIncref refs dir
      match env.creat dir with
      | .error err => (.error err, vopDecref refs dir)
      | .ok vn => (.ok vn, vopDecref (vopIncref refs vn) dir)
  else
    match env.lookup with
    | .error err => (.error err, refs)
    | .ok vn => (.ok vn, vopIncref refs vn)

/-- `vfs_open` (`vfspath.c:44-108`). -/
def vfsOpenRefs (env : OpenEnv) (openflags : BitVec 32) (refs : Refs) : Except Nat Nat × Refs :=
  if accmode openflags = 3 then (.error einval, refs)
  else
    match vfsOpenFind env openflags refs with
    | (.error err, refs) => (.error err, refs)
    | (.ok vn, refs) =>
      if env.eachopen vn ≠ 0 then (.error (env.eachopen vn), vopDecref refs vn)
      else if truncFlag openflags then
        let result := if accmode openflags = 0 then einval else env.truncate vn
        if result ≠ 0 then (.error result, vopDecref refs vn) else (.ok vn, refs)
      else (.ok vn, refs)

theorem vopDecref_vopIncref (refs : Refs) (vn : Nat) : vopDecref (vopIncref refs vn) vn = refs := by
  funext w
  simp only [vopDecref, vopIncref, update_apply]
  split_ifs with h
  · rw [h]
    omega
  · rfl

/-- The reference to the directory is given back under the one to the file. -/
theorem vopDecref_vopIncref_dir (refs : Refs) (dir vn : Nat) :
    vopDecref (vopIncref (vopIncref refs dir) vn) dir = vopIncref refs vn := by
  funext w
  simp only [vopDecref, vopIncref, update_apply]
  split_ifs <;> subst_vars <;> omega

/-- A call that takes one reference, to the vnode it returns, and none if it fails. -/
def TakesOne (refs : Refs) : Except Nat Nat × Refs → Prop
  | (.ok vn, refs') => refs' = vopIncref refs vn
  | (.error _, refs') => refs' = refs

theorem vfsOpenFind_takesOne (env : OpenEnv) (openflags : BitVec 32) (refs : Refs) :
    TakesOne refs (vfsOpenFind env openflags refs) := by
  unfold vfsOpenFind
  split
  · cases env.lookparent with
    | error err => rfl
    | ok dir =>
      dsimp only
      cases env.creat dir with
      | error err => exact vopDecref_vopIncref refs dir
      | ok vn => exact vopDecref_vopIncref_dir refs dir vn
  · cases env.lookup <;> rfl

/-- **`vfs_open` gives back what it took** before it returns an error. -/
theorem vfsOpenRefs_takesOne (env : OpenEnv) (openflags : BitVec 32) (refs : Refs) :
    TakesOne refs (vfsOpenRefs env openflags refs) := by
  unfold vfsOpenRefs
  by_cases hacc : accmode openflags = 3
  · rw [if_pos hacc]
    rfl
  · rw [if_neg hacc]
    have hfind := vfsOpenFind_takesOne env openflags refs
    rcases hr : vfsOpenFind env openflags refs with ⟨_ | vn, refs'⟩ <;> rw [hr] at hfind
    · exact hfind
    · obtain rfl : refs' = vopIncref refs vn := hfind
      dsimp only
      generalize (if accmode openflags = 0 then einval else env.truncate vn) = result
      split_ifs
      · exact vopDecref_vopIncref refs vn
      · exact vopDecref_vopIncref refs vn
      · rfl
      · rfl

/-! ## `sys_open` -/

/-- A call of `sys_open`: what it returns, `*err` if it sets it, the tables, the counts, and the
vnode it hands to `vfs_close`. -/
structure Opened where
  retval : Int
  err : Option Nat
  files : Files
  refs : Refs
  dropped : Option Nat

/-- `SYSTEMFileTable` has a free slot. -/
def SlotFree (files : Files) : Prop := ∃ i < systemOpenMax, (files.system i).vn = none

/-- The process's table has a free entry past the standard descriptors. -/
def EntryFree (files : Files) : Prop := ∃ j, 3 ≤ j ∧ j < openMax ∧ files.table j = none

instance (files : Files) : Decidable (SlotFree files) :=
  inferInstanceAs (Decidable (∃ i < systemOpenMax, (files.system i).vn = none))

/-- `sys_open` (`file_syscalls.c:30-68`). -/
def sysOpenRefs (env : OpenEnv) (openflags : BitVec 32) (files : Files) (refs : Refs) : Opened :=
  match vfsOpenRefs env openflags refs with
  | (.error _, refs) => ⟨-1, some enoent, files, refs, none⟩
  | (.ok v, refs) =>
    let (retval, files') := installFile files v
    if retval = -1 then
      ⟨-1, some (if SlotFree files then emfile else enfile), files', vopDecref refs v, some v⟩
    else ⟨retval, none, files', refs, none⟩

theorem installFile_cases (files : Files) (v : Nat) :
    (¬ SlotFree files ∧ installFile files v = (-1, files)) ∨
    (¬ EntryFree files ∧ ∃ i < systemOpenMax, (files.system i).vn = none ∧
      installFile files v = (-1, { files with
        system := update files.system i ⟨some v, 1, 0⟩ })) ∨
    (SlotFree files ∧ EntryFree files ∧ ∃ j < openMax, (installFile files v).1 = (j : Int)) := by
  unfold installFile
  cases hslot : (List.range systemOpenMax).find? fun i => (files.system i).vn.isNone with
  | none =>
    refine Or.inl ⟨?_, rfl⟩
    rintro ⟨i, hi, hfree⟩
    grind
  | some i =>
    have hi : i < systemOpenMax := List.mem_range.mp (List.mem_of_find?_eq_some hslot)
    have hfree : (files.system i).vn = none := by simpa using List.find?_some hslot
    dsimp only
    cases hentry : (List.range' 3 (openMax - 3)).find? fun j => (files.table j).isNone with
    | none =>
      refine Or.inr (Or.inl ⟨?_, i, hi, hfree, rfl⟩)
      rintro ⟨j, hj, hj', hnone⟩
      grind
    | some j =>
      obtain ⟨hnone, hmem, -⟩ := List.find?_range'_eq_some.mp hentry
      rw [List.mem_range'_1] at hmem
      have hlt : j < openMax := by omega
      exact Or.inr (Or.inr ⟨⟨i, hi, hfree⟩, ⟨j, hmem.1, hlt, by simpa using hnone⟩, j, hlt, rfl⟩)

/-- A failed call has changed nothing: neither the tables nor a reference count, and no slot or
entry has come to hold the vnode that was closed. -/
structure ChangedNothing (files : Files) (refs : Refs) (o : Opened) : Prop where
  system : ∀ i < systemOpenMax, o.files.system i = files.system i
  table : ∀ j, o.files.table j = files.table j
  refs : o.refs = refs
  dangling : ∀ v i, o.dropped = some v → i < systemOpenMax → (o.files.system i).vn = some v →
    (files.system i).vn = some v

theorem ChangedNothing.same (files : Files) (refs : Refs) (err : Nat) (dropped : Option Nat) :
    ChangedNothing files refs ⟨-1, some err, files, refs, dropped⟩ :=
  ⟨fun _ _ => rfl, fun _ => rfl, rfl, fun _ _ _ _ h => h⟩

/-- **When a failed `open` changes nothing**: exactly if `vfs_open` failed or `SYSTEMFileTable` was
full, that is, unless the process's table is what was full. -/
theorem failed_open_iff {env : OpenEnv} {openflags : BitVec 32} {files : Files} {refs : Refs}
    (hfail : (sysOpenRefs env openflags files refs).retval = -1) :
    ChangedNothing files refs (sysOpenRefs env openflags files refs) ↔
      (∃ err, (vfsOpenRefs env openflags refs).1 = .error err) ∨ ¬ SlotFree files := by
  have htakes := vfsOpenRefs_takesOne env openflags refs
  unfold sysOpenRefs at hfail ⊢
  rcases hopen : vfsOpenRefs env openflags refs with ⟨err | v, refs'⟩
  · rw [hopen] at htakes
    obtain rfl : refs' = refs := htakes
    exact iff_of_true (.same files refs' enoent none) (Or.inl ⟨err, rfl⟩)
  · rw [hopen] at htakes hfail
    obtain rfl : refs' = vopIncref refs v := htakes
    dsimp only at hfail ⊢
    rw [or_iff_right (by simp : ¬ ∃ err, (Except.ok v : Except Nat Nat) = .error err)]
    rcases installFile_cases files v with ⟨hfull, hinst⟩ | ⟨-, i, hi, hfree, hinst⟩ |
      ⟨-, -, j, -, hj⟩
    · rw [hinst]
      dsimp only
      rw [if_pos rfl, vopDecref_vopIncref]
      exact iff_of_true (.same files refs _ _) hfull
    · -- the slot stays taken, by the vnode that was closed
      rw [hinst]
      dsimp only
      rw [if_pos rfl]
      refine iff_of_false (fun h => ?_) (not_not.mpr ⟨i, hi, hfree⟩)
      have hsame := h.dangling v i rfl hi
      grind
    · grind

/-- Every entry of the process's table is taken. -/
def fullTable : Files := ⟨fun _ => ⟨none, 0, 0⟩, fun _ => some 0⟩

/-- `vfs_lookup` finds vnode 7. -/
def findsSeven : OpenEnv := ⟨.error enoent, fun _ => .error enoent, .ok 7, fun _ => 0, fun _ => 0⟩

/-- An `open` whose `vfs_open` fails at `VOP_EACHOPEN` changes nothing. -/
theorem failed_open_unchanged :
    (sysOpenRefs { findsSeven with eachopen := fun _ => einval } 0#32 fullTable fun _ => 2).retval =
        -1 ∧
      ChangedNothing fullTable (fun _ => 2)
        (sysOpenRefs { findsSeven with eachopen := fun _ => einval } 0#32 fullTable fun _ => 2) :=
          by
  have hfail : (sysOpenRefs { findsSeven with eachopen := fun _ => einval } 0#32 fullTable
      fun _ => 2).retval = -1 := by decide
  exact ⟨hfail, (failed_open_iff hfail).mpr (Or.inl ⟨einval, by decide⟩)⟩

/-- With the process's table full, `open` returns `-1` and leaves slot `0` with vnode 7, whose
reference it has given back. -/
theorem failed_open_leaves_slot :
    let o := sysOpenRefs findsSeven 0#32 fullTable fun _ => 0
    o.retval = -1 ∧ o.err = some emfile ∧ o.dropped = some 7 ∧ o.refs 7 = 0 ∧
      (fullTable.system 0).vn = none ∧ o.files.system 0 = ⟨some 7, 1, 0⟩ ∧
      ¬ ChangedNothing fullTable (fun _ => 0) o := by
  have hslot : (sysOpenRefs findsSeven 0#32 fullTable fun _ => 0).files.system 0 =
      ⟨some 7, 1, 0⟩ := by decide +kernel
  refine ⟨by decide +kernel, by decide +kernel, by decide +kernel, by decide +kernel, rfl, hslot,
    fun h => ?_⟩
  have := h.system 0 (by decide)
  rw [hslot] at this
  exact absurd this (by decide)

end OsPaging.Proc
