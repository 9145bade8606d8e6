import OsPaging.Fs.Errno
import OsPaging.Fs.SemfsLifetimes

/-!
# `semfs_creat` returns

`Fs.SemfsObjects` has `semfs_creat` step by step, and leaves out what it returns. Here is one call
as a whole, with `result` and `*resultvn`, while no other call is in progress: `semfsCreat` is the
function, its labels `fail_undir` to `fail_unlock` are the functions `failUndir` to `failUnlock`,
and each of its allocations may fail (`SemfsMem`).

When `semfs_direntry_create` fails, the code goes to `fail_uninsert` with the `result` of
`semfs_sem_insert`, which is 0.
**`semfs_creat_all_or_nothing`**: it is the only case in which the call is not all or nothing.
**`semfs_creat_steps`** relates the call to the steps.
-/

namespace OsPaging.Fs

open OsPaging.Lib Function
open Function (update update_apply)

variable {N : Type}

/-- The name of a semaphore: the bytes of a string up to its end. -/
abbrev SemfsName := { name : List UInt8 // 0 ∉ name }

/-- The name `.`. -/
def dotName : SemfsName := ⟨[46], by decide⟩

/-- The name `..`. -/
def dotdotName : SemfsName := ⟨[46, 46], by decide⟩

/-- Which allocations succeed, if the call gets to them. -/
structure SemfsMem where
  /-- `semfs_sem_create`. -/
  sem : Bool
  /-- `semfs_semarray_add`. -/
  semarray : Bool
  /-- `semfs_direntry_create`. -/
  direntry : Bool
  /-- `semfs_direntryarray_add`. -/
  direntryarray : Bool
  /-- `semfs_vnode_create`. -/
  vnode : Bool
  /-- `vnodearray_add`. -/
  vnodearray : Bool
deriving DecidableEq, Repr

/-- What a call returns: `result`, which is `none` for 0, what it has stored in `*resultvn`, and the
file system. -/
structure SemfsReturn (N : Type) where
  result : Option Errno
  resultvn : Option Nat
  semfs : Semfs N

namespace Semfs

variable (s : Semfs N)

/-- `semfs_sem_create`. -/
def semCreate : Semfs N :=
  { s with
    created := s.created + 1
    semsLock := update s.semsLock s.created false
    hasvnode := update s.hasvnode s.created false
    linked := update s.linked s.created false
    destroyed := update s.destroyed s.created false }

/-- `semfs_sem_insert`: an error, or the number. -/
def semInsert (m : SemfsMem) (x : Nat) : Except Errno (Nat × Semfs N) :=
  if s.sems.length = semfsRootdir then .error .enospc
  else if firstFree s.sems < s.sems.length ∨ m.semarray = true then
    .ok (firstFree s.sems, { s with sems := putAt s.sems (firstFree s.sems) x })
  else .error .enomem

/-- A new vnode in the table, with one reference. -/
def addVnode (k : Nat) : Semfs N :=
  { s with
    vnodes := s.vnodes ++ [s.made]
    made := s.made + 1
    semnum := update s.semnum s.made k
    refcount := update s.refcount s.made 1 }

/-- The flag of a semaphore that got a vnode. -/
def setHasvnode (x : Nat) : Semfs N := { s with hasvnode := update s.hasvnode x true }

/-- `semfs_getvnode`. -/
def getvnode (m : SemfsMem) (k : Nat) : Except SemfsFault (SemfsReturn N) :=
  match s.vnodes.find? fun v => s.semnum v = k with
  | some v => .ok ⟨none, some v, s.setRefcount v (s.refcount v + 1)⟩
  | none =>
    if m.vnode = false then .ok ⟨some .enomem, none, s⟩
    else if m.vnodearray = false then .ok ⟨some .enomem, none, s⟩
    else if k = semfsRootdir then .ok ⟨none, some s.made, s.addVnode k⟩
    else
      match s.slot k with
      | none => .error .panic
      | some x =>
        if s.hasvnode x = true then .error .panic
        else .ok ⟨none, some s.made, (s.addVnode k).setHasvnode x⟩

/-! The labels of `semfs_creat`. -/

def failUnlock (result : Option Errno) : SemfsReturn N := ⟨result, none, s⟩

def failUncreate (result : Option Errno) (x : Nat) : SemfsReturn N :=
  (s.destroySem x).failUnlock result

def failUninsert (result : Option Errno) (x k : Nat) : SemfsReturn N :=
  (s.clearSlot k).failUncreate result x

/-- The entry that is destroyed here is not in the directory. -/
def failUndent (result : Option Errno) (x k : Nat) : SemfsReturn N := s.failUninsert result x k

def failUndir (result : Option Errno) (x k empty : Nat) : SemfsReturn N :=
  (s.clearDent empty).failUndent result x k

/-- `semfs_creat` from `semfs_getvnode` on. -/
def creatVnode (m : SemfsMem) (x k empty : Nat) : Except SemfsFault (SemfsReturn N) :=
  match s.getvnode m k with
  | .error f => .error f
  | .ok ⟨some e, _, t⟩ => .ok (t.failUndir (some e) x k empty)
  | .ok ⟨none, vn, t⟩ => .ok ⟨none, vn, { t with linked := update t.linked x true }⟩

/-- `semfs_creat` from `semfs_direntry_create` on. `result` is what `semfs_sem_insert` returned. -/
def creatDent (m : SemfsMem) (result : Option Errno) (name : N) (x k : Nat) :
    Except SemfsFault (SemfsReturn N) :=
  let empty := firstFree s.dents
  if m.direntry = false then .ok (s.failUninsert result x k)
  else if empty < s.dents.length ∨ m.direntryarray = true then
    { s with dents := putAt s.dents empty (name, k) }.creatVnode m x k empty
  else .ok (s.failUndent (some .enomem) x k)

/-- `semfs_creat` for a name that is not there. -/
def creatNew (m : SemfsMem) (name : N) : Except SemfsFault (SemfsReturn N) :=
  if m.sem = false then .ok (s.failUnlock (some .enomem))
  else
    let x := s.created
    let s := s.semCreate
    match s.semInsert m x with
    | .error e => .ok (s.failUncreate (some e) x)
    | .ok (k, t) => t.creatDent m none name x k

/-- `semfs_creat`. -/
def creat (s : Semfs SemfsName) (name : SemfsName) (excl : Bool) (m : SemfsMem) :
    Except SemfsFault (SemfsReturn SemfsName) :=
  if name = dotName ∨ name = dotdotName then .ok ⟨some .eexist, none, s⟩
  else
    match s.findDent name with
    | some (_, k) => if excl then .ok ⟨some .eexist, none, s⟩ else s.getvnode m k
    | none => s.creatNew m name

end Semfs

/-! ## What a call may rely on, and what it is to do -/

/-- The tables when no call is in progress. -/
structure SemfsSettled (s : Semfs N) : Prop where
  sems : SemTable s.slot s.destroyed s.created
  bound : s.sems.length ≤ semfsRootdir
  dents : DirTable s.dent s.slot s.linked none
  vnodes : VnodeTable s.vnodes s.semnum s.made s.slot s.hasvnode none

theorem SemfsInv.settled {s : Semfs N} (h : SemfsInv s) (hd : s.dir = none) (ht : s.table = none) :
    SemfsSettled s where
  sems := h.sems
  bound := h.bound
  dents := by
    have := h.dents
    rwa [hd] at this
  vnodes := by
    have := h.vnodes
    rwa [ht] at this

/-- The same live entries in the directory, in the table of semaphores and in that of vnodes, with
what they are about. -/
structure SameLive (s t : Semfs N) : Prop where
  dent : t.dent = s.dent
  slot : t.slot = s.slot
  flags : ∀ k x, s.slot k = some x →
    t.linked x = s.linked x ∧ t.hasvnode x = s.hasvnode x ∧ t.destroyed x = s.destroyed x
  vnodes : t.vnodes = s.vnodes
  semnum : t.semnum = s.semnum
  refcount : t.refcount = s.refcount

theorem SameLive.refl (s : Semfs N) : SameLive s s :=
  ⟨rfl, rfl, fun _ _ _ => ⟨rfl, rfl, rfl⟩, rfl, rfl, rfl⟩

/-- `vn` is the vnode of a semaphore that is linked in the directory under the name. -/
def VnodeOfName (t : Semfs N) (name : N) (vn : Option Nat) : Prop :=
  ∃ v ∈ t.vnodes, vn = some v ∧ ∃ i k x, t.semnum v = k ∧ t.dent i = some (name, k) ∧
    t.slot k = some x ∧ t.linked x = true

/-- All or nothing: 0 comes with the vnode, and an error with the tables as they were. -/
def AllOrNothing (s : Semfs N) (name : N) (r : SemfsReturn N) : Prop :=
  match r.result with
  | none => VnodeOfName r.semfs name r.resultvn
  | some _ => SameLive s r.semfs

namespace Semfs

variable {s : Semfs N} {m : SemfsMem} {k x : Nat}

theorem findDent_name [DecidableEq N] {name : N} {i : Nat} (h : s.findDent name = some (i, k)) :
    s.dent i = some (name, k) := by
  unfold findDent at h
  obtain ⟨j, hj, he⟩ := Option.bind_eq_some_iff.mp h
  obtain ⟨⟨n, k'⟩, hd, he⟩ := Option.map_eq_some_iff.mp he
  obtain ⟨rfl, rfl⟩ : j = i ∧ k' = k := by simpa using he
  obtain ⟨hlt, hp, -⟩ := List.findIdx?_eq_some_iff_getElem.mp hj
  have hget : s.dents[j] = some (n, k') := by
    simpa [dent, slotAt, List.getElem?_eq_getElem hlt] using hd
  grind

/-- How `semfs_getvnode` returns for a number that has a semaphore. -/
theorem getvnode_cases (hs : SemTable s.slot s.destroyed s.created)
    (hb : s.sems.length ≤ semfsRootdir)
    (hv : VnodeTable s.vnodes s.semnum s.made s.slot s.hasvnode none) (hk : s.slot k = some x) :
    (∃ v ∈ s.vnodes, s.semnum v = k ∧
        s.getvnode m k = .ok ⟨none, some v, s.setRefcount v (s.refcount v + 1)⟩) ∨
      s.getvnode m k = .ok ⟨some .enomem, none, s⟩ ∨
      s.getvnode m k = .ok ⟨none, some s.made, (s.addVnode k).setHasvnode x⟩ := by
  unfold getvnode
  cases hf : s.vnodes.find? fun v => s.semnum v = k with
  | some v => exact .inl ⟨v, List.mem_of_find?_eq_some hf, by simpa using List.find?_some hf, rfl⟩
  | none =>
    have hroot : k ≠ semfsRootdir := by
      have := lt_length_of_slotAt hk
      omega
    -- the flag of the semaphore would be for a vnode that the search has not found
    have hflag : s.hasvnode x ≠ true := by
      intro hx
      obtain ⟨k', hk', hr⟩ := hv.flag hx
      obtain ⟨v, hmem, hnum⟩ := hr.resolve_right (by simp)
      have := List.find?_eq_none.mp hf v hmem
      exact this (by simpa using hnum.trans (hs.inj hk' hk))
    grind

/-! ## Making and undoing -/

/-- A new semaphore is in the table. -/
def inserted (s : Semfs N) : Semfs N :=
  { s.semCreate with sems := putAt s.sems (firstFree s.sems) s.created }

/-- And an entry for it in the directory. -/
def entered (s : Semfs N) (name : N) : Semfs N :=
  { s.inserted with dents := putAt s.dents (firstFree s.dents) (name, firstFree s.sems) }

theorem inserted_slot (s : Semfs N) :
    s.inserted.slot = update s.slot (firstFree s.sems) (some s.created) :=
  slot_insert s s.created

theorem inserted_sems (h : SemfsSettled s) :
    SemTable s.inserted.slot s.inserted.destroyed s.inserted.created := by
  have hno : ∀ k, s.slot k ≠ some s.created := fun k hk =>
    absurd (h.sems.created hk) (Nat.lt_irrefl _)
  rw [inserted_slot]
  exact h.sems.create.insert (Nat.lt_succ_self _) (update_self ..) hno _

theorem inserted_vnodes (h : SemfsSettled s) :
    VnodeTable s.inserted.vnodes s.inserted.semnum s.inserted.made s.inserted.slot
      s.inserted.hasvnode none := by
  rw [inserted_slot]
  exact (h.vnodes.create h.sems).insert (slotAt_firstFree s.sems) _

theorem inserted_bound (h : SemfsSettled s) (hroot : s.sems.length ≠ semfsRootdir) :
    s.inserted.sems.length ≤ semfsRootdir :=
  (length_putAt_le ..).trans (Nat.lt_of_le_of_ne h.bound hroot)

theorem inserted_at (s : Semfs N) : s.inserted.slot (firstFree s.sems) = some s.created := by
  rw [inserted_slot, update_self]

theorem entered_at (s : Semfs N) (name : N) :
    (s.entered name).dent (firstFree s.dents) = some (name, firstFree s.sems) := by
  rw [show (s.entered name).dent = _ from dent_put s.inserted (firstFree s.dents) _]
  rw [show s.inserted.dents = s.dents from rfl, Nat.min_eq_left (firstFree_le s.dents), update_self]

section

variable (h : SemfsSettled s)
include h

/-- What `semfs_creat` has changed when everything is undone: the semaphore it made, and perhaps
the lengths of the arrays. -/
theorem sameLive_undone {t : Semfs N} (hdent : t.dent = s.dent) (hslot : t.slot = s.slot)
    (hlinked : ∀ y, y ≠ s.created → t.linked y = s.linked y)
    (hvnode : ∀ y, y ≠ s.created → t.hasvnode y = s.hasvnode y)
    (hlive : ∀ y, y ≠ s.created → t.destroyed y = s.destroyed y) (hvnodes : t.vnodes = s.vnodes)
    (hsemnum : t.semnum = s.semnum) (hrefcount : t.refcount = s.refcount) : SameLive s t where
  dent := hdent
  slot := hslot
  flags k x hk := by
    have hx : x ≠ s.created := Nat.ne_of_lt (h.sems.created hk)
    exact ⟨hlinked x hx, hvnode x hx, hlive x hx⟩
  vnodes := hvnodes
  semnum := hsemnum
  refcount := hrefcount

theorem uncreated : SameLive s (s.semCreate.destroySem s.created) := by
  refine sameLive_undone h rfl rfl ?_ ?_ ?_ rfl rfl rfl <;> intro y hy <;>
    simp [destroySem, semCreate, hy]

theorem uninserted :
    SameLive s ((s.inserted.clearSlot (firstFree s.sems)).destroySem s.created) := by
  refine sameLive_undone h rfl ?_ ?_ ?_ ?_ rfl rfl rfl
  · exact funext fun j => slotAt_unput s.sems s.created j
  all_goals
    intro y hy
    simp [destroySem, clearSlot, inserted, semCreate, hy]

theorem unentered (name : N) :
    SameLive s ((((s.entered name).clearDent (firstFree s.dents)).clearSlot
      (firstFree s.sems)).destroySem s.created) := by
  refine sameLive_undone h ?_ ?_ ?_ ?_ ?_ rfl rfl rfl
  · exact funext fun j => slotAt_unput s.dents (name, firstFree s.sems) j
  · exact funext fun j => slotAt_unput s.sems s.created j
  all_goals
    intro y hy
    simp [destroySem, clearSlot, clearDent, entered, inserted, semCreate, hy]

/-! ## The parts of the call -/

/-- The end of the call, with the entry in the directory. -/
theorem creatVnode_allOrNothing (hroot : s.sems.length ≠ semfsRootdir) (name : N) :
    ∃ r, (s.entered name).creatVnode m s.created (firstFree s.sems)
      (firstFree s.dents) = .ok r ∧ AllOrNothing s name r := by
  have hcases := getvnode_cases (s := s.entered name) (m := m) (inserted_sems h)
    (inserted_bound h hroot) (inserted_vnodes h) (inserted_at s)
  have hno : ∀ v ∈ s.vnodes, s.semnum v ≠ firstFree s.sems := by
    intro v hv hk
    have hlt : firstFree s.sems ≠ semfsRootdir := by
      have := firstFree_le s.sems
      have := h.bound
      omega
    obtain ⟨x, hx, -⟩ := h.vnodes.inTable hv (hk ▸ hlt)
    rw [hk] at hx
    exact absurd ((slotAt_firstFree s.sems).symm.trans hx) (by simp)
  unfold creatVnode
  rcases hcases with ⟨v, hv, hk, -⟩ | hr | hr
  · exact absurd hk (hno v hv)
  · rw [hr]
    exact ⟨_, rfl, unentered h name⟩
  · rw [hr]
    refine ⟨_, rfl, s.made, by simp [addVnode, setHasvnode, entered, inserted, semCreate], rfl,
      firstFree s.dents, firstFree s.sems, s.created, ?_⟩
    exact ⟨update_self .., entered_at s name, inserted_at s, update_self ..⟩

end

/-- `semfs_sem_insert` gets a place in the table. -/
def InsertFits (s : Semfs N) (m : SemfsMem) : Prop :=
  s.sems.length ≠ semfsRootdir ∧ (firstFree s.sems < s.sems.length ∨ m.semarray = true)

theorem semInsert_of_fits (h : s.InsertFits m) :
    s.semCreate.semInsert m s.created = .ok (firstFree s.sems, s.inserted) := by
  unfold semInsert
  exact (if_neg h.1).trans (if_pos h.2)

theorem semInsert_of_not_fits (h : ¬s.InsertFits m) :
    ∃ e, s.semCreate.semInsert m s.created = .error e := by
  unfold semInsert
  by_cases hroot : s.sems.length = semfsRootdir
  · exact ⟨.enospc, if_pos hroot⟩
  · exact ⟨.enomem, (if_neg hroot).trans (if_neg fun hfit => h ⟨hroot, hfit⟩)⟩

/-- What follows `semfs_sem_insert` is all or nothing if `semfs_direntry_create` gets its memory. -/
theorem creatDent_allOrNothing_iff (h : SemfsSettled s) (hfit : s.InsertFits m) (name : N) :
    (∃ r, s.inserted.creatDent m none name s.created (firstFree s.sems) = .ok r ∧
      AllOrNothing s name r) ↔ m.direntry = true := by
  unfold creatDent
  by_cases hdent : m.direntry = false
  · -- `result` is 0 here, and there is no vnode
    rw [if_pos hdent, hdent]
    refine ⟨?_, fun hc => absurd hc (by simp)⟩
    rintro ⟨r, hr, hall⟩
    cases hr
    obtain ⟨v, -, hvn, -⟩ := hall
    cases hvn
  · rw [if_neg hdent]
    refine ⟨fun _ => by simpa using hdent, fun _ => ?_⟩
    by_cases hplace : firstFree s.dents < s.dents.length ∨ m.direntryarray = true
    · obtain ⟨r, hr, hall⟩ := creatVnode_allOrNothing (m := m) h hfit.1 name
      exact ⟨r, (if_pos hplace).trans hr, hall⟩
    · exact ⟨_, if_neg hplace, uninserted h⟩

/-- A new name: all or nothing, unless the call gets as far as `semfs_direntry_create` and that
fails. -/
theorem creatNew_allOrNothing_iff (h : SemfsSettled s) (name : N) :
    (∃ r, s.creatNew m name = .ok r ∧ AllOrNothing s name r) ↔
      ¬(m.sem = true ∧ s.InsertFits m ∧ m.direntry = false) := by
  unfold creatNew
  by_cases hsem : m.sem = false
  · rw [if_pos hsem, hsem]
    exact ⟨fun _ hc => absurd hc.1 (by simp), fun _ => ⟨_, rfl, .refl s⟩⟩
  rw [if_neg hsem]
  dsimp only
  by_cases hfit : s.InsertFits m
  · rw [semInsert_of_fits hfit]
    refine (creatDent_allOrNothing_iff h hfit name).trans ?_
    simp [hfit, hsem]
  · obtain ⟨e, he⟩ := semInsert_of_not_fits hfit
    rw [he]
    exact ⟨fun _ hc => hfit hc.2.1, fun _ => ⟨_, rfl, uncreated h⟩⟩

/-- `semfs_creat` goes on to make a semaphore and its directory entry, and `semfs_direntry_create`
fails. -/
structure DentFails (s : Semfs SemfsName) (name : SemfsName) (m : SemfsMem) : Prop where
  ordinary : name ≠ dotName ∧ name ≠ dotdotName
  fresh : s.findDent name = none
  sem : m.sem = true
  insert : s.InsertFits m
  direntry : m.direntry = false

end Semfs

/-- **`semfs_creat` is all or nothing**, whatever else fails, if and only if it does not find itself
without memory in `semfs_direntry_create`. -/
theorem semfs_creat_all_or_nothing {s : Semfs SemfsName} (h : SemfsSettled s) (name : SemfsName)
    (excl : Bool) (m : SemfsMem) :
    (∃ r, s.creat name excl m = .ok r ∧ AllOrNothing s name r) ↔ ¬s.DentFails name m := by
  unfold Semfs.creat
  by_cases hdot : name = dotName ∨ name = dotdotName
  · rw [if_pos hdot]
    refine ⟨fun _ hc => ?_, fun _ => ⟨_, rfl, .refl s⟩⟩
    exact hdot.elim hc.ordinary.1 hc.ordinary.2
  rw [if_neg hdot]
  cases hfind : s.findDent name with
  | some found =>
    obtain ⟨i, k⟩ := found
    refine ⟨fun _ hc => absurd (hfind.symm.trans hc.fresh) (by simp), fun _ => ?_⟩
    dsimp only
    cases excl with
    | true => exact ⟨_, rfl, .refl s⟩
    | false =>
      have hi := Semfs.findDent_name hfind
      obtain ⟨x, hx, hl⟩ := (h.dents.named hi).resolve_left (by simp)
      rcases Semfs.getvnode_cases (m := m) h.sems h.bound h.vnodes hx with
        ⟨v, hv, hk, hr⟩ | hr | hr
      · exact ⟨_, hr, v, hv, rfl, i, k, x, hk, hi, hx, hl⟩
      · exact ⟨_, hr, .refl s⟩
      · refine ⟨_, hr, s.made, by simp [Semfs.addVnode, Semfs.setHasvnode], rfl, i, k, x, ?_⟩
        exact ⟨update_self .., hi, hx, hl⟩
  | none =>
    dsimp only
    rw [Semfs.creatNew_allOrNothing_iff h name, not_iff_not]
    constructor
    · rintro ⟨hsem, hfit, hdent⟩
      exact ⟨not_or.mp hdot, hfind, hsem, hfit, hdent⟩
    · intro hc
      exact ⟨hc.sem, hc.insert, hc.direntry⟩

/-- The name `s`. -/
def semfsNameS : SemfsName := ⟨[115], by decide⟩

theorem settled_start : SemfsSettled (semfsCreate : Semfs N) := SemfsInv.start.settled rfl rfl

theorem semfs_creat_all_or_nothing_first : SemfsSettled (semfsCreate : Semfs SemfsName) ∧
    ∃ r, semfsCreate.creat semfsNameS true ⟨true, true, true, true, true, true⟩ = .ok r ∧
      AllOrNothing semfsCreate semfsNameS r :=
  ⟨settled_start, (semfs_creat_all_or_nothing settled_start semfsNameS true _).mpr
    fun hc => absurd hc.direntry (by decide)⟩

/-- There is no memory for the directory entry: 0 is returned, and no vnode. -/
theorem creat_returns_nothing : ∃ r : SemfsReturn SemfsName,
    semfsCreate.creat semfsNameS true ⟨true, true, false, true, true, true⟩ = .ok r ∧
      r.result = none ∧ r.resultvn = none ∧ ¬AllOrNothing semfsCreate semfsNameS r := by
  refine ⟨_, rfl, rfl, rfl, ?_⟩
  rintro ⟨v, -, hvn, -⟩
  cases hvn


/-! ## The call as steps -/

namespace Semfs

variable {s : Semfs N} {k v x : Nat} {dir mem : Bool}

/-- What `semfs_getvnode` leaves alone, and when it returns a vnode. -/
theorem getvnode_keeps {m : SemfsMem} {r : SemfsReturn N} (hr : s.getvnode m k = .ok r) :
    r.semfs.destroyed = s.destroyed ∧ r.semfs.table = s.table ∧
      (r.result = none → ∃ v, r.resultvn = some v) ∧ (r.result ≠ none → r.resultvn = none) := by
  unfold getvnode at hr
  split at hr
  · cases hr
    exact ⟨rfl, rfl, fun _ => ⟨_, rfl⟩, fun h => absurd rfl h⟩
  split_ifs at hr
  · grind
  · grind
  · cases hr
    exact ⟨rfl, rfl, fun _ => ⟨_, rfl⟩, fun h => absurd rfl h⟩
  split at hr
  · cases hr
  split_ifs at hr
  cases hr
  exact ⟨rfl, rfl, fun _ => ⟨_, rfl⟩, fun h => absurd rfl h⟩

theorem execTable_find_some (h : s.vnodes.find? (fun v => s.semnum v = k) = some v) :
    s.execTable mem (.find dir k) =
      .ok ((s.setRefcount v (s.refcount v + 1)).tableAt (.got dir (some v))) := by
  simp only [execTable, h]

theorem execTable_find_none (h : s.vnodes.find? (fun v => s.semnum v = k) = none) :
    s.execTable mem (.find dir k) = .ok (s.tableAt (.make dir k)) := by
  simp only [execTable, h]

theorem execTable_make (hroot : k ≠ semfsRootdir) (hk : s.slot k = some x)
    (hlive : s.destroyed x = false) (hflag : ¬s.hasvnode x = true) :
    s.execTable true (.make dir k) =
      .ok (((s.addVnode k).setHasvnode x).tableAt (.got dir (some s.made))) := by
  simp only [execTable, if_neg hroot, hk, touch, hlive, if_neg hflag]
  rfl

end Semfs

/-- The steps of one call lead from one state to another. -/
def Leads [DecidableEq N] (s t : Semfs N) : Prop :=
  ∃ es : List (SemfsMove N), Run (fun s e s' => s.exec e = .ok s') s es t

namespace Leads

variable [DecidableEq N] {s t u : Semfs N}

theorem refl (s : Semfs N) : Leads s s := ⟨[], .nil⟩

theorem trans (h : Leads s t) (h' : Leads t u) : Leads s u := by
  obtain ⟨es, hr⟩ := h
  obtain ⟨es', hr'⟩ := h'
  exact ⟨es ++ es', hr.append hr'⟩

theorem step {e : SemfsMove N} (h : s.exec e = .ok t) (h' : Leads t u) : Leads s u := by
  have hfirst : Leads s t := ⟨[e], Run.nil.snoc h⟩
  exact hfirst.trans h'

theorem dir {d : SemfsDirPc N} (mem : Bool) (h : (s.dirAt d).execDir mem d = .ok t) :
    Leads t u → Leads (s.dirAt d) u :=
  step (e := .dir mem) h

theorem table {p : SemfsTablePc} (mem : Bool) (h : (s.tableAt p).execTable mem p = .ok t) :
    Leads t u → Leads (s.tableAt p) u :=
  step (e := .table mem) h

theorem leave (r : Option Nat) : Leads (s.dirAt (.leave r)) { s.give r with dir := none } :=
  dir true rfl (refl _)

/-- The tablelock is released, and the holder of the dirlock goes on. -/
theorem got {c : SemfsCaller} {k : Nat} (ht : s.table = none) (r : Option Nat) :
    Leads ((s.dirAt (.getvnode c k)).tableAt (.got true r))
      { s with dir := Semfs.getvnodeReturns r (some (.getvnode c k)) } := by
  have hback : { s with dir := Semfs.getvnodeReturns r (some (.getvnode c k)) } =
      { s with dir := Semfs.getvnodeReturns r (some (.getvnode c k)), table := none } := by
    rw [← ht]
  rw [hback]
  exact table true rfl (refl _)

/-- `semfs_getvnode`, from the dirlock to the return to its caller. -/
theorem getvnode {m : SemfsMem} {k : Nat} {c : SemfsCaller} {r : SemfsReturn N}
    (ht : s.table = none) (hlive : ∀ x, s.slot k = some x → s.destroyed x = false)
    (hr : s.getvnode m k = .ok r) :
    Leads (s.dirAt (.getvnode c k))
      { r.semfs with dir := Semfs.getvnodeReturns r.resultvn (some (.getvnode c k)) } := by
  have hlock : (s.dirAt (.getvnode c k)).execDir true (.getvnode c k) =
      .ok ((s.dirAt (.getvnode c k)).tableAt (.find true k)) := by
    simp [Semfs.execDir, Semfs.locked, Semfs.dirAt, ht]
  refine dir true hlock ?_
  unfold Semfs.getvnode at hr
  cases hf : s.vnodes.find? fun v => s.semnum v = k with
  | some v =>
    rw [hf] at hr
    cases hr
    exact table true (Semfs.execTable_find_some hf)
      (got (s := s.setRefcount v (s.refcount v + 1)) ht (some v))
  | none =>
    rw [hf] at hr
    refine table true (Semfs.execTable_find_none hf) ?_
    dsimp only at hr
    by_cases hmem : m.vnode = false ∨ m.vnodearray = false
    · obtain rfl : ⟨some .enomem, none, s⟩ = r := by
        grind
      exact table false rfl (got ht none)
    obtain ⟨h1, h2⟩ := not_or.mp hmem
    rw [if_neg h1, if_neg h2] at hr
    by_cases hroot : k = semfsRootdir
    · rw [if_pos hroot] at hr
      cases hr
      exact table true (if_pos hroot) (got (s := s.addVnode k) ht (some s.made))
    rw [if_neg hroot] at hr
    cases hk : s.slot k with
    | none =>
      rw [hk] at hr
      cases hr
    | some x =>
      rw [hk] at hr
      dsimp only at hr
      split_ifs at hr with hflag
      cases hr
      have hmake : (((s.dirAt (.getvnode c k)).tableAt (.find true k)).tableAt
          (.make true k)).execTable true (.make true k) =
          .ok ((((s.addVnode k).setHasvnode x).dirAt (.getvnode c k)).tableAt
            (.got true (some s.made))) :=
        Semfs.execTable_make hroot hk (hlive x hk) hflag
      exact table true hmake (got (s := (s.addVnode k).setHasvnode x) ht (some s.made))

theorem uncreate {x : Nat} (hx : s.destroyed x = false) :
    Leads (s.dirAt (.uncreate x)) { s.destroySem x with dir := none } := by
  refine dir (t := (s.destroySem x).dirAt (.leave none)) true ?_ (leave none)
  simp [Semfs.execDir, Semfs.touch, Semfs.dirAt, Semfs.destroySem, hx]

theorem uninsert {x k : Nat} (ht : s.table = none) (hx : s.destroyed x = false) :
    Leads (s.dirAt (.uninsert x k)) { (s.clearSlot k).destroySem x with dir := none } := by
  refine dir (t := (s.clearSlot k).dirAt (.uncreate x)) true ?_ (uncreate hx)
  simp [Semfs.execDir, Semfs.locked, Semfs.dirAt, Semfs.clearSlot, ht]

theorem undir {i x k : Nat} (ht : s.table = none) (hx : s.destroyed x = false) :
    Leads (s.dirAt (.undir i x k))
      { ((s.clearDent i).clearSlot k).destroySem x with dir := none } :=
  dir true rfl (uninsert ht hx)

variable {m : SemfsMem} {name : N} {r : SemfsReturn N} {x k : Nat}

theorem creatVnode {i : Nat} (ht : s.table = none) (hk : s.slot k = some x)
    (hx : s.destroyed x = false) (hr : s.creatVnode m x k i = .ok r) :
    Leads (s.dirAt (.getvnode (.fresh i x) k)) { r.semfs.give r.resultvn with dir := none } := by
  unfold Semfs.creatVnode at hr
  cases hg : s.getvnode m k with
  | error f =>
    rw [hg] at hr
    cases hr
  | ok g =>
    obtain ⟨hlive, htable, hnone, hsome⟩ := Semfs.getvnode_keeps hg
    have hlive' : ∀ y, s.slot k = some y → s.destroyed y = false := by
      grind
    have hget := getvnode (c := .fresh i x) ht hlive' hg
    obtain ⟨result, vn, t⟩ := g
    rw [hg] at hr
    have hxt : t.destroyed x = false := by rw [hlive, hx]
    have htt : t.table = none := htable.trans ht
    cases result with
    | none =>
      cases hr
      obtain ⟨v, hv⟩ := hnone rfl
      dsimp only at hv
      subst hv
      refine hget.trans ?_
      refine dir (s := t) (d := .link i x k v) (t := ({ t with
        linked := update t.linked x true } : Semfs N).dirAt (.leave (some v))) true ?_
        (leave (some v))
      simp [Semfs.execDir, Semfs.touch, Semfs.dirAt, hxt]
    | some e =>
      cases hr
      obtain rfl : vn = none := hsome (by simp)
      exact hget.trans (undir (i := i) (x := x) (k := k) htt hxt)

theorem creatDent (ht : s.table = none) (hr : s.inserted.creatDent m none name s.created
      (firstFree s.sems) = .ok r) :
    Leads (s.inserted.dirAt (.makeDent name (firstFree s.dents) s.created (firstFree s.sems)))
      { r.semfs.give r.resultvn with dir := none } := by
  have hx : s.inserted.destroyed s.created = false := update_self ..
  unfold Semfs.creatDent at hr
  by_cases hdent : m.direntry = false
  · rw [if_pos hdent] at hr
    cases hr
    exact dir false rfl (uninsert ht hx)
  rw [if_neg hdent] at hr
  refine dir true rfl ?_
  by_cases hplace : firstFree s.dents < s.dents.length ∨ m.direntryarray = true
  · have hput : (s.inserted.dirAt (.putDent name (firstFree s.dents) s.created
        (firstFree s.sems))).execDir m.direntryarray (.putDent name (firstFree s.dents) s.created
        (firstFree s.sems)) = .ok ((s.entered name).dirAt
          (.getvnode (.fresh (firstFree s.dents) s.created) (firstFree s.sems))) := by
      refine (if_pos hplace).trans ?_
      rw [show min (firstFree s.dents) (s.inserted.dirAt _).dents.length = firstFree s.dents from
        Nat.min_eq_left (firstFree_le s.dents)]
      rfl
    refine dir m.direntryarray hput (creatVnode (m := m) ht (Semfs.inserted_at s) hx ?_)
    exact (if_pos hplace).symm.trans hr
  · have hfull := (if_neg hplace).symm.trans hr
    cases hfull
    exact dir m.direntryarray (if_neg hplace) (uninsert ht hx)

theorem creatNew (ht : s.table = none) (hr : s.creatNew m name = .ok r) :
    Leads (s.dirAt (.create name (firstFree s.dents)))
      { r.semfs.give r.resultvn with dir := none } := by
  have hx : s.semCreate.destroyed s.created = false := update_self ..
  unfold Semfs.creatNew at hr
  by_cases hsem : m.sem = false
  · rw [if_pos hsem] at hr
    cases hr
    exact dir false rfl (leave none)
  rw [if_neg hsem] at hr
  dsimp only at hr
  refine dir (t := s.semCreate.dirAt (.insert name (firstFree s.dents) s.created)) true rfl ?_
  have hfree : ¬s.table.isSome = true := by simp [ht]
  by_cases hfit : s.InsertFits m
  · rw [Semfs.semInsert_of_fits hfit] at hr
    refine dir (t := s.inserted.dirAt (.makeDent name (firstFree s.dents) s.created
      (firstFree s.sems))) m.semarray ?_ (creatDent ht hr)
    exact (if_neg hfree).trans ((if_neg hfit.1).trans (if_pos hfit.2))
  · obtain ⟨e, he⟩ := Semfs.semInsert_of_not_fits hfit
    rw [he] at hr
    cases hr
    refine dir (t := s.semCreate.dirAt (.uncreate s.created)) m.semarray ?_ (uncreate hx)
    refine (if_neg hfree).trans ?_
    by_cases hroot : s.sems.length = semfsRootdir
    · exact if_pos hroot
    · exact (if_neg hroot).trans (if_neg fun hplace => hfit ⟨hroot, hplace⟩)

end Leads

/-- **The call as a whole is a run of the steps of `Fs.SemfsObjects`** from the call to its return,
which gives the caller a reference to the vnode it returns. -/
theorem semfs_creat_steps {s : Semfs SemfsName} (h : SemfsSettled s) (hd : s.dir = none)
    (ht : s.table = none) {name : SemfsName} {excl : Bool} {m : SemfsMem}
    {r : SemfsReturn SemfsName} (hname : ¬(name = dotName ∨ name = dotdotName))
    (hr : s.creat name excl m = .ok r) : Leads s { r.semfs.give r.resultvn with dir := none } := by
  unfold Semfs.creat at hr
  rw [if_neg hname] at hr
  have hcall : s.exec (.call (.creat name excl)) = .ok (s.dirAt (.scan (.creat name excl))) := by
    simp [Semfs.exec, hd]
  refine .step hcall ?_
  have hscan : (s.dirAt (.scan (.creat name excl))).findDent name = s.findDent name := rfl
  cases hfind : s.findDent name with
  | none =>
    rw [hfind] at hr
    refine .dir (t := s.dirAt (.create name (firstFree s.dents))) true ?_ (.creatNew ht hr)
    simp only [Semfs.execDir, hscan, hfind]
    rfl
  | some found =>
    obtain ⟨i, k⟩ := found
    rw [hfind] at hr
    dsimp only at hr
    cases excl with
    | true =>
      cases hr
      refine .dir (t := s.dirAt (.leave none)) true ?_ (.leave none)
      simp only [Semfs.execDir, hscan, hfind]
      rfl
    | false =>
      have hlive : ∀ x, s.slot k = some x → s.destroyed x = false := fun x hx => h.sems.live hx
      refine .dir (t := s.dirAt (.getvnode .found k)) true ?_
        ((Leads.getvnode ht hlive hr).trans (.leave _))
      simp only [Semfs.execDir, hscan, hfind]
      rfl

theorem semfs_creat_steps_first : ∃ r : SemfsReturn SemfsName,
    semfsCreate.creat semfsNameS true ⟨true, true, true, true, true, true⟩ = .ok r ∧
      r.resultvn ≠ none ∧ Leads semfsCreate { r.semfs.give r.resultvn with dir := none } := by
  have hname : ¬(semfsNameS = dotName ∨ semfsNameS = dotdotName) := by decide
  obtain ⟨r, hr, hvn⟩ : ∃ r : SemfsReturn SemfsName,
      semfsCreate.creat semfsNameS true ⟨true, true, true, true, true, true⟩ = .ok r ∧
        r.resultvn ≠ none := ⟨_, rfl, nofun⟩
  exact ⟨r, hr, hvn, semfs_creat_steps settled_start rfl rfl hname hr⟩

end OsPaging.Fs
