import OsPaging.Lib.Run
import OsPaging.Fs.Errno
import Mathlib.Data.Fintype.Basic

/-!
# The table of known devices

`vfs_getroot`, `vfs_doadd`, `vfs_adddev`, `vfs_addfs`, `vfs_mount`, `vfs_swapon`, `vfs_unmount`,
`vfs_swapoff` and `vfs_unmountall` of `kern/vfs/vfslist.c`. Each holds the big lock from its start
to its end, so that a call is one step, and one that fails leaves the table as it was.

Devices and file systems are any two types. `getvolname` is `FSOP_GETVOLNAME`: for SFS it is the
name that `sfs_domount` read from the disk, for others a constant or `NULL`. The environment decides
whether `kmalloc` fails, what the mount function returns for a device, and what `FSOP_SYNC` and
`FSOP_UNMOUNT` return.

`vfs_doadd` calls `badnames` with all names of the new entry. `vfs_mount` does not: the volume name
enters the table unchecked.
**`known_devs_unambiguous_iff`** says when the names stay apart, **`same_volume_twice`** that they
may not.
-/

namespace OsPaging.Fs

open OsPaging.Lib

variable {D F : Type}

inductive KdFs (F : Type)
  | null
  /-- `SWAP_FS`. -/
  | swap
  | fs (fs : F)
deriving DecidableEq, Repr

/-- `struct knowndev`. -/
structure KnownDev (D F : Type) where
  name : String
  rawname : Option String
  device : Option D
  fs : KdFs F
deriving DecidableEq, Repr

variable (getvolname : F → Option String)

/-- The volume name that is looked at, for an entry with a file system. -/
def KnownDev.volname (kd : KnownDev D F) : Option String :=
  match kd.fs with
  | .fs fs => getvolname fs
  | _ => none

/-- All names of an entry. -/
def KnownDev.names (kd : KnownDev D F) : List String :=
  kd.name :: (kd.rawname.toList ++ (kd.volname getvolname).toList)

def mkrawname (name : String) : String := name ++ "raw"

def samestring : Option String → Option String → Bool
  | some a, some b => a == b
  | _, _ => false

def samestring3 (a b c d : Option String) : Bool :=
  samestring a b || samestring a c || samestring a d

def badnames (kds : List (KnownDev D F)) (n1 n2 n3 : Option String) : Bool :=
  kds.any fun kd => samestring3 (kd.volname getvolname) n1 n2 n3 ||
    (samestring3 kd.rawname n1 n2 n3 || samestring3 (some kd.name) n1 n2 n3)

/-- What `kmalloc` answers in `vfs_doadd`: for the strings, the vnode and the entry, and for the
place in the table. -/
structure AddMemory where
  objects : Bool
  slot : Bool
deriving DecidableEq, Repr

/-- `vfs_doadd` (`vfslist.c:336-440`). -/
def vfsDoadd (kds : List (KnownDev D F)) (mem : AddMemory) (dname : String) (mountable : Bool)
    (dev : Option D) (fs : Option F) : Except Failure (List (KnownDev D F)) :=
  let rawname := if mountable then some (mkrawname dname) else none
  if mem.objects = false then .error (.errno .enomem)
  else if badnames getvolname kds (some dname) rawname (fs.bind getvolname) then
    .error (.errno .eexist)
  else if mem.slot = false then .error (.errno .enomem)
  else .ok (kds ++ [⟨dname, rawname, dev, match fs with | some fs => .fs fs | none => .null⟩])

def findmount (kds : List (KnownDev D F)) (devname : String) : Option (Fin kds.length) :=
  kds.findFinIdx? fun kd => kd.rawname.isSome && devname == kd.name

/-- `vfs_mount` up to the mount function: the entry, and the file system it gets. -/
def mounting (kds : List (KnownDev D F)) (devname : String) (mountfunc : D → Except Errno F) :
    Except Failure (Fin kds.length × F) :=
  match findmount kds devname with
  | none => .error (.errno .enodev)
  | some i =>
    if (kds.get i).fs matches .null then
      match (kds.get i).device with
      | none => .error .halt
      | some dev =>
        match mountfunc dev with
        | .error e => .error (.errno e)
        | .ok fs => .ok (i, fs)
    else .error (.errno .ebusy)

/-- `vfs_mount` (`vfslist.c:517-556`). -/
def vfsMount (kds : List (KnownDev D F)) (devname : String) (mountfunc : D → Except Errno F) :
    Except Failure (List (KnownDev D F)) :=
  match mounting kds devname mountfunc with
  | .error f => .error f
  | .ok (i, fs) => .ok (kds.set i { kds.get i with fs := .fs fs })

/-- `vfs_swapon` (`vfslist.c:563-609`), on the name without a trailing colon. -/
def vfsSwapon (kds : List (KnownDev D F)) (devname : String) :
    Except Failure (List (KnownDev D F)) :=
  match findmount kds devname with
  | none => .error (.errno .enodev)
  | some i =>
    if (kds.get i).fs matches .null then
      match (kds.get i).device with
      | none => .error .halt
      | some _ => .ok (kds.set i { kds.get i with fs := .swap })
    else .error (.errno .ebusy)

/-- `vfs_unmount` (`vfslist.c:615-658`); `sync` and `unmount` are what the file system returns. -/
def vfsUnmount (kds : List (KnownDev D F)) (devname : String) (sync unmount : Option Errno) :
    Except Failure (List (KnownDev D F)) :=
  match findmount kds devname with
  | none => .error (.errno .enodev)
  | some i =>
    if (kds.get i).fs matches .fs _ then
      match (kds.get i).device, sync, unmount with
      | none, _, _ => .error .halt
      | _, some e, _ => .error (.errno e)
      | _, none, some e => .error (.errno e)
      | _, none, none => .ok (kds.set i { kds.get i with fs := .null })
    else .error (.errno .einval)

/-- `vfs_swapoff` (`vfslist.c:667-697`). -/
def vfsSwapoff (kds : List (KnownDev D F)) (devname : String) :
    Except Failure (List (KnownDev D F)) :=
  match findmount kds devname with
  | none => .error (.errno .enodev)
  | some i =>
    if (kds.get i).fs matches .swap then .ok (kds.set i { kds.get i with fs := .null })
    else .error (.errno .einval)

/-- One round of the loop of `vfs_unmountall` (`vfslist.c:713-760`): the file system is synced at
most twice and given up if that fails, or if it cannot be unmounted. -/
def unmountEntry (sync again unmount : F → Option Errno) (kd : KnownDev D F) : KnownDev D F :=
  match kd.rawname, kd.fs with
  | some _, .swap => { kd with fs := .null }
  | some _, .fs fs =>
    if (sync fs).isSome ∧ (again fs).isSome then kd
    else if (unmount fs).isSome then kd
    else { kd with fs := .null }
  | _, _ => kd

def vfsUnmountall (kds : List (KnownDev D F)) (sync again unmount : F → Option Errno) :
    List (KnownDev D F) :=
  kds.map (unmountEntry sync again unmount)

/-! ## Looking a name up -/

/-- What `vfs_getroot` returns. -/
inductive Getroot (D F : Type)
  /-- The root of the file system. -/
  | root (fs : F)
  /-- The vnode of the device. -/
  | device (dev : D)
  | errno (e : Errno)
  | halt
deriving DecidableEq, Repr

/-- One round of the loop of `vfs_getroot` (`vfslist.c:189-246`): what an entry answers to a name,
if the loop ends with it. -/
def KnownDev.answer (kd : KnownDev D F) (devname : String) : Option (Getroot D F) :=
  let named := kd.name == devname
  let vnode : Getroot D F :=
    match kd.device with
    | some dev => .device dev
    | none => .halt
  let rest : Option (Getroot D F) :=
    if named then some (if kd.fs matches .null ∧ kd.rawname = none then vnode else .halt)
    else if kd.rawname = some devname then some vnode
    else none
  match kd.fs with
  | .fs fs => if named || getvolname fs == some devname then some (.root fs) else rest
  | _ => if kd.rawname.isSome && named then some (.errno .enxio) else rest

def vfsGetroot (kds : List (KnownDev D F)) (devname : String) : Getroot D F :=
  match kds.findSome? (·.answer getvolname devname) with
  | some r => r
  | none => .errno .enodev

/-! ## Calls -/

/-- The calls that change the table. -/
inductive VfsCall (D F : Type)
  | adddev (devname : String) (dev : Option D) (mountable : Bool) (mem : AddMemory)
  | addfs (devname : String) (fs : Option F) (mem : AddMemory)
  | mount (devname : String) (mountfunc : D → Except Errno F)
  | swapon (devname : String)
  | unmount (devname : String) (synced unmounted : Option Errno)
  | swapoff (devname : String)
  | unmountall (sync again unmounted : F → Option Errno)

def VfsCall.exec (kds : List (KnownDev D F)) : VfsCall D F → Except Failure (List (KnownDev D F))
  | .adddev devname dev mountable mem => vfsDoadd getvolname kds mem devname mountable dev none
  | .addfs devname fs mem => vfsDoadd getvolname kds mem devname false none fs
  | .mount devname mountfunc => vfsMount kds devname mountfunc
  | .swapon devname => vfsSwapon kds devname
  | .unmount devname synced unmounted => vfsUnmount kds devname synced unmounted
  | .swapoff devname => vfsSwapoff kds devname
  | .unmountall sync again unmounted => .ok (vfsUnmountall kds sync again unmounted)

/-- The table after a call that returns. -/
def VfsCall.after (kds : List (KnownDev D F)) (c : VfsCall D F) : Option (List (KnownDev D F)) :=
  match c.exec getvolname kds with
  | .ok kds' => some kds'
  | .error (.errno _) => some kds
  | .error .halt => none

/-! ## Names of one entry only -/

/-- No string is a name of two entries. -/
def Unambiguous (kds : List (KnownDev D F)) : Prop :=
  ∀ (i j : Nat) (a b : KnownDev D F), kds[i]? = some a → kds[j]? = some b →
    ∀ n ∈ a.names getvolname, n ∈ b.names getvolname → i = j

/-- At most one entry answers to a name, and its answer is the result of `vfs_getroot`. -/
def ResolvesOnce (kds : List (KnownDev D F)) : Prop :=
  ∀ (devname : String) (i : Nat) (a : KnownDev D F) (r : Getroot D F),
    kds[i]? = some a → a.answer getvolname devname = some r →
    (∀ (j : Nat) (b : KnownDev D F), kds[j]? = some b → b.answer getvolname devname ≠ none → j = i)
      ∧
      vfsGetroot getvolname kds devname = r

/-- The volume name that a call lets in is not a name of another entry. -/
def FreshVolume (kds : List (KnownDev D F)) : VfsCall D F → Prop
  | .mount devname mountfunc => ∀ i fs n, mounting kds devname mountfunc = .ok (i, fs) →
      getvolname fs = some n → ∀ j, j ≠ i → n ∉ (kds.get j).names getvolname
  | _ => True

variable {getvolname}

theorem samestring_iff {a b : Option String} :
    samestring a b = true ↔ ∃ n, a = some n ∧ b = some n := by
  cases a <;> cases b <;> simp [samestring, @eq_comm String]

theorem samestring3_iff {a b c d : Option String} :
    samestring3 a b c d = true ↔ ∃ n, a = some n ∧ (b = some n ∨ c = some n ∨ d = some n) := by
  simp only [samestring3, Bool.or_eq_true, samestring_iff, ← exists_or, ← and_or_left, or_assoc]

theorem KnownDev.mem_names {kd : KnownDev D F} {n : String} :
    n ∈ kd.names getvolname ↔
      kd.name = n ∨ kd.rawname = some n ∨ kd.volname getvolname = some n := by
  simp [KnownDev.names, Option.mem_toList, eq_comm]

theorem badnames_iff {kds : List (KnownDev D F)} {n1 n2 n3 : Option String} :
    badnames getvolname kds n1 n2 n3 = true ↔
      ∃ kd ∈ kds, ∃ n ∈ kd.names getvolname, n1 = some n ∨ n2 = some n ∨ n3 = some n := by
  simp only [badnames, List.any_eq_true, Bool.or_eq_true, samestring3_iff, KnownDev.mem_names]
  grind

theorem KnownDev.mem_names_of_answer {kd : KnownDev D F} {devname : String}
    (h : kd.answer getvolname devname ≠ none) : devname ∈ kd.names getvolname := by
  rw [KnownDev.mem_names]
  by_contra hno
  simp only [not_or] at hno
  obtain ⟨hname, hraw, hvol⟩ := hno
  refine h ?_
  unfold KnownDev.answer
  cases hfs : kd.fs with
  | fs fs =>
    have hvol' : getvolname fs ≠ some devname := by simpa [KnownDev.volname, hfs] using hvol
    simp [hname, hraw, hvol']
  | null | swap => simp [hname, hraw]

namespace Unambiguous

variable {kds kds' : List (KnownDev D F)} {i : Nat} {kd kd' : KnownDev D F}

theorem nil : Unambiguous getvolname ([] : List (KnownDev D F)) :=
  fun _ _ _ _ h => absurd h (by simp)

variable (h : Unambiguous getvolname kds)
include h

theorem append (hnew : ∀ a ∈ kds, ∀ n ∈ a.names getvolname, n ∉ kd.names getvolname) :
    Unambiguous getvolname (kds ++ [kd]) := by
  have hget : ∀ {k : Nat} {c : KnownDev D F}, (kds ++ [kd])[k]? = some c →
      kds[k]? = some c ∨ k = kds.length ∧ c = kd := by
    grind
  intro i j a b hi hj n ha hb
  rcases hget hi with hi' | ⟨rfl, rfl⟩ <;> rcases hget hj with hj' | ⟨rfl, rfl⟩
  · exact h i j a b hi' hj' n ha hb
  · grind
  · grind
  · rfl

/-- An entry changes: each of its names it had before, or nobody else has. -/
theorem set (hi : kds[i]? = some kd)
    (hnew : ∀ n ∈ kd'.names getvolname, n ∈ kd.names getvolname ∨
      ∀ j b, j ≠ i → kds[j]? = some b → n ∉ b.names getvolname) :
    Unambiguous getvolname (kds.set i kd') := by
  have hother : ∀ {j : Nat} {b : KnownDev D F} {n : String}, kds[j]? = some b →
      n ∈ kd'.names getvolname → n ∈ b.names getvolname → i = j := by
    intro j b n hj hn hb
    by_contra hne
    rcases hnew n hn with hold | hfresh
    · exact hne (h i j kd b hi hj n hold hb)
    · exact hfresh j b (Ne.symm hne) hj hb
  have hget : ∀ {j : Nat} {b : KnownDev D F}, (kds.set i kd')[j]? = some b →
      i = j ∧ b = kd' ∨ kds[j]? = some b := by
    grind
  intro j k a b hj hk n ha hb
  rcases hget hj with ⟨rfl, rfl⟩ | hj' <;> rcases hget hk with ⟨rfl, rfl⟩ | hk'
  · rfl
  · exact hother hk' ha hb
  · exact (hother hj' hb ha).symm
  · exact h j k a b hj' hk' n ha hb

theorem shrink (hi : kds[i]? = some kd) (hsub : kd'.names getvolname ⊆ kd.names getvolname) :
    Unambiguous getvolname (kds.set i kd') :=
  h.set hi fun _ hn => .inl (hsub hn)

theorem map {f : KnownDev D F → KnownDev D F}
    (hf : ∀ kd, (f kd).names getvolname ⊆ kd.names getvolname) :
    Unambiguous getvolname (kds.map f) := by
  intro i j a b hi hj n ha hb
  rw [List.getElem?_map, Option.map_eq_some_iff] at hi hj
  obtain ⟨a, hi, rfl⟩ := hi
  obtain ⟨b, hj, rfl⟩ := hj
  exact h i j a b hi hj n (hf a ha) (hf b hb)

/-- The entry that answers is the one `vfs_getroot` finds. -/
theorem resolvesOnce : ResolvesOnce getvolname kds := by
  intro devname i a r hi ha
  have honly : ∀ j b, kds[j]? = some b → b.answer getvolname devname ≠ none → j = i := by
    intro j b hj hb
    refine h j i b a hj hi devname (KnownDev.mem_names_of_answer hb) ?_
    exact KnownDev.mem_names_of_answer (by simp [ha])
  refine ⟨honly, ?_⟩
  unfold vfsGetroot
  cases hfind : kds.findSome? (·.answer getvolname devname) with
  | none =>
    grind
  | some r' =>
    obtain ⟨b, hb, hr'⟩ := List.exists_of_findSome?_eq_some hfind
    obtain ⟨j, hj⟩ := List.getElem?_of_mem hb
    grind

end Unambiguous

/-- Without the file system an entry keeps its two other names. -/
theorem KnownDev.names_subset {kd : KnownDev D F} {fs : KdFs F} (hfs : ∀ f, fs ≠ .fs f) :
    ({ kd with fs := fs } : KnownDev D F).names getvolname ⊆ kd.names getvolname := by
  intro n hn
  rw [KnownDev.mem_names] at hn ⊢
  rcases hn with h | h | h
  · exact .inl h
  · exact .inr (.inl h)
  · cases fs with
    | fs f => exact absurd rfl (hfs f)
    | _ => exact absurd h (by simp [KnownDev.volname])

/-! ## Runs -/

section Step

variable {kds kds' : List (KnownDev D F)} {devname : String}

theorem getElem?_get (i : Fin kds.length) : kds[i.val]? = some (kds.get i) :=
  List.getElem?_eq_getElem i.isLt

/-- The other calls on an entry take its file system away, or a place for swap. -/
theorem vfsSwapon_ok (h : vfsSwapon kds devname = .ok kds') :
    ∃ i, kds' = kds.set i.val { kds.get i with fs := .swap } := by
  unfold vfsSwapon at h
  grind

theorem vfsUnmount_ok {sync unmount : Option Errno}
    (h : vfsUnmount kds devname sync unmount = .ok kds') :
    ∃ i, kds' = kds.set i.val { kds.get i with fs := .null } := by
  unfold vfsUnmount at h
  grind

theorem vfsSwapoff_ok (h : vfsSwapoff kds devname = .ok kds') :
    ∃ i, kds' = kds.set i.val { kds.get i with fs := .null } := by
  unfold vfsSwapoff at h
  grind

variable (h : Unambiguous getvolname kds)
include h

theorem Unambiguous.doadd {mem : AddMemory} {mountable : Bool} {dev : Option D} {fs : Option F}
    (hadd : vfsDoadd getvolname kds mem devname mountable dev fs = .ok kds') :
    Unambiguous getvolname kds' := by
  unfold vfsDoadd at hadd
  simp only at hadd
  generalize (if mountable = true then some (mkrawname devname) else none) = rawname at hadd
  split_ifs at hadd with _ hbad
  cases hadd
  refine h.append fun a ha n hn hnew => hbad (badnames_iff.mpr ⟨a, ha, n, hn, ?_⟩)
  rw [KnownDev.mem_names] at hnew
  refine hnew.imp (congrArg some) (Or.imp id fun hvol => ?_)
  cases fs with
  | none => simp [KnownDev.volname] at hvol
  | some fs => exact hvol

/-- A mount keeps the names apart if and only if the volume name is new. -/
theorem Unambiguous.mount_iff {mountfunc : D → Except Errno F}
    (hm : vfsMount kds devname mountfunc = .ok kds') :
    Unambiguous getvolname kds' ↔ FreshVolume getvolname kds (.mount devname mountfunc) := by
  unfold vfsMount at hm
  cases hx : mounting kds devname mountfunc with
  | error f => rw [hx] at hm; cases hm
  | ok p =>
    obtain ⟨i, fs⟩ := p
    rw [hx] at hm
    cases hm
    constructor
    · intro h' i' fs' n hx' hn j hj hmem
      obtain ⟨rfl, rfl⟩ : i = i' ∧ fs = fs' := by simpa [hx] using hx'
      have hne : i.val ≠ j.val := fun he => hj (Fin.ext he.symm)
      refine hne (h' i j { kds.get i with fs := .fs fs } (kds.get j) ?_ ?_ n ?_ hmem)
      · exact List.getElem?_set_self i.isLt
      · grind
      · exact KnownDev.mem_names.mpr (.inr (.inr hn))
    · intro hfresh
      refine h.set (getElem?_get i) fun n hn => ?_
      rcases KnownDev.mem_names.mp hn with hname | hraw | hv
      · exact .inl (KnownDev.mem_names.mpr (.inl hname))
      · exact .inl (KnownDev.mem_names.mpr (.inr (.inl hraw)))
      · refine .inr fun j b hj hb => ?_
        obtain ⟨hlt, rfl⟩ := List.getElem?_eq_some_iff.mp hb
        exact hfresh i fs n hx hv ⟨j, hlt⟩ fun he => hj (congrArg Fin.val he)

theorem Unambiguous.after_iff {c : VfsCall D F} (hc : c.after getvolname kds = some kds') :
    Unambiguous getvolname kds' ↔ FreshVolume getvolname kds c := by
  unfold VfsCall.after at hc
  cases hx : c.exec getvolname kds with
  | error f =>
    cases f with
    | halt => simp [hx] at hc
    | errno e =>
      obtain rfl : kds = kds' := by simpa [hx] using hc
      refine iff_of_true h ?_
      cases c with
      | mount devname mountfunc =>
        -- a mount that fails lets no name in
        intro i fs n hok
        simp [VfsCall.exec, vfsMount, hok] at hx
      | _ => trivial
  | ok kds1 =>
    obtain rfl : kds1 = kds' := by simpa [hx] using hc
    cases c with
    | adddev devname dev mountable mem | addfs devname fs mem =>
      exact iff_of_true (h.doadd hx) trivial
    | mount devname mountfunc => exact h.mount_iff hx
    | swapon devname =>
      obtain ⟨i, rfl⟩ := vfsSwapon_ok hx
      exact iff_of_true (h.shrink (getElem?_get i) (KnownDev.names_subset nofun)) trivial
    | unmount devname synced unmounted =>
      obtain ⟨i, rfl⟩ := vfsUnmount_ok hx
      exact iff_of_true (h.shrink (getElem?_get i) (KnownDev.names_subset nofun)) trivial
    | swapoff devname =>
      obtain ⟨i, rfl⟩ := vfsSwapoff_ok hx
      exact iff_of_true (h.shrink (getElem?_get i) (KnownDev.names_subset nofun)) trivial
    | unmountall sync again unmounted =>
      cases hx
      refine iff_of_true (h.map fun kd => ?_) trivial
      unfold unmountEntry
      split
      · exact KnownDev.names_subset nofun
      · split_ifs
        · exact fun _ => id
        · exact fun _ => id
        · exact KnownDev.names_subset nofun
      · exact fun _ => id

end Step

/-- In every state of a run no string names two entries, and `vfs_getroot` finds for each name the
one entry that answers to it, **if and only if** each volume name that a `vfs_mount` of the run lets
in is not a name of another entry at that time. -/
theorem known_devs_unambiguous_iff {calls : List (VfsCall D F)} {kds : List (KnownDev D F)}
    (hr : Run (fun kds c kds' => VfsCall.after getvolname kds c = some kds') [] calls kds) :
    (∀ pre kds₁, pre <+: calls →
      Run (fun kds c kds' => VfsCall.after getvolname kds c = some kds') [] pre kds₁ →
      Unambiguous getvolname kds₁ ∧ ResolvesOnce getvolname kds₁) ↔
    ∀ pre c kds₁, pre ++ [c] <+: calls →
      Run (fun kds c kds' => VfsCall.after getvolname kds c = some kds') [] pre kds₁ →
      FreshVolume getvolname kds₁ c := by
  constructor
  · intro h pre c kds₁ hpre hr₁
    obtain ⟨kds₂, hr₂⟩ := hr.exists_of_prefix hpre
    obtain ⟨kds₁', hr₁', hc⟩ := hr₂.last
    obtain rfl := hr₁.det (fun _ _ _ _ h h' => Option.some.inj (h.symm.trans h')) hr₁'
    have hpre₁ : pre <+: calls := (List.prefix_append pre [c]).trans hpre
    exact ((h pre _ hpre₁ hr₁).1.after_iff hc).mp (h _ _ hpre hr₂).1
  · intro h pre kds₁ hpre hr₁
    have hun : Unambiguous getvolname kds₁ := by
      induction hr₁ with
      | nil => exact .nil
      | snoc hr hc ih =>
        have hpre' := (List.prefix_append _ _).trans hpre
        exact ((ih hpre').after_iff hc).mpr (h _ _ _ hpre hr)
    exact ⟨hun, hun.resolvesOnce⟩

/-- Devices 64 and 128 are added as `lhd0` and `lhd1`, and mounted with the volumes they hold. -/
abbrev twoDisks (volname : Nat → String) : List (VfsCall Nat String) :=
  [.adddev "lhd0" (some 64) true ⟨true, true⟩, .adddev "lhd1" (some 128) true ⟨true, true⟩,
    .mount "lhd0" fun d => .ok (volname d), .mount "lhd1" fun d => .ok (volname d)]

/-- The table after the four calls. -/
abbrev twoMounted (volname : Nat → String) : List (KnownDev Nat String) :=
  [⟨"lhd0", some "lhd0raw", some 64, .fs (volname 64)⟩,
    ⟨"lhd1", some "lhd1raw", some 128, .fs (volname 128)⟩]

theorem run_twoDisks (volname : Nat → String) :
    Run (fun kds c kds' => VfsCall.after (D := Nat) some kds c = some kds') [] (twoDisks volname)
      (twoMounted volname) :=
  Run.of_foldlM (fun _ _ _ => id) rfl

/-- Volumes with two names: the names stay apart. -/
theorem known_devs_unambiguous_two_names :
    Unambiguous some (twoMounted fun d => if d = 64 then "home" else "data") := by
  refine ((known_devs_unambiguous_iff (run_twoDisks _)).mpr ?_ _ _ (List.prefix_refl _)
    (run_twoDisks _)).1
  rintro pre c kds ⟨suf, hpre⟩ hr
  have hdet {kds' : List (KnownDev Nat String)}
      (h : pre.foldlM (VfsCall.after some) [] = some kds') :
      kds = kds' :=
    hr.det (fun _ _ _ _ h h' => Option.some.inj (h.symm.trans h'))
      (Run.of_foldlM (fun _ _ _ => id) h)
  match pre, hpre with
  | [], h => cases h; trivial
  | [_], h => cases h; trivial
  | [_, _], h =>
    cases h
    obtain rfl : kds = [⟨"lhd0", some "lhd0raw", some 64, .null⟩,
      ⟨"lhd1", some "lhd1raw", some 128, .null⟩] := hdet rfl
    rintro i fs n hm hv
    cases (show Except.ok ((0 : Fin 2), "home") = Except.ok (i, fs) from hm)
    cases hv
    decide
  | [_, _, _], h =>
    cases h
    obtain rfl : kds = [⟨"lhd0", some "lhd0raw", some 64, .fs "home"⟩,
      ⟨"lhd1", some "lhd1raw", some 128, .null⟩] := hdet rfl
    rintro i fs n hm hv
    cases (show Except.ok ((1 : Fin 2), "data") = Except.ok (i, fs) from hm)
    cases hv
    decide
  | _ :: _ :: _ :: _ :: _, h => exact absurd (congrArg List.length h) (by simp)

/-- Both disks hold a volume of the name `vol`. Both are mounted, and `vol` names two entries:
`vfs_getroot` takes the first. -/
theorem same_volume_twice :
    Run (fun kds c kds' => VfsCall.after (D := Nat) some kds c = some kds') []
        (twoDisks fun _ => "vol") (twoMounted fun _ => "vol") ∧
      ¬ Unambiguous some (twoMounted fun _ => "vol") ∧
      ¬ ResolvesOnce some (twoMounted fun _ => "vol") := by
  refine ⟨run_twoDisks _, fun h => ?_, fun h => ?_⟩
  · exact absurd (h 0 1 _ _ rfl rfl "vol" (by decide) (by decide)) (by decide)
  · exact absurd ((h "vol" 0 _ (.root "vol") rfl (by decide)).1 1 _ rfl (by decide)) (by decide)

end OsPaging.Fs
