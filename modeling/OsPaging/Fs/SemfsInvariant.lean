import OsPaging.Fs.SemfsTables

/-!
# The invariant of the semaphore file system

The tables of `Fs.SemfsTables`, what the holders of the two locks rely on at each place (`DirOk`,
`TableOk`), and who has to destroy which semaphore (`SemfsLedger`). `DirOk.mono` and `TableOk.mono`
say which changes by the one holder do not matter to the other.
-/

namespace OsPaging.Fs

open OsPaging.Lib
open Function (update update_apply)

variable {N : Type}

/-! ## What a call is about -/

namespace SemfsDirPc

/-- The reference that the call will return. -/
def ref : SemfsDirPc N → Option Nat
  | .link _ _ _ v => some v
  | .leave r => r
  | _ => none

/-- The directory entry that does not have the number of a linked semaphore for now. -/
def index : SemfsDirPc N → Option Nat
  | .getvnode (.fresh i _) _ | .link i _ _ _ | .undir i _ _ | .test i _ _ | .clear i _ _
  | .unlockSem i _ _ _ | .destroy i _ | .dropDent i => some i
  | _ => none

/-- The semaphore that `semfs_creat` is making. -/
def making : SemfsDirPc N → Option Nat
  | .insert _ _ x | .makeDent _ _ x _ | .putDent _ _ x _ | .getvnode (.fresh _ x) _ | .link _ x _ _
  | .undir _ x _ | .uninsert x _ | .uncreate x => some x
  | _ => none

/-- The semaphore that `semfs_remove` has unlinked and still uses. -/
def unlinking : SemfsDirPc N → Option Nat
  | .test _ _ x | .clear _ _ x | .unlockSem _ _ x _ | .destroy _ x => some x
  | _ => none

/-- The semaphore that is the call's to destroy, unless it gets a link or a vnode. -/
def dropping : SemfsDirPc N → Option Nat
  | .makeDent _ _ x _ | .putDent _ _ x _ | .getvnode (.fresh _ x) _ | .undir _ x _ | .uninsert x _
  | .test _ _ x | .clear _ _ x => some x
  | _ => none

/-- The semaphore that is not in the table, or not any more. -/
def loose : SemfsDirPc N → Option Nat
  | .insert _ _ x | .uncreate x | .unlockSem _ _ x true | .destroy _ x => some x
  | _ => none

theorem mine_of_loose {d : SemfsDirPc N} {x : Nat} (h : d.loose = some x) :
    d.making = some x ∨ d.unlinking = some x := by
  cases d with
  | unlockSem _ _ _ last => cases last <;> simp_all [loose, unlinking]
  | _ => simp_all [loose, making, unlinking]

/-- The call is in `semfs_getvnode`. -/
def inGetvnode : SemfsDirPc N → Bool
  | .getvnode _ _ => true
  | _ => false

end SemfsDirPc

namespace SemfsTablePc

def ref : SemfsTablePc → Option Nat
  | .got _ r => r
  | .count v | .drop v => some v
  | _ => none

/-- The semaphore, with its number, whose vnode has left the table and whose flag is still set. -/
def taken : SemfsTablePc → Option (Nat × Nat)
  | .unvnode x k => some (x, k)
  | _ => none

/-- The semaphore whose `sems_linked` is read next. -/
def reading : SemfsTablePc → Option Nat
  | .test x _ => some x
  | _ => none

def dropping : SemfsTablePc → Option Nat
  | .test x _ | .clear x _ => some x
  | _ => none

def loose : SemfsTablePc → Option Nat
  | .destroy x => some x
  | _ => none

end SemfsTablePc

/-! ## The invariant -/

namespace Semfs

variable (s : Semfs N)

/-- `k` is the number of a linked semaphore. -/
def Named (k : Nat) : Prop := ∃ x, s.slot k = some x ∧ s.linked x = true

/-- The entry at `i` is there, and its number is not that of a linked semaphore. -/
def Unnamed (i : Nat) : Prop :=
  ∃ n k, s.dent i = some (n, k) ∧ ∀ x, s.slot k = some x → s.linked x = false

/-- The semaphore `x` with number `k` has no link and no vnode. -/
structure Unused (x k : Nat) : Prop where
  slot : s.slot k = some x
  linked : s.linked x = false
  hasvnode : s.hasvnode x = false

/-- Nobody can find the semaphore. -/
structure Loose (x : Nat) : Prop where
  created : x < s.created
  live : s.destroyed x = false
  linked : s.linked x = false
  hasvnode : s.hasvnode x = false
  slot : ∀ k, s.slot k ≠ some x

/-- What the holder of the dirlock relies on. -/
def DirOk : SemfsDirPc N → Prop
  | .scan _ | .leave _ => True
  | .getvnode .found k => s.Named k
  | .create _ i => s.dent i = none
  | .insert _ i x => s.dent i = none ∧ s.Loose x
  | .makeDent _ i x k | .putDent _ i x k => s.dent i = none ∧ s.Unused x k
  | .getvnode (.fresh i x) k => (∃ n, s.dent i = some (n, k)) ∧ s.slot k = some x ∧
      s.linked x = false ∧ (s.hasvnode x = true → ∃ v, s.table = some (.got true (some v)))
  | .link i x k v => (∃ n, s.dent i = some (n, k)) ∧ s.slot k = some x ∧ s.linked x = false ∧
      s.semnum v = k
  | .undir i x k | .clear i k x => (∃ n, s.dent i = some (n, k)) ∧ s.Unused x k
  | .uninsert x k => s.Unused x k
  | .uncreate x => s.Loose x
  | .getsem i k => (∃ n, s.dent i = some (n, k)) ∧ s.Named k
  | .lockSem i k x | .unlink i k x =>
      (∃ n, s.dent i = some (n, k)) ∧ s.slot k = some x ∧ s.linked x = true
  | .test i k x | .unlockSem i k x false =>
      (∃ n, s.dent i = some (n, k)) ∧ s.slot k = some x ∧ s.linked x = false
  | .unlockSem i _ x true | .destroy i x => s.Unnamed i ∧ s.Loose x
  | .dropDent i => s.Unnamed i

/-- The holder of the dirlock does not have the semaphore. -/
def Apart (x : Nat) : Prop := ∀ d, s.dir = some d → d.making ≠ some x ∧ d.unlinking ≠ some x

/-- What the holder of the tablelock relies on. -/
def TableOk : SemfsTablePc → Prop
  | .find true k => ∃ c, s.dir = some (.getvnode c k)
  | .find false k => k = semfsRootdir
  | .make true k => (∃ c, s.dir = some (.getvnode c k)) ∧ ∀ v ∈ s.vnodes, s.semnum v ≠ k
  | .make false k => k = semfsRootdir ∧ ∀ v ∈ s.vnodes, s.semnum v ≠ k
  | .got true r => ∃ c k, s.dir = some (.getvnode c k) ∧ ∀ v, r = some v → s.semnum v = k
  | .got false _ | .count _ | .unlock => True
  | .drop v => s.refcount v ≤ 1
  | .unvnode x k => s.slot k = some x ∧ s.hasvnode x = true ∧ ∀ v ∈ s.vnodes, s.semnum v ≠ k
  | .test x k => s.slot k = some x ∧ s.hasvnode x = false ∧
      ∀ d, s.dir = some d → d.making ≠ some x
  | .clear x k => s.Unused x k ∧ s.Apart x
  | .destroy x => s.Loose x ∧ s.Apart x

end Semfs

/-- Who has to destroy what: a semaphore in the table without link and vnode is somebody's to
destroy, and so is one that was taken out. -/
structure SemfsLedger (s : Semfs N) (d : Option (SemfsDirPc N)) (p : Option SemfsTablePc) :
    Prop where
  unused : ∀ {k x}, s.Unused x k → d.bind (·.dropping) = some x ∨ p.bind (·.dropping) = some x
  loose : ∀ {x}, x < s.created → s.destroyed x = false →
    (∃ k, s.slot k = some x) ∨ d.bind (·.loose) = some x ∨ p.bind (·.loose) = some x

structure SemfsInv (s : Semfs N) : Prop where
  sems : SemTable s.slot s.destroyed s.created
  bound : s.sems.length ≤ semfsRootdir
  dead : ∀ x, s.destroyed x = true → s.linked x = false ∧ s.hasvnode x = false
  dents : DirTable s.dent s.slot s.linked (s.dir.bind (·.index))
  vnodes : VnodeTable s.vnodes s.semnum s.made s.slot s.hasvnode (s.table.bind (·.taken))
  refs : VnodeRefs s.vnodes s.refcount s.held s.pending (s.dir.bind (·.ref)) (s.table.bind (·.ref))
  ledger : SemfsLedger s s.dir s.table
  dirOk : ∀ d, s.dir = some d → s.DirOk d
  tableOk : ∀ p, s.table = some p → s.TableOk p

namespace Semfs

variable {s s' : Semfs N}

theorem slot_clearSlot (s : Semfs N) (k : Nat) : (s.clearSlot k).slot = update s.slot k none :=
  funext fun j => by simp only [slot, clearSlot, slotAt_set_none, update_apply]

theorem dent_clearDent (s : Semfs N) (i : Nat) : (s.clearDent i).dent = update s.dent i none :=
  funext fun j => by simp only [dent, clearDent, slotAt_set_none, update_apply]

theorem slot_insert (s : Semfs N) (x : Nat) :
    ({ s with sems := putAt s.sems (firstFree s.sems) x } : Semfs N).slot =
      update s.slot (firstFree s.sems) (some x) :=
  funext fun j => by
    simp only [slot, slotAt_putAt, update_apply, Nat.min_eq_left (firstFree_le s.sems)]

theorem dent_put (s : Semfs N) (i : Nat) (a : N × Nat) :
    ({ s with dents := putAt s.dents i a } : Semfs N).dent =
      update s.dent (min i s.dents.length) (some a) :=
  funext fun j => by simp only [dent, slotAt_putAt, update_apply]

theorem findDent_some [DecidableEq N] {name : N} {i k : Nat} (h : s.findDent name = some (i, k)) :
    ∃ n, s.dent i = some (n, k) := by
  unfold findDent at h
  obtain ⟨j, -, hj⟩ := Option.bind_eq_some_iff.mp h
  obtain ⟨⟨n, k'⟩, hd, he⟩ := Option.map_eq_some_iff.mp hj
  grind

/-- What the holder of the tablelock changes does not matter to the holder of the dirlock. -/
theorem DirOk.mono {d : SemfsDirPc N} (h : s.DirOk d) (hdent : s'.dent = s.dent)
    (hlinked : s'.linked = s.linked) (hcreated : s'.created = s.created)
    (hslot : ∀ k x, s.slot k = some x → s'.slot k = some x ∨
      s.linked x = false ∧ d.making ≠ some x ∧ d.unlinking ≠ some x)
    (hsub : ∀ k x, s'.slot k = some x → s.slot k = some x)
    (hvnode : ∀ x, s.hasvnode x = false → s'.hasvnode x = false)
    (hlive : ∀ x, d.loose = some x → s.destroyed x = false → s'.destroyed x = false)
    (hsemnum : ∀ v, d.ref = some v → s'.semnum v = s.semnum v)
    (hget : ∀ i x k, d = .getvnode (.fresh i x) k → s'.hasvnode x = true →
      ∃ v, s'.table = some (.got true (some v))) : s'.DirOk d := by
  have hkeep : ∀ {k x}, d.making = some x ∨ d.unlinking = some x ∨ s.linked x = true →
      s.slot k = some x → s'.slot k = some x := by grind
  have hnamed : ∀ {k}, s.Named k → s'.Named k := by
    rintro k ⟨x, hx, hl⟩
    exact ⟨x, hkeep (.inr (.inr hl)) hx, hlinked ▸ hl⟩
  have hunused : ∀ {x k}, d.making = some x ∨ d.unlinking = some x → s.Unused x k →
      s'.Unused x k := fun hd hu =>
    ⟨hkeep (hd.imp id .inl) hu.slot, hlinked ▸ hu.linked, hvnode _ hu.hasvnode⟩
  have hloose : ∀ {x}, d.loose = some x → s.Loose x → s'.Loose x := fun hd hl =>
    ⟨hcreated ▸ hl.created, hlive _ hd hl.live, hlinked ▸ hl.linked, hvnode _ hl.hasvnode,
      fun k hk => hl.slot k (hsub k _ hk)⟩
  have hunnamed : ∀ {i}, s.Unnamed i → s'.Unnamed i := by
    rintro i ⟨n, k, hi, hk⟩
    exact ⟨n, k, hdent ▸ hi, fun x hx => hlinked ▸ hk x (hsub k x hx)⟩
  cases d with
  | scan | leave => trivial
  | getvnode c k =>
    cases c with
    | found => exact hnamed h
    | fresh i x => exact ⟨hdent ▸ h.1, hkeep (.inl rfl) h.2.1, hlinked ▸ h.2.2.1, hget i x k rfl⟩
  | create n i => exact (hdent ▸ h : s'.dent i = none)
  | insert => exact ⟨hdent ▸ h.1, hloose rfl h.2⟩
  | makeDent | putDent | undir => exact ⟨hdent ▸ h.1, hunused (.inl rfl) h.2⟩
  | link i x k v =>
    exact ⟨hdent ▸ h.1, hkeep (.inl rfl) h.2.1, hlinked ▸ h.2.2.1, (hsemnum v rfl).trans h.2.2.2⟩
  | uninsert => exact hunused (.inl rfl) h
  | uncreate => exact hloose rfl h
  | getsem => exact ⟨hdent ▸ h.1, hnamed h.2⟩
  | lockSem | unlink => exact ⟨hdent ▸ h.1, hkeep (.inr (.inr h.2.2)) h.2.1, hlinked ▸ h.2.2⟩
  | test => exact ⟨hdent ▸ h.1, hkeep (.inr (.inl rfl)) h.2.1, hlinked ▸ h.2.2⟩
  | clear => exact ⟨hdent ▸ h.1, hunused (.inr rfl) h.2⟩
  | unlockSem i k x last =>
    cases last with
    | false => exact ⟨hdent ▸ h.1, hkeep (.inr (.inl rfl)) h.2.1, hlinked ▸ h.2.2⟩
    | true => exact ⟨hunnamed h.1, hloose rfl h.2⟩
  | destroy => exact ⟨hunnamed h.1, hloose rfl h.2⟩
  | dropDent => exact hunnamed h

/-- What the holder of the dirlock changes does not matter to the holder of the tablelock, unless
they are the same. -/
theorem TableOk.mono {p : SemfsTablePc} {d : SemfsDirPc N} (h : s.TableOk p) (hd : s.dir = some d)
    (hnot : d.inGetvnode = false) (hslot : s'.slot = s.slot) (hvnodes : s'.vnodes = s.vnodes)
    (hsemnum : s'.semnum = s.semnum) (hrefcount : s'.refcount = s.refcount)
    (hcreated : s.created ≤ s'.created)
    (hvnode : ∀ x, x < s.created → s'.hasvnode x = s.hasvnode x)
    (hlinked : ∀ x, x < s.created → s.linked x = false → s'.linked x = false ∨ d.making = some x)
    (hlive : ∀ x, x < s.created → s.destroyed x = false →
      s'.destroyed x = false ∨ d.making = some x ∨ d.unlinking = some x)
    (hlt : ∀ k x, s.slot k = some x → x < s.created)
    (hmaking : ∀ d' x, s'.dir = some d' → x < s.created → d'.making = some x → d.making = some x)
    (hunlinking : ∀ d' x, s'.dir = some d' → d'.unlinking = some x →
      d.unlinking = some x ∨ s.linked x = true) : s'.TableOk p := by
  have hapart : ∀ {x}, x < s.created → s.linked x = false → s.Apart x → s'.Apart x := by
    intro x hx hl ha d' hd'
    grind [ha d hd]
  -- the holder of the dirlock is not in `semfs_getvnode`
  have hout : ∀ c k, s.dir ≠ some (.getvnode c k) := by
    rintro c k hc
    cases hd.symm.trans hc
    cases hnot
  cases p with
  | count | unlock => trivial
  | find dir k =>
    cases dir with
    | false => exact h
    | true => exact absurd h.choose_spec (hout _ _)
  | make dir k =>
    cases dir with
    | false => exact ⟨h.1, hvnodes ▸ hsemnum ▸ h.2⟩
    | true => exact absurd h.1.choose_spec (hout _ _)
  | got dir r =>
    cases dir with
    | false => trivial
    | true => exact absurd h.choose_spec.choose_spec.1 (hout _ _)
  | drop v => exact (hrefcount ▸ h : s'.refcount v ≤ 1)
  | unvnode x k =>
    exact ⟨hslot ▸ h.1, (hvnode x (hlt k x h.1)).trans h.2.1, hvnodes ▸ hsemnum ▸ h.2.2⟩
  | test x k =>
    exact ⟨hslot ▸ h.1, (hvnode x (hlt k x h.1)).trans h.2.1,
      fun d' hd' hm => h.2.2 d hd (hmaking d' x hd' (hlt k x h.1) hm)⟩
  | clear x k =>
    obtain ⟨hu, ha⟩ := h
    have hx := hlt k x hu.slot
    exact ⟨⟨hslot ▸ hu.slot, (hlinked x hx hu.linked).resolve_right (ha d hd).1,
      (hvnode x hx).trans hu.hasvnode⟩, hapart hx hu.linked ha⟩
  | destroy x =>
    obtain ⟨hl, ha⟩ := h
    have hx := hl.created
    exact ⟨⟨Nat.lt_of_lt_of_le hx hcreated, by grind [hl.live, ha d hd],
      (hlinked x hx hl.linked).resolve_right (ha d hd).1, (hvnode x hx).trans hl.hasvnode,
      hslot ▸ hl.slot⟩, hapart hx hl.linked ha⟩

end Semfs

end OsPaging.Fs
