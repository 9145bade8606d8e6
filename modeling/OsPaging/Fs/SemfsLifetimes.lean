import OsPaging.Lib.Run
import OsPaging.Fs.SemfsSteps

/-!
# Lifetimes of semaphores

When a semaphore of `Fs.SemfsObjects` may be destroyed is decided by two flags under two locks:
`semfs_remove` clears `sems_linked` and then reads `sems_hasvnode`, `semfs_reclaim` clears
`sems_hasvnode` and then reads `sems_linked`. If the four accesses overlap, both see that they are
the last, and both destroy the semaphore (`destroyed_twice`).
**`semfs_lifetimes`** is for runs in which they do not.
-/

namespace OsPaging.Fs

open OsPaging.Lib
open Function (update update_apply)

variable {N : Type}

/-! ## Steps -/

namespace Semfs

variable {s : Semfs N} {d : SemfsDirPc N} {p : SemfsTablePc} {x : Nat}
  {r : Except SemfsFault (Semfs N)}

/-- `semfs_reclaim` does not read `sems_linked` of a semaphore that a `semfs_remove` has unlinked
and still uses. -/
def ReadsApart (s : Semfs N) : SemfsMove N → Prop
  | .table _ => s.table.bind (·.reading) = none ∨
      s.table.bind (·.reading) ≠ s.dir.bind (·.unlinking)
  | _ => True

instance (s : Semfs N) : ∀ e, Decidable (s.ReadsApart e)
  | .table _ => inferInstanceAs (Decidable (_ ∨ _))
  | .call _ => .isTrue trivial
  | .getroot => .isTrue trivial
  | .incref _ => .isTrue trivial
  | .decref _ => .isTrue trivial
  | .reclaim _ => .isTrue trivial
  | .dir _ => .isTrue trivial

/-- A step keeps the invariant, or has to wait. -/
def Sound : Except SemfsFault (Semfs N) → Prop
  | .ok s => SemfsInv s
  | .error f => f = .disabled

theorem sound_touch (hx : s.destroyed x = false) (h : Sound r) : Sound (s.touch x r) := by
  unfold touch
  rwa [if_neg (by simp [hx])]

theorem sound_locked (h : s.table = none → Sound r) : Sound (s.locked r) := by
  unfold locked
  split_ifs with ht
  · rfl
  · exact h (by simpa using ht)

end Semfs

namespace SemfsInv

variable {s : Semfs N} {d : SemfsDirPc N} {p : SemfsTablePc}

variable (h : SemfsInv s)
include h

theorem named (hindex : s.dir.bind (·.index) = none) {i k : Nat} {n : N}
    (hi : s.dent i = some (n, k)) : s.Named k := by
  have := h.dents
  rw [hindex] at this
  exact (this.named hi).resolve_left (by simp)

theorem lockTable (ht : s.table = none) (q : SemfsTablePc) (pd : Nat → Nat)
    (hrefs : VnodeRefs s.vnodes s.refcount s.held s.pending (s.dir.bind (·.ref)) none →
      VnodeRefs s.vnodes s.refcount s.held pd (s.dir.bind (·.ref)) q.ref)
    (hq : (q.taken, q.loose) = (none, none))
    (hok : { s with table := some q, pending := pd }.TableOk q) :
    SemfsInv { s with table := some q, pending := pd } := by
  have hold := h.refs
  rw [ht] at hold
  obtain ⟨htaken, hloose⟩ := Prod.mk.inj hq
  exact h.moveTable (some q) _ _ _ (by rw [ht]; exact nofun) (hrefs hold) (by rw [ht]; exact htaken)
    (fun x _ _ hx => by rw [ht] at hx; cases hx) (by rw [ht]; exact hloose) (at_holder hok)

theorem execDir_sound [DecidableEq N] (hd : s.dir = some d) (mem : Bool) :
    Semfs.Sound (s.execDir mem d) := by
  have hdok := h.dirOk d hd
  have hdents := h.dents_at hd
  have hindex : d.index = none → s.dir.bind (·.index) = none := fun hi => by rw [hd]; exact hi
  -- most steps change nothing but the place of the holder
  have hmove : ∀ (lock : Nat → Bool) (d' : SemfsDirPc N), d.inGetvnode = false → s.DirOk d' →
      (d'.index, d'.ref, d'.dropping, d'.loose, d'.making, d'.unlinking) =
        (d.index, d.ref, d.dropping, d.loose, d.making, d.unlinking) →
      SemfsInv ({ s with semsLock := lock }.dirAt d') := by
    intro lock d' hnot hok hsame
    obtain ⟨hi, hr, hdr, hl, hm, hu⟩ := by simpa only [Prod.mk.injEq] using hsame
    exact h.moveDir lock s.dents d' hd hnot hok (hi ▸ hdents) hr (fun _ _ _ => hdr.trans) hl
      (fun _ => hm.symm.trans) (fun _ => hu.symm.trans)
  cases d with
  | scan c =>
    cases c with
    | lookup name =>
      cases hf : s.findDent name with
      | none =>
        simp only [Semfs.execDir, hf]
        exact hmove _ (.leave none) rfl trivial rfl
      | some q =>
        obtain ⟨n, hn⟩ := Semfs.findDent_some hf
        simp only [Semfs.execDir, hf]
        exact hmove _ (.getvnode .found q.2) rfl (h.named (hindex rfl) hn) rfl
    | creat name excl =>
      cases hf : s.findDent name with
      | none =>
        simp only [Semfs.execDir, hf]
        exact hmove _ (.create name _) rfl (slotAt_firstFree s.dents) rfl
      | some q =>
        obtain ⟨n, hn⟩ := Semfs.findDent_some hf
        simp only [Semfs.execDir, hf]
        cases excl with
        | true => exact hmove _ (.leave none) rfl trivial rfl
        | false =>
          exact hmove _ (.getvnode .found q.2) rfl (h.named (hindex rfl) hn) rfl
    | remove name =>
      cases hf : s.findDent name with
      | none =>
        simp only [Semfs.execDir, hf]
        exact hmove _ (.leave none) rfl trivial rfl
      | some q =>
        obtain ⟨n, hn⟩ := Semfs.findDent_some hf
        simp only [Semfs.execDir, hf]
        exact hmove _ (.getsem q.1 q.2) rfl ⟨⟨n, hn⟩, h.named (hindex rfl) hn⟩ rfl
  | getvnode c k =>
    exact Semfs.sound_locked fun ht => h.lockTable ht (.find true k) s.pending id rfl ⟨c, hd⟩
  | create n i =>
    cases mem with
    | true => exact h.create hd
    | false => exact hmove _ (.leave none) rfl trivial rfl
  | insert n i x =>
    have hfail := hmove s.semsLock (.uncreate x) rfl hdok.2 rfl
    refine Semfs.sound_locked fun ht => ?_
    split_ifs with hlen hroom
    · exact hfail
    · exact h.insert hd ht hlen
    · exact hfail
  | makeDent n i x k =>
    cases mem with
    | true => exact hmove _ (.putDent n i x k) rfl hdok rfl
    | false => exact hmove _ (.uninsert x k) rfl hdok.2 rfl
  | putDent n i x k =>
    simp only [Semfs.execDir]
    split_ifs
    · exact h.putDent hd
    · exact hmove _ (.uninsert x k) rfl hdok.2 rfl
  | link i x k v => exact Semfs.sound_touch (h.sems.live hdok.2.1) (h.link hd)
  | undir i x k =>
    obtain ⟨⟨n, hi⟩, hu⟩ := hdok
    have hk : ∀ y, s.slot k = some y → s.linked y = false := fun y hy =>
      Option.some.inj (hu.slot.symm.trans hy) ▸ hu.linked
    exact h.clearDent (.uninsert x k) hd rfl rfl ⟨n, k, hi, hk⟩
      { hu with } rfl rfl rfl rfl rfl rfl
  | uninsert x k =>
    exact Semfs.sound_locked fun ht =>
      h.clearSlot (.uncreate x) hd ht hdok rfl (h.loose_of_clear hdok) rfl rfl rfl rfl
  | uncreate x =>
    exact Semfs.sound_touch hdok.live (h.destroySem (.leave none) hd rfl hdok rfl (.inl rfl) rfl
      trivial rfl rfl rfl rfl rfl)
  | getsem i k =>
    refine Semfs.sound_locked fun _ => ?_
    obtain ⟨hi, x, hx, hl⟩ := hdok
    simp only [hx]
    exact hmove _ (.lockSem i k x) rfl ⟨hi, hx, hl⟩ rfl
  | lockSem i k x =>
    refine Semfs.sound_touch (h.sems.live hdok.2.1) ?_
    split_ifs
    · rfl
    · exact hmove _ (.unlink i k x) rfl hdok rfl
  | unlink i k x =>
    refine Semfs.sound_touch (h.sems.live hdok.2.1) ?_
    rw [if_pos hdok.2.2]
    exact h.unlink hd
  | test i k x =>
    refine Semfs.sound_touch (h.sems.live hdok.2.1) ?_
    split_ifs with hv
    · exact hmove _ (.clear i k x) rfl ⟨hdok.1, hdok.2.1, hdok.2.2, hv⟩ rfl
    · exact h.moveDir s.semsLock _ (.unlockSem i k x false) hd rfl hdok hdents rfl
        (fun y _ hu hy => absurd (Option.some.inj hy ▸ hu.hasvnode) hv) rfl (fun _ => id) fun _ =>
          id
  | clear i k x =>
    obtain ⟨⟨n, hi⟩, hu⟩ := hdok
    refine Semfs.sound_locked fun ht => h.clearSlot (.unlockSem i k x true) hd ht hu rfl
      ⟨⟨n, k, hi, fun y hy => ?_⟩, h.loose_of_clear hu⟩ rfl rfl rfl rfl
    rw [Semfs.slot_clearSlot, Function.update_self] at hy
    cases hy
  | unlockSem i k x last =>
    cases last with
    | false =>
      obtain ⟨⟨n, hi⟩, hx, hl⟩ := hdok
      have hk : ∀ y, s.slot k = some y → s.linked y = false := fun y hy =>
        Option.some.inj (hx.symm.trans hy) ▸ hl
      exact Semfs.sound_touch (h.sems.live hx) (h.moveDir _ s.dents (.dropDent i) hd rfl
        ⟨n, k, hi, hk⟩ hdents rfl nofun rfl nofun nofun)
    | true =>
      exact Semfs.sound_touch hdok.2.live (hmove _ (.destroy i x) rfl hdok rfl)
  | destroy i x =>
    exact Semfs.sound_touch hdok.2.live (h.destroySem (.dropDent i) hd rfl hdok.2 rfl (.inr rfl)
      rfl hdok.1 rfl rfl rfl rfl rfl)
  | dropDent i =>
    exact h.clearDent (.leave none) hd rfl rfl hdok trivial rfl rfl rfl rfl rfl rfl
  | leave r => exact h.leave hd

theorem execTable_sound (ht : s.table = some p) (mem : Bool)
    (ha : ∀ x, p.reading = some x → s.dir.bind (·.unlinking) ≠ some x) :
    Semfs.Sound (s.execTable mem p) := by
  have hok := h.tableOk p ht
  have hrefs := h.refs_table ht
  have hvnodes := h.vnodes_at ht
  -- most steps change nothing but the place of the holder and references
  have hmove : ∀ (rc hl pd : Nat → Nat) (q : Option SemfsTablePc),
      (∀ v, p ≠ .got true (some v)) →
      VnodeRefs s.vnodes rc hl pd (s.dir.bind (·.ref)) (q.bind (·.ref)) →
      q.bind (·.taken) = p.taken → (p.dropping = none ∨ q.bind (·.dropping) = p.dropping) →
      q.bind (·.loose) = p.loose →
      (∀ p', q = some p' →
        ({ s with table := q, refcount := rc, held := hl, pending := pd } : Semfs N).TableOk p') →
      SemfsInv { s with table := q, refcount := rc, held := hl, pending := pd } := by
    intro rc hl pd q hnot hr htk hdr hlo hok'
    refine h.moveTable q rc hl pd (fun v he => hnot v (Option.some.inj (ht.symm.trans he))) hr
      (by rw [ht]; exact htk) (fun x k _ hx => ?_) (by rw [ht]; exact hlo) hok'
    grind
  cases p with
  | find dir k =>
    cases hf : s.vnodes.find? fun v => s.semnum v = k with simp only [Semfs.execTable, hf]
    | none =>
      have hno : ∀ v ∈ s.vnodes, s.semnum v ≠ k := by simpa using List.find?_eq_none.mp hf
      refine hmove _ _ _ (some (.make dir k)) nofun hrefs rfl (.inl rfl) rfl (at_holder ?_)
      cases dir <;> exact ⟨hok, hno⟩
    | some v =>
      have hv : v ∈ s.vnodes := List.mem_of_find?_eq_some hf
      have hk : s.semnum v = k := by simpa using List.find?_some hf
      refine hmove _ _ _ (some (.got dir (some v))) nofun (hrefs.find hv) rfl (.inl rfl) rfl
        (at_holder ?_)
      cases dir with
      | false => trivial
      | true =>
        obtain ⟨c, hc⟩ := hok
        exact ⟨c, k, hc, fun w hw => Option.some.inj hw ▸ hk⟩
  | make dir k =>
    simp only [Semfs.execTable]
    split_ifs with hmem hroot
    · refine hmove _ _ _ (some (.got dir none)) nofun hrefs rfl (.inl rfl) rfl (at_holder ?_)
      cases dir with
      | false => trivial
      | true =>
        obtain ⟨⟨c, hc⟩, -⟩ := hok
        exact ⟨c, k, hc, nofun⟩
    · exact h.makeVnode s.hasvnode ht (fun _ => id) (fun hne => absurd hroot hne) (fun _ => .inl)
    · have hslot : ∃ x, s.slot k = some x := by
        cases dir with
        | false => exact absurd hok.1 hroot
        | true =>
          obtain ⟨⟨c, hc⟩, -⟩ := hok
          have hdok := h.dirOk _ hc
          cases c with
          | found => exact hdok.imp fun _ => And.left
          | fresh i x => exact ⟨x, hdok.2.1⟩
      obtain ⟨x, hx⟩ := hslot
      have hno : ∀ v ∈ s.vnodes, s.semnum v ≠ k := by cases dir <;> exact hok.2
      have hflag : s.hasvnode x = false := by
        by_contra hv
        obtain ⟨j, hj, hr⟩ := hvnodes.flag (by simpa using hv)
        obtain ⟨v, hv, rfl⟩ := hr.resolve_right nofun
        exact hno v hv (h.sems.inj hj hx)
      simp only [hx]
      refine Semfs.sound_touch (h.sems.live hx) ?_
      rw [if_neg (by simp [hflag])]
      exact h.makeVnode (update s.hasvnode x true) ht (by grind)
        (fun _ => ⟨x, hx, Function.update_self ..⟩) (by grind)
  | got dir r =>
    cases dir with
    | true => exact h.returnVnode ht
    | false =>
      refine hmove s.refcount _ s.pending none nofun ?_ rfl (.inl rfl) rfl nofun
      cases r with
      | none => exact hrefs
      | some v => exact hrefs.give
  | count v =>
    simp only [Semfs.execTable]
    split_ifs with hc
    · exact hmove _ _ _ (some .unlock) nofun hrefs.consume rfl (.inl rfl) rfl (at_holder trivial)
    · have hle : s.refcount v ≤ 1 := by omega
      exact hmove _ _ _ (some (.drop v)) nofun hrefs rfl (.inl rfl) rfl (at_holder hle)
  | drop v =>
    have hmem : v ∈ s.vnodes := hrefs.mem (.inr (.inr (.inr rfl)))
    simp only [Semfs.execTable]
    split_ifs with hroot
    · exact h.dropVnode (q := .unlock) ht (fun x hx _ => absurd hroot (h.ne_rootdir hx)) rfl trivial
    · obtain ⟨x, hx, hf⟩ := hvnodes.inTable hmem hroot
      simp only [hx]
      refine Semfs.sound_touch (h.sems.live hx) ?_
      rw [if_pos hf]
      refine h.dropVnode (q := .unvnode x (s.semnum v)) ht (fun y hy _ => ?_) rfl
        ⟨hx, hf, hvnodes.not_mem_erase hmem⟩
      rw [Option.some.inj (hx.symm.trans hy)]
      rfl
  | unvnode x k => exact Semfs.sound_touch (h.sems.live hok.1) (h.unvnode ht)
  | test x k =>
    obtain ⟨hx, hf, hmaking⟩ := hok
    refine Semfs.sound_touch (h.sems.live hx) ?_
    split_ifs with hl
    · refine hmove _ _ _ (some (.clear x k)) nofun hrefs rfl (.inr rfl) rfl (at_holder ?_)
      refine ⟨⟨hx, hl, hf⟩, fun d hd => ⟨hmaking d hd, fun hu => ha x rfl ?_⟩⟩
      rw [show s.dir = some d from hd]
      exact hu
    · refine h.moveTable (some .unlock) _ _ _ (by rw [ht]; exact nofun) hrefs (by rw [ht]; rfl)
        (fun y j hu hy => ?_) (by rw [ht]; rfl) (at_holder trivial)
      rw [ht] at hy
      cases hy
      exact absurd hu.linked hl
  | clear x k => exact h.clearTable ht
  | destroy x => exact Semfs.sound_touch hok.1.live (h.destroyTable ht)
  | unlock => exact hmove _ _ _ none nofun hrefs rfl (.inl rfl) rfl nofun

/-- **One step** keeps the invariant, or has to wait. -/
theorem exec_sound [DecidableEq N] {e : SemfsMove N} (ha : s.ReadsApart e) :
    Semfs.Sound (s.exec e) := by
  cases e with
  | call c =>
    simp only [Semfs.exec]
    split_ifs with hd
    · rfl
    · exact h.enter (by simpa using hd) c
  | getroot =>
    exact Semfs.sound_locked fun ht =>
      h.lockTable ht (.find false semfsRootdir) s.pending id rfl rfl
  | incref v =>
    simp only [Semfs.exec]
    split_ifs with hh
    · rfl
    · refine h.moveRefs _ _ s.pending (h.refs.incref hh) fun w hw => ?_
      have hwok : s.refcount w ≤ 1 := h.tableOk _ hw
      -- the vnode on its way out has no other reference
      have hwv : w ≠ v := by
        rintro rfl
        have hcount := h.refs.count (h.refs.mem (.inl hh))
        have htable : (some (SemfsTablePc.drop w)).bind (·.ref) = some w := rfl
        rw [hw, if_pos htable] at hcount
        omega
      simp only [Semfs.setRefcount, update_apply]
      grind
  | decref v =>
    simp only [Semfs.exec]
    split_ifs with hh hzero hmany
    · rfl
    · have hcount := h.refs.count (h.refs.mem (.inl hh))
      omega
    · refine h.moveRefs _ _ s.pending (h.refs.decref hh) fun w hw => ?_
      have hwok : s.refcount w ≤ 1 := h.tableOk _ hw
      grind
    · exact h.moveRefs s.refcount _ _ (h.refs.defer hh) fun w hw => h.tableOk _ hw
  | reclaim v =>
    refine Semfs.sound_locked fun ht => ?_
    split_ifs with hp
    · rfl
    · exact h.lockTable ht (.count v) _ (fun hrefs => hrefs.reclaim hp) rfl trivial
  | dir mem =>
    cases hd : s.dir with
    | none => simp only [Semfs.exec, hd]; rfl
    | some d => simpa only [Semfs.exec, hd] using h.execDir_sound hd mem
  | table mem =>
    cases ht : s.table with
    | none => simp only [Semfs.exec, ht]; rfl
    | some p =>
      simp only [Semfs.exec, ht]
      refine h.execTable_sound ht mem fun x hp he => ?_
      simp only [Semfs.ReadsApart, ht, Option.bind_some, hp, he] at ha
      exact ha.elim nofun fun hne => hne rfl

end SemfsInv

/-! ## Runs -/

/-- What the two flags and `semfs_sem_destroy` are for. -/
structure SemfsLifetimes [DecidableEq N] (s : Semfs N) : Prop where
  /-- No step uses a semaphore that was destroyed, so none is destroyed a second time; and no
  assertion fails. -/
  safe : ∀ e, s.ReadsApart e → s.exec e ≠ .error .freed ∧ s.exec e ≠ .error .panic
  /-- What was destroyed had no link and no vnode, and is not in the table. -/
  dead : ∀ x, s.destroyed x = true →
    s.linked x = false ∧ s.hasvnode x = false ∧ ∀ k, s.slot k ≠ some x
  /-- The flags say what they are to say. -/
  linked : s.dir = none → ∀ x,
    (s.linked x = true ↔ ∃ i n k, s.dent i = some (n, k) ∧ s.slot k = some x)
  hasvnode : s.table = none → ∀ x,
    (s.hasvnode x = true ↔ ∃ v ∈ s.vnodes, s.slot (s.semnum v) = some x)
  /-- When no call is in progress, what has no link and no vnode was destroyed. -/
  gone : s.dir = none → s.table = none → ∀ x, x < s.created →
    s.linked x = false → s.hasvnode x = false → s.destroyed x = true

theorem SemfsInv.lifetimes [DecidableEq N] {s : Semfs N} (h : SemfsInv s) : SemfsLifetimes s where
  safe e ha := by
    have hs := h.exec_sound ha
    constructor <;> intro he <;> rw [he] at hs <;> cases hs
  dead x hx := by
    obtain ⟨hl, hv⟩ := h.dead x hx
    exact ⟨hl, hv, fun k hk => absurd ((h.sems.live hk).symm.trans hx) (by simp)⟩
  linked hd x := by
    refine ⟨h.dents.entry, fun ⟨i, n, k, hi, hk⟩ => ?_⟩
    obtain ⟨y, hy, hl⟩ := h.named (by rw [hd]; rfl) hi
    exact Option.some.inj (hy.symm.trans hk) ▸ hl
  hasvnode ht x := by
    constructor
    · intro hv
      obtain ⟨k, hk, hr⟩ := h.vnodes.flag hv
      grind
    · rintro ⟨v, hmem, hk⟩
      obtain ⟨y, hy, hf⟩ := h.vnodes.inTable hmem (h.ne_rootdir hk)
      exact Option.some.inj (hy.symm.trans hk) ▸ hf
  gone hd ht x hx hl hv := by
    by_contra hlive
    have hloose := h.ledger.loose hx (by simpa using hlive)
    rw [hd, ht] at hloose
    obtain ⟨k, hk⟩ := hloose.resolve_right fun h => h.elim nofun nofun
    have hunused := h.ledger.unused ⟨hk, hl, hv⟩
    grind

/-- **Semaphores die once, and only when nobody can reach them**, in every state of a run in which
no `semfs_reclaim` reads `sems_linked` of a semaphore that a `semfs_remove` has unlinked and still
uses. -/
theorem semfs_lifetimes [DecidableEq N] {es : List (SemfsMove N)} {s : Semfs N}
    (hr : Run (fun s e s' => Semfs.ReadsApart s e ∧ s.exec e = .ok s') semfsCreate es s) :
    SemfsLifetimes s := by
  refine (hr.invariant (P := SemfsInv) .start fun s e s' h hs => ?_).lifetimes
  have := h.exec_sound hs.1
  rwa [hs.2] at this

/-- `semfs_creat` of a new name, up to its return. -/
abbrev creatSteps : List (SemfsMove Nat) :=
  [.call (.creat 7 true), .dir true, .dir true, .dir true, .dir true, .dir true, .dir true,
    .table true, .table true, .table true, .dir true, .dir true]

/-- The semaphore is removed while it is open, and closed after that. -/
abbrev removeThenClose : List (SemfsMove Nat) :=
  creatSteps ++ [.call (.remove 7), .dir true, .dir true, .dir true, .dir true, .dir true,
    .dir true,
    .decref 0, .dir true, .dir true, .reclaim 0, .table true, .table true, .table true, .table true,
    .table true, .table true, .table true]

theorem semfs_lifetimes_close : ∃ s : Semfs Nat,
    Run (fun s e s' => Semfs.ReadsApart s e ∧ s.exec e = .ok s') semfsCreate removeThenClose s ∧
      SemfsLifetimes s ∧ s.destroyed 0 = true ∧ s.slot 0 = none := by
  exact Run.exists_imp (Q := fun s => s.destroyed 0 = true ∧ s.slot 0 = none)
    (Run.exists_of_exec (by decide +kernel)) fun s hr hp => ⟨semfs_lifetimes hr, hp⟩

/-- The semaphore is closed while it is removed. `semfs_remove` clears `sems_linked`,
`semfs_reclaim` clears `sems_hasvnode`, and then each reads the flag that the other has cleared. -/
abbrev removeWhileClosing : List (SemfsMove Nat) :=
  creatSteps ++ [.decref 0, .call (.remove 7), .dir true, .dir true, .dir true, .dir true,
    .reclaim 0, .table true, .table true, .table true, .dir true, .table true, .table true,
    .table true, .table true, .dir true]

/-- `semfs_reclaim` has destroyed the semaphore, and `semfs_remove` is on its way to do so again:
its next step is the release of a lock that is gone. -/
theorem destroyed_twice : ∃ s : Semfs Nat,
    Run (fun s e s' => s.exec e = .ok s') semfsCreate removeWhileClosing s ∧
      s.destroyed 0 = true ∧ s.dir = some (.unlockSem 0 0 0 true) ∧
      s.exec (.dir true) = .error .freed := by
  refine Run.exists_imp
    (Q := fun s => s.destroyed 0 = true ∧ s.dir = some (.unlockSem 0 0 0 true))
    (Run.exists_of_foldlM (fun _ _ _ => toOption_eq_some.mp) (by decide)) ?_
  rintro s - ⟨hx, hd⟩
  refine ⟨hx, hd, ?_⟩
  simp only [Semfs.exec, hd, Semfs.execDir, Semfs.touch, if_pos hx]

end OsPaging.Fs
