import OsPaging.Fs.SemfsInvariant

/-!
# The steps of the semaphore file system

One lemma for each change that a step of `Fs.SemfsObjects` makes, under the dirlock and under the
tablelock: it keeps the invariant.
-/

namespace OsPaging.Fs

open OsPaging.Lib Function
open Function (update update_apply)

variable {N : Type}

namespace SemfsInv

variable {s : Semfs N} {d d' : SemfsDirPc N} {p p' : SemfsTablePc} {i k x v : Nat} {n : N}

theorem start : SemfsInv (semfsCreate : Semfs N) where
  sems := ⟨fun h => by simp [Semfs.slot, semfsCreate] at h,
    fun h => by simp [Semfs.slot, semfsCreate] at h,
      fun h => by simp [Semfs.slot, semfsCreate] at h⟩
  bound := Nat.zero_le _
  dead _ _ := ⟨rfl, rfl⟩
  dents := ⟨fun h => by simp [Semfs.dent, semfsCreate] at h,
    fun h => by simp [Semfs.dent, semfsCreate] at h, fun h => by simp [semfsCreate] at h⟩
  vnodes := ⟨List.nodup_nil, fun h => by simp [semfsCreate] at h,
    fun h => by simp [semfsCreate] at h,
    fun h => by simp [semfsCreate] at h, fun h => by simp [semfsCreate] at h⟩
  refs := ⟨fun h => by simp [semfsCreate] at h, fun _ => ⟨rfl, rfl, nofun, nofun⟩⟩
  ledger := ⟨fun h => by simpa [Semfs.slot, semfsCreate] using h.slot,
    fun h => by simp [semfsCreate] at h⟩
  dirOk _ h := by simp [semfsCreate] at h
  tableOk _ h := by simp [semfsCreate] at h

/-- What is taken out of the table nobody can find any more. -/
theorem loose_of_clear (h : SemfsInv s) (hu : s.Unused x k) :
    (s.clearSlot k).Loose x := by
  refine ⟨h.sems.created hu.slot, h.sems.live hu.slot, hu.linked, hu.hasvnode, fun j hj => ?_⟩
  rw [Semfs.slot_clearSlot] at hj
  obtain ⟨hjk, hj⟩ := eq_some_of_update_none hj
  exact hjk (h.sems.inj hj hu.slot)

/-- What is to be shown of the holder of a lock, when it is known who that is. -/
theorem at_holder {α : Type} {a : α} {P : α → Prop} (h : P a) : ∀ b, some a = some b → P b := by
  rintro _ ⟨⟩
  exact h

section Dir

section

variable (h : SemfsInv s) (hd : s.dir = some d)
include h hd

theorem dents_at : DirTable s.dent s.slot s.linked d.index := by
  have := h.dents
  rwa [hd] at this

theorem refs_at : VnodeRefs s.vnodes s.refcount s.held s.pending d.ref (s.table.bind (·.ref)) := by
  have := h.refs
  rwa [hd] at this

theorem unused_at (hu : s.Unused x k) :
    d.dropping = some x ∨ s.table.bind (·.dropping) = some x := by
  have := h.ledger.unused hu
  rwa [hd] at this

theorem loose_at (hx : x < s.created) (hl : s.destroyed x = false) :
    (∃ k, s.slot k = some x) ∨ d.loose = some x ∨ s.table.bind (·.loose) = some x := by
  have := h.ledger.loose hx hl
  rwa [hd] at this

end

/-- The holder of the dirlock goes on, and may have changed the lock of a semaphore. -/
theorem moveDir (lock : Nat → Bool) (dents : List (Option (N × Nat))) (d' : SemfsDirPc N)
    (h : SemfsInv s) (hd : s.dir = some d) (hnot : d.inGetvnode = false)
    (hok : { s with dents }.DirOk d') (hindex : DirTable (slotAt dents) s.slot s.linked d'.index)
    (href : d'.ref = d.ref)
    (hdrop : ∀ x k, s.Unused x k → d.dropping = some x → d'.dropping = some x)
    (hloose : d'.loose = d.loose) (hmaking : ∀ x, d'.making = some x → d.making = some x)
    (hunlinking : ∀ x, d'.unlinking = some x → d.unlinking = some x) :
    SemfsInv ({ s with semsLock := lock, dents }.dirAt d') where
  sems := h.sems
  bound := h.bound
  dead := h.dead
  dents := hindex
  vnodes := h.vnodes
  refs := (href ▸ h.refs_at hd :
    VnodeRefs s.vnodes s.refcount s.held s.pending d'.ref (s.table.bind (·.ref)))
  ledger := by
    refine ⟨fun {k x} hu => ?_, fun {x} hx hl => ?_⟩
    · have hu' : s.Unused x k := { hu with }
      exact (h.unused_at hd hu').imp (hdrop x k hu') id
    · exact (h.loose_at hd hx hl).imp id (Or.imp hloose.trans id)
  dirOk := at_holder (hok.mono rfl rfl rfl (fun _ _ => .inl) (fun _ _ => id) (fun _ => id)
    (fun _ _ => id) (fun _ _ => rfl) fun i x k he' => by subst he'; exact hok.2.2.2)
  tableOk q hq := (h.tableOk q hq).mono hd hnot rfl rfl rfl rfl (Nat.le_refl _) (fun _ _ => rfl)
    (fun _ _ => .inl) (fun _ _ => .inl) (fun _ _ => h.sems.created)
    (fun e x he _ hm => by cases he; exact hmaking x hm)
    (fun e x he hm => by cases he; exact .inl (hunlinking x hm))

section

variable (h : SemfsInv s)
include h

theorem enter (hd : s.dir = none) (c : SemfsCall N) : SemfsInv (s.dirAt (.scan c)) := by
  have hdents := h.dents
  have hrefs := h.refs
  have hledger := h.ledger
  rw [hd] at hdents hrefs hledger
  refine ⟨h.sems, h.bound, h.dead, hdents, h.vnodes, hrefs,
    ⟨fun hu => hledger.unused { hu with }, hledger.loose⟩,
    at_holder trivial, fun q hq => ?_⟩
  have hok := h.tableOk q hq
  have hscan : ∀ x, (s.dirAt (.scan c)).Apart x := fun x => at_holder ⟨nofun, nofun⟩
  cases q with
  | find dir k =>
    cases dir with
    | false => exact hok
    | true => obtain ⟨_, hc⟩ := hok; cases hd.symm.trans hc
  | make dir k =>
    cases dir with
    | false => exact hok
    | true => obtain ⟨⟨_, hc⟩, -⟩ := hok; cases hd.symm.trans hc
  | got dir r =>
    cases dir with
    | false => trivial
    | true => obtain ⟨_, _, hc, -⟩ := hok; cases hd.symm.trans hc
  | test x k => exact ⟨hok.1, hok.2.1, fun e he => (hscan x e he).1⟩
  | clear x k => exact ⟨{ hok.1 with }, hscan x⟩
  | destroy x =>
    exact ⟨{ hok.1 with }, hscan x⟩
  | _ => exact hok

/-- A call returns, with a reference for the client or without. -/
theorem leave {r : Option Nat} (hd : s.dir = some (.leave r)) :
    SemfsInv { s.give r with dir := none } where
  sems := h.sems
  bound := h.bound
  dead := h.dead
  dents := h.dents_at hd
  vnodes := h.vnodes
  refs := by
    have hrefs := h.refs_at hd
    cases r with
    | none => exact hrefs
    | some v => exact hrefs.swap.give.swap
  ledger := ⟨fun hu => h.unused_at hd { hu with }, h.loose_at hd⟩
  dirOk _ he := by cases he
  tableOk q hq := (h.tableOk q hq).mono hd rfl rfl rfl rfl rfl (Nat.le_refl _) (fun _ _ => rfl)
    (fun _ _ => .inl) (fun _ _ => .inl) (fun _ _ => h.sems.created) (fun _ _ he => by cases he)
    (fun _ _ he => by cases he)

theorem create (hd : s.dir = some (.create n i)) :
    SemfsInv ({ s with
      created := s.created + 1
      semsLock := update s.semsLock s.created false
      hasvnode := update s.hasvnode s.created false
      linked := update s.linked s.created false
      destroyed := update s.destroyed s.created false }.dirAt (.insert n i s.created)) := by
  have hok : s.dent i = none := h.dirOk _ hd
  have hne : ∀ {k x}, s.slot k = some x → x ≠ s.created := fun hk =>
    Nat.ne_of_lt (h.sems.created hk)
  refine ⟨h.sems.create, h.bound, fun x hx => ?_, (h.dents_at hd).create h.sems,
    h.vnodes.create h.sems, h.refs_at hd, ⟨fun {k x} hu => ?_, fun {x} hx hl => ?_⟩,
    at_holder ⟨hok, Nat.lt_succ_self _, update_self .., update_self ..,
      update_self .., fun k hk => hne hk rfl⟩, fun q hq => ?_⟩
  · have hx' : update s.destroyed s.created false x = true := hx
    have hxc : x ≠ s.created := by grind
    simpa [Semfs.dirAt, hxc] using h.dead x (by grind)
  · obtain ⟨hk, hl, hv⟩ := hu
    have hx := hne hk
    simp only [Semfs.dirAt, update_apply, if_neg hx] at hl hv
    exact (h.unused_at hd ⟨hk, hl, hv⟩).imp nofun id
  · by_cases hxc : x = s.created
    · exact .inr (.inl (congrArg some hxc.symm))
    · simp only [Semfs.dirAt, update_apply, if_neg hxc] at hx hl
      exact (h.loose_at hd (by omega) hl).imp id (Or.imp nofun id)
  · have hold : ∀ {f : Nat → Bool} {x}, x < s.created → update f s.created false x = f x :=
      fun hx => update_of_ne (Nat.ne_of_lt hx) ..
    refine (h.tableOk q hq).mono hd rfl rfl rfl rfl rfl (Nat.le_succ _) (fun x => hold)
      (fun x hx hl => .inl ((hold hx).trans hl)) (fun x hx hl => .inl ((hold hx).trans hl))
      (fun _ _ => h.sems.created) (fun e x he hx hm => ?_) (fun e x he hm => by cases he; cases hm)
    cases he
    exact absurd (Option.some.inj hm) (by omega)

theorem insert (hd : s.dir = some (.insert n i x)) (ht : s.table = none)
    (hlen : s.sems.length ≠ semfsRootdir) :
    SemfsInv ({ s with sems := putAt s.sems (firstFree s.sems) x }.dirAt
      (.makeDent n i x (firstFree s.sems))) := by
  obtain ⟨hi, hx⟩ : s.dent i = none ∧ s.Loose x := h.dirOk _ hd
  have hfree : s.slot (firstFree s.sems) = none := slotAt_firstFree s.sems
  have hslot := Semfs.slot_insert s x
  have hbound := h.bound
  have hself : update s.slot (firstFree s.sems) (some x) (firstFree s.sems) = some x :=
    update_self ..
  refine ⟨hslot ▸ h.sems.insert hx.created hx.live hx.slot _, ?_, h.dead,
    hslot ▸ (h.dents_at hd).insert hfree x, hslot ▸ h.vnodes.insert hfree x, h.refs_at hd,
    ⟨fun {k y} hu => ?_, fun {y} hy hl => ?_⟩,
    at_holder ⟨hi, hslot ▸ hself, hx.linked, hx.hasvnode⟩, fun q hq => by cases ht.symm.trans hq⟩
  · have := length_putAt_le s.sems (firstFree s.sems) x
    show (putAt s.sems (firstFree s.sems) x).length ≤ semfsRootdir
    omega
  · have hk : update s.slot (firstFree s.sems) (some x) k = some y := hslot ▸ hu.slot
    rw [update_apply] at hk
    split_ifs at hk with hkf
    · exact .inl hk
    · have := h.unused_at hd ⟨hk, hu.linked, hu.hasvnode⟩
      rw [ht] at this
      exact absurd this (by simp [SemfsDirPc.dropping])
  · rcases h.loose_at hd hy hl with ⟨k, hk⟩ | hk | hk
    · exact .inl ⟨k, hslot ▸ by grind⟩
    · exact .inl ⟨firstFree s.sems, hslot ▸ hself.trans hk⟩
    · rw [ht] at hk
      cases hk

theorem putDent (hd : s.dir = some (.putDent n i x k)) :
    SemfsInv ({ s with dents := putAt s.dents i (n, k) }.dirAt
      (.getvnode (.fresh (min i s.dents.length) x) k)) := by
  obtain ⟨hi, hu⟩ : s.dent i = none ∧ s.Unused x k := h.dirOk _ hd
  have hfree : s.dent (min i s.dents.length) = none := by
    rcases Nat.le_total i s.dents.length with hle | hge
    · rwa [Nat.min_eq_left hle]
    · rw [Nat.min_eq_right hge]
      exact slotAt_of_length_le (Nat.le_refl _)
  have hdent : slotAt (putAt s.dents i (n, k)) = _ := Semfs.dent_put s i (n, k)
  have hk : ∀ y, s.slot k = some y → s.linked y = false := fun y hy =>
    Option.some.inj (hu.slot.symm.trans hy) ▸ hu.linked
  refine h.moveDir s.semsLock _ _ hd rfl ⟨⟨n, ?_⟩, hu.slot, hu.linked, fun hv => ?_⟩
    (hdent ▸ (h.dents_at hd).put hfree n hk) rfl (fun _ _ _ => id) rfl (fun _ => id) nofun
  · exact (congrFun hdent _).trans (update_self ..)
  · exact absurd (hu.hasvnode.symm.trans hv) (by simp)

theorem link (hd : s.dir = some (.link i x k v)) :
    SemfsInv ({ s with linked := update s.linked x true }.dirAt (.leave (some v))) := by
  obtain ⟨⟨m, hi⟩, hx, -, -⟩ : (∃ n, s.dent i = some (n, k)) ∧ s.slot k = some x ∧ _ ∧ _ :=
    h.dirOk _ hd
  refine ⟨h.sems, h.bound, fun y hy => ?_, (h.dents_at hd).link hi hx, h.vnodes, h.refs_at hd,
    ⟨fun {j y} hu => ?_, h.loose_at hd⟩, at_holder trivial,
    fun q hq => (h.tableOk q hq).mono hd rfl rfl rfl rfl rfl (Nat.le_refl _) (fun _ _ => rfl)
      (fun y _ hl => ?_) (fun _ _ => .inl) (fun _ _ => h.sems.created)
      (fun e y he _ hm => by cases he; cases hm) (fun e y he hm => by cases he; cases hm)⟩
  · have hyx : y ≠ x := by
      rintro rfl
      exact absurd ((h.sems.live hx).symm.trans hy) (by simp)
    simpa [Semfs.dirAt, hyx] using h.dead y hy
  · obtain ⟨hk, hl, hv⟩ := hu
    simp only [Semfs.dirAt, update_apply] at hl
    split_ifs at hl
    exact (h.unused_at hd ⟨hk, hl, hv⟩).imp nofun id
  · by_cases hyx : y = x
    · exact .inr (congrArg some hyx.symm)
    · exact .inl ((update_of_ne hyx ..).trans hl)

theorem unlink (hd : s.dir = some (.unlink i k x)) :
    SemfsInv ({ s with linked := update s.linked x false }.dirAt (.test i k x)) := by
  obtain ⟨⟨m, hi⟩, hx, hlinked⟩ :
    (∃ n, s.dent i = some (n, k)) ∧ s.slot k = some x ∧ s.linked x = true := h.dirOk _ hd
  have hmono : ∀ y, s.linked y = false → update s.linked x false y = false := by grind
  refine ⟨h.sems, h.bound, fun y hy => ⟨hmono y (h.dead y hy).1, (h.dead y hy).2⟩,
    (h.dents_at hd).unlink h.sems hi hx, h.vnodes, h.refs_at hd,
    ⟨fun {j y} hu => ?_, h.loose_at hd⟩, at_holder ⟨⟨m, hi⟩, hx, update_self ..⟩,
    fun q hq => (h.tableOk q hq).mono hd rfl rfl rfl rfl rfl (Nat.le_refl _) (fun _ _ => rfl)
      (fun y _ hl => .inl (hmono y hl)) (fun _ _ => .inl) (fun _ _ => h.sems.created)
      (fun e y he _ hm => by cases he; cases hm)
      (fun e y he hm => by cases he; exact .inr (Option.some.inj hm ▸ hlinked))⟩
  by_cases hyx : y = x
  · exact .inl (congrArg some hyx.symm)
  · obtain ⟨hk, hl, hv⟩ := hu
    simp only [Semfs.dirAt, update_apply, if_neg hyx] at hl
    exact (h.unused_at hd ⟨hk, hl, hv⟩).imp nofun id

end

theorem clearDent (d' : SemfsDirPc N) (h : SemfsInv s) (hd : s.dir = some d)
    (hnot : d.inGetvnode = false)
    (hi : d.index = some i) (hun : s.Unnamed i) (hok : (s.clearDent i).DirOk d')
    (hindex : d'.index = none) (href : d'.ref = d.ref) (hdrop : d'.dropping = d.dropping)
    (hloose : d'.loose = d.loose) (hmaking : d'.making = d.making)
    (hunlinking : d'.unlinking = d.unlinking) : SemfsInv ((s.clearDent i).dirAt d') := by
  obtain ⟨m, k, hik, hk⟩ := hun
  have hdents := h.dents_at hd
  rw [hi] at hdents
  have hgone : DirTable (s.clearDent i).dent s.slot s.linked d'.index := by
    rw [hindex, Semfs.dent_clearDent]
    exact hdents.drop hik hk
  exact h.moveDir s.semsLock _ d' hd hnot hok hgone href (fun _ _ _ => hdrop.trans) hloose
    (fun _ => hmaking.symm.trans) fun _ => hunlinking.symm.trans

/-- The semaphore is taken out of the table, which is not locked, to be destroyed. -/
theorem clearSlot (d' : SemfsDirPc N) (h : SemfsInv s) (hd : s.dir = some d) (ht : s.table = none)
    (hu : s.Unused x k) (hdrop : d.dropping = some x) (hok : (s.clearSlot k).DirOk d')
    (hindex : d'.index = d.index) (href : d'.ref = d.ref) (hno : d.loose = none)
    (hloose : d'.loose = some x) : SemfsInv ((s.clearSlot k).dirAt d') := by
  have hslot := Semfs.slot_clearSlot s k
  have hat : ∀ {y}, s.slot k = some y → y = x := fun hy => Option.some.inj (hy.symm.trans hu.slot)
  have hdents : DirTable s.dent (s.clearSlot k).slot s.linked d'.index := by
    rw [hindex, hslot]
    exact (h.dents_at hd).clear fun y hy => hat hy ▸ hu.linked
  have hrefs : VnodeRefs s.vnodes s.refcount s.held s.pending d'.ref (s.table.bind (·.ref)) := by
    rw [href]
    exact h.refs_at hd
  refine ⟨hslot ▸ h.sems.clear k, (List.length_set ..).trans_le h.bound, h.dead, hdents,
    hslot ▸ h.vnodes.clear fun y hy => hat hy ▸ hu.hasvnode, hrefs,
    ⟨fun {j y} hu' => ?_, fun {y} hy hl => ?_⟩, at_holder ?_, fun q hq => by cases ht.symm.trans hq⟩
  · obtain ⟨hjk, hj⟩ := eq_some_of_update_none (hslot ▸ hu'.slot)
    rcases h.unused_at hd ⟨hj, hu'.linked, hu'.hasvnode⟩ with hy | hy
    · obtain rfl := Option.some.inj (hdrop.symm.trans hy)
      exact absurd (h.sems.inj hj hu.slot) hjk
    · rw [ht] at hy
      cases hy
  · rcases h.loose_at hd hy hl with ⟨j, hj⟩ | hy | hy
    · by_cases hjk : j = k
      · exact .inr (.inl (hloose.trans (congrArg some (hat (hjk ▸ hj)).symm)))
      · exact .inl ⟨j, hslot ▸ (update_of_ne hjk ..).trans hj⟩
    · cases hno.symm.trans hy
    · rw [ht] at hy
      cases hy
  · exact hok.mono rfl rfl rfl (fun _ _ => .inl) (fun _ _ => id) (fun _ => id) (fun _ _ => id)
      (fun _ _ => rfl) fun i x k he' => by subst he'; exact hok.2.2.2

theorem dead_of_destroy (h : SemfsInv s) (hl : s.Loose x) :
    ∀ y, update s.destroyed x true y = true → s.linked y = false ∧ s.hasvnode y = false := by
  intro y hy
  by_cases hyx : y = x
  · exact hyx ▸ ⟨hl.linked, hl.hasvnode⟩
  · exact h.dead y (by grind)

theorem destroySem (d' : SemfsDirPc N) (h : SemfsInv s) (hd : s.dir = some d)
    (hnot : d.inGetvnode = false)
    (hl : s.Loose x) (hx : d.loose = some x) (hmine : d.making = some x ∨ d.unlinking = some x)
    (hdrop : d.dropping = none) (hok : s.DirOk d') (hindex : d'.index = d.index)
    (href : d'.ref = d.ref) (hmaking : d'.making = none) (hunlinking : d'.unlinking = none)
    (hloose : d'.loose = none) : SemfsInv ((s.destroySem x).dirAt d') := by
  have hrefs : VnodeRefs s.vnodes s.refcount s.held s.pending d'.ref (s.table.bind (·.ref)) := by
    rw [href]
    exact h.refs_at hd
  have hdents : DirTable s.dent s.slot s.linked d'.index := by
    rw [hindex]
    exact h.dents_at hd
  refine ⟨h.sems.destroy hl.slot, h.bound, h.dead_of_destroy hl, hdents, h.vnodes, hrefs,
    ⟨fun hu => ?_, fun {y} hy hyl => ?_⟩, at_holder ?_,
    fun q hq => (h.tableOk q hq).mono hd hnot rfl rfl rfl rfl (Nat.le_refl _) (fun _ _ => rfl)
      (fun _ _ => .inl) (fun y _ hyl => ?_) (fun _ _ => h.sems.created)
      (fun e y he _ hm => by cases he; cases hmaking.symm.trans hm)
      (fun e y he hm => by cases he; cases hunlinking.symm.trans hm)⟩
  · exact (h.unused_at hd { hu with }).imp
      (fun hy => by cases hdrop.symm.trans hy) id
  · have hyl' : update s.destroyed x true y = false := hyl
    have hyx : y ≠ x := by grind
    refine (h.loose_at hd hy (by grind)).imp id (Or.imp (fun he => ?_) id)
    exact absurd (Option.some.inj (he.symm.trans hx)) hyx
  · exact hok.mono rfl rfl rfl (fun _ _ => .inl) (fun _ _ => id) (fun _ => id)
      (fun y hy => by cases hloose.symm.trans hy) (fun _ _ => rfl)
      fun i x k he' => by subst he'; exact hok.2.2.2
  · by_cases hyx : y = x
    · exact .inr (hyx ▸ hmine)
    · exact .inl ((update_of_ne hyx ..).trans hyl)

end Dir

section Table

section

variable (h : SemfsInv s) (ht : s.table = some p)
include h ht

theorem vnodes_at : VnodeTable s.vnodes s.semnum s.made s.slot s.hasvnode p.taken := by
  have := h.vnodes
  rwa [ht] at this

theorem refs_table : VnodeRefs s.vnodes s.refcount s.held s.pending (s.dir.bind (·.ref)) p.ref := by
  have := h.refs
  rwa [ht] at this

theorem unused_table (hu : s.Unused x k) :
    s.dir.bind (·.dropping) = some x ∨ p.dropping = some x := by
  have := h.ledger.unused hu
  rwa [ht] at this

theorem loose_table (hx : x < s.created) (hl : s.destroyed x = false) :
    (∃ k, s.slot k = some x) ∨ s.dir.bind (·.loose) = some x ∨ p.loose = some x := by
  have := h.ledger.loose hx hl
  rwa [ht] at this

end

/-- What `semfs_getvnode` for a new semaphore has not reached yet. -/
theorem noVnode (h : SemfsInv s) (hnot : ∀ v, s.table ≠ some (.got true (some v)))
    (hd : s.dir = some (.getvnode (.fresh i x) k)) : s.hasvnode x = false := by
  obtain ⟨-, -, -, hget⟩ : _ ∧ _ ∧ _ ∧ (s.hasvnode x = true → _) := h.dirOk _ hd
  grind

/-- The holder of the dirlock can go on, unless `semfs_getvnode` is about to return to it. -/
theorem dirOk_table (h : SemfsInv s) (hnot : ∀ v, s.table ≠ some (.got true (some v)))
    {t : Semfs N} (hd : s.dir = some d) (hdent : t.dent = s.dent) (hlinked : t.linked = s.linked)
    (hcreated : t.created = s.created)
    (hslot : ∀ k x, s.slot k = some x → t.slot k = some x ∨
      s.linked x = false ∧ d.making ≠ some x ∧ d.unlinking ≠ some x)
    (hsub : ∀ k x, t.slot k = some x → s.slot k = some x)
    (hvnode : ∀ x, s.hasvnode x = false → t.hasvnode x = false)
    (hlive : ∀ x, d.loose = some x → s.destroyed x = false → t.destroyed x = false)
    (hsemnum : ∀ v, d.ref = some v → t.semnum v = s.semnum v) : t.DirOk d := by
  refine (h.dirOk d hd).mono hdent hlinked hcreated hslot hsub hvnode hlive hsemnum ?_
  rintro i x k rfl hv
  exact absurd ((hvnode x (h.noVnode hnot hd)).symm.trans hv) (by simp)

/-- The tablelock is taken or given up, or its holder goes on; only references change. -/
theorem moveTable (q : Option SemfsTablePc) (rc hl pd : Nat → Nat) (h : SemfsInv s)
    (hnot : ∀ v, s.table ≠ some (.got true (some v)))
    (hrefs : VnodeRefs s.vnodes rc hl pd (s.dir.bind (·.ref)) (q.bind (·.ref)))
    (htaken : q.bind (·.taken) = s.table.bind (·.taken))
    (hdrop : ∀ x k, s.Unused x k → s.table.bind (·.dropping) = some x → q.bind (·.dropping) =
      some x)
    (hloose : q.bind (·.loose) = s.table.bind (·.loose))
    (hok : ∀ p, q = some p →
      ({ s with table := q, refcount := rc, held := hl, pending := pd } : Semfs N).TableOk p) :
    SemfsInv { s with table := q, refcount := rc, held := hl, pending := pd } where
  sems := h.sems
  bound := h.bound
  dead := h.dead
  dents := h.dents
  vnodes := (htaken ▸ h.vnodes :
    VnodeTable s.vnodes s.semnum s.made s.slot s.hasvnode (q.bind (·.taken)))
  refs := hrefs
  ledger := by
    refine ⟨fun {k x} hu => ?_, fun hx hl => ?_⟩
    · have hu' : s.Unused x k := { hu with }
      exact (h.ledger.unused hu').imp id (hdrop x k hu')
    · exact (h.ledger.loose hx hl).imp id (Or.imp id hloose.trans)
  dirOk d hd := h.dirOk_table hnot hd rfl rfl rfl (fun _ _ => .inl) (fun _ _ => id) (fun _ => id)
    (fun _ _ => id) fun _ _ => rfl
  tableOk := hok

/-- A client's reference counts do not matter to the holder of the tablelock. -/
theorem moveRefs (rc hl pd : Nat → Nat) (h : SemfsInv s)
    (hrefs : VnodeRefs s.vnodes rc hl pd (s.dir.bind (·.ref)) (s.table.bind (·.ref)))
    (hdrop : ∀ v, s.table = some (.drop v) → rc v ≤ 1) :
    SemfsInv { s with refcount := rc, held := hl, pending := pd } where
  sems := h.sems
  bound := h.bound
  dead := h.dead
  dents := h.dents
  vnodes := h.vnodes
  refs := hrefs
  ledger := ⟨fun hu => h.ledger.unused { hu with }, h.ledger.loose⟩
  dirOk d hd := (h.dirOk d hd).mono rfl rfl rfl (fun _ _ => .inl) (fun _ _ => id) (fun _ => id)
    (fun _ _ => id) (fun _ _ => rfl) fun i x k he hv => by subst he; exact (h.dirOk _ hd).2.2.2 hv
  tableOk p hp := by
    have hok := h.tableOk p hp
    cases p with
    | drop v => exact hdrop v hp
    | find dir | make dir | got dir => cases dir <;> exact hok
    | clear x k => exact ⟨{ hok.1 with }, hok.2⟩
    | destroy x =>
      exact ⟨{ hok.1 with }, hok.2⟩
    | _ => exact hok

theorem ne_rootdir (h : SemfsInv s) (hk : s.slot k = some x) : k ≠ semfsRootdir := by
  have := lt_length_of_slotAt hk
  have := h.bound
  omega

/-- `semfs_getvnode` has made a vnode; `flag` is `sems_hasvnode` now. -/
theorem makeVnode {dir : Bool} (flag : Nat → Bool) (h : SemfsInv s)
    (ht : s.table = some (.make dir k)) (hkeep : ∀ y, s.hasvnode y = true → flag y = true)
    (hnew : k ≠ semfsRootdir → ∃ x, s.slot k = some x ∧ flag x = true)
    (hflag : ∀ y, flag y = true → s.hasvnode y = true ∨ s.slot k = some y) :
    SemfsInv { s with
      vnodes := s.vnodes ++ [s.made]
      made := s.made + 1
      semnum := update s.semnum s.made k
      refcount := update s.refcount s.made 1
      table := some (.got dir (some s.made))
      hasvnode := flag } := by
  have hvnodes := h.vnodes_at ht
  have hok := h.tableOk _ ht
  have hno : ∀ v ∈ s.vnodes, s.semnum v ≠ k := by cases dir <;> exact hok.2
  have hmade : s.made ∉ s.vnodes := fun hm => Nat.lt_irrefl _ (hvnodes.lt_made hm)
  refine ⟨h.sems, h.bound, fun y hy => ⟨(h.dead y hy).1, ?_⟩, h.dents,
    hvnodes.add hno hkeep hnew hflag, (h.refs_table ht).add hmade,
    ⟨fun {j y} hu => ?_, h.loose_table ht⟩, fun d hd => ?_, at_holder ?_⟩
  · have := h.sems.live (k := k) (x := y)
    have := h.dead y hy
    show flag y = false
    grind
  · exact h.unused_table ht ⟨hu.slot, hu.linked, by grind [hu.hasvnode]⟩
  · cases dir with
    | true =>
      -- the caller waits for the vnode
      have hdok := h.dirOk d hd
      obtain ⟨⟨c, hc⟩, -⟩ := hok
      obtain rfl := Option.some.inj (hc.symm.trans hd)
      cases c with
      | found => exact hdok
      | fresh i x => exact ⟨hdok.1, hdok.2.1, hdok.2.2.1, fun _ => ⟨s.made, rfl⟩⟩
    | false =>
      have hsame : ∀ y, s.hasvnode y = false → flag y = false := by
        grind [h.ne_rootdir, hok.1]
      refine h.dirOk_table (by rw [ht]; exact nofun) hd rfl rfl rfl (fun _ _ => .inl)
        (fun _ _ => id) hsame (fun _ _ => id) fun v hv => update_of_ne ?_ ..
      rintro rfl
      refine hmade (h.refs.mem (.inr (.inr (.inl ?_))))
      rw [show s.dir = some d from hd]
      exact hv
  · cases dir with
    | false => trivial
    | true =>
      obtain ⟨⟨c, hc⟩, -⟩ := hok
      refine ⟨c, k, hc, fun v hv => ?_⟩
      grind

variable (h : SemfsInv s)
include h

theorem returnVnode {r : Option Nat} (ht : s.table = some (.got true r)) :
    SemfsInv { s with table := none, dir := Semfs.getvnodeReturns r s.dir } := by
  obtain ⟨c, k, hd, hr⟩ : ∃ c k, s.dir = some (.getvnode c k) ∧ ∀ v, r = some v → s.semnum v = k :=
    h.tableOk _ ht
  have hrefs := h.refs_at hd
  have hvnodes := h.vnodes_at ht
  rw [ht] at hrefs
  have hloose : ∀ {x}, x < s.created → s.destroyed x = false → ∃ k, s.slot k = some x := by
    intro x hx hl
    have := h.loose_at hd hx hl
    rw [ht] at this
    exact this.resolve_right (by cases c <;> exact fun h => h.elim nofun nofun)
  have hunused : ∀ {x k'}, s.Unused x k' → (SemfsDirPc.getvnode c k : SemfsDirPc N).dropping =
      some x := by
    intro x k' hu
    have := h.unused_at hd hu
    rw [ht] at this
    exact this.resolve_right nofun
  rw [hd]
  cases c with
  | found =>
    exact ⟨h.sems, h.bound, h.dead, h.dents_at hd, hvnodes, hrefs.swap,
      ⟨fun hu => .inl (hunused { hu with }), fun hx hl =>
        .inl (hloose hx hl)⟩, at_holder trivial, nofun⟩
  | fresh i x =>
    obtain ⟨hi, hx, hl, hget⟩ : (∃ n, s.dent i = some (n, k)) ∧ s.slot k = some x ∧
      s.linked x = false ∧ (s.hasvnode x = true → ∃ v, s.table = some (.got true (some v))) :=
        h.dirOk _ hd
    cases r with
    | none =>
      have hv := h.noVnode (by rw [ht]; exact nofun) hd
      exact ⟨h.sems, h.bound, h.dead, h.dents_at hd, hvnodes, hrefs.swap,
        ⟨fun hu => .inl (hunused { hu with }), fun hx hl =>
          .inl (hloose hx hl)⟩, at_holder ⟨hi, hx, hl, hv⟩, nofun⟩
    | some v =>
      have hsem := hr v rfl
      have hv : s.hasvnode x = true := by
        have hmem : v ∈ s.vnodes := hrefs.mem (.inr (.inr (.inr rfl)))
        obtain ⟨y, hy, hf⟩ := hvnodes.inTable hmem (hsem ▸ h.ne_rootdir hx)
        grind
      refine ⟨h.sems, h.bound, h.dead, h.dents_at hd, hvnodes, hrefs.swap,
        ⟨fun {j y} hu => ?_, fun hx hl => .inl (hloose hx hl)⟩, at_holder ⟨hi, hx, hl, hsem⟩, nofun⟩
      obtain rfl := Option.some.inj (hunused { hu with })
      exact absurd (hu.hasvnode.symm.trans hv) (by simp)

theorem dropVnode (ht : s.table = some (.drop v)) {q : SemfsTablePc}
    (htaken : ∀ x, s.slot (s.semnum v) = some x → s.hasvnode x = true →
      q.taken = some (x, s.semnum v))
    (href : q.ref = none)
    (hok : ({ s with vnodes := s.vnodes.erase v }.tableAt q : Semfs N).TableOk q) :
    SemfsInv ({ s with vnodes := s.vnodes.erase v }.tableAt q) := by
  have hv1 : s.refcount v ≤ 1 := h.tableOk _ ht
  have hrefs := h.refs_table ht
  have hvnodes := h.vnodes_at ht
  have hmem : v ∈ s.vnodes := hrefs.mem (.inr (.inr (.inr rfl)))
  have hrefs' : VnodeRefs (s.vnodes.erase v) s.refcount s.held s.pending (s.dir.bind (·.ref))
      q.ref := by
    rw [href]
    exact VnodeRefs.drop hrefs hvnodes.nodup hv1
  exact ⟨h.sems, h.bound, h.dead, h.dents, hvnodes.drop hmem htaken, hrefs',
    ⟨fun hu => (h.unused_table ht { hu with }).imp id nofun,
      fun hx hl => (h.loose_table ht hx hl).imp id (Or.imp id nofun)⟩,
    fun d hd => h.dirOk_table (by rw [ht]; exact nofun) hd rfl rfl rfl (fun _ _ => .inl)
      (fun _ _ => id) (fun _ => id) (fun _ _ => id) fun _ _ => rfl, at_holder hok⟩

theorem unvnode (ht : s.table = some (.unvnode x k)) :
    SemfsInv ({ s with hasvnode := update s.hasvnode x false }.tableAt (.test x k)) := by
  obtain ⟨hx, hf, hno⟩ : s.slot k = some x ∧ s.hasvnode x = true ∧
    ∀ v ∈ s.vnodes, s.semnum v ≠ k := h.tableOk _ ht
  have hmono : ∀ y, s.hasvnode y = false → update s.hasvnode x false y = false := by grind
  refine ⟨h.sems, h.bound, fun y hy => ⟨(h.dead y hy).1, hmono y (h.dead y hy).2⟩, h.dents,
    (h.vnodes_at ht).unflag h.sems hx hno, h.refs_table ht,
    ⟨fun {j y} hu => ?_, fun hy hl => (h.loose_table ht hy hl).imp id (Or.imp id nofun)⟩,
    fun d hd => h.dirOk_table (by rw [ht]; exact nofun) hd rfl rfl rfl (fun _ _ => .inl)
      (fun _ _ => id) hmono (fun _ _ => id) fun _ _ => rfl,
    at_holder ⟨hx, update_self .., fun d hd hm => ?_⟩⟩
  · by_cases hyx : y = x
    · exact .inr (congrArg some hyx.symm)
    · obtain ⟨hk, hl, hv⟩ := hu
      simp only [Semfs.tableAt, update_apply, if_neg hyx] at hv
      exact (h.unused_table ht ⟨hk, hl, hv⟩).imp id nofun
  · -- a semaphore that is being made has no vnode, or has one that is referenced
    have hdok := h.dirOk d hd
    have hflag : s.hasvnode x ≠ false := by rw [hf]; simp
    cases d with
    | insert | makeDent | putDent | undir =>
      cases hm
      exact hflag hdok.2.hasvnode
    | uninsert | uncreate =>
      cases hm
      exact hflag hdok.hasvnode
    | getvnode c j =>
      cases c with
      | found => cases hm
      | fresh i y =>
        cases hm
        exact hflag (h.noVnode (by rw [ht]; exact nofun) hd)
    | link i y j v =>
      cases hm
      obtain ⟨-, hy, -, hv⟩ := hdok
      obtain rfl := h.sems.inj hx hy
      exact hno v ((h.refs_at hd).mem (.inr (.inr (.inl rfl)))) hv
    | _ => cases hm

/-- `semfs_reclaim` takes the semaphore out of the table. -/
theorem clearTable (ht : s.table = some (.clear x k)) :
    SemfsInv ((s.clearSlot k).tableAt (.destroy x)) := by
  obtain ⟨hu, ha⟩ : s.Unused x k ∧ s.Apart x := h.tableOk _ ht
  have hslot := Semfs.slot_clearSlot s k
  have hat : ∀ {y}, s.slot k = some y → y = x := fun hy => Option.some.inj (hy.symm.trans hu.slot)
  have hl := h.loose_of_clear hu
  refine ⟨hslot ▸ h.sems.clear k, (List.length_set ..).trans_le h.bound, h.dead,
    hslot ▸ h.dents.clear fun y hy => hat hy ▸ hu.linked,
    hslot ▸ (h.vnodes_at ht).clear fun y hy => hat hy ▸ hu.hasvnode, h.refs_table ht,
    ⟨fun {j y} hu' => ?_, fun {y} hy hl => ?_⟩, fun d hd => ?_,
    at_holder ⟨{ hl with }, ha⟩⟩
  · obtain ⟨hjk, hj⟩ := eq_some_of_update_none (hslot ▸ hu'.slot)
    refine (h.unused_table ht ⟨hj, hu'.linked, hu'.hasvnode⟩).imp id fun hy => ?_
    cases hy
    exact absurd (h.sems.inj hj hu.slot) hjk
  · rcases h.loose_table ht hy hl with ⟨j, hj⟩ | hy | hy
    · by_cases hjk : j = k
      · exact .inr (.inr (congrArg some (hat (hjk ▸ hj)).symm))
      · exact .inl ⟨j, hslot ▸ (update_of_ne hjk ..).trans hj⟩
    · exact .inr (.inl hy)
    · cases hy
  · refine h.dirOk_table (by rw [ht]; exact nofun) hd rfl rfl rfl (fun j y hj => ?_)
      (fun j y hj => (eq_some_of_update_none (hslot ▸ hj)).2) (fun _ => id) (fun _ _ => id)
      fun _ _ => rfl
    by_cases hjk : j = k
    · obtain rfl := hat (hjk ▸ hj)
      exact .inr ⟨hu.linked, ha d hd⟩
    · exact .inl (hslot ▸ (update_of_ne hjk ..).trans hj)

theorem destroyTable (ht : s.table = some (.destroy x)) :
    SemfsInv ((s.destroySem x).tableAt .unlock) := by
  obtain ⟨hl, ha⟩ : s.Loose x ∧ s.Apart x := h.tableOk _ ht
  refine ⟨h.sems.destroy hl.slot, h.bound, h.dead_of_destroy hl, h.dents, h.vnodes_at ht,
    h.refs_table ht, ⟨fun hu => h.unused_table ht { hu with },
      fun {y} hy hyl => ?_⟩, fun d hd => ?_, at_holder trivial⟩
  · have hyl' : update s.destroyed x true y = false := hyl
    have hyx : y ≠ x := by grind
    refine (h.loose_table ht hy (by grind)).imp id (Or.imp id fun he => ?_)
    exact absurd (Option.some.inj he).symm hyx
  · refine h.dirOk_table (by rw [ht]; exact nofun) hd rfl rfl rfl (fun _ _ => .inl) (fun _ _ => id)
      (fun _ => id) (fun y hy hyl => (update_of_ne ?_ ..).trans hyl) fun _ _ => rfl
    rintro rfl
    exact (SemfsDirPc.mine_of_loose hy).elim (ha d hd).1 (ha d hd).2

end Table

end SemfsInv

end OsPaging.Fs
