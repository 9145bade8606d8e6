import OsPaging.Proc.Descriptors
import Mathlib.Data.List.Find

/-!
# The tables refine the descriptors

`Tracks` relates the tables that one process sees to its descriptors, `Refines` those of all
processes: an entry is at an occupied slot of its own, which no other process has.

A table that holds what was left by another process makes its files the new one's
(`recycled_descriptor`). **`descriptors_refine`** is for processes that start with an empty table.
-/

namespace OsPaging.Proc

open OsPaging.Lib OsPaging.Vm OsPaging.Syscall Function

variable {P : Type}
variable {fd k : Nat}

/-! ## One process -/

/-- The open file in a slot. -/
def descriptor (f : OpenFile) : Option Descriptor := f.vn.map fun v => ⟨v, f.offset⟩

/-- The table of a process is the map `m`: its entries are descriptors that `sys_open` returns, each
with an occupied slot of its own. -/
structure Tracks (files : Files) (m : Descriptors) : Prop where
  map : ∀ fd, m fd =
    if fd ≤ openMax then (files.table fd).bind fun k => descriptor (files.system k) else none
  entries : ∀ fd ≤ openMax, ∀ k, files.table fd = some k →
    3 ≤ fd ∧ fd < openMax ∧ k < systemOpenMax ∧ (files.system k).vn ≠ none
  distinct : ∀ fd ≤ openMax, ∀ fd' ≤ openMax, ∀ k, files.table fd = some k →
    files.table fd' = some k → fd = fd'

namespace Tracks

variable {files : Files} {m : Descriptors}

variable (h : Tracks files m)
include h

theorem lookup (fd : Int) :
    m.lookup fd = (entry files fd).bind fun k => descriptor (files.system k) := by
  unfold Descriptors.lookup entry
  rw [h.map]
  grind

/-- The descriptors are those that `sys_open` can return. -/
theorem support {f : Descriptor} (hf : m fd = some f) : 3 ≤ fd ∧ fd < openMax := by
  rw [h.map] at hf
  split_ifs at hf with hle
  obtain ⟨k, hk, -⟩ := Option.bind_eq_some_iff.mp hf
  obtain ⟨h3, hlt, -⟩ := h.entries fd hle k hk
  exact ⟨h3, hlt⟩

theorem of_entry {fd : Int} (he : entry files fd = some k) :
    fd.toNat ≤ openMax ∧ files.table fd.toNat = some k ∧ ∃ v, (files.system k).vn = some v ∧
      m.lookup fd = some ⟨v, (files.system k).offset⟩ := by
  obtain ⟨-, hle, hk⟩ := entry_eq_some.mp he
  obtain ⟨v, hv⟩ := Option.ne_none_iff_exists'.mp (h.entries _ hle k hk).2.2.2
  exact ⟨hle, hk, v, hv, by rw [h.lookup, he]; simp [descriptor, hv]⟩

/-- A slot that is free, or the one of this descriptor, and the entry change. -/
theorem set {e : Option Nat} {f : OpenFile} (hfd : fd ≤ openMax)
    (hk : ∀ fd' ≤ openMax, files.table fd' = some k → fd' = fd)
    (he : ∀ k', e = some k' → k' = k ∧ 3 ≤ fd ∧ fd < openMax ∧ k < systemOpenMax ∧ f.vn ≠ none) :
    Tracks ⟨update files.system k f, update files.table fd e⟩
      (update m fd (e.bind fun _ => descriptor f)) := by
  -- the other entries are not at `k`
  have hother : ∀ fd' ≤ openMax, fd' ≠ fd → ∀ k', files.table fd' = some k' → k' ≠ k := by
    grind
  refine ⟨fun fd' => ?_, fun fd' hle k' hk' => ?_, fun fd₁ h₁ fd₂ h₂ k' hk₁ hk₂ => ?_⟩
  · by_cases hne : fd' = fd
    · subst hne
      simp only [update_self, if_pos hfd]
      cases e with
      | none => rfl
      | some k' =>
        obtain ⟨rfl, -⟩ := he k' rfl
        simp
    · simp only [update_of_ne hne, h.map fd']
      split_ifs with hle
      · cases hk' : files.table fd' with
        | none => rfl
        | some k' => simp [update_of_ne (hother fd' hle hne k' hk')]
      · rfl
  · by_cases hne : fd' = fd
    · grind
    · simp only [update_of_ne hne] at hk' ⊢
      rw [update_of_ne (hother fd' hle hne k' hk')]
      exact h.entries fd' hle k' hk'
  · simp only [update_apply] at hk₁ hk₂
    split_ifs at hk₁ hk₂ with e₁ e₂ e₂
    · rw [e₁, e₂]
    · grind
    · grind
    · exact h.distinct fd₁ h₁ fd₂ h₂ k' hk₁ hk₂

theorem set_slot {f : OpenFile} (hk : ∀ fd ≤ openMax, files.table fd ≠ some k) :
    Tracks { files with system := update files.system k f } m := by
  have hlast : files.table openMax = none := by
    by_contra hne
    obtain ⟨k', hk'⟩ := Option.ne_none_iff_exists'.mp hne
    exact absurd (h.entries _ (Nat.le_refl _) k' hk').2.1 (Nat.lt_irrefl _)
  have key : Tracks _ (update m openMax none) := h.set (k := k) (e := none) (f := f)
    (Nat.le_refl openMax)
    (fun fd hle hfd => absurd hfd (hk fd hle)) (by simp)
  have hm : m openMax = none := by
    rw [h.map, if_pos (Nat.le_refl _), hlast]
    rfl
  rwa [(update_eq_self_iff (f := files.table)).mpr hlast.symm,
    (update_eq_self_iff (f := m)).mpr hm.symm] at key

theorem isNone (hfd : fd ≤ openMax) : (m fd).isNone = (files.table fd).isNone := by
  rw [h.map, if_pos hfd]
  cases hk : files.table fd with
  | none => rfl
  | some k =>
    obtain ⟨v, hv⟩ := Option.ne_none_iff_exists'.mp (h.entries fd hfd k hk).2.2.2
    simp [descriptor, hv]

theorem ne_of_free {i : Nat} (hfree : (files.system i).vn = none) (hfd : fd ≤ openMax) :
    files.table fd ≠ some i :=
  fun hi => (h.entries fd hfd i hi).2.2.2 hfree

theorem install (v : Nat) : ∃ full,
    (m.install full v).1 = (installFile files v).1 ∧
      Tracks (installFile files v).2 (m.install full v).2 ∧
      FilesMoved files (some v) (if (installFile files v).1 = -1 then some v else none)
        (installFile files v).2 := by
  have hfind : ((List.range' 3 (openMax - 3)).find? fun j => (m j).isNone) =
      (List.range' 3 (openMax - 3)).find? fun j => (files.table j).isNone := by
    refine List.find?_congr fun j hj => h.isNone ?_
    rw [List.mem_range'_1] at hj
    omega
  generalize hr : installFile files v = r
  unfold installFile at hr
  cases hi : (List.range systemOpenMax).find? fun i => (files.system i).vn.isNone with
  | none =>
    rw [hi] at hr
    obtain rfl := hr
    exact ⟨true, rfl, h, .same _⟩
  | some i =>
    rw [hi] at hr
    obtain ⟨hfree, hmem, -⟩ := List.find?_range_eq_some.mp hi
    rw [List.mem_range] at hmem
    replace hfree : (files.system i).vn = none := by simpa using hfree
    refine ⟨false, ?_⟩
    simp only [Descriptors.install, hfind]
    simp only at hr
    cases hj' : (List.range' 3 (openMax - 3)).find? fun j => (files.table j).isNone with
    | none =>
      rw [hj'] at hr
      obtain rfl := hr
      refine ⟨rfl, h.set_slot fun fd => h.ne_of_free hfree, .leaked hmem hfree fun j h3 hlt => ?_⟩
      grind
    | some j =>
      obtain ⟨hnone, hrange, -⟩ := List.find?_range'_eq_some.mp hj'
      rw [List.mem_range'_1] at hrange
      replace hnone : files.table j = none := by simpa using hnone
      have hj : 3 ≤ j ∧ j < openMax := by
        simp only [openMax] at hrange ⊢
        omega
      rw [hj'] at hr
      obtain rfl := hr
      refine ⟨rfl, ?_, ?_⟩
      · exact h.set (f := ⟨some v, 1, 0⟩) (Nat.le_of_lt hj.2)
          (fun fd hle hfd => absurd hfd (h.ne_of_free hfree hle)) (by
            rintro k' heq
            cases heq
            exact ⟨rfl, hj.1, hj.2, hmem, by simp⟩)
      · rw [if_neg (show (j : Int) ≠ -1 by omega)]
        exact .opened hmem hfree hj hnone

theorem io (env : Env) (read : Bool) (fd : Int) (buf size : Nat) :
    (m.io env read fd buf size).1 = (fileIo env files read fd buf size).1 ∧
      (m.io env read fd buf size).2.1 = (fileIo env files read fd buf size).2.1 ∧
      Tracks (fileIo env files read fd buf size).2.2 (m.io env read fd buf size).2.2 ∧
      FilesMoved files none none (fileIo env files read fd buf size).2.2 := by
  cases he : entry files fd with
  | none =>
    have hlookup : m.lookup fd = none := by rw [h.lookup, he]; rfl
    rw [Descriptors.io, hlookup, fileIo_of_none he]
    exact ⟨rfl, rfl, h, .same none⟩
  | some k =>
    obtain ⟨hle, hk, v, hv, hlookup⟩ := h.of_entry he
    rw [Descriptors.io, hlookup, fileIo_of_some he hv]
    dsimp only
    rcases transfer env read v (files.system k).offset buf size with ⟨retval, log, _ | offset⟩
    · exact ⟨rfl, rfl, h, .same none⟩
    · refine ⟨rfl, rfl, ?_, .moved hle hk hv⟩
      have hentry := h.entries _ hle k hk
      have key := h.set (k := k) (e := some k) (f := { files.system k with offset := offset }) hle
        (fun fd' hle' hfd' => h.distinct fd' hle' _ hle k hfd' hk) (by
          rintro k' heq
          cases heq
          exact ⟨rfl, hentry⟩)
      rw [(update_eq_self_iff (f := files.table)).mpr hk.symm] at key
      simpa [descriptor, hv] using key

/-- **A call of one process** does to its tables what it should do to its descriptors. -/
theorem call (c : FileCall) : ∃ full,
    (m.spec full c).1 = c.observe files ∧ Tracks (c.run files).files (m.spec full c).2 ∧
      FilesMoved files c.opened (c.closed files) (c.run files).files := by
  cases c <;> simp only [Descriptors.spec, FileCall.observe, FileCall.run, FileCall.opened,
    FileCall.closed]
  case «open» env path openflags =>
    rcases hv : vfsOpen env path openflags.toNat with ⟨_ | _ | v, log⟩
    · simp only [sysOpen, hv]
      exact ⟨false, rfl, h, .same none⟩
    · simp only [sysOpen, hv]
      exact ⟨false, rfl, h, .same none⟩
    · obtain ⟨full, hret, htracks, hmoved⟩ := h.install v
      refine ⟨full, ?_⟩
      simp only [sysOpen, hv]
      grind
  case close fd =>
    refine ⟨false, ?_⟩
    cases he : entry files fd with
    | none =>
      have hlookup : m.lookup fd = none := by rw [h.lookup, he]; rfl
      simp only [hlookup, sysClose_of_none he]
      exact ⟨rfl, h, .same none⟩
    | some k =>
      obtain ⟨hle, hk, v, hv, hlookup⟩ := h.of_entry he
      simp only [hlookup, sysClose_of_some he hv, Option.bind_some, hv]
      refine ⟨trivial, ?_, .closed hle hk hv⟩
      exact h.set (k := k) (e := none) hle
        (fun fd' hle' hfd' => h.distinct fd' hle' _ hle k hfd' hk) (by simp)
  case read env fd buf size =>
    refine ⟨false, ?_⟩
    obtain ⟨hret, hlog, htracks, hmoved⟩ := h.io env true fd buf size.toNat
    by_cases hfd : fd = 0
    · simp only [sysRead, hfd]
      exact ⟨rfl, h, .same none⟩
    · simp only [sysRead, hfd, ne_eq, not_false_eq_true, if_true, if_false, hret, hlog]
      exact ⟨trivial, htracks, hmoved⟩
  case write env fd buf size =>
    refine ⟨false, ?_⟩
    obtain ⟨hret, hlog, htracks, hmoved⟩ := h.io env false fd buf size.toNat
    by_cases hfd : fd = 1 ∨ fd = 2
    · have hneg : ¬ (fd ≠ 1 ∧ fd ≠ 2) := by tauto
      simp only [sysWrite, if_pos hfd, if_neg hneg]
      exact ⟨trivial, h, .same none⟩
    · have hpos : fd ≠ 1 ∧ fd ≠ 2 := by tauto
      simp only [sysWrite, if_neg hfd, if_pos hpos, hret, hlog]
      exact ⟨trivial, htracks, hmoved⟩

end Tracks

/-! ## All processes -/

theorem Tracks.of_system_eq {files : Files} {m : Descriptors} (h : Tracks files m)
    {system : Nat → OpenFile}
    (heq : ∀ fd ≤ openMax, ∀ k, files.table fd = some k → system k = files.system k) :
    Tracks { files with system := system } m := by
  refine ⟨fun fd => ?_, fun fd hle k hk => ?_, h.distinct⟩
  · rw [h.map fd]
    split_ifs with hle
    · cases hk : files.table fd with
      | none => rfl
      | some k => simp [heq fd hle k hk]
    · rfl
  · simp only [heq fd hle k hk]
    exact h.entries fd hle k hk

/-- The tables are the descriptors, and no two processes share a slot. -/
structure Refines (s : FileState P) (d : DescriptorMap P) : Prop where
  live : ∀ p, s.live p = (d p).isSome
  tracks : ∀ p m, d p = some m → Tracks (s.files p) m
  distinct : ∀ p q, p ≠ q → s.live p = true → s.live q = true → ∀ fd ≤ openMax, ∀ fd' ≤ openMax,
    ∀ k, s.fileTable p fd = some k → s.fileTable q fd' ≠ some k

namespace Refines

variable {s s' : FileState P} {d : DescriptorMap P} {p : P}

theorem init : Refines (noFiles : FileState P) fun _ => none :=
  ⟨fun _ => rfl, by simp, by simp [noFiles]⟩

theorem of_live (h : Refines s d) (hp : s.live p = true) : ∃ m, d p = some m :=
  Option.isSome_iff_exists.mp ((h.live p).symm.trans hp)

theorem ne_of_ne (h : Refines s d) {q : P} (hpq : p ≠ q) {m m' : Descriptors} (hp : d p = some m)
    (hq : d q = some m') {fd' : Nat} (hfd : fd ≤ openMax) (hfd' : fd' ≤ openMax)
    (hk : s.fileTable p fd = some k) : s.fileTable q fd' ≠ some k :=
  h.distinct p q hpq ((h.live p).trans (by rw [hp]; rfl)) ((h.live q).trans (by rw [hq]; rfl))
    fd hfd fd' hfd' k hk

variable [DecidableEq P]

variable (h : Refines s d)
include h

theorem create {garbage : Nat → Option Nat} (hnone : ∀ i ≤ openMax, garbage i = none) :
    Refines { s with
        live := update s.live p true
        fileTable := update s.fileTable p garbage }
      (update d p (some fun _ => none)) := by
  refine ⟨fun q => ?_, fun q m hq => ?_, fun q r hqr hq hr fd hfd fd' hfd' k hk => ?_⟩
  · simp only [update_apply]
    split_ifs
    · rfl
    · exact h.live q
  · simp only [FileState.files, update_apply] at hq ⊢
    split_ifs at hq ⊢ with heq
    · cases hq
      refine ⟨fun fd => ?_, fun fd hle k hk => ?_, fun fd hle _ _ k hk => ?_⟩
      · grind
      · grind
      · grind
    · exact h.tracks q m hq
  · simp only [update_apply] at hq hr hk ⊢
    by_cases hqp : q = p
    · grind
    · rw [if_neg hqp] at hq hk
      by_cases hrp : r = p
      · rw [if_pos hrp, hnone fd' hfd']
        simp
      · rw [if_neg hrp] at hr ⊢
        exact h.distinct q r hqr hq hr fd hfd fd' hfd' k hk

theorem destroy : Refines { s with live := update s.live p false } (update d p none) := by
  refine ⟨fun q => ?_, fun q m hq => ?_, fun q r hqr hq hr => ?_⟩
  · simp only [update_apply]
    split_ifs
    · rfl
    · exact h.live q
  · rw [update_apply] at hq
    split_ifs at hq
    exact h.tracks q m hq
  · simp only [update_apply] at hq hr
    split_ifs at hq hr
    exact h.distinct q r hqr hq hr

/-- The tables of one process change as a call can change them. -/
theorem call {m m' : Descriptors} {v v' : Option Nat} {files : Files} (hp : d p = some m)
    (hmoved : FilesMoved (s.files p) v v' files) (htracks : Tracks files m') :
    Refines { s with
        system := files.system, fileTable := update s.fileTable p files.table }
      (update d p (some m')) := by
  -- the slots of the others are occupied, and are no entries of this process
  have hframe : ∀ q m', q ≠ p → d q = some m' → ∀ fd ≤ openMax, ∀ k, s.fileTable q fd = some k →
      files.system k = s.system k := fun q m' hqp hq fd hle k hk =>
    hmoved.frame ((h.tracks q m' hq).entries fd hle k hk).2.2.2
      fun fd' hle' => h.ne_of_ne hqp hq hp hle hle' hk
  -- a new entry is at a slot that was free, and so is no entry of the others
  have hnew : ∀ q m', q ≠ p → d q = some m' → ∀ fd ≤ openMax, ∀ fd' ≤ openMax, ∀ k,
      files.table fd = some k → s.fileTable q fd' ≠ some k :=
    fun q m' hqp hq fd hle fd' hle' k hk hk' => by
      rcases hmoved.entry hk with hold | hfree
      · exact h.ne_of_ne (Ne.symm hqp) hp hq hle hle' hold hk'
      · exact ((h.tracks q m' hq).entries fd' hle' k hk').2.2.2 hfree
  refine ⟨fun q => ?_, fun q m' hq => ?_, fun q r hqr hq hr fd hfd fd' hfd' k hk => ?_⟩
  · rw [update_apply]
    split_ifs with hqp
    · rw [h.live q, hqp, hp]
      rfl
    · exact h.live q
  · simp only [FileState.files, update_apply] at hq ⊢
    split_ifs at hq ⊢ with hqp
    · cases hq
      exact htracks
    · exact (h.tracks q m' hq).of_system_eq (hframe q m' hqp hq)
  · obtain ⟨mq, hmq⟩ := h.of_live hq
    obtain ⟨mr, hmr⟩ := h.of_live hr
    simp only [update_apply] at hk ⊢
    by_cases hqp : q = p
    · grind
    · rw [if_neg hqp] at hk
      by_cases hrp : r = p
      · grind
      · rw [if_neg hrp]
        exact h.ne_of_ne hqr hmq hmr hfd hfd' hk

theorem step {e : FileEvent P} (he : e.EmptyTable) (hs : s.exec e = some s') :
    ∃ d', d.Step e d' ∧ Refines s' d' := by
  cases FileState.exec_some hs with
  | @create p garbage hlive =>
    have hp : d p = none := by simpa [h.live p] using hlive
    exact ⟨_, .create p garbage hp, h.create he⟩
  | @call p c hlive =>
    obtain ⟨m, hp⟩ := h.of_live hlive
    obtain ⟨full, hobs, htracks, hmoved⟩ := (h.tracks p m hp).call c
    refine ⟨_, ?_, h.call hp hmoved htracks⟩
    rw [← hobs]
    exact .call p c m full hp
  | @destroy p hlive =>
    obtain ⟨m, hp⟩ := h.of_live hlive
    exact ⟨_, .destroy p m hp, h.destroy⟩

end Refines

/-- A kernel in which `vfs_open` finds vnode 7. -/
def vnodeEnv : Env where
  mem _ := 0
  faults _ := false
  getch _ := 65
  getcurdir := 0
  getroot := 0
  getstart := 0
  lookup := .ok 7
  vop _ _ size _ := ⟨[size], 0⟩
  wait _ := .noProcess
  getpid := 1
  reboot := none

/-- A `sys_open` that returns 3. -/
abbrev opensThree (p : Nat) : FileEvent Nat :=
  .call p (.open vnodeEnv 0 0) ⟨[⟨0, 1, false, true⟩], some (3, 0), some 7, none⟩

end OsPaging.Proc
