import OsPaging.Proc.FileTables

/-!
# Descriptors, as the processes see them

What the file calls are for: each process has a map from descriptors to open files, and a call
changes the map of the process that makes it. `sys_open` gives the vnode the lowest descriptor that
is free in `[3, OPEN_MAX)`, unless the system has no room for another open file; the other calls
work on the descriptor they are given, or fail without one.
-/

namespace OsPaging.Proc

open OsPaging.Lib OsPaging.Vm OsPaging.Syscall Function

variable {P : Type}

/-- An open file, to the process that has it open. -/
structure Descriptor where
  vn : Nat
  offset : Nat
deriving DecidableEq, Repr

/-- The descriptors of a process. -/
abbrev Descriptors := Nat → Option Descriptor

namespace Descriptors

variable (m : Descriptors)

def lookup (fd : Int) : Option Descriptor := if fd < 0 then none else m fd.toNat

/-- The vnode becomes the lowest descriptor that is free, unless there is no room for it. -/
def install (full : Bool) (v : Nat) : Int × Descriptors :=
  match full, (List.range' 3 (openMax - 3)).find? fun j => (m j).isNone with
  | false, some j => (j, update m j (some ⟨v, 0⟩))
  | _, _ => (-1, m)

/-- Data is moved at the offset of the descriptor, which goes on by as much. -/
def io (env : Env) (read : Bool) (fd : Int) (buf size : Nat) :
    Option Int × List Block × Descriptors :=
  match m.lookup fd with
  | none => (some (-1), [], m)
  | some f =>
    let r := transfer env read f.vn f.offset buf size
    (r.1, r.2.1, r.2.2.elim m fun offset =>
      update m fd.toNat (some { f with offset := offset }))

/-- A call by a process with the descriptors `m`; `full` tells that the system has no room for
another open file. The console has no descriptor. -/
def spec (full : Bool) : FileCall → Observed × Descriptors
  | .open env path openflags =>
    match vfsOpen env path openflags.toNat with
    | (none, log) => (⟨log, none, none, none⟩, m)
    | (some (.error _), log) => (⟨log, some (signed (-1)), none, none⟩, m)
    | (some (.ok v), log) =>
      let (retval, m') := m.install full v
      (⟨log, some (signed retval), some v, if retval = -1 then some v else none⟩, m')
  | .close fd =>
    match m.lookup fd with
    | none => (⟨[], some (signed (-1)), none, none⟩, m)
    | some f => (⟨[], some (signed 0), none, some f.vn⟩, update m fd.toNat none)
  | .read env fd buf size =>
    if fd = 0 then
      let o := sysRead env ⟨fun _ => ⟨none, 0, 0⟩, fun _ => none⟩ fd buf size
      (⟨o.log, o.regs, none, none⟩, m)
    else
      let (retval, log, m') := m.io env true fd buf size.toNat
      (⟨log, retval.map signed, none, none⟩, m')
  | .write env fd buf size =>
    if fd = 1 ∨ fd = 2 then
      let o := sysWrite env ⟨fun _ => ⟨none, 0, 0⟩, fun _ => none⟩ fd buf size
      (⟨o.log, o.regs, none, none⟩, m)
    else
      let (retval, log, m') := m.io env false fd buf size.toNat
      (⟨log, retval.map signed, none, none⟩, m')

/-- What a call can do to the descriptors. -/
inductive Moved (m : Descriptors) : FileCall → Observed → Descriptors → Prop
  | same {c : FileCall} {o : Observed} (ho : o.opened = o.closed)
      (hc : ∀ fd, c = .close fd → m.lookup fd = none) : Moved m c o m
  | opened {c : FileCall} {o : Observed} {j v : Nat} (hj : 3 ≤ j ∧ j < openMax) (hnone : m j = none)
      (hregs : o.regs = some (signed j)) (hopened : o.opened = some v) (hclosed : o.closed = none)
      (hc : ∀ fd, c ≠ .close fd) : Moved m c o (update m j (some ⟨v, 0⟩))
  | closed {fd : Int} {f : Descriptor} {o : Observed} (hf : m.lookup fd = some f)
      (hopened : o.opened = none) (hclosed : o.closed = some f.vn) :
      Moved m (.close fd) o (update m fd.toNat none)
  | moved {c : FileCall} {fd : Int} {f : Descriptor} {o : Observed} {offset : Nat}
      (hf : m.lookup fd = some f) (hopened : o.opened = none) (hclosed : o.closed = none)
      (hc : ∀ fd, c ≠ .close fd) :
      Moved m c o (update m fd.toNat (some { f with offset := offset }))

theorem install_cases (m : Descriptors) (full : Bool) (v : Nat) :
    m.install full v = (-1, m) ∨ ∃ j : Nat, (3 ≤ j ∧ j < openMax) ∧ m j = none ∧
      m.install full v = ((j : Int), update m j (some ⟨v, 0⟩)) := by
  unfold install
  split
  · rename_i j hj
    obtain ⟨hnone, hrange, -⟩ := List.find?_range'_eq_some.mp hj
    rw [List.mem_range'_1] at hrange
    refine .inr ⟨j, ?_, by simpa using hnone, rfl⟩
    simp only [openMax] at hrange ⊢
    omega
  · exact .inl rfl

theorem moved_io (m : Descriptors) {c : FileCall} {o : Observed} (env : Env) (read : Bool)
    (fd : Int) (buf size : Nat) (hopened : o.opened = none) (hclosed : o.closed = none)
    (hc : ∀ fd, c ≠ .close fd) : Moved m c o (m.io env read fd buf size).2.2 := by
  have hsame : Moved m c o m := .same (hopened.trans hclosed.symm) fun fd heq => absurd heq (hc fd)
  unfold io
  cases hf : m.lookup fd with
  | none => exact hsame
  | some f =>
    dsimp only
    rcases transfer env read f.vn f.offset buf size with ⟨retval, log, _ | offset⟩
    · exact hsame
    · exact .moved hf hopened hclosed hc

theorem spec_moved (m : Descriptors) (full : Bool) (c : FileCall) :
    Moved m c (m.spec full c).1 (m.spec full c).2 := by
  cases c with dsimp only [spec]
  | «open» env path openflags =>
    rcases vfsOpen env path openflags.toNat with ⟨_ | _ | v, log⟩
    · exact .same rfl (by simp)
    · exact .same rfl (by simp)
    · dsimp only
      rcases m.install_cases full v with heq | ⟨j, hj, hnone, heq⟩ <;> rw [heq]
      · exact .same rfl (by simp)
      · refine .opened hj hnone rfl rfl ?_ (by simp)
        grind
  | close fd =>
    cases hf : m.lookup fd with
    | none => exact .same rfl (by rintro fd' ⟨⟩; exact hf)
    | some f => exact .closed hf rfl rfl
  | read env fd buf size =>
    split_ifs
    · exact .same rfl (by simp)
    · exact m.moved_io env true fd buf size.toNat rfl rfl (by simp)
  | write env fd buf size =>
    split_ifs
    · exact .same rfl (by simp)
    · exact m.moved_io env false fd buf size.toNat rfl rfl (by simp)

variable {m} in
theorem of_lookup {fd : Int} {f : Descriptor} (h : m.lookup fd = some f) :
    0 ≤ fd ∧ m fd.toNat = some f := by
  unfold lookup at h
  grind

end Descriptors

/-- The descriptors of the live processes. -/
abbrev DescriptorMap (P : Type) := P → Option Descriptors

/-- An event changes the descriptors of its own process. -/
inductive DescriptorMap.Step [DecidableEq P] (d : DescriptorMap P) :
    FileEvent P → DescriptorMap P → Prop
  | create (p : P) (garbage : Nat → Option Nat) (h : d p = none) :
      Step d (.create p garbage) (update d p (some fun _ => none))
  | call (p : P) (c : FileCall) (m : Descriptors) (full : Bool) (h : d p = some m) :
      Step d (.call p c (m.spec full c).1) (update d p (some (m.spec full c).2))
  | destroy (p : P) (m : Descriptors) (h : d p = some m) :
      Step d (.destroy p) (update d p none)

/-! ## Descriptors and the calls that made them -/

/-- The event ends what the process had open as `fd`. -/
def FileEvent.Ends (p : P) (fd : Int) : FileEvent P → Prop
  | .create q _ => q = p
  | .call q c _ => q = p ∧ c = .close fd
  | .destroy q => q = p

/-- An earlier `sys_open` of the process got the vnode and returned `fd`, and it has not been closed
since. -/
def OpenedAs (es : List (FileEvent P)) (p : P) (fd : Int) (v : Nat) : Prop :=
  ∃ es₁ c o es₂, es = es₁ ++ .call p c o :: es₂ ∧ o.opened = some v ∧ o.closed = none ∧
    o.regs = some (signed fd) ∧ ∀ e ∈ es₂, ¬ e.Ends p fd

theorem OpenedAs.snoc {es : List (FileEvent P)} {p : P} {fd : Int} {v : Nat} {e : FileEvent P}
    (h : OpenedAs es p fd v) (he : ¬ e.Ends p fd) : OpenedAs (es ++ [e]) p fd v := by
  obtain ⟨es₁, c, o, es₂, rfl, hopened, hclosed, hregs, hes⟩ := h
  refine ⟨es₁, c, o, es₂ ++ [e], by simp, hopened, hclosed, hregs, fun e' he' => ?_⟩
  grind

end OsPaging.Proc
