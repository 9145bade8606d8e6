import OsPaging.Lib.Run
import OsPaging.Thread.Wchan

/-!
# Sleep locks

`lock_create`, `lock_acquire`, `lock_release` and `lock_do_i_hold` of `kern/thread/synch.c:144-241`
(with `OPT_WC`), for any number of threads. `available` and the wait channel are used under
`lk_lock`, so each of these critical sections is one event. The owner is also read and written
outside of them, and each such access is an event of its own: the second write of `lock_acquire`,
and in `lock_release` the assertion and the write of `NULL`.

`lock_create` does not write the owner. It starts as what the heap block held: the address of a
thread, or something else, which is `none` like `NULL`.

**`lock_excludes`** does not depend on it, **`lock_do_i_hold_exact_iff`** says when
`lock_do_i_hold` is exact.
-/

namespace OsPaging.Thread

open OsPaging.Lib

variable {T : Type}
variable {pc : LockPc} {wc : Wchan T}

/-- Where a thread is. -/
inductive LockPc
  /-- In none of the functions, without the lock. -/
  | out
  /-- In the loop of `lock_acquire`. -/
  | waiting
  /-- Past the critical section of `lock_acquire`, before the last write of the owner. -/
  | taken
  /-- `lock_acquire` has returned. -/
  | held
  /-- In `lock_release`, past the assertion. -/
  | checked
  /-- In `lock_release`, past the write of the owner. -/
  | releasing
deriving DecidableEq, Repr

/-- The lock is this thread's. -/
def LockPc.inside : LockPc → Bool
  | .out | .waiting => false
  | _ => true

/-- So is the owner. -/
def LockPc.owning : LockPc → Bool
  | .taken | .held | .checked => true
  | _ => false

theorem LockPc.inside_of_owning (h : pc.owning = true) : pc.inside = true := by
  cases pc <;> first | rfl | exact absurd h (by decide)

structure LockState (T : Type) where
  available : Bool
  owner : Option T
  wchan : Wchan T
  pc : T → LockPc

inductive LockEvent (T : Type)
  /-- A call of `lock_acquire`, and its first section; `done` tells whether it takes the lock. -/
  | acquire (t : T) (done : Bool)
  /-- The section after `wchan_sleep`. -/
  | again (t : T) (done : Bool)
  /-- The write of the owner at the end of `lock_acquire`. -/
  | own (t : T)
  /-- A call of `lock_release`, and its assertion. -/
  | check (t : T)
  /-- The write of the owner in `lock_release`. -/
  | disown (t : T)
  /-- The section of `lock_release`. -/
  | give (t : T)
deriving DecidableEq, Repr

/-- The thread whose event it is. -/
def LockEvent.thread : LockEvent T → T
  | .acquire t _ | .again t _ | .own t | .check t | .disown t | .give t => t

/-- Why an event is not one of a run. -/
inductive Halt
  /-- It is not what the thread does next. -/
  | disabled
  /-- An assertion fails. -/
  | kassert
deriving DecidableEq, Repr

/-- `lock_create`, in a heap block with `owner` in the place of the owner. -/
def lockCreate (owner : Option T) : LockState T := ⟨true, owner, .create, fun _ => .out⟩

namespace LockState

section Exec

variable [DecidableEq T] (s : LockState T)

def setPc (t : T) (pc : LockPc) : LockState T := { s with pc := Function.update s.pc t pc }

@[simp] theorem setPc_available (t : T) (pc : LockPc) :
    (s.setPc t pc).available = s.available := rfl

@[simp] theorem setPc_owner (t : T) (pc : LockPc) : (s.setPc t pc).owner = s.owner := rfl

@[simp] theorem setPc_wchan (t : T) (pc : LockPc) : (s.setPc t pc).wchan = s.wchan := rfl

@[simp] theorem setPc_pc (t u : T) (pc : LockPc) :
    (s.setPc t pc).pc u = if u = t then pc else s.pc u := Function.update_apply _ _ _ _

/-- The section of `lock_acquire`, at the test of its loop (`synch.c:205-213`). -/
def acquireSection (t : T) : Bool × LockState T :=
  if s.available = false then
    (false, { s with wchan := s.wchan.sleep t }.setPc t .waiting)
  else (true, { s with available := false, owner := some t }.setPc t .taken)

/-- The section of `lock_release` (`synch.c:227-231`). -/
def releaseSection (t : T) : LockState T :=
  { s with available := true, wchan := s.wchan.wakeone }.setPc t .out

/-- `lock_do_i_hold` (`synch.c:235-241`). -/
def lockDoIHold (t : T) : Bool := s.owner = some t

/-- One event. -/
def exec : LockEvent T → Except Halt (LockState T)
  | .acquire t done =>
    let r := s.acquireSection t
    if s.pc t = .out ∧ r.1 = done then .ok r.2 else .error .disabled
  | .again t done =>
    let r := { s with wchan := s.wchan.resume t }.acquireSection t
    if t ∈ s.wchan.woken ∧ r.1 = done then .ok r.2 else .error .disabled
  | .own t =>
    if s.pc t = .taken then .ok ({ s with owner := some t }.setPc t .held) else .error .disabled
  | .check t =>
    if s.pc t = .out ∨ s.pc t = .held then
      if s.lockDoIHold t then .ok (s.setPc t .checked) else .error .kassert
    else .error .disabled
  | .disown t =>
    if s.pc t = .checked then .ok ({ s with owner := none }.setPc t .releasing)
    else .error .disabled
  | .give t => if s.pc t = .releasing then .ok (s.releaseSection t) else .error .disabled

/-- Only the thread that holds the lock calls `lock_release`. -/
def HolderReleases : LockEvent T → Prop
  | .check t => s.pc t = .held
  | _ => True

instance : ∀ e : LockEvent T, Decidable (s.HolderReleases e)
  | .check t => inferInstanceAs (Decidable (s.pc t = .held))
  | .acquire _ _ => .isTrue trivial
  | .again _ _ => .isTrue trivial
  | .own _ => .isTrue trivial
  | .disown _ => .isTrue trivial
  | .give _ => .isTrue trivial

/-- One event that `allowed` admits. -/
def Step (allowed : LockState T → LockEvent T → Prop) (s : LockState T) (e : LockEvent T)
    (s' : LockState T) : Prop :=
  allowed s e ∧ s.exec e = .ok s'

end Exec

/-- What an event has done. -/
inductive Moved [DecidableEq T] (s : LockState T) : LockEvent T → LockState T → Prop
  | acquire {t : T} : s.pc t = .out →
      Moved s (.acquire t (s.acquireSection t).1) (s.acquireSection t).2
  | again {t : T} : t ∈ s.wchan.woken →
      Moved s (.again t ({ s with wchan := s.wchan.resume t }.acquireSection t).1)
        ({ s with wchan := s.wchan.resume t }.acquireSection t).2
  | own {t : T} : s.pc t = .taken → Moved s (.own t) ({ s with owner := some t }.setPc t .held)
  | check {t : T} : s.pc t = .out ∨ s.pc t = .held → s.owner = some t →
      Moved s (.check t) (s.setPc t .checked)
  | disown {t : T} : s.pc t = .checked →
      Moved s (.disown t) ({ s with owner := none }.setPc t .releasing)
  | give {t : T} : s.pc t = .releasing → Moved s (.give t) (s.releaseSection t)

theorem exec_ok [DecidableEq T] {s s' : LockState T} {e : LockEvent T} (h : s.exec e = .ok s') :
    Moved s e s' := by
  cases e with simp only [exec] at h
  | acquire t done =>
    split_ifs at h with hc
    obtain ⟨hpc, rfl⟩ := hc
    exact Except.ok.inj h ▸ .acquire hpc
  | again t done =>
    split_ifs at h with hc
    obtain ⟨hmem, rfl⟩ := hc
    exact Except.ok.inj h ▸ .again hmem
  | own t =>
    split_ifs at h with hc
    exact Except.ok.inj h ▸ .own hc
  | check t =>
    split_ifs at h with hc ho
    exact Except.ok.inj h ▸ .check hc (of_decide_eq_true ho)
  | disown t =>
    split_ifs at h with hc
    exact Except.ok.inj h ▸ .disown hc
  | give t =>
    split_ifs at h with hc
    exact Except.ok.inj h ▸ .give hc

theorem Moved.pc_of_ne [DecidableEq T] {s s' : LockState T} {e : LockEvent T} {u : T}
    (h : s.Moved e s') (hu : u ≠ e.thread) : s'.pc u = s.pc u := by
  have hacq : ∀ (s : LockState T) (t : T), u ≠ t → (s.acquireSection t).2.pc u = s.pc u := by
    intro s t hu
    unfold LockState.acquireSection
    split_ifs <;> exact (LockState.setPc_pc _ _ _ _).trans (if_neg hu)
  cases h with
  | acquire => exact hacq s _ hu
  | again => exact hacq _ _ hu
  | _ => exact (LockState.setPc_pc _ _ _ _).trans (if_neg hu)

/-- Only the assertion of `lock_release` can fail. -/
theorem exec_kassert [DecidableEq T] {s : LockState T} {e : LockEvent T}
    (h : s.exec e = .error .kassert) :
    ∃ t, e = .check t ∧ (s.pc t = .out ∨ s.pc t = .held) ∧ s.lockDoIHold t = false := by
  cases e with
  | check t =>
    simp only [exec] at h
    grind
  | _ =>
    simp only [exec] at h
    split_ifs at h
    cases h

end LockState

/-! ## The invariant -/

structure LockInv (s : LockState T) : Prop where
  chan : s.wchan.Wf
  waiting : ∀ t, s.wchan.Has t ↔ s.pc t = .waiting
  excl : ∀ t u, (s.pc t).inside = true → (s.pc u).inside = true → t = u
  free : s.available = true → ∀ t, (s.pc t).inside = false
  busy : s.available = false → ∃ t, (s.pc t).inside = true
  pending : s.available = true → s.wchan.threads ≠ [] → s.wchan.woken ≠ []
  owns : ∀ t, (s.pc t).owning = true → s.owner = some t

namespace LockInv

variable {s s' : LockState T} {t : T}

theorem create (owner : Option T) : LockInv (lockCreate owner) :=
  ⟨.create, fun _ => iff_of_false Wchan.not_has_create (by simp [lockCreate]),
    fun _ _ h => absurd h (by simp [lockCreate, LockPc.inside]),
    fun _ _ => rfl, fun h => absurd h (by simp [lockCreate]), fun _ h => absurd rfl h,
    fun _ h => absurd h (by simp [lockCreate, LockPc.owning])⟩

variable [DecidableEq T]

section

variable (h : LockInv s) (hw : wc.Wf) (hhas : ∀ u, wc.Has u ↔ s.pc u = .waiting ∧ u ≠ t)
include h hw hhas

theorem sleep (hout : (s.pc t).inside = false) (hav : s.available = false) :
    LockInv ({ s with wchan := wc.sleep t }.setPc t .waiting) := by
  have hins : ∀ u, (({ s with wchan := wc.sleep t }.setPc t .waiting).pc u).inside =
      (s.pc u).inside := by
    intro u
    rw [LockState.setPc_pc]
    split_ifs with hu
    · rw [hu, hout]
      rfl
    · rfl
  refine ⟨hw.sleep fun ht => ((hhas t).mp ht).2 rfl, fun u => ?_, fun u v => ?_, fun hav' => ?_,
    fun _ => ?_, fun hav' => ?_, fun u => ?_⟩
  · simp only [LockState.setPc_wchan, LockState.setPc_pc, Wchan.has_sleep, hhas]
    by_cases hu : u = t <;> simp [hu]
  · rw [hins, hins]
    exact h.excl u v
  · exact absurd (hav.symm.trans hav') (by simp)
  · simp only [hins]
    exact h.busy hav
  · exact absurd (hav.symm.trans hav') (by simp)
  · rw [LockState.setPc_pc]
    split_ifs
    · exact fun ho => absurd ho (by decide)
    · exact h.owns u

/-- The lock is available: the thread has it now, and nobody else. -/
theorem take (hav : s.available = true) :
    LockInv ({ s with wchan := wc, available := false, owner := some t }.setPc t .taken) := by
  have hins : ∀ u, (({ s with wchan := wc, available := false, owner := some t }.setPc t
      .taken).pc u).inside = true → u = t := by
    intro u
    rw [LockState.setPc_pc]
    split_ifs with hu
    · exact fun _ => hu
    · exact fun hin => absurd (hin.symm.trans (h.free hav u)) (by simp)
  refine ⟨hw, fun u => ?_, fun u v hu hv => (hins u hu).trans (hins v hv).symm, fun hav' => ?_,
    fun _ => ⟨t, ?_⟩, fun hav' => ?_, fun u ho => ?_⟩
  · simp only [LockState.setPc_wchan, LockState.setPc_pc, hhas]
    by_cases hu : u = t <;> simp [hu]
  · cases hav'
  · simp [LockPc.inside]
  · cases hav'
  · exact congrArg some (hins u (LockPc.inside_of_owning ho)).symm

/-- The section of `lock_acquire`, by a thread that has left the channel or never was in it. -/
theorem acquireSection (hout : (s.pc t).inside = false) :
    LockInv ({ s with wchan := wc }.acquireSection t).2 := by
  unfold LockState.acquireSection
  split_ifs with hav
  · exact h.sleep hw hhas hout hav
  · exact h.take hw hhas (by simpa using hav)

end

/-- The thread with the lock goes on, and may write the owner. -/
theorem move {owner : Option T} (h : LockInv s) (hin : (s.pc t).inside = true)
    (hpc : pc.inside = true) (howner : pc.owning = true → owner = some t) :
    LockInv ({ s with owner := owner }.setPc t pc) := by
  have hins : ∀ u, (({ s with owner := owner }.setPc t pc).pc u).inside = (s.pc u).inside := by
    intro u
    rw [LockState.setPc_pc]
    split_ifs with hu
    · rw [hu, hin, hpc]
    · rfl
  have hwait : ∀ pc : LockPc, pc.inside = true → pc ≠ .waiting := by
    rintro _ hp rfl
    exact absurd hp (by decide)
  refine ⟨h.chan, fun u => (h.waiting u).trans ?_, fun u v => ?_, fun hav u => ?_, fun hav => ?_,
    h.pending, fun u ho => ?_⟩
  · rw [LockState.setPc_pc]
    grind
  · rw [hins, hins]
    exact h.excl u v
  · rw [hins]
    exact h.free hav u
  · simp only [hins]
    exact h.busy hav
  · obtain rfl : u = t := h.excl u t (by rw [← hins]; exact LockPc.inside_of_owning ho) hin
    exact howner (by simpa using ho)

/-- The section of `lock_release` wakes a thread if there is one to wake. -/
theorem releaseSection (h : LockInv s) (hpc : s.pc t = .releasing) :
    LockInv (s.releaseSection t) := by
  have hin : (s.pc t).inside = true := by simp [hpc, LockPc.inside]
  have hout : ∀ u, ((s.releaseSection t).pc u).inside = false := by
    intro u
    simp only [LockState.releaseSection, LockState.setPc_pc]
    split_ifs with hu
    · rfl
    · by_contra hne
      exact hu (h.excl u t (by simpa using hne) hin)
  refine ⟨h.chan.wakeone, fun u => ?_, fun u v hu => ?_, fun _ => hout, fun hav => ?_,
    fun _ hne => ?_, fun u ho => ?_⟩
  · simp only [LockState.releaseSection, LockState.setPc_wchan, LockState.setPc_pc,
      Wchan.has_wakeone, h.waiting]
    by_cases hu : u = t <;> simp [hu, hpc]
  · exact absurd (hu.symm.trans (hout u)) (by simp)
  · exact absurd hav (by simp [LockState.releaseSection])
  · refine Wchan.woken_wakeone_ne_nil fun hnil => hne ?_
    simp only [LockState.releaseSection, LockState.setPc_wchan, Wchan.wakeone, hnil]
  · exact absurd ((LockPc.inside_of_owning ho).symm.trans (hout u)) (by simp)

/-- **One event**, with `lock_release` called by the holder. -/
theorem step {e : LockEvent T} (h : LockInv s) (ha : s.HolderReleases e) (hm : s.Moved e s') :
    LockInv s' := by
  cases hm with
  | acquire hpc =>
    refine h.acquireSection h.chan (fun u => (h.waiting u).trans ?_) (by simp [hpc, LockPc.inside])
    grind
  | @again t hmem =>
    have hpc : s.pc t = .waiting := (h.waiting t).mp (.inr hmem)
    refine h.acquireSection h.chan.resume (fun u => ?_) (by simp [hpc, LockPc.inside])
    rw [h.chan.has_resume hmem, h.waiting]
  | own hpc => exact h.move (by simp [hpc, LockPc.inside]) rfl fun _ => rfl
  | @check t _ howner =>
    have hpc : s.pc t = .held := ha
    exact h.move (by simp [hpc, LockPc.inside]) rfl fun _ => howner
  | disown hpc => exact h.move (by simp [hpc, LockPc.inside]) rfl fun ho => absurd ho (by decide)
  | give hpc => exact h.releaseSection hpc

end LockInv

/-- **The lock excludes and strands no waiter**, whatever the owner started as: at most one thread
has the lock, and when the lock is available with a thread asleep, a woken one is on its way. -/
theorem lock_excludes [DecidableEq T] {owner : Option T} {es : List (LockEvent T)} {s : LockState T}
    (hr : Run (LockState.Step LockState.HolderReleases) (lockCreate owner) es s) :
    (∀ t u, (s.pc t).inside = true → (s.pc u).inside = true → t = u) ∧
      ¬ (s.available = true ∧ s.wchan.threads ≠ [] ∧ s.wchan.woken = []) := by
  have h := hr.invariant (P := LockInv) (.create owner) fun _ _ _ h hs =>
    h.step hs.1 (LockState.exec_ok hs.2)
  exact ⟨h.excl, fun ⟨hav, hne, hnil⟩ => h.pending hav hne hnil⟩

/-- Thread 2 sleeps, is woken, and thread 3 comes before it. -/
abbrev barging : List (LockEvent Nat) :=
  [.acquire 1 true, .own 1, .acquire 2 false, .acquire 4 false, .check 1, .disown 1, .give 1,
    .acquire 3 true, .again 2 false, .own 3, .check 3, .disown 3, .give 3]

/-- Thread 2 sleeps again, behind thread 4, which is on its way. -/
theorem lock_excludes_barging : ∃ s : LockState Nat,
    Run (LockState.Step LockState.HolderReleases) (lockCreate none) barging s ∧
      s.available = true ∧ s.wchan.threads = [2] ∧ s.wchan.woken ≠ [] := by
  refine Run.exists_imp (Q := fun s => s.available = true ∧ s.wchan.threads = [2])
    (Run.exists_of_exec (by decide)) ?_
  rintro s hr ⟨hav, hth⟩
  exact ⟨hav, hth, fun hnil => (lock_excludes hr).2 ⟨hav, by simp [hth], hnil⟩⟩

/-! ## `lock_do_i_hold` -/

/-- The owner, if it is a thread, is the one with the lock. -/
def OwnerHolds (s : LockState T) : Prop := ∀ t, s.owner = some t → (s.pc t).owning = true

section OwnerHolds

variable [DecidableEq T] {s s' : LockState T} {e : LockEvent T} {t : T}

/-- Then the assertion of `lock_release` lets the holder through, and nobody else. -/
theorem OwnerHolds.held_iff (h : OwnerHolds s) (hi : LockInv s)
    (hpc : s.pc t = .out ∨ s.pc t = .held) : s.lockDoIHold t = true ↔ s.pc t = .held := by
  rw [LockState.lockDoIHold, decide_eq_true_eq]
  constructor
  · intro ho
    refine hpc.resolve_left fun hout => ?_
    have := h t ho
    rw [hout] at this
    exact absurd this (by decide)
  · exact fun hheld => hi.owns t (by rw [hheld]; rfl)

theorem OwnerHolds.holderReleases (h : OwnerHolds s) (hi : LockInv s) (hm : s.Moved e s') :
    s.HolderReleases e := by
  cases hm with
  | check hpc howner => exact (h.held_iff hi hpc).mp (decide_eq_true howner)
  | _ => trivial

/-- A thread that does not own the lock and does not become its owner moves. -/
theorem OwnerHolds.setPc (h : OwnerHolds s) {available : Bool} (ht : (s.pc t).owning = false) :
    OwnerHolds ({ s with wchan := wc, available := available }.setPc t pc) := by
  intro u ho
  have hu := h u ho
  rw [LockState.setPc_pc, if_neg]
  · exact hu
  · grind

theorem OwnerHolds.of_self (hs : s.owner = some t) (hp : pc.owning = true) :
    OwnerHolds (s.setPc t pc) := by
  intro u ho
  obtain rfl : t = u := Option.some.inj (hs.symm.trans ho)
  simpa using hp

theorem OwnerHolds.acquireSection (h : OwnerHolds s) (ht : (s.pc t).owning = false) :
    OwnerHolds ({ s with wchan := wc }.acquireSection t).2 := by
  unfold LockState.acquireSection
  split_ifs
  · exact h.setPc ht
  · exact .of_self rfl rfl

theorem OwnerHolds.step (h : OwnerHolds s) (hi : LockInv s) (hm : s.Moved e s') :
    OwnerHolds s' := by
  cases hm with
  | acquire hpc => exact h.acquireSection (by simp [hpc, LockPc.owning])
  | again hmem =>
    exact h.acquireSection (by simp [(hi.waiting _).mp (.inr hmem), LockPc.owning])
  | own => exact .of_self rfl rfl
  | check _ howner => exact .of_self howner rfl
  | disown => exact fun _ ho => absurd ho (by simp)
  | give hpc => exact h.setPc (by simp [hpc, LockPc.owning])

end OwnerHolds

/-- `vfs_biglock_acquire` (`kern/vfs/vfslist.c:126-132`) calls `lock_acquire`. -/
def vfsBiglockAcquires [DecidableEq T] (s : LockState T) (t : T) : Bool := !s.lockDoIHold t

/-- What the callers of `lock_do_i_hold` rely on, for a thread in none of the functions. -/
structure HoldExact [DecidableEq T] (s : LockState T) (t : T) : Prop where
  exact : s.lockDoIHold t = true ↔ s.pc t = .held
  /-- The assertion of `lock_release` fails for every other thread. -/
  release : s.pc t = .out → s.exec (.check t) = .error .kassert
  /-- `vfs_biglock_acquire` takes the lock unless the thread has it. -/
  biglock : vfsBiglockAcquires s t = false → s.pc t = .held

/-- **`lock_do_i_hold` is exact** in every state that is reached, by any calls of `lock_acquire` and
`lock_release`, if and only if the block that `lock_create` got did not hold the address of a thread
in the place of the owner. -/
theorem lock_do_i_hold_exact_iff [DecidableEq T] (owner : Option T) :
    (∀ es s t, Run (LockState.Step fun _ _ => True) (lockCreate owner) es s →
      s.pc t = .out ∨ s.pc t = .held → HoldExact s t) ↔ owner = none := by
  constructor
  · intro h
    cases owner with
    | none => rfl
    | some t =>
      have := (h [] _ t .nil (.inl rfl)).exact.mp (by simp [LockState.lockDoIHold, lockCreate])
      exact absurd this (by simp [lockCreate])
  · rintro rfl es s t hr hpc
    obtain ⟨hi, ho⟩ := hr.invariant (P := fun s => LockInv s ∧ OwnerHolds s)
      ⟨.create none, fun _ h => absurd h (by simp [lockCreate])⟩ fun _ _ _ ⟨hi, ho⟩ hs =>
        have hm := LockState.exec_ok hs.2
        ⟨hi.step (ho.holderReleases hi hm) hm, ho.step hi hm⟩
    have hexact := ho.held_iff hi hpc
    refine ⟨hexact, fun hout => ?_, fun hskip => hexact.mp ?_⟩
    · have hno : s.lockDoIHold t = false := by
        grind
      simp only [LockState.exec, if_pos hpc, hno, Bool.false_eq_true, if_false]
    · simpa [vfsBiglockAcquires] using hskip

/-- The block held the address of thread 7. It holds the lock before anybody has acquired it, and
its `lock_release` makes room for a second holder. -/
theorem recycled_owner : ¬ HoldExact (lockCreate (some 7)) 7 ∧
    ∃ s : LockState Nat, Run (LockState.Step fun _ _ => True) (lockCreate (some 7))
        [.check 7, .acquire 1 true, .own 1, .disown 7, .give 7, .acquire 2 true, .own 2] s ∧
      decide (s.pc 1 = .held ∧ s.pc 2 = .held) = true := by
  refine ⟨fun h => ?_, Run.exists_of_exec (by decide)⟩
  exact absurd (h.exact.mp rfl) (by decide)

end OsPaging.Thread
