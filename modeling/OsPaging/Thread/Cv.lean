import OsPaging.Thread.Lock

/-!
# Condition variables

`cv_wait`, `cv_signal` and `cv_broadcast` of `kern/thread/synch.c:285-321`, on the lock of
`Lock.lean`: the calls that `cv_wait` makes of `lock_release` and `lock_acquire` go through the
lock's own events, so that other threads may come between them. `cv_lock` is held by a waiter from
before `lock_release` until `thread_switch` has put it on the wait channel, which is what makes the
two one; `cv_signal` and `cv_broadcast` have to wait for it.

A thread that holds a spinlock has interrupts off and stays on its processor. `spinlocks` is the
count `c_spinlocks` of the processor a thread runs on; `wchan_sleep` asserts that it is one. The
assertion is also in the `wchan_sleep` of `lock_acquire`, with `lk_lock` counted.

**`cv_loses_no_wakeup`** is for threads that call these functions with the lock held.
-/

namespace OsPaging.Thread

open OsPaging.Lib Function

variable {T : Type}
variable {e : LockEvent T}

/-- Where a thread is in `cv_wait`. -/
inductive CvPc
  | out
  /-- It has `cv_lock` and is to call `lock_release`, or is in it. -/
  | entered
  /-- `lock_release` has returned. -/
  | released
  /-- In `wchan_sleep`. -/
  | asleep
  /-- It has given up `cv_lock` and is to call `lock_acquire`, or is in it. -/
  | relocking
deriving DecidableEq, Repr

/-- The thread has `cv_lock`. -/
def CvPc.locked : CvPc → Bool
  | .entered | .released => true
  | _ => false

structure CvState (T : Type) where
  lock : LockState T
  cvLock : Option T
  wchan : Wchan T
  pc : T → CvPc
  spinlocks : T → Nat

inductive CvEvent (T : Type)
  /-- An event of the lock. -/
  | lock (e : LockEvent T)
  /-- A call of `cv_wait`, and its `spinlock_acquire`. -/
  | enter (t : T)
  /-- `wchan_sleep`, up to the switch. -/
  | sleep (t : T)
  /-- The end of `wchan_sleep`, and the `spinlock_release` of `cv_wait`. -/
  | wake (t : T)
  | signal (t : T)
  | broadcast (t : T)
deriving DecidableEq, Repr

namespace LockEvent

/-- The event is in `lock_release`. -/
def inRelease : LockEvent T → Bool
  | .check _ | .disown _ | .give _ => true
  | _ => false

/-- The event ends in `wchan_sleep`. -/
def sleeps : LockEvent T → Bool
  | .acquire _ done | .again _ done => !done
  | _ => false

end LockEvent

/-- `cv_create`, for a lock that was just created. -/
def cvCreate (owner : Option T) : CvState T :=
  ⟨lockCreate owner, none, .create, fun _ => .out, fun _ => 0⟩

/-- Which events of the lock a thread comes to. -/
def CvPc.mayLock : CvPc → LockEvent T → Bool
  | .out, _ => true
  | .entered, e => e.inRelease
  | .relocking, e => !e.inRelease
  | _, _ => false

/-- Where an event of the lock takes a thread: `lock_release` returns after `give`, and
`lock_acquire`, with `cv_wait`, after `own`. -/
def CvPc.afterLock : CvPc → LockEvent T → CvPc
  | .entered, .give _ => .released
  | .relocking, .own _ => .out
  | pc, _ => pc

theorem CvPc.afterLock_entered {pc : CvPc} (hmay : pc.mayLock e = true)
    (h : pc.afterLock e = .entered) : (∃ t, e = .check t) ∨ ∃ t, e = .disown t := by
  cases pc with
  | entered =>
    cases e with
    | check t => exact .inl ⟨t, rfl⟩
    | disown t => exact .inr ⟨t, rfl⟩
    | give t => exact absurd h (by simp [CvPc.afterLock])
    | _ => exact absurd hmay (by simp [CvPc.mayLock, LockEvent.inRelease])
  | relocking => cases e <;> exact absurd h (by simp [CvPc.afterLock])
  | _ => exact absurd h (by simp [CvPc.afterLock])

namespace CvState

variable [DecidableEq T] (s : CvState T)

def setPc (t : T) (pc : CvPc) : CvState T := { s with pc := update s.pc t pc }

@[simp] theorem setPc_pc (t u : T) (pc : CvPc) :
    (s.setPc t pc).pc u = if u = t then pc else s.pc u := update_apply _ _ _ _

/-- `spinlock_acquire` and `spinlock_release` of `cv_lock`. -/
def acquireCvLock (t : T) : CvState T :=
  { s with cvLock := some t, spinlocks := update s.spinlocks t (s.spinlocks t + 1) }

@[inherit_doc acquireCvLock]
def releaseCvLock (t : T) : CvState T :=
  { s with cvLock := none, spinlocks := update s.spinlocks t (s.spinlocks t - 1) }

@[simp] theorem acquireCvLock_pc (t : T) : (s.acquireCvLock t).pc = s.pc := rfl

@[simp] theorem releaseCvLock_pc (t : T) : (s.releaseCvLock t).pc = s.pc := rfl

/-- The thread is in none of the functions. -/
def Outside (t : T) : Prop := s.pc t = .out ∧ (s.lock.pc t = .out ∨ s.lock.pc t = .held)

instance (t : T) : Decidable (s.Outside t) := inferInstanceAs (Decidable (_ ∧ _))

/-- One event. -/
def exec : CvEvent T → Except Halt (CvState T)
  | .lock e =>
    let t := e.thread
    if (s.pc t).mayLock e then
      match s.lock.exec e with
      | .error halt => .error halt
      | .ok lock =>
        if e.sleeps ∧ s.spinlocks t + 1 ≠ 1 then .error .kassert
        else .ok ({ s with lock := lock }.setPc t ((s.pc t).afterLock e))
    else .error .disabled
  | .enter t =>
    if s.Outside t ∧ s.cvLock = none then .ok ((s.acquireCvLock t).setPc t .entered)
    else .error .disabled
  | .sleep t =>
    if s.pc t = .released then
      if s.cvLock ≠ some t ∨ s.spinlocks t ≠ 1 then .error .kassert
      else .ok (({ s with wchan := s.wchan.sleep t }.releaseCvLock t).setPc t .asleep)
    else .error .disabled
  | .wake t =>
    if t ∈ s.wchan.woken ∧ s.cvLock = none then
      .ok ({ s with wchan := s.wchan.resume t }.setPc t .relocking)
    else .error .disabled
  | .signal t =>
    if s.Outside t ∧ s.cvLock = none then
      if s.lock.lockDoIHold t then .ok { s with wchan := s.wchan.wakeone } else .error .kassert
    else .error .disabled
  | .broadcast t =>
    if s.Outside t ∧ s.cvLock = none then
      if s.lock.lockDoIHold t then .ok { s with wchan := s.wchan.wakeall } else .error .kassert
    else .error .disabled

/-- The functions are called with the lock held. -/
def WithLock : CvEvent T → Prop
  | .lock e => s.pc e.thread = .out → s.lock.HolderReleases e
  | .enter t | .signal t | .broadcast t => s.lock.pc t = .held
  | _ => True

instance : ∀ e : CvEvent T, Decidable (s.WithLock e)
  | .lock e => inferInstanceAs (Decidable (s.pc e.thread = .out → s.lock.HolderReleases e))
  | .enter t => inferInstanceAs (Decidable (s.lock.pc t = .held))
  | .signal t => inferInstanceAs (Decidable (s.lock.pc t = .held))
  | .broadcast t => inferInstanceAs (Decidable (s.lock.pc t = .held))
  | .sleep _ => .isTrue trivial
  | .wake _ => .isTrue trivial

/-- One event of a thread that calls the functions with the lock held. -/
def Step (s : CvState T) (e : CvEvent T) (s' : CvState T) : Prop :=
  s.WithLock e ∧ s.exec e = .ok s'

/-- What an event has done. -/
inductive Moved (s : CvState T) : CvEvent T → CvState T → Prop
  | lock {e : LockEvent T} {lock : LockState T} : (s.pc e.thread).mayLock e = true →
      s.lock.Moved e lock →
      Moved s (.lock e) ({ s with lock := lock }.setPc e.thread ((s.pc e.thread).afterLock e))
  | enter {t : T} : s.Outside t → s.cvLock = none →
      Moved s (.enter t) ((s.acquireCvLock t).setPc t .entered)
  | sleep {t : T} : s.pc t = .released →
      Moved s (.sleep t) (({ s with wchan := s.wchan.sleep t }.releaseCvLock t).setPc t .asleep)
  | wake {t : T} : t ∈ s.wchan.woken → s.cvLock = none →
      Moved s (.wake t) ({ s with wchan := s.wchan.resume t }.setPc t .relocking)
  | signal {t : T} : s.cvLock = none → Moved s (.signal t) { s with wchan := s.wchan.wakeone }
  | broadcast {t : T} : s.cvLock = none →
      Moved s (.broadcast t) { s with wchan := s.wchan.wakeall }

theorem exec_ok {s s' : CvState T} {e : CvEvent T} (h : s.exec e = .ok s') : s.Moved e s' := by
  cases e with simp only [exec] at h
  | lock e =>
    by_cases hmay : (s.pc e.thread).mayLock e = true
    · rw [if_pos hmay] at h
      cases hx : s.lock.exec e with
      | error halt => simp [hx] at h
      | ok lock =>
        simp only [hx] at h
        split_ifs at h
        exact Except.ok.inj h ▸ .lock hmay (LockState.exec_ok hx)
    · rw [if_neg hmay] at h
      cases h
  | enter t =>
    split_ifs at h with hc
    exact Except.ok.inj h ▸ .enter hc.1 hc.2
  | sleep t =>
    split_ifs at h with hc
    exact Except.ok.inj h ▸ .sleep hc
  | wake t =>
    split_ifs at h with hc
    exact Except.ok.inj h ▸ .wake hc.1 hc.2
  | signal t =>
    split_ifs at h with hc
    exact Except.ok.inj h ▸ .signal hc.2
  | broadcast t =>
    split_ifs at h with hc
    exact Except.ok.inj h ▸ .broadcast hc.2

/-- The thread has released the lock in `cv_wait`, and was not woken. -/
def Unwoken (t : T) : Prop := s.pc t = .released ∨ s.pc t = .asleep ∧ t ∉ s.wchan.woken

end CvState

/-! ## The invariant -/

structure CvInv (s : CvState T) : Prop where
  lock : LockInv s.lock
  chan : s.wchan.Wf
  asleep : ∀ t, s.wchan.Has t ↔ s.pc t = .asleep
  spin : ∀ t, s.cvLock = some t ↔ (s.pc t).locked = true
  count : ∀ t, s.spinlocks t = if (s.pc t).locked then 1 else 0
  entered : ∀ t, s.pc t = .entered → (s.lock.pc t).inside = true

namespace CvInv

variable {s s' : CvState T} {t : T}

theorem create (owner : Option T) : CvInv (cvCreate owner) :=
  ⟨.create owner, .create, fun _ => iff_of_false Wchan.not_has_create (by simp [cvCreate]),
    fun _ => iff_of_false (by simp [cvCreate]) (by simp [cvCreate, CvPc.locked]), fun _ => rfl,
    fun _ h => absurd h (by simp [cvCreate])⟩

theorem not_locked (h : CvInv s) (hfree : s.cvLock = none) (u : T) : (s.pc u).locked = false := by
  rw [← Bool.not_eq_true, ← h.spin, hfree]
  simp

theorem rewire {wc : Wchan T} (h : CvInv s) (hw : wc.Wf) (hhas : ∀ u, wc.Has u ↔ s.wchan.Has u) :
    CvInv { s with wchan := wc } :=
  ⟨h.lock, hw, fun u => (hhas u).trans (h.asleep u), h.spin, h.count, h.entered⟩

/-- When `cv_lock` is free, the threads that wait to be woken are those on the channel. -/
theorem unwoken_iff (h : CvInv s) (hfree : s.cvLock = none) :
    s.Unwoken t ↔ t ∈ s.wchan.threads := by
  obtain ⟨-, -, hdis⟩ := List.nodup_append.mp h.chan
  constructor
  · rintro (hpc | ⟨hpc, hnot⟩)
    · have := h.not_locked hfree t
      rw [hpc] at this
      exact absurd this (by decide)
    · exact ((h.asleep t).mpr hpc).resolve_right hnot
  · exact fun ht => .inr ⟨(h.asleep t).mp (.inl ht), fun hw => hdis t ht t hw rfl⟩

theorem no_spinlock (h : CvInv s) (hmay : (s.pc e.thread).mayLock e = true) (hs : e.sleeps = true) :
    s.spinlocks e.thread = 0 := by
  rw [h.count, if_neg]
  intro hl
  cases hcv : s.pc e.thread with
  | entered =>
    rw [hcv] at hmay
    cases e <;> simp_all [CvPc.mayLock, LockEvent.sleeps, LockEvent.inRelease]
  | released => exact absurd hmay (by simp [hcv, CvPc.mayLock])
  | _ => exact absurd hl (by simp [hcv, CvPc.locked])

/-- A thread that calls `lock_release`, on its own or in `cv_wait`, has the lock. -/
theorem held_of_check (h : CvInv s) (hw : s.WithLock (.lock (.check t)))
    (hmay : (s.pc t).mayLock (.check t) = true)
    (hpc : s.lock.pc t = .out ∨ s.lock.pc t = .held) : s.lock.pc t = .held := by
  cases hcv : s.pc t with
  | out => exact hw hcv
  | entered =>
    refine hpc.resolve_left fun hout => ?_
    have := h.entered t hcv
    rw [hout] at this
    exact absurd this (by decide)
  | _ => exact absurd hmay (by simp [hcv, CvPc.mayLock, LockEvent.inRelease])

variable [DecidableEq T]

variable (h : CvInv s)
include h

theorem holderReleases {lock : LockState T} (hw : s.WithLock (.lock e))
    (hmay : (s.pc e.thread).mayLock e = true) (hm : s.lock.Moved e lock) :
    s.lock.HolderReleases e := by
  cases hm with
  | check hpc => exact h.held_of_check hw hmay hpc
  | _ => trivial

theorem lockEvent {lock : LockState T} (hw : s.WithLock (.lock e))
    (hmay : (s.pc e.thread).mayLock e = true) (hm : s.lock.Moved e lock) :
    CvInv ({ s with lock := lock }.setPc e.thread ((s.pc e.thread).afterLock e)) := by
  have hstay : ((s.pc e.thread).afterLock e).locked = (s.pc e.thread).locked ∧
      ((s.pc e.thread).afterLock e = .asleep ↔ s.pc e.thread = .asleep) := by
    cases hpc : s.pc e.thread <;> cases e <;> simp [CvPc.afterLock, CvPc.locked]
  have hlocked : ∀ u, (({ s with lock := lock }.setPc e.thread
      ((s.pc e.thread).afterLock e)).pc u).locked = (s.pc u).locked := by
    intro u
    rw [CvState.setPc_pc]
    split_ifs with hu
    · rw [hstay.1, hu]
    · rfl
  refine ⟨h.lock.step (h.holderReleases hw hmay hm) hm, h.chan,
    fun u => (h.asleep u).trans ?_, fun u => (h.spin u).trans ?_, fun u => (h.count u).trans ?_,
    fun u hu => ?_⟩
  · rw [CvState.setPc_pc]
    grind
  · rw [hlocked]
  · rw [hlocked]
  · rw [CvState.setPc_pc] at hu
    split_ifs at hu with hut
    · -- the thread is still in `lock_release`
      subst hut
      rcases CvPc.afterLock_entered hmay hu with ⟨t, rfl⟩ | ⟨t, rfl⟩
      · cases hm
        simp [CvState.setPc, LockEvent.thread, LockPc.inside]
      · cases hm
        simp [CvState.setPc, LockEvent.thread, LockPc.inside]
    · show (lock.pc u).inside = true
      rw [hm.pc_of_ne hut]
      exact h.entered u hu

theorem enter (hfree : s.cvLock = none) (hout : s.pc t = .out) (hheld : s.lock.pc t = .held) :
    CvInv ((s.acquireCvLock t).setPc t .entered) := by
  refine ⟨h.lock, h.chan, fun u => (h.asleep u).trans ?_, fun u => ?_, fun u => ?_, fun u hu => ?_⟩
  · rw [CvState.setPc_pc]
    split_ifs with hu
    · simp [hu, hout]
    · exact Iff.rfl
  · rw [CvState.setPc_pc]
    split_ifs with hu
    · simp [CvState.setPc, CvState.acquireCvLock, hu, CvPc.locked]
    · have := h.not_locked hfree u
      simp only [CvState.setPc, CvState.acquireCvLock, Option.some.injEq, this]
      simpa using fun heq => hu heq.symm
  · rw [CvState.setPc_pc]
    simp only [CvState.setPc, CvState.acquireCvLock, update_apply]
    split_ifs with hu hl hl
    · simp [h.count, h.not_locked hfree t]
    · exact absurd rfl hl
    · simp [h.count, hl]
    · simp [h.count, hl]
  · rw [CvState.setPc_pc] at hu
    split_ifs at hu with hut
    · subst hut
      show (s.lock.pc u).inside = true
      rw [hheld]
      rfl
    · exact h.entered u hu

/-- `wchan_sleep` puts the thread on the channel and gives `cv_lock` up. -/
theorem sleep (hpc : s.pc t = .released) :
    CvInv (({ s with wchan := s.wchan.sleep t }.releaseCvLock t).setPc t .asleep) := by
  have hmine : s.cvLock = some t := (h.spin t).mpr (by simp [hpc, CvPc.locked])
  have hnot : ∀ u, u ≠ t → (s.pc u).locked = false := by
    intro u hu
    rw [← Bool.not_eq_true, ← h.spin, hmine]
    simpa using fun heq => hu heq.symm
  refine ⟨h.lock, h.chan.sleep fun hhas => ?_, fun u => ?_, fun u => ?_, fun u => ?_,
    fun u hu => ?_⟩
  · have := (h.asleep t).mp hhas
    exact absurd (hpc.symm.trans this) (by simp)
  · rw [CvState.setPc_pc]
    show (s.wchan.sleep t).Has u ↔ _
    rw [Wchan.has_sleep, h.asleep]
    split_ifs with hu <;> simp [hu]
  · rw [CvState.setPc_pc]
    refine iff_of_false (by simp [CvState.setPc, CvState.releaseCvLock]) ?_
    split_ifs with hu
    · simp [CvPc.locked]
    · simp [hnot u hu]
  · rw [CvState.setPc_pc]
    simp only [CvState.setPc, CvState.releaseCvLock, update_apply]
    split_ifs with hu hl hl
    · exact absurd hl (by simp [CvPc.locked])
    · simp [h.count, hpc, CvPc.locked]
    · exact absurd (hl.symm.trans (hnot u hu)) (by simp)
    · simp [h.count, hl]
  · rw [CvState.setPc_pc] at hu
    split_ifs at hu
    exact h.entered u hu

theorem wake (hmem : t ∈ s.wchan.woken) :
    CvInv ({ s with wchan := s.wchan.resume t }.setPc t .relocking) := by
  have hpc : s.pc t = .asleep := (h.asleep t).mp (.inr hmem)
  have hlocked : ∀ u, (({ s with wchan := s.wchan.resume t }.setPc t .relocking).pc u).locked =
      (s.pc u).locked := by
    intro u
    rw [CvState.setPc_pc]
    split_ifs with hu
    · rw [hu, hpc]
      rfl
    · rfl
  refine ⟨h.lock, h.chan.resume, fun u => ?_, fun u => (h.spin u).trans ?_,
    fun u => (h.count u).trans ?_, fun u hu => ?_⟩
  · rw [CvState.setPc_pc]
    show (s.wchan.resume t).Has u ↔ _
    rw [h.chan.has_resume hmem, h.asleep]
    split_ifs with hu <;> simp [hu]
  · rw [hlocked]
  · rw [hlocked]
  · rw [CvState.setPc_pc] at hu
    split_ifs at hu
    exact h.entered u hu

theorem step {e : CvEvent T} (hw : s.WithLock e) (hm : s.Moved e s') : CvInv s' := by
  cases hm with
  | lock hmay hm => exact h.lockEvent hw hmay hm
  | enter hout hfree => exact h.enter hfree hout.1 hw
  | sleep hpc => exact h.sleep hpc
  | wake hmem => exact h.wake hmem
  | signal => exact h.rewire h.chan.wakeone fun _ => Wchan.has_wakeone
  | broadcast => exact h.rewire h.chan.wakeall fun _ => Wchan.has_wakeall

theorem lockDoIHold (hheld : s.lock.pc t = .held) : s.lock.lockDoIHold t = true :=
  decide_eq_true (h.lock.owns t (by rw [hheld]; rfl))

/-- **No assertion fails.** -/
theorem no_kassert {e : CvEvent T} (hw : s.WithLock e) : s.exec e ≠ .error .kassert := by
  cases e with
  | lock e =>
    simp only [CvState.exec]
    by_cases hmay : (s.pc e.thread).mayLock e = true
    · rw [if_pos hmay]
      cases hx : s.lock.exec e with
      | error halt =>
        rintro heq
        obtain rfl : halt = .kassert := by simpa using heq
        obtain ⟨t, rfl, hpc, hno⟩ := LockState.exec_kassert hx
        have := h.lockDoIHold (h.held_of_check hw hmay hpc)
        exact absurd (hno.symm.trans this) (by simp)
      | ok lock =>
        simp only
        rw [if_neg fun hs => hs.2 (by rw [h.no_spinlock hmay hs.1])]
        simp
    · rw [if_neg hmay]
      simp
  | sleep t =>
    simp only [CvState.exec]
    split_ifs with hpc hc
    · have hl : (s.pc t).locked = true := by rw [hpc]; rfl
      refine absurd hc (not_or.mpr ⟨not_not.mpr ((h.spin t).mpr hl), not_not.mpr ?_⟩)
      rw [h.count, if_pos hl]
    · simp
    · simp
  | enter t | wake t =>
    simp only [CvState.exec]
    split_ifs <;> simp
  | signal t | broadcast t =>
    simp only [CvState.exec, h.lockDoIHold hw, if_true]
    split_ifs <;> simp

end CvInv

/-- `cv_wait` returns from its `lock_acquire`. -/
theorem CvInv.held_of_return [DecidableEq T] {s s' : CvState T} {e : CvEvent T} {t : T}
    (hm : s.Moved e s') (hpc : s.pc t = .relocking) (hpc' : s'.pc t = .out) :
    s'.lock.pc t = .held := by
  have hsame : ∀ {s₁ : CvState T} {u : T} {pc : CvPc}, s₁.pc = s.pc → pc ≠ .out →
      (s₁.setPc u pc).pc t = .out → s'.lock.pc t = .held := by
    intro s₁ u pc hs hne hout
    rw [CvState.setPc_pc, hs, hpc] at hout
    split_ifs at hout
    · exact absurd hout hne
  cases hm with
  | @lock e lock hmay hm =>
    by_cases ht : t = e.thread
    · subst ht
      simp only [CvState.setPc_pc, if_true, hpc] at hpc'
      cases hm with
      | own => simp [CvState.setPc, LockEvent.thread]
      | _ => exact absurd hpc' (by simp [CvPc.afterLock])
    · rw [CvState.setPc_pc, if_neg ht, hpc] at hpc'
      cases hpc'
  | enter | sleep | wake => exact hsame rfl (by simp) hpc'
  | signal | broadcast => exact absurd (hpc.symm.trans hpc') (by simp)

/-- **Condition variables lose no wakeup**, in every state that threads reach that call the
functions with the lock held. A broadcast wakes every thread that has released the lock in `cv_wait`
and was not woken, for all of them are on the channel; a signal wakes exactly one if there is one.
`cv_wait` returns with the lock held, by its caller alone. No assertion fails. -/
theorem cv_loses_no_wakeup [DecidableEq T] {owner : Option T} {es : List (CvEvent T)}
    {s : CvState T} (hr : Run CvState.Step (cvCreate owner) es s) :
    (∀ t s', s.Step (.broadcast t) s' → ∀ u, s.Unwoken u →
        u ∈ s.wchan.threads ∧ u ∈ s'.wchan.woken) ∧
      (∀ t s', s.Step (.signal t) s' → (∃ u, s.Unwoken u) → ∃ u, s.Unwoken u ∧
        s.wchan.threads = u :: s'.wchan.threads ∧ s'.wchan.woken = s.wchan.woken ++ [u]) ∧
      (∀ e s' t, s.Step e s' → s.pc t = .relocking → s'.pc t = .out →
        s'.lock.pc t = .held ∧ s'.lock.owner = some t ∧
          ∀ u, (s'.lock.pc u).inside = true → u = t) ∧
      ∀ e, s.WithLock e → s.exec e ≠ .error .kassert := by
  have h := hr.invariant (P := CvInv) (.create owner) fun _ _ _ h hs =>
    h.step hs.1 (CvState.exec_ok hs.2)
  refine ⟨fun t s' hs u hu => ?_, fun t s' hs ⟨u, hu⟩ => ?_, fun e s' t hs hpc hpc' => ?_,
    fun e hw => h.no_kassert hw⟩
  · cases CvState.exec_ok hs.2 with
    | broadcast hfree =>
      have hmem := (h.unwoken_iff hfree).mp hu
      exact ⟨hmem, List.mem_append_right _ hmem⟩
  · cases CvState.exec_ok hs.2 with
    | signal hfree =>
      have hmem := (h.unwoken_iff hfree).mp hu
      cases hth : s.wchan.threads with
      | nil => simp [hth] at hmem
      | cons v rest =>
        refine ⟨v, (h.unwoken_iff hfree).mpr (by simp [hth]), ?_, ?_⟩ <;> simp [Wchan.wakeone, hth]
  · have hheld := CvInv.held_of_return (CvState.exec_ok hs.2) hpc hpc'
    have hl := (h.step hs.1 (CvState.exec_ok hs.2)).lock
    refine ⟨hheld, hl.owns t (by rw [hheld]; rfl), fun u hu => hl.excl u t hu (by rw [hheld]; rfl)⟩

/-- Thread 2 takes the lock that thread 1 has released in `cv_wait`, before thread 1 sleeps. -/
abbrev waiterOvertaken : List (CvEvent Nat) :=
  [.lock (.acquire 1 true), .lock (.own 1), .enter 1, .lock (.check 1), .lock (.disown 1),
    .lock (.give 1), .lock (.acquire 2 true), .lock (.own 2), .sleep 1]

/-- Its signal comes after thread 1 sleeps, and wakes it. -/
theorem cv_loses_no_wakeup_overtaken : ∃ s s' : CvState Nat,
    Run CvState.Step (cvCreate none) waiterOvertaken s ∧ s.Step (.signal 2) s' ∧
      s'.wchan.woken = [1] := by
  simp only [exists_and_left]
  refine Run.exists_imp (Q := fun s => s.wchan = ⟨[1], []⟩ ∧ s.WithLock (.signal 2) ∧
    s.Outside 2 ∧ s.cvLock = none ∧ s.lock.lockDoIHold 2 = true ∧ s.pc 1 = .asleep)
    (Run.exists_of_exec (by decide)) ?_
  rintro s hr ⟨hwc, hw, hout, hfree, hhold, hpc⟩
  have hs : s.Step (.signal 2) { s with wchan := s.wchan.wakeone } :=
    ⟨hw, by simp only [CvState.exec, if_pos (And.intro hout hfree), hhold, if_true]⟩
  obtain ⟨u, -, hth, hwoken⟩ := (cv_loses_no_wakeup hr).2.1 2 _ hs ⟨1, .inr ⟨hpc, by simp [hwc]⟩⟩
  grind

end OsPaging.Thread
