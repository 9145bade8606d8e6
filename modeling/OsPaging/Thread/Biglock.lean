import OsPaging.Thread.Lock

/-!
# The big lock of the VFS layer

`vfs_biglock_acquire` and `vfs_biglock_release` of `kern/vfs/vfslist.c:126-150`, over the sleep
lock of `Thread.Lock`, for any number of threads and with every access to shared data an event of
its own:

* `vfs_biglock_acquire` reads the owner of the lock without holding it, goes through the events of
  `lock_acquire` if the owner is not the thread, and then reads and writes `vfs_biglock_depth`;
* `vfs_biglock_release` reads the owner for its first assertion and the depth for its second, reads
  and writes the depth, and reads it once more to decide about `lock_release`.

A run ends where an assertion fails. The acquires of a thread that are outstanding are counted in
the labels of the run, from the write of the one call to the write of the other.

`vfs_biglock_depth` is `unsigned`. Each outstanding acquire is a call on the thread's kernel stack
of one page, so the depth is a natural number here.
-/

namespace OsPaging.Thread

open OsPaging.Lib Function

variable {T : Type}

/-- Where a thread is. -/
inductive BigPc
  /-- In none of the two functions. -/
  | out
  /-- In the `lock_acquire` of `vfs_biglock_acquire`. -/
  | acquiring
  /-- Before `vfs_biglock_depth++`. -/
  | incrementing
  /-- In it, with the depth that was read. -/
  | incremented (depth : Nat)
  /-- In `vfs_biglock_release`, before the second assertion. -/
  | asserting
  /-- Before `vfs_biglock_depth--`. -/
  | decrementing
  /-- In it, with the depth that was read. -/
  | decremented (depth : Nat)
  /-- Before the test of the depth. -/
  | testing
  /-- In the `lock_release` of `vfs_biglock_release`. -/
  | letting
deriving DecidableEq, Repr

/-- The two static variables of `vfslist.c`, and where the threads are. -/
structure Biglock (T : Type) where
  lock : LockState T
  depth : Nat
  pc : T → BigPc

inductive BigEvent (T : Type)
  /-- A call of `vfs_biglock_acquire`, and its test of the owner. -/
  | acquire (t : T)
  /-- An event of `lock_acquire` or `lock_release`. -/
  | inner (e : LockEvent T)
  /-- The read and the write of `vfs_biglock_depth++`. -/
  | incrementRead (t : T)
  | increment (t : T)
  /-- A call of `vfs_biglock_release`, and its first assertion. -/
  | release (t : T)
  /-- The second assertion. -/
  | assertDepth (t : T)
  /-- The read and the write of `vfs_biglock_depth--`. -/
  | decrementRead (t : T)
  | decrement (t : T)
  /-- The test of the depth. -/
  | test (t : T)
deriving DecidableEq, Repr

/-- `vfs_bootstrap`, with a lock whose owner names no thread. -/
def vfsBootstrap : Biglock T := ⟨lockCreate none, 0, fun _ => .out⟩

def BigEvent.thread : BigEvent T → T
  | .inner e => e.thread
  | .acquire t | .incrementRead t | .increment t | .release t | .assertDepth t | .decrementRead t
  | .decrement t | .test t => t

/-- The call an event of the lock belongs to. -/
def LockEvent.call : LockEvent T → BigPc
  | .acquire _ _ | .again _ _ | .own _ => .acquiring
  | .check _ | .disown _ | .give _ => .letting

/-- Where the thread is after it: the last events of the two calls return. -/
def LockEvent.after : LockEvent T → BigPc
  | .own _ => .incrementing
  | .give _ => .out
  | e => e.call

namespace Biglock

section Exec

variable [DecidableEq T] (s : Biglock T)

def setPc (t : T) (pc : BigPc) : Biglock T := { s with pc := update s.pc t pc }

@[simp] theorem setPc_pc (t u : T) (pc : BigPc) :
    (s.setPc t pc).pc u = if u = t then pc else s.pc u := update_apply _ _ _ _

/-- One event. -/
def exec : BigEvent T → Except Halt (Biglock T)
  | .acquire t =>
    if s.pc t = .out then
      .ok (s.setPc t (if vfsBiglockAcquires s.lock t then .acquiring else .incrementing))
    else .error .disabled
  | .inner e =>
    if s.pc e.thread = e.call then
      match s.lock.exec e with
      | .ok lock => .ok ({ s with lock := lock }.setPc e.thread e.after)
      | .error why => .error why
    else .error .disabled
  | .incrementRead t =>
    if s.pc t = .incrementing then .ok (s.setPc t (.incremented s.depth)) else .error .disabled
  | .increment t =>
    match s.pc t with
    | .incremented d => .ok ({ s with depth := d + 1 }.setPc t .out)
    | _ => .error .disabled
  | .release t =>
    if s.pc t = .out then
      if s.lock.lockDoIHold t then .ok (s.setPc t .asserting) else .error .kassert
    else .error .disabled
  | .assertDepth t =>
    if s.pc t = .asserting then
      if 0 < s.depth then .ok (s.setPc t .decrementing) else .error .kassert
    else .error .disabled
  | .decrementRead t =>
    if s.pc t = .decrementing then .ok (s.setPc t (.decremented s.depth)) else .error .disabled
  | .decrement t =>
    match s.pc t with
    | .decremented d => .ok ({ s with depth := d - 1 }.setPc t .testing)
    | _ => .error .disabled
  | .test t =>
    if s.pc t = .testing then .ok (s.setPc t (if s.depth = 0 then .letting else .out))
    else .error .disabled

end Exec

/-- What an event has done. -/
inductive Moved [DecidableEq T] (s : Biglock T) : BigEvent T → Biglock T → Prop
  | acquire {t : T} : s.pc t = .out → Moved s (.acquire t)
      (s.setPc t (if vfsBiglockAcquires s.lock t then .acquiring else .incrementing))
  | inner {e : LockEvent T} {lock : LockState T} : s.pc e.thread = e.call →
      s.lock.Moved e lock → Moved s (.inner e) ({ s with lock := lock }.setPc e.thread e.after)
  | incrementRead {t : T} : s.pc t = .incrementing →
      Moved s (.incrementRead t) (s.setPc t (.incremented s.depth))
  | increment {t : T} {d : Nat} : s.pc t = .incremented d →
      Moved s (.increment t) ({ s with depth := d + 1 }.setPc t .out)
  | release {t : T} : s.pc t = .out → s.lock.lockDoIHold t = true →
      Moved s (.release t) (s.setPc t .asserting)
  | assertDepth {t : T} : s.pc t = .asserting → 0 < s.depth →
      Moved s (.assertDepth t) (s.setPc t .decrementing)
  | decrementRead {t : T} : s.pc t = .decrementing →
      Moved s (.decrementRead t) (s.setPc t (.decremented s.depth))
  | decrement {t : T} {d : Nat} : s.pc t = .decremented d →
      Moved s (.decrement t) ({ s with depth := d - 1 }.setPc t .testing)
  | test {t : T} : s.pc t = .testing →
      Moved s (.test t) (s.setPc t (if s.depth = 0 then .letting else .out))

variable [DecidableEq T] {s s' : Biglock T} {e : BigEvent T}

theorem exec_ok (h : s.exec e = .ok s') : Moved s e s' := by
  cases e with simp only [exec] at h
  | acquire t =>
    split_ifs at h with hpc hown <;> obtain rfl := Except.ok.inj h
    · simpa only [if_pos hown] using Moved.acquire hpc
    · simpa only [if_neg hown] using Moved.acquire hpc
  | inner e =>
    split_ifs at h with hpc
    cases hl : s.lock.exec e with
    | error why => rw [hl] at h; cases h
    | ok lock => rw [hl] at h; exact Except.ok.inj h ▸ .inner hpc (LockState.exec_ok hl)
  | increment t =>
    split at h
    · next hpc => exact Except.ok.inj h ▸ .increment hpc
    · cases h
  | decrement t =>
    split at h
    · next hpc => exact Except.ok.inj h ▸ .decrement hpc
    · cases h
  | incrementRead t =>
    split_ifs at h with hpc
    exact Except.ok.inj h ▸ .incrementRead hpc
  | release t =>
    split_ifs at h with hpc hown
    exact Except.ok.inj h ▸ .release hpc hown
  | assertDepth t =>
    split_ifs at h with hpc hd
    exact Except.ok.inj h ▸ .assertDepth hpc hd
  | decrementRead t =>
    split_ifs at h with hpc
    exact Except.ok.inj h ▸ .decrementRead hpc
  | test t =>
    split_ifs at h with hpc hd <;> obtain rfl := Except.ok.inj h
    · simpa only [if_pos hd] using Moved.test hpc
    · simpa only [if_neg hd] using Moved.test hpc

end Biglock

/-! ## The invariant -/

section Invariant

variable [DecidableEq T]

/-- The acquires of `t` that are outstanding after the events `es`. -/
def outstanding (es : List (BigEvent T)) (t : T) : Nat :=
  es.count (.increment t) - es.count (.decrement t)

/-- Where a thread is in the functions of the sleep lock, for each place in the two functions of
the big lock, with the number of its outstanding acquires. -/
def BigPc.Fits (lock : LockPc) (n : Nat) : BigPc → Prop
  | .out => lock = .out ∧ n = 0 ∨ lock = .held ∧ 0 < n
  | .acquiring => (lock = .out ∨ lock = .waiting ∨ lock = .taken) ∧ n = 0
  | .incrementing | .testing => lock = .held
  | .incremented d => lock = .held ∧ d = n
  | .asserting | .decrementing => lock = .held ∧ 0 < n
  | .decremented d => lock = .held ∧ 0 < n ∧ d = n
  | .letting => (lock = .held ∨ lock = .checked ∨ lock = .releasing) ∧ n = 0

structure BiglockInv (n : T → Nat) (s : Biglock T) : Prop where
  lock : LockInv s.lock
  owner : OwnerHolds s.lock
  fits : ∀ t, (s.pc t).Fits (s.lock.pc t) (n t)
  /-- The depth counts for the thread inside the sleep lock, -/
  counts : ∀ t, (s.lock.pc t).inside = true → s.depth = n t
  /-- and is 0 when there is none. -/
  free : (∀ t, (s.lock.pc t).inside = false) → s.depth = 0

/-- The numbers of outstanding acquires after one more event. -/
def BigEvent.count (n : T → Nat) : BigEvent T → T → Nat
  | .increment t => update n t (n t + 1)
  | .decrement t => update n t (n t - 1)
  | _ => n

end Invariant

/-- Only the functions of the big lock that hold the sleep lock have an acquire outstanding. -/
theorem BigPc.Fits.held {pc : BigPc} {lock : LockPc} {n : Nat} (h : pc.Fits lock n) (hn : 0 < n) :
    lock = .held := by
  cases pc with
  | out => exact h.elim (fun h => absurd h.2 (by omega)) And.left
  | acquiring | letting => exact absurd h.2 (by omega)
  | incrementing => exact h
  | testing => exact h
  | incremented => exact h.1
  | asserting => exact h.1
  | decrementing => exact h.1
  | decremented => exact h.1

/-- Events of the lock belong to the outermost calls only. -/
theorem BigPc.Fits.inner {e : LockEvent T} {lock : LockPc} {n : Nat} (h : e.call.Fits lock n) :
    n = 0 := by
  cases e <;> exact h.2

section Inner

variable [DecidableEq T] {l l' : LockState T} {e : LockEvent T}

theorem acquireSection_pc (l : LockState T) (t : T) :
    (l.acquireSection t).2.pc t = .waiting ∨ (l.acquireSection t).2.pc t = .taken := by
  unfold LockState.acquireSection
  split_ifs <;> simp

/-- An event of the lock takes its thread to where the big lock expects it. -/
theorem LockState.Moved.fits (h : l.Moved e l') : e.after.Fits (l'.pc e.thread) 0 := by
  cases h with
  | @acquire t => exact ⟨.inr (acquireSection_pc l t), rfl⟩
  | @again t => exact ⟨.inr (acquireSection_pc _ t), rfl⟩
  | own => simp [LockEvent.after, BigPc.Fits, LockEvent.thread]
  | check => exact ⟨.inr (.inl (by simp [LockEvent.thread])), rfl⟩
  | disown => exact ⟨.inr (.inr (by simp [LockEvent.thread])), rfl⟩
  | give => exact .inl ⟨by simp [LockState.releaseSection, LockEvent.thread], rfl⟩

end Inner

namespace BiglockInv

variable {n : T → Nat} {s s' : Biglock T} {t : T}

theorem start : BiglockInv (fun _ => 0) (vfsBootstrap : Biglock T) :=
  ⟨.create none, fun _ h => absurd h (by simp [vfsBootstrap, lockCreate]),
    fun _ => .inl ⟨rfl, rfl⟩, fun _ _ => rfl, fun _ => rfl⟩

theorem fits_at {pc : BigPc} (h : BiglockInv n s) (hpc : s.pc t = pc) :
    pc.Fits (s.lock.pc t) (n t) := hpc ▸ h.fits t

/-- A thread with an acquire outstanding has the lock, and the depth is its count. -/
theorem held (h : BiglockInv n s) (hn : 0 < n t) : s.lock.pc t = .held ∧ s.depth = n t := by
  have hheld := (h.fits t).held hn
  exact ⟨hheld, h.counts t (by rw [hheld]; rfl)⟩

/-- What the thread that holds the lock has read or will write. -/
theorem depth_eq (h : BiglockInv n s) (hpc : s.lock.pc t = .held) : s.depth = n t :=
  h.counts t (by rw [hpc]; rfl)

variable [DecidableEq T]

variable (h : BiglockInv n s)
include h

/-- The unlocked test of the owner is exact for a thread in none of the functions. -/
theorem lockDoIHold_iff (hpc : s.pc t = .out) : s.lock.lockDoIHold t = true ↔ 0 < n t := by
  have hfits := h.fits_at hpc
  rw [h.owner.held_iff h.lock (hfits.imp And.left And.left)]
  constructor
  · intro hheld
    rcases hfits with ⟨hout, -⟩ | ⟨-, hn⟩
    · exact absurd (hheld.symm.trans hout) (by simp)
    · exact hn
  · exact fun hn => (h.held hn).1

/-- A thread goes on, and nothing that is shared changes. -/
theorem move {pc : BigPc} (hfits : pc.Fits (s.lock.pc t) (n t)) : BiglockInv n (s.setPc t pc) := by
  refine ⟨h.lock, h.owner, fun u => ?_, h.counts, h.free⟩
  rw [Biglock.setPc_pc]
  split_ifs with hu
  · exact hu ▸ hfits
  · exact h.fits u

theorem write {pc : BigPc} {k : Nat} (hheld : s.lock.pc t = .held) (hfits : pc.Fits .held k) :
    BiglockInv (update n t k) ({ s with depth := k }.setPc t pc) := by
  have hin : (s.lock.pc t).inside = true := by rw [hheld]; rfl
  refine ⟨h.lock, h.owner, fun u => ?_, fun u hu => ?_, fun hfree => ?_⟩
  · rw [Biglock.setPc_pc, update_apply]
    split_ifs with hu
    · rw [hu]
      exact hheld ▸ hfits
    · exact h.fits u
  · obtain rfl := h.lock.excl u t hu hin
    exact (update_self (f := n) u k).symm
  · exact absurd ((hfree t).symm.trans hin) (by simp)

theorem inner {e : LockEvent T} {lock : LockState T} (hpc : s.pc e.thread = e.call)
    (hm : s.lock.Moved e lock) : BiglockInv n ({ s with lock := lock }.setPc e.thread e.after) := by
  have hzero : n e.thread = 0 := BigPc.Fits.inner (h.fits_at hpc)
  have hlock : LockInv lock := h.lock.step (h.owner.holderReleases h.lock hm) hm
  -- the thread was inside, or nobody was before it came
  have hdepth : (∀ u, u ≠ e.thread → (s.lock.pc u).inside = false) → s.depth = 0 := by
    intro hothers
    cases hin : (s.lock.pc e.thread).inside with
    | true => rw [h.counts _ hin, hzero]
    | false =>
      refine h.free fun u => ?_
      grind
  refine ⟨hlock, h.owner.step h.lock hm, fun u => ?_, fun u hu => ?_, fun hfree => ?_⟩
  · rw [Biglock.setPc_pc]
    split_ifs with hu
    · rw [hu, hzero]
      exact hm.fits
    · exact hm.pc_of_ne hu ▸ h.fits u
  · change (lock.pc u).inside = true at hu
    by_cases hut : u = e.thread
    · rw [hut, hzero]
      refine hdepth fun v hv => ?_
      rw [← hm.pc_of_ne hv, ← Bool.not_eq_true]
      exact fun hin => hv ((hlock.excl v u hin hu).trans hut)
    · exact h.counts u (hm.pc_of_ne hut ▸ hu)
  · exact hdepth fun u hu => hm.pc_of_ne hu ▸ hfree u

theorem step {e : BigEvent T} (hm : s.Moved e s') : BiglockInv (e.count n) s' := by
  cases hm with
  | @acquire t hpc =>
    refine h.move ?_
    have hexact := h.lockDoIHold_iff hpc
    rcases h.fits_at hpc with ⟨hout, hn⟩ | ⟨hheld, hn⟩
    · rw [if_pos (by simp [vfsBiglockAcquires, ← Bool.not_eq_true, hexact, hn])]
      exact ⟨.inl hout, hn⟩
    · rw [if_neg (by simp [vfsBiglockAcquires, hexact, hn])]
      exact hheld
  | inner hpc hm => exact h.inner hpc hm
  | @incrementRead t hpc =>
    have hheld : s.lock.pc t = .held := h.fits_at hpc
    exact h.move ⟨hheld, h.depth_eq hheld⟩
  | @increment t d hpc =>
    obtain ⟨hheld, rfl⟩ : s.lock.pc t = .held ∧ d = n t := h.fits_at hpc
    exact h.write hheld (.inr ⟨rfl, Nat.succ_pos _⟩)
  | @release t hpc hown =>
    have hn := (h.lockDoIHold_iff hpc).mp hown
    exact h.move ⟨(h.held hn).1, hn⟩
  | @assertDepth t hpc _ =>
    have hfits : s.lock.pc t = .held ∧ 0 < n t := h.fits_at hpc
    exact h.move hfits
  | @decrementRead t hpc =>
    obtain ⟨hheld, hn⟩ : s.lock.pc t = .held ∧ 0 < n t := h.fits_at hpc
    exact h.move ⟨hheld, hn, h.depth_eq hheld⟩
  | @decrement t d hpc =>
    obtain ⟨hheld, hn, rfl⟩ : s.lock.pc t = .held ∧ 0 < n t ∧ d = n t := h.fits_at hpc
    exact h.write hheld rfl
  | @test t hpc =>
    have hheld : s.lock.pc t = .held := h.fits_at hpc
    have hdepth := h.depth_eq hheld
    refine h.move ?_
    split_ifs with hd
    · exact ⟨.inl hheld, hdepth ▸ hd⟩
    · exact .inr ⟨hheld, by omega⟩

/-- An assertion fails for a thread that has no acquire to undo, and for no other. -/
theorem kassert {e : BigEvent T} (hk : s.exec e = .error .kassert) :
    ∃ t, e = .release t ∧ n t = 0 := by
  cases e with
  | release t =>
    simp only [Biglock.exec] at hk
    split_ifs at hk with hpc hown
    · refine ⟨t, rfl, ?_⟩
      have := mt (h.lockDoIHold_iff hpc).mpr hown
      omega
    · simp at hk
  | assertDepth t =>
    simp only [Biglock.exec] at hk
    split_ifs at hk with hpc hd
    · obtain ⟨hheld, hn⟩ : s.lock.pc t = .held ∧ 0 < n t := h.fits_at hpc
      exact absurd hn (by rw [← h.depth_eq hheld]; exact hd)
    · simp at hk
  | inner e =>
    simp only [Biglock.exec] at hk
    split_ifs at hk with hpc
    · cases hl : s.lock.exec e with
      | ok => rw [hl] at hk; cases hk
      | error why =>
        rw [hl] at hk
        cases hk
        obtain ⟨t, rfl, hlpc, hno⟩ := LockState.exec_kassert hl
        -- `lock_release` asserts once more what holds here
        have hin := (h.fits_at (t := t) hpc).1
        have hheld : s.lock.pc t = .held := by
          grind
        exact absurd hno (by simp [LockState.lockDoIHold, h.lock.owns t (by rw [hheld]; rfl)])
    · simp at hk
  | increment t | decrement t => simp only [Biglock.exec] at hk; split at hk <;> simp at hk
  | _ => simp only [Biglock.exec] at hk; split_ifs at hk; simp at hk

end BiglockInv

/-! ## Runs -/

section Runs

variable [DecidableEq T]

theorem outstanding_append {es : List (BigEvent T)}
    (hle : ∀ t, es.count (.decrement t) ≤ es.count (.increment t)) (e : BigEvent T) :
    outstanding (es ++ [e]) = e.count (outstanding es) := by
  funext t
  have ht := hle t
  cases e with
  | increment u | decrement u =>
    by_cases hu : t = u
    · subst hu
      simp [outstanding, BigEvent.count]
      omega
    · simp [outstanding, BigEvent.count, hu, Ne.symm hu]
  | _ => simp [outstanding, BigEvent.count]

/-- What is relied on after the events `es`, which have led to `s`. A thread holds the big lock
while an acquire of it is outstanding. -/
structure RecursiveLock (es : List (BigEvent T)) (s : Biglock T) : Prop where
  positive : 0 < s.depth ↔ ∃ t, 0 < outstanding es t
  excl : ∀ t u, 0 < outstanding es t → 0 < outstanding es u → t = u
  counts : ∀ t, 0 < outstanding es t → s.depth = outstanding es t
  /-- Only the thread that has the sleep lock changes the depth. -/
  changes : ∀ e s', s.exec e = .ok s' → s'.depth ≠ s.depth →
    s.lock.pc e.thread = .held ∧ ∀ u, u ≠ e.thread → outstanding es u = 0
  /-- The sleep lock is the thread's until its outermost acquire is undone, -/
  holds : ∀ t, 0 < outstanding es t → s.lock.pc t = .held
  /-- then `lock_release` is called, and only then, -/
  lets : ∀ t s', s.exec (.test t) = .ok s' → (s'.pc t = .letting ↔ outstanding es t = 0)
  leaves : ∀ t e s', s.exec e = .ok s' → (s.lock.pc t).inside = true →
    (s'.lock.pc t).inside = false → s.pc t = .letting
  /-- and has given the lock up when the call returns. -/
  returned : ∀ t, s.pc t = .out → outstanding es t = 0 → s.lock.pc t = .out
  /-- An assertion fails only for a release that undoes nothing. -/
  nested : ∀ e, s.exec e = .error .kassert → ∃ t, e = .release t ∧ outstanding es t = 0

theorem BiglockInv.recursiveLock {es : List (BigEvent T)} {s : Biglock T}
    (h : BiglockInv (outstanding es) s) : RecursiveLock es s where
  positive := by
    constructor
    · intro hpos
      by_contra hnone
      simp only [not_exists, Nat.not_lt, Nat.le_zero] at hnone
      refine absurd (h.free fun t => ?_) (by omega)
      by_contra hin
      have := h.counts t (by simpa using hin)
      rw [hnone t] at this
      omega
    · rintro ⟨t, ht⟩
      rw [(h.held ht).2]
      exact ht
  excl t u ht hu :=
    h.lock.excl t u (by rw [(h.held ht).1]; rfl) (by rw [(h.held hu).1]; rfl)
  counts t ht := (h.held ht).2
  changes e s' he hne := by
    have hheld : s.lock.pc e.thread = .held := by
      cases Biglock.exec_ok he with
      | @increment t d hpc | @decrement t d hpc => exact (h.fits_at hpc).1
      | _ => exact absurd rfl hne
    refine ⟨hheld, fun u hu => ?_⟩
    by_contra hpos
    have := (h.held (Nat.pos_of_ne_zero hpos)).1
    exact hu (h.lock.excl u e.thread (by rw [this]; rfl) (by rw [hheld]; rfl))
  holds t ht := (h.held ht).1
  lets t s' he := by
    cases Biglock.exec_ok he with
    | test hpc =>
      have hheld : s.lock.pc t = .held := h.fits_at hpc
      rw [Biglock.setPc_pc, if_pos rfl, h.depth_eq hheld]
      split_ifs with hd <;> simp [hd]
  leaves t e s' he hin hout := by
    cases Biglock.exec_ok he with
    | @inner e lock hpc hm =>
      have ht : t = e.thread := by
        by_contra hne
        exact absurd ((congrArg LockPc.inside (hm.pc_of_ne hne)).symm.trans hout)
          (by rw [hin]; simp)
      subst ht
      change (lock.pc e.thread).inside = false at hout
      cases hm with
      | @acquire t hlpc =>
        change (s.lock.pc t).inside = true at hin
        rw [hlpc] at hin
        exact absurd hin (by decide)
      | @again t hmem =>
        change (s.lock.pc t).inside = true at hin
        rw [(h.lock.waiting t).mp (.inr hmem)] at hin
        exact absurd hin (by decide)
      | own => exact absurd hout (by simp [LockEvent.thread, LockPc.inside])
      | _ => exact hpc
    | _ => exact absurd (hin.symm.trans hout) (by simp)
  returned t hpc hn := (h.fits_at hpc).elim And.left fun hheld => absurd hn (by omega)
  nested e := h.kassert

/-- **The big lock is a recursive lock**, for any calls by any threads. -/
theorem vfs_biglock_recursive {es : List (BigEvent T)} {s : Biglock T}
    (hr : Run (fun s e s' => Biglock.exec s e = .ok s') vfsBootstrap es s) :
    RecursiveLock es s := by
  -- an acquire is undone at most once, so the counts in the labels may be subtracted
  have h := hr.history (R := fun es s =>
    (∀ t, es.count (.decrement t) ≤ es.count (.increment t)) ∧ BiglockInv (outstanding es) s)
    ⟨fun _ => Nat.le_refl 0, .start⟩ ?_
  · exact h.2.recursiveLock
  · rintro es s e s' ⟨hle, hi⟩ he
    have hm := Biglock.exec_ok he
    have hi' := hi.step hm
    rw [← outstanding_append hle] at hi'
    refine ⟨fun t => ?_, hi'⟩
    have ht := hle t
    cases hm with
    | increment => rw [List.count_append, List.count_append]; simp; omega
    | @decrement u d hpc =>
      have hn := (hi.fits_at hpc).2.1
      by_cases hu : t = u
      · subst hu
        simp only [outstanding] at hn
        simp
        omega
      · simpa [Ne.symm hu] using ht
    | _ => simpa using ht

/-- Thread 1 acquires twice; thread 2 reads the owner in between, sleeps, and has the lock when
thread 1 has undone its outermost acquire. -/
abbrev nestedAcquires : List (BigEvent Nat) :=
  [.acquire 1, .inner (.acquire 1 true), .inner (.own 1), .incrementRead 1, .increment 1,
    .acquire 2, .acquire 1, .incrementRead 1, .inner (.acquire 2 false), .increment 1,
    .release 1, .assertDepth 1, .decrementRead 1, .decrement 1, .test 1,
    .release 1, .assertDepth 1, .decrementRead 1, .decrement 1, .test 1,
    .inner (.check 1), .inner (.disown 1), .inner (.give 1), .inner (.again 2 true),
    .inner (.own 2), .incrementRead 2, .increment 2]

theorem vfs_biglock_recursive_nested : ∃ s : Biglock Nat,
    Run (fun s e s' => Biglock.exec s e = .ok s') vfsBootstrap nestedAcquires s ∧
      RecursiveLock nestedAcquires s ∧ s.depth = 1 ∧ outstanding nestedAcquires 2 = 1 := by
  exact Run.exists_imp (Q := fun s => s.depth = 1)
    (Run.exists_of_foldlM (fun _ _ _ => toOption_eq_some.mp) (by decide))
    fun s hr hp => ⟨vfs_biglock_recursive hr, hp, by decide⟩

end Runs

end OsPaging.Thread
