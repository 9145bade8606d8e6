import OsPaging.Lib.Placement
import OsPaging.Thread.Scheduler

/-!
# The places of the threads

The lists of `Thread.Scheduler` and the cpus that run a thread are the places (`SchedPlace`), and
the live threads are placed in them in the sense of `Lib.Placement`. What makes it so is `t_cpu`: it
is the cpu of the current thread, of the threads on a run queue and of the victims of a migration
(`CpuOf`), only a migration changes it, and never that of the current thread of a cpu.

`Frame` is what a step of one cpu leaves to the others. Then there is one lemma for each way in
which a step moves a thread.
-/

namespace OsPaging.Thread

open OsPaging.Lib
open Function (update update_self update_of_ne update_apply)

variable {n : Nat} {T W L : Type}

/-- Where a thread can be. -/
inductive SchedPlace (n : Nat) (W : Type)
  /-- It runs on the cpu. -/
  | cpu (c : Fin n)
  | runqueue (c : Fin n)
  | wchan (wc : W)
  | zombies (c : Fin n)
  /-- The private list of a wakeup or a migration on the cpu. -/
  | list (c : Fin n)
deriving DecidableEq, Repr

namespace Sched

/-- The current thread of the cpu has not been put elsewhere. -/
def running (s : Sched n T W L) (c : Fin n) : Bool := !((s.pc c).parked || s.isidle c)

/-- The threads at a place. -/
def lists (s : Sched n T W L) : SchedPlace n W → List T
  | .cpu c => if s.running c then [s.cur c] else []
  | .runqueue c => s.runqueue c
  | .wchan wc => s.threads wc
  | .zombies c => s.zombies c
  | .list c => (s.pc c).list

end Sched

/-! ## The invariant -/

/-- What a cpu relies on at its place: flag, locks, and the counts of a migration. -/
def SchedPc.Ok (s : Sched n T W L) (c : Fin n) : SchedPc n T W → Prop
  | .placing _ => s.isidle c = false ∧ s.rqHolder c = some c
  | .placed x => s.isidle c = false ∧ s.rqHolder c = some c ∧
      (x.state ≠ .zombie → ∀ d, s.cur c ∉ s.zombies d)
  | .choosing => s.isidle c = true ∧ s.rqHolder c = some c
  | .switched => s.isidle c = false ∧ s.rqHolder c = some c
  | .tail => s.isidle c = false
  | .counting _ myCount _ => myCount ≤ (s.runqueue c).length
  | .draining left toSend _ victims => left ≤ (s.runqueue c).length ∧ s.rqHolder c = some c ∧
      toSend = left + victims.length
  | .offering _ toSend _ victims => toSend ≤ victims.length
  | .sending i toSend _ victims => toSend ≤ victims.length ∧ s.rqHolder i = some c
  | .returning _ => s.rqHolder c = some c
  | _ => True

/-- `t_cpu` is where the thread is. -/
structure CpuOf (s : Sched n T W L) : Prop where
  cur : ∀ c, s.tcpu (s.cur c) = c
  runqueue : ∀ c, ∀ t ∈ s.runqueue c, s.tcpu t = c
  zombies : ∀ c, ∀ t ∈ s.zombies c, s.tcpu t = c
  victims : ∀ c, ∀ t ∈ (s.pc c).victims, s.tcpu t = c

theorem CpuOf.same {s s' : Sched n T W L} (h : CpuOf s)
    (heq : (s'.tcpu, s'.cur, s'.runqueue, s'.zombies, s'.pc) =
      (s.tcpu, s.cur, s.runqueue, s.zombies, s.pc)) : CpuOf s' := by
  simp only [Prod.mk.injEq] at heq
  obtain ⟨h1, h2, h3, h4, h5⟩ := heq
  exact ⟨by rw [h1, h2]; exact h.cur, by rw [h1, h3]; exact h.runqueue,
    by rw [h1, h4]; exact h.zombies, by rw [h1, h5]; exact h.victims⟩

/-- `t_state` of the zombies is set before `exorcise` looks at it. -/
def ZombieState (s : Sched n T W L) : Prop :=
  ∀ c, ∀ t ∈ s.zombies c, s.tstate t = .zombie ∨ (s.pc c = .placed .zombie ∧ t = s.cur c)

structure SchedInv (s : Sched n T W L) : Prop where
  placed : Placed s.lists fun t => s.life t = .live
  cpuOf : CpuOf s
  /-- Also the current thread of an idle cpu is not destroyed. -/
  curLive : ∀ c, s.life (s.cur c) = .live
  ok : ∀ c, (s.pc c).Ok s c
  zombieState : ZombieState s
  createdState : ∀ t, s.life t = .created → s.tstate t = .ready

/-! ## What a step of one cpu leaves to the others -/

/-- A step of `c`, as the other cpus see it. -/
structure Frame (s s' : Sched n T W L) (c : Fin n) : Prop where
  pc : ∀ d, d ≠ c → s'.pc d = s.pc d
  isidle : ∀ d, d ≠ c → s'.isidle d = s.isidle d
  cur : ∀ d, d ≠ c → s'.cur d = s.cur d
  runqueue : ∀ d, d ≠ c → (s.runqueue d).length ≤ (s'.runqueue d).length
  rqHolder : ∀ d, d ≠ c → ∀ x, s.rqHolder x = some d → s'.rqHolder x = some d
  zombies : ∀ d, d ≠ c → ∀ x, s.cur d ∈ s'.zombies x → s.cur d ∈ s.zombies x

section Frames

variable {s s' s'' : Sched n T W L} {c d : Fin n} {p : SchedPc n T W}

theorem Frame.ok (h : Frame s s' c) (hd : d ≠ c) (hp : p.Ok s d) : p.Ok s' d := by
  have hlock := h.rqHolder d hd
  have hrq := h.runqueue d hd
  have hz := h.zombies d hd
  cases p <;> simp only [SchedPc.Ok, h.isidle d hd, h.cur d hd] at hp ⊢ <;> grind

theorem Frame.trans (h : Frame s s' c) (h' : Frame s' s'' c) : Frame s s'' c where
  pc d hd := (h'.pc d hd).trans (h.pc d hd)
  isidle d hd := (h'.isidle d hd).trans (h.isidle d hd)
  cur d hd := (h'.cur d hd).trans (h.cur d hd)
  runqueue d hd := (h.runqueue d hd).trans (h'.runqueue d hd)
  rqHolder d hd x hx := h'.rqHolder d hd x (h.rqHolder d hd x hx)
  zombies d hd x hx := by
    rw [← h.cur d hd] at hx
    have hx' := h'.zombies d hd x hx
    rw [h.cur d hd] at hx'
    exact h.zombies d hd x hx'

theorem Frame.goto (s : Sched n T W L) (c : Fin n) (p : SchedPc n T W) : Frame s (s.goto c p) c :=
  ⟨fun _ hd => update_of_ne hd _ _, fun _ _ => rfl, fun _ _ => rfl, fun _ _ => le_rfl,
    fun _ _ _ => id, fun _ _ _ => id⟩

theorem Frame.lockRq (c : Fin n) (hfree : s.rqHolder d = none) : Frame s (s.lockRq c d) c := by
  refine ⟨fun _ _ => rfl, fun _ _ => rfl, fun _ _ => rfl, fun _ _ => le_rfl, ?_, fun _ _ _ => id⟩
  simp only [Sched.lockRq, update_apply]
  grind

theorem Frame.unlockRq (hheld : s.rqHolder d = some c) : Frame s (s.unlockRq d) c := by
  refine ⟨fun _ _ => rfl, fun _ _ => rfl, fun _ _ => rfl, fun _ _ => le_rfl, ?_, fun _ _ _ => id⟩
  simp only [Sched.unlockRq, update_apply]
  grind

theorem Frame.enqueue (s : Sched n T W L) (c d : Fin n) (t : T) : Frame s (s.enqueue d t) c := by
  refine ⟨fun _ _ => rfl, fun _ _ => rfl, fun _ _ => rfl, ?_, fun _ _ _ => id, fun _ _ _ => id⟩
  simp only [Sched.enqueue, update_apply]
  grind

/-- What a cpu changes of its own, and what no other cpu relies on. -/
theorem Frame.own {cur' : Fin n → T} {isidle' : Fin n → Bool} {runqueue' : Fin n → List T}
    {spinlocks' : Fin n → Nat} {threads' : W → List T} {lkHolder' : L → Option (Fin n)}
    {tcpu' : T → Fin n} {tstate' : T → ThreadState} {life' : T → Life}
    (hcur : ∀ d, d ≠ c → cur' d = s.cur d) (hidle : ∀ d, d ≠ c → isidle' d = s.isidle d)
    (hrq : ∀ d, d ≠ c → runqueue' d = s.runqueue d) :
    Frame s { s with
      cur := cur', isidle := isidle', runqueue := runqueue', spinlocks := spinlocks',
      threads := threads', lkHolder := lkHolder', tcpu := tcpu', tstate := tstate',
      life := life' } c :=
  ⟨fun _ _ => rfl, hidle, hcur, fun d hd => (hrq d hd).symm ▸ le_rfl, fun _ _ _ => id,
    fun _ _ _ => id⟩

end Frames

namespace SchedInv

variable {s s' : Sched n T W L} {c d : Fin n} {t : T} {p : SchedPc n T W}

/-- The cpu that made the step is looked at again, the others are not. -/
theorem of_frame (h : SchedInv s) (hf : Frame s s' c)
    (hplaced : Placed s'.lists fun t => s'.life t = .live) (hcpu : CpuOf s')
    (hlive : ∀ d, s'.life (s'.cur d) = .live) (hok : (s'.pc c).Ok s' c) (hz : ZombieState s')
    (hcr : ∀ t, s'.life t = .created → s'.tstate t = .ready) : SchedInv s' where
  placed := hplaced
  cpuOf := hcpu
  curLive := hlive
  ok d := by
    by_cases hd : d = c
    · subst hd
      exact hok
    · rw [hf.pc d hd]
      exact hf.ok hd (h.ok d)
  zombieState := hz
  createdState := hcr

/-! ### Where a thread is not -/

theorem running_of (hp : (s.pc c).parked = false) (hi : s.isidle c = false) :
    s.running c = true := by
  simp [Sched.running, hp, hi]

theorem cur_mem (hr : s.running c = true) : s.cur c ∈ s.lists (.cpu c) := by
  simp [Sched.lists, hr]

theorem notMem_zombies (h : SchedInv s) {q : SchedPlace n W} (ht : t ∈ s.lists q)
    (hq : ∀ d, q ≠ .zombies d) (d : Fin n) : t ∉ s.zombies d := fun hz =>
  hq d (h.placed.apart ht (q := .zombies d) hz)

theorem zombieState_setState [DecidableEq T] (h : ZombieState s) (ht : ∀ d, t ∉ s.zombies d)
    (x : ThreadState) : ZombieState (s.setState t x) := by
  simp only [ZombieState, Sched.setState, update_apply] at h ⊢
  grind

theorem createdState_setState [DecidableEq T] (h : SchedInv s) (ht : s.life t = .live)
    (x : ThreadState) : ∀ u, s.life u = .created → (s.setState t x).tstate u = .ready := by
  have := h.createdState
  simp only [Sched.setState, update_apply]
  grind

theorem zombieState_goto (h : ZombieState s) (hc : s.pc c ≠ .placed .zombie) :
    ZombieState (s.goto c p) := by
  simp only [ZombieState, Sched.goto, update_apply] at h ⊢
  grind

theorem cpuOf_goto (h : CpuOf s) (hv : ∀ t ∈ p.victims, s.tcpu t = c) : CpuOf (s.goto c p) where
  cur := h.cur
  runqueue := h.runqueue
  zombies := h.zombies
  victims := by
    have := h.victims
    simp only [Sched.goto, update_apply]
    grind

theorem cpuOf_enqueue (h : CpuOf s) (ht : s.tcpu t = d) : CpuOf (s.enqueue d t) where
  cur := h.cur
  runqueue := by
    have := h.runqueue
    simp only [Sched.enqueue, update_apply]
    grind
  zombies := h.zombies
  victims := h.victims

/-! ### The lists after an update -/

section Lists

variable {r : SchedPlace n W} {l : List T} {wc : W}

@[simp] theorem lists_goto_self : (s.goto c p).lists (.list c) = p.list := by
  simp [Sched.lists, Sched.goto]

theorem lists_goto_of_ne
    (hrun : (p.parked || s.isidle c) = ((s.pc c).parked || s.isidle c)) (hr : r ≠ .list c) :
    (s.goto c p).lists r = s.lists r := by
  cases r with
  | cpu d =>
    simp only [Sched.lists, Sched.running, Sched.goto, update_apply]
    grind
  | list d =>
    simp only [Sched.lists, Sched.goto, update_apply]
    grind
  | _ => rfl

theorem lists_goto (hlist : p.list = (s.pc c).list)
    (hrun : (p.parked || s.isidle c) = ((s.pc c).parked || s.isidle c)) :
    (s.goto c p).lists = s.lists := by
  funext r
  by_cases hr : r = .list c
  · subst hr
    rw [lists_goto_self, hlist]
    rfl
  · exact lists_goto_of_ne hrun hr

theorem lists_runqueue_of_ne (hr : r ≠ .runqueue c) :
    { s with runqueue := update s.runqueue c l }.lists r = s.lists r := by
  cases r with
  | runqueue d => exact update_of_ne (by grind) _ _
  | _ => rfl

theorem lists_zombies_of_ne (hr : r ≠ .zombies c) :
    { s with zombies := update s.zombies c l }.lists r = s.lists r := by
  cases r with
  | zombies d => exact update_of_ne (by grind) _ _
  | _ => rfl

theorem lists_threads_of_ne [DecidableEq W] (hr : r ≠ .wchan wc) :
    { s with threads := update s.threads wc l }.lists r = s.lists r := by
  cases r with
  | wchan w => exact update_of_ne (by grind) _ _
  | _ => rfl

end Lists

/-! ### Steps that move no thread -/

theorem goto (h : SchedInv s) (holders : Fin n → Option (Fin n))
    (hf : Frame s { s with rqHolder := holders } c) (hlist : p.list = (s.pc c).list)
    (hvict : p.victims = (s.pc c).victims)
    (hrun : (p.parked || s.isidle c) = ((s.pc c).parked || s.isidle c))
    (hc : s.pc c ≠ .placed .zombie) (hok : p.Ok { s with rqHolder := holders } c) :
    SchedInv ({ s with rqHolder := holders }.goto c p) := by
  refine h.of_frame (hf.trans (.goto _ c p)) ?_ ?_ h.curLive ?_ ?_ h.createdState
  · rw [lists_goto (s := { s with rqHolder := holders }) hlist hrun]
    exact h.placed
  · exact cpuOf_goto (h.cpuOf.same rfl) (hvict ▸ h.cpuOf.victims c)
  · simp only [Sched.goto, update_self]
    exact hok
  · exact zombieState_goto (s := { s with rqHolder := holders }) h.zombieState hc

theorem setState [DecidableEq T] (h : SchedInv s) (ht : s.life t = .live)
    (hz : ∀ d, t ∉ s.zombies d) (x : ThreadState) : SchedInv (s.setState t x) where
  placed := h.placed
  cpuOf := h.cpuOf.same rfl
  curLive := h.curLive
  ok := h.ok
  zombieState := zombieState_setState h.zombieState hz x
  createdState := createdState_setState h ht x

/-! ### From a private list to a run queue and back -/

section Private

variable {l : List T}

theorem not_parked_of_list (ht : t ∈ (s.pc c).list) : (s.pc c).parked = false := by
  cases hp : s.pc c <;> simp_all [SchedPc.list, SchedPc.parked, SchedPc.victims]

theorem ne_placed_of_not_parked (hp : (s.pc c).parked = false) : s.pc c ≠ .placed .zombie := by
  intro he
  simp [he, SchedPc.parked] at hp

theorem placed_unload (h : SchedInv s) (hl : (s.pc c).list = t :: p.list)
    (hp : p.parked = false) : Placed ((s.enqueue d t).goto c p).lists fun t => s.life t =
      .live := by
  have hpc := not_parked_of_list (s := s) (c := c) (t := t) (hl ▸ List.mem_cons_self)
  have hrun : (p.parked || s.isidle c) = ((s.pc c).parked || s.isidle c) := by rw [hp, hpc]
  refine h.placed.move (p := .list c) (q := .runqueue d) (t := t) (by simp) ?_ ?_ ?_
  · rw [lists_goto_self]
    exact .of_eq hl
  · rw [lists_goto_of_ne (s := s.enqueue d t) hrun (by simp)]
    simp only [Sched.lists, Sched.enqueue, update_self]
    exact List.perm_append_singleton _ _
  · intro r hr hr'
    rw [lists_goto_of_ne (s := s.enqueue d t) hrun hr]
    exact lists_runqueue_of_ne hr'

theorem unload (h : SchedInv s) (hl : (s.pc c).list = t :: p.list) (hd : s.tcpu t = d)
    (hvict : ∀ u ∈ p.victims, u ∈ (s.pc c).victims) (hp : p.parked = false)
    (hok : p.Ok (s.enqueue d t) c) : SchedInv ((s.enqueue d t).goto c p) := by
  have hpc := not_parked_of_list (s := s) (c := c) (t := t) (hl ▸ List.mem_cons_self)
  refine h.of_frame ((Frame.enqueue s c d t).trans (.goto _ c p)) (h.placed_unload hl hp) ?_
    h.curLive ?_ ?_ h.createdState
  · exact cpuOf_goto (cpuOf_enqueue h.cpuOf hd) fun u hu => h.cpuOf.victims c u (hvict u hu)
  · simp only [Sched.goto, update_self]
    exact hok
  · exact zombieState_goto (s := s.enqueue d t) h.zombieState (ne_placed_of_not_parked hpc)

/-- A thread goes from the run queue to the private list. -/
theorem load (h : SchedInv s) (hl : (s.runqueue c).Perm (t :: l))
    (hlist : p.list.Perm (t :: (s.pc c).list)) (hvict : ∀ u ∈ p.victims, u ∈ p.list)
    (hown : ∀ u ∈ (s.pc c).list, s.tcpu u = c)
    (hp : p.parked = false) (hpc : (s.pc c).parked = false)
    (hok : p.Ok { s with runqueue := update s.runqueue c l } c) :
    SchedInv ({ s with runqueue := update s.runqueue c l }.goto c p) := by
  have hrun : (p.parked || s.isidle c) = ((s.pc c).parked || s.isidle c) := by rw [hp, hpc]
  have hf : Frame s { s with runqueue := update s.runqueue c l } c :=
    .own (fun _ _ => rfl) (fun _ _ => rfl) fun _ hd => update_of_ne hd _ _
  have htc : s.tcpu t = c := h.cpuOf.runqueue c t (hl.mem_iff.mpr List.mem_cons_self)
  have hcpu : CpuOf { s with runqueue := update s.runqueue c l } := by
    refine ⟨h.cpuOf.cur, ?_, h.cpuOf.zombies, h.cpuOf.victims⟩
    have := h.cpuOf.runqueue
    simp only [update_apply]
    grind
  refine h.of_frame (hf.trans (.goto _ c p)) ?_ ?_ h.curLive ?_ ?_ h.createdState
  · refine h.placed.move (p := .runqueue c) (q := .list c) (t := t) (by simp) ?_ ?_ ?_
    · rw [lists_goto_of_ne (s := { s with runqueue := update s.runqueue c l }) hrun (by simp)]
      simpa [Sched.lists] using hl
    · rw [lists_goto_self]
      exact hlist
    · intro r hr hr'
      rw [lists_goto_of_ne (s := { s with runqueue := update s.runqueue c l }) hrun hr']
      exact lists_runqueue_of_ne hr
  · refine cpuOf_goto hcpu fun u hu => ?_
    grind
  · simp only [Sched.goto, update_self]
    exact hok
  · exact zombieState_goto (s := { s with runqueue := update s.runqueue c l }) h.zombieState
      (ne_placed_of_not_parked hpc)

/-- A thread goes from a wait channel to the private list. -/
theorem wake [DecidableEq W] {wc : W} (h : SchedInv s) (hl : s.threads wc = t :: l)
    (hlist : p.list = (s.pc c).list ++ [t]) (hvict : p.victims = [])
    (hp : p.parked = false) (hpc : (s.pc c).parked = false) (hok : p.Ok s c) :
    SchedInv ({ s with threads := update s.threads wc l }.goto c p) := by
  have hrun : (p.parked || s.isidle c) = ((s.pc c).parked || s.isidle c) := by rw [hp, hpc]
  have hf : Frame s { s with threads := update s.threads wc l } c :=
    .own (fun _ _ => rfl) (fun _ _ => rfl) fun _ _ => rfl
  refine h.of_frame (hf.trans (.goto _ c p)) ?_ ?_ h.curLive ?_ ?_ h.createdState
  · refine h.placed.move (p := .wchan wc) (q := .list c) (t := t) (by simp) ?_ ?_ ?_
    · rw [lists_goto_of_ne (s := { s with threads := update s.threads wc l }) hrun (by simp)]
      simp [Sched.lists, hl]
    · rw [lists_goto_self, hlist]
      exact List.perm_append_singleton _ _
    · intro r hr hr'
      rw [lists_goto_of_ne (s := { s with threads := update s.threads wc l }) hrun hr']
      exact lists_threads_of_ne hr
  · exact cpuOf_goto (h.cpuOf.same rfl) (by simp [hvict])
  · simp only [Sched.goto, update_self]
    cases p <;> exact hok
  · exact zombieState_goto (s := { s with threads := update s.threads wc l }) h.zombieState
      (ne_placed_of_not_parked hpc)

theorem mem_list_of_victims (hu : t ∈ p.victims) : t ∈ p.list := by
  cases p <;> simp_all [SchedPc.list, SchedPc.victims]

/-- A victim goes to the run queue of another cpu: it is the current thread of none. -/
theorem send [DecidableEq T] {i : Fin n} {toSend share : Nat} (h : SchedInv s)
    (hpc : s.pc c = .sending i (toSend + 1) share (t :: l)) (ht : t ≠ s.cur c) :
    SchedInv (({ s with tcpu := update s.tcpu t i }.enqueue i t).goto c
      (.sending i toSend share l)) := by
  have hok : (SchedPc.sending i (toSend + 1) share (t :: l) : SchedPc n T W).Ok s c := hpc ▸ h.ok c
  have hl : t ∈ s.lists (.list c) := by simp [Sched.lists, hpc, SchedPc.list, SchedPc.victims]
  have htl : t ∉ l := by
    have hnd := h.placed.nodup (.list c)
    simp only [Sched.lists, hpc, SchedPc.list, SchedPc.victims, List.nodup_cons] at hnd
    exact hnd.1
  have hother : ∀ {q u}, u ∈ s.lists q → q ≠ .list c → u ≠ t := by
    rintro q u hu hq rfl
    exact hq (h.placed.apart hu hl)
  have hf : Frame s { s with tcpu := update s.tcpu t i } c :=
    .own (fun _ _ => rfl) (fun _ _ => rfl) fun _ _ => rfl
  refine h.of_frame ((hf.trans (.enqueue _ c i t)).trans (.goto _ c _))
    (h.placed_unload (p := .sending i toSend share l) (by rw [hpc]; rfl) rfl) ?_ h.curLive ?_ ?_
    h.createdState
  · obtain ⟨h1, h2, h3, h4⟩ := h.cpuOf
    have hr : ∀ d, ∀ u ∈ s.runqueue d, u ≠ t := fun d u hu => hother (q := .runqueue d) hu (by simp)
    have hz : ∀ d, ∀ u ∈ s.zombies d, u ≠ t := fun d u hu => hother (q := .zombies d) hu (by simp)
    constructor <;> simp only [Sched.goto, Sched.enqueue, update_apply] <;>
      grind [SchedPc.victims]
  · simp only [Sched.goto, update_self, SchedPc.Ok]
    simp only [SchedPc.Ok, List.length_cons] at hok
    exact ⟨by omega, hok.2⟩
  · refine zombieState_goto (s := { s with tcpu := update s.tcpu t i }.enqueue i t)
      h.zombieState ?_
    simp [Sched.enqueue, hpc]

end Private

/-! ### The current thread is put in its place, and the next one chosen -/

theorem lists_goto_of_ne_cpu {r : SchedPlace n W} (hlist : p.list = (s.pc c).list)
    (hr : r ≠ .cpu c) : (s.goto c p).lists r = s.lists r := by
  cases r with
  | cpu d =>
    simp only [Sched.lists, Sched.running, Sched.goto, update_apply]
    grind
  | list d =>
    simp only [Sched.lists, Sched.goto, update_apply]
    grind
  | _ => rfl

variable (h : SchedInv s)
include h

theorem park {x : NewState W} {q : SchedPlace n W} (hpc : s.pc c = .placing x) (hf : Frame s s' c)
    (hpc' : s'.pc = s.pc) (hcur : s'.cur = s.cur) (hlife : s'.life = s.life) (hq : q ≠ .cpu c)
    (hmem : (s'.lists q).Perm (s.cur c :: s.lists q)) (hother : ∀ r, r ≠ q → s'.lists r = s.lists r)
    (hcpu : CpuOf s') (hok : (SchedPc.placed x).Ok s' c) (hz : ZombieState (s'.goto c (.placed x)))
    (hcr : ∀ t, s'.life t = .created → s'.tstate t = .ready) :
    SchedInv (s'.goto c (.placed x)) := by
  have hidle : s.isidle c = false := by
    have := h.ok c
    rw [hpc] at this
    exact this.1
  have hlist : (SchedPc.placed x : SchedPc n T W).list = (s'.pc c).list := by
    rw [hpc', hpc]
    rfl
  refine h.of_frame (hf.trans (.goto _ c _)) ?_ ?_ ?_ ?_ hz hcr
  · have hlive : (fun t => (s'.goto c (.placed x)).life t = .live) = fun t => s.life t = .live :=
      congrArg (fun f : T → Life => fun t => f t = .live) hlife
    rw [hlive]
    refine h.placed.move (p := .cpu c) (q := q) (t := s.cur c) hq.symm ?_ ?_ ?_
    · simp [Sched.lists, Sched.running, Sched.goto, SchedPc.parked, hpc, hidle]
    · rw [lists_goto_of_ne_cpu hlist hq]
      exact hmem
    · intro r hr hr'
      rw [lists_goto_of_ne_cpu hlist hr]
      exact hother r hr'
  · exact cpuOf_goto hcpu (by simp [SchedPc.victims])
  · intro d
    simp only [Sched.goto, hlife, hcur]
    exact h.curLive d
  · simp only [Sched.goto, update_self]
    exact hok

/-- The first thread of the run queue becomes the current one. -/
theorem choose {l : List T} (hpc : s.pc c = .choosing) (hl : s.runqueue c = t :: l) :
    SchedInv ({ s with
      runqueue := update s.runqueue c l
      isidle := update s.isidle c false
      cur := update s.cur c t }.goto c .switched) := by
  have hok : (SchedPc.choosing : SchedPc n T W).Ok s c := hpc ▸ h.ok c
  have ht : t ∈ s.runqueue c := by simp [hl]
  have hlive : s.life t = .live := h.placed.live_of_mem (show t ∈ s.lists (.runqueue c) from ht)
  have hf : Frame s { s with
      runqueue := update s.runqueue c l
      isidle := update s.isidle c false
      cur := update s.cur c t } c :=
    .own (fun _ hd => update_of_ne hd _ _) (fun _ hd => update_of_ne hd _ _)
      fun _ hd => update_of_ne hd _ _
  refine h.of_frame (hf.trans (.goto _ c _)) ?_ ?_ ?_ ?_ ?_ h.createdState
  · refine h.placed.move (p := .runqueue c) (q := .cpu c) (t := t) (by simp) ?_ ?_ ?_
    · simp [Sched.lists, Sched.goto, hl]
    · simp [Sched.lists, Sched.goto, Sched.running, SchedPc.parked, hpc]
    · intro r hr hr'
      cases r <;> simp only [Sched.lists, Sched.goto, Sched.running, update_apply] <;>
        grind [SchedPc.list, SchedPc.victims]
  · obtain ⟨h1, h2, h3, h4⟩ := h.cpuOf
    refine cpuOf_goto ⟨?_, ?_, h3, h4⟩ (by simp [SchedPc.victims]) <;>
      simp only [update_apply] <;> grind
  · have := h.curLive
    simp only [Sched.goto, update_apply]
    grind
  · simp only [Sched.goto, update_self, SchedPc.Ok]
    exact ⟨trivial, hok.2⟩
  · have := h.zombieState
    simp only [ZombieState, Sched.goto, update_apply] at this ⊢
    grind

theorem setIdle [DecidableEq T] {x : NewState W} (hpc : s.pc c = .placed x) :
    SchedInv ({ s.setState (s.cur c) x.state with
      isidle := update s.isidle c true }.goto c .choosing) := by
  have hok : (SchedPc.placed x : SchedPc n T W).Ok s c := hpc ▸ h.ok c
  have hf : Frame s { s.setState (s.cur c) x.state with isidle := update s.isidle c true } c :=
    .own (fun _ _ => rfl) (fun _ hd => update_of_ne hd _ _) fun _ _ => rfl
  refine h.of_frame (hf.trans (.goto _ c _)) ?_ ?_ h.curLive ?_ ?_
    (createdState_setState h (h.curLive c) _)
  · have hlists : (Sched.goto { s.setState (s.cur c) x.state with
        isidle := update s.isidle c true } c .choosing).lists = s.lists := by
      funext r
      cases r <;>
        simp only [Sched.lists, Sched.goto, Sched.running, Sched.setState, update_apply] <;>
        grind [SchedPc.parked, SchedPc.list, SchedPc.victims]
    rw [hlists]
    exact h.placed
  · exact cpuOf_goto (h.cpuOf.same rfl) (by simp [SchedPc.victims])
  · simp only [Sched.goto, update_self, SchedPc.Ok]
    exact ⟨trivial, hok.2.1⟩
  · have := h.zombieState
    obtain ⟨-, -, hnot⟩ := hok
    simp only [ZombieState, Sched.goto, Sched.setState, update_apply] at this ⊢
    grind

/-! ### Threads come and go -/

/-- A zombie is destroyed: it is not the current thread of any cpu. -/
theorem reap [DecidableEq T] {l : List T} (hpc : s.pc c = .tail) (hl : s.zombies c = t :: l)
    (ht : t ≠ s.cur c) :
    SchedInv ({ s with zombies := update s.zombies c l }.setLife t .absent) := by
  have hok : (SchedPc.tail : SchedPc n T W).Ok s c := hpc ▸ h.ok c
  have htc : s.tcpu t = c := h.cpuOf.zombies c t (by simp [hl])
  have hcur : ∀ d, s.cur d ≠ t := by
    intro d hd
    have hdc : d = c := by rw [← h.cpuOf.cur d, hd, htc]
    exact ht (by rw [← hd, hdc])
  have hsub : ∀ d, ∀ u ∈ update s.zombies c l d, u ∈ s.zombies d := by
    simp only [update_apply]
    grind
  refine ⟨?_, ⟨h.cpuOf.cur, h.cpuOf.runqueue, fun d u hu => h.cpuOf.zombies d u (hsub d u hu),
    h.cpuOf.victims⟩, ?_, ?_, fun d u hu => h.zombieState d u (hsub d u hu), ?_⟩
  · refine h.placed.leave (p := .zombies c) (t := t) ?_ ?_ ?_
    · simp [Sched.lists, Sched.setLife, hl]
    · exact fun r hr => lists_zombies_of_ne (s := s) hr
    · intro u
      simp only [Sched.setLife, update_apply]
      grind
  · exact fun d => (update_of_ne (hcur d) _ _).trans (h.curLive d)
  · have hf : Frame s ({ s with zombies := update s.zombies c l }.setLife t .absent) c :=
      ⟨fun _ _ => rfl, fun _ _ => rfl, fun _ _ => rfl, fun _ _ => le_rfl, fun _ _ _ => id,
        fun d _ x hx => hsub x _ hx⟩
    intro d
    by_cases hd : d = c
    · subst hd
      simp only [Sched.setLife, hpc]
      exact hok
    · exact hf.ok hd (h.ok d)
  · have := h.createdState
    simp only [Sched.setLife, update_apply]
    grind

theorem start [DecidableEq T] (ht : s.life t = .created) :
    SchedInv ((s.setLife t .live).threadMakeRunnable t) := by
  have hnot : s.life t ≠ .live := by simp [ht]
  have hz : ∀ d, t ∉ s.zombies d := fun d hd =>
    hnot (h.placed.live_of_mem (show t ∈ s.lists (.zombies d) from hd))
  refine ⟨?_, ?_, ?_, ?_, zombieState_setState (s := s.setLife t .live) h.zombieState hz .ready, ?_⟩
  · refine h.placed.enter (q := .runqueue (s.tcpu t)) (t := t) hnot ?_
      (fun r hr => lists_runqueue_of_ne hr) ?_
    · simp only [Sched.lists, Sched.threadMakeRunnable, Sched.enqueue, Sched.setState,
        Sched.setLife, update_self]
      exact List.perm_append_singleton _ _
    · simp only [Sched.threadMakeRunnable, Sched.enqueue, Sched.setState, Sched.setLife,
        update_apply]
      grind
  · exact cpuOf_enqueue (s := (s.setLife t .live).setState t .ready) (h.cpuOf.same rfl) rfl
  · have := h.curLive
    simp only [Sched.threadMakeRunnable, Sched.enqueue, Sched.setState, Sched.setLife, update_apply]
    grind
  · intro d
    -- no cpu relies on its run queue being short
    have hok := h.ok d
    cases hp : s.pc d <;> simp_all only [SchedPc.Ok, Sched.threadMakeRunnable, Sched.enqueue,
      Sched.setState, Sched.setLife, update_apply] <;> grind
  · have := h.createdState
    simp only [Sched.threadMakeRunnable, Sched.enqueue, Sched.setState, Sched.setLife, update_apply]
    grind

end SchedInv

end OsPaging.Thread
