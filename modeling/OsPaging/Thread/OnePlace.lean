import OsPaging.Lib.Run
import OsPaging.Thread.Places

/-!
# Every thread is in one place

Every event of `Thread.Scheduler` keeps the invariant of `Thread.Places` (`SchedInv.exec_sound`).
**`threads_in_one_place`** is what follows for whole runs.
-/

namespace OsPaging.Thread

open OsPaging.Lib
open Function (update update_self update_of_ne update_apply)

variable {n : Nat} {T W L : Type}
variable {lk : W → L}

/-! ## Events -/

/-- An event keeps the invariant, or cannot happen now. -/
def SchedSound : Except SchedFault (Sched n T W L) → Prop
  | .ok s => SchedInv s
  | .error f => f = .disabled

/-- A cpu that goes on from `q` to `p` moves no thread. -/
structure SchedPc.Like (p q : SchedPc n T W) : Prop where
  list : p.list = q.list
  victims : p.victims = q.victims
  parked : p.parked = q.parked
  running : q.parked = false

namespace SchedInv

variable {s : Sched n T W L} {c d : Fin n} {p p₀ : SchedPc n T W}
  {r : Except SchedFault (Sched n T W L)}

theorem sound_whenUnlocked (h : s.rqHolder d = none → SchedSound r) :
    SchedSound (s.whenUnlocked d r) := by
  unfold Sched.whenUnlocked
  split_ifs with hd
  · exact h hd
  · rfl

section

variable (h : SchedInv s) (hpc : s.pc c = p₀)
include h hpc

theorem goto_same (hlike : p.Like p₀) (hok : p.Ok s c) : SchedInv (s.goto c p) :=
  h.goto s.rqHolder (.own (fun _ _ => rfl) (fun _ _ => rfl) fun _ _ => rfl) (hpc ▸ hlike.list)
    (hpc ▸ hlike.victims) (by rw [hpc, hlike.parked])
    (ne_placed_of_not_parked (hpc ▸ hlike.running)) hok

theorem goto_lock (hfree : s.rqHolder d = none) (hlike : p.Like p₀) (hok : p.Ok (s.lockRq c d) c) :
    SchedInv ((s.lockRq c d).goto c p) :=
  h.goto _ (.lockRq c hfree) (hpc ▸ hlike.list) (hpc ▸ hlike.victims) (by rw [hpc, hlike.parked])
    (ne_placed_of_not_parked (hpc ▸ hlike.running)) hok

theorem goto_unlock (hheld : s.rqHolder d = some c) (hlike : p.Like p₀)
    (hok : p.Ok (s.unlockRq d) c) : SchedInv ((s.unlockRq d).goto c p) :=
  h.goto _ (.unlockRq hheld) (hpc ▸ hlike.list) (hpc ▸ hlike.victims) (by rw [hpc, hlike.parked])
    (ne_placed_of_not_parked (hpc ▸ hlike.running)) hok

end

theorem setSpinlocks (h : SchedInv s) (lkHolder : L → Option (Fin n)) (spinlocks : Fin n → Nat) :
    SchedInv { s with lkHolder := lkHolder, spinlocks := spinlocks } :=
  { h with cpuOf := h.cpuOf.same rfl }

theorem enter_sound (h : SchedInv s) (hpc : s.pc c = .free) (hi : s.isidle c = false)
    (x : NewState W) : SchedSound (s.enter c x) := by
  refine sound_whenUnlocked fun hfree => ?_
  exact h.goto_lock hpc hfree ⟨rfl, rfl, rfl, rfl⟩ ⟨hi, update_self ..⟩

section Switch

variable [DecidableEq T]

/-- A thread structure that is not live may be filled in anew. -/
theorem setCreated {t : T} (h : SchedInv s) (ht : s.life t ≠ .live) (cpu : Fin n) :
    SchedInv (({ s with tcpu := update s.tcpu t cpu }.setState t .ready).setLife t .created) := by
  have hnot : ∀ {q u}, u ∈ s.lists q → u ≠ t := fun hu he =>
    ht (he ▸ h.placed.live_of_mem hu)
  have hcur : ∀ d, s.cur d ≠ t := fun d he => ht (he ▸ h.curLive d)
  have hlive : ∀ u, update s.life t .created u = .live ↔ s.life u = .live := by
    simp only [update_apply]
    grind
  refine ⟨?_, ?_, fun d => (hlive _).mpr (h.curLive d), h.ok, ?_, ?_⟩
  · have heq : (fun u => (({ s with tcpu := update s.tcpu t cpu }.setState t .ready).setLife t
        .created).life u = .live) = fun u => s.life u = .live := funext fun u => propext (hlive u)
    rw [heq]
    exact h.placed
  · obtain ⟨h1, h2, h3, h4⟩ := h.cpuOf
    have hr : ∀ d, ∀ u ∈ s.runqueue d, u ≠ t := fun d u hu => hnot (q := .runqueue d) hu
    have hz : ∀ d, ∀ u ∈ s.zombies d, u ≠ t := fun d u hu => hnot (q := .zombies d) hu
    have hv : ∀ d, ∀ u ∈ (s.pc d).victims, u ≠ t := fun d u hu =>
      hnot (q := .list d) (mem_list_of_victims hu)
    constructor <;> simp only [Sched.setLife, Sched.setState, update_apply] <;> grind
  · exact zombieState_setState (s := { s with tcpu := update s.tcpu t cpu }) h.zombieState
      (fun d hd => hnot (q := .zombies d) hd rfl) .ready
  · have := h.createdState
    simp only [Sched.setLife, Sched.setState, update_apply]
    grind

theorem setAbsent {t : T} (h : SchedInv s) (ht : s.life t ≠ .live) :
    SchedInv (s.setLife t .absent) := by
  have hlive : ∀ u, update s.life t .absent u = .live ↔ s.life u = .live := by
    simp only [update_apply]
    grind
  refine ⟨?_, h.cpuOf.same rfl, fun d => (hlive _).mpr (h.curLive d), h.ok, h.zombieState, ?_⟩
  · have heq : (fun u => (s.setLife t .absent).life u = .live) = fun u => s.life u = .live :=
      funext fun u => propext (hlive u)
    rw [heq]
    exact h.placed
  · have := h.createdState
    simp only [Sched.setLife, update_apply]
    grind

theorem boot {first : Fin n → T} {home : T → Fin n} (hfirst : ∀ c, home (first c) = c) :
    SchedInv (Sched.boot first home : Sched n T W L) := by
  have hlive : ∀ c, (Sched.boot first home : Sched n T W L).life (first c) = .live := by
    intro c
    simp [Sched.boot, hfirst]
  refine ⟨⟨?_, ?_, ?_⟩, ⟨hfirst, ?_, ?_, ?_⟩, hlive, ?_, ?_, ?_⟩
  · intro q
    cases q <;> simp [Sched.boot, Sched.lists, Sched.running, SchedPc.parked, SchedPc.list,
      SchedPc.victims]
  · intro q r t hq hr
    cases q <;> cases r <;> simp_all [Sched.boot, Sched.lists, Sched.running, SchedPc.parked,
      SchedPc.list, SchedPc.victims]
    -- the first threads are different ones
    rename_i c d
    rw [← hfirst c, ← hfirst d, hr]
  · intro t
    constructor
    · intro ht
      refine ⟨.cpu (home t), ?_⟩
      have : first (home t) = t := by
        by_contra hne
        simp [Sched.boot, hne] at ht
      simp [Sched.boot, Sched.lists, Sched.running, SchedPc.parked, this]
    · rintro ⟨q, hq⟩
      cases q with
      | cpu c =>
        have : t = first c := by
          simpa [Sched.boot, Sched.lists, Sched.running, SchedPc.parked] using hq
        rw [this]
        exact hlive c
      | _ => simp [Sched.boot, Sched.lists, SchedPc.list, SchedPc.victims] at hq
  · simp [Sched.boot]
  · simp [Sched.boot]
  · simp [Sched.boot, SchedPc.victims]
  · exact fun c => trivial
  · intro c t ht
    simp [Sched.boot] at ht
  · intro t _
    rfl

theorem exorcise_sound (h : SchedInv s) (hpc : s.pc c = .tail) : SchedSound (s.exorcise c) := by
  have hok : (SchedPc.tail : SchedPc n T W).Ok s c := hpc ▸ h.ok c
  unfold Sched.exorcise
  split
  · exact h.goto_same hpc ⟨rfl, rfl, rfl, rfl⟩ trivial
  · rename_i z rest hz
    have hmem : z ∈ s.lists (.zombies c) := by simp [Sched.lists, hz]
    have hcur : z ≠ s.cur c := by
      rintro rfl
      have := h.placed.apart (cur_mem (running_of (by rw [hpc]; rfl) hok)) hmem
      cases this
    have hstate : s.tstate z = .zombie := by
      refine (h.zombieState c z hmem).resolve_right fun hp => ?_
      exact absurd (hpc.symm.trans hp.1) (by simp)
    rw [if_neg (by simp [hcur, hstate])]
    exact h.reap hpc hz hcur

variable [DecidableEq W]

section

variable (h : SchedInv s) (hpc : s.pc c = p)
include h hpc

theorem threadSwitch_sound [DecidableEq L] : SchedSound (s.threadSwitch lk c p) := by
  have hok := h.ok c
  rw [hpc] at hok
  cases p with
  | placing x =>
    have hrun : s.running c = true := running_of (by rw [hpc]; rfl) hok.1
    have hnz := h.notMem_zombies (cur_mem hrun) (by simp)
    have hz : ∀ s' : Sched n T W L, ZombieState s' → s'.pc = s.pc →
        ZombieState (s'.goto c (.placed x)) := by
      intro s' hz' hp
      refine zombieState_goto hz' ?_
      rw [hp, hpc]
      simp
    cases x with
    | ready =>
      have htc := h.cpuOf.cur c
      simp only [Sched.threadSwitch, htc, hok.2, if_true]
      have hs := h.setState (h.curLive c) hnz .ready
      refine hs.park (q := .runqueue c) hpc (.enqueue _ c _ _) rfl rfl rfl (by simp) ?_ ?_ ?_ ?_ ?_
        hs.createdState
      · simp only [Sched.lists, Sched.threadMakeRunnable, Sched.enqueue, Sched.setState, htc,
          update_self]
        exact List.perm_append_singleton _ _
      · intro r hr
        refine lists_runqueue_of_ne (s := s.setState (s.cur c) .ready) ?_
        simpa only [Sched.setState, htc] using hr
      · exact cpuOf_enqueue hs.cpuOf rfl
      · exact ⟨hok.1, hok.2, fun _ => hnz⟩
      · exact hz (s.threadMakeRunnable (s.cur c)) hs.zombieState rfl
    | sleep wc =>
      refine h.park (q := .wchan wc) hpc ?_ rfl rfl rfl (by simp) ?_ ?_ ?_ ?_ ?_ h.createdState
      · exact .own (fun _ _ => rfl) (fun _ _ => rfl) fun _ _ => rfl
      · simp only [Sched.lists, update_self]
        exact List.perm_append_singleton _ _
      · intro r hr
        exact lists_threads_of_ne (s := s) hr
      · exact h.cpuOf.same rfl
      · exact ⟨hok.1, hok.2, fun _ => hnz⟩
      · exact hz _ h.zombieState rfl
    | zombie =>
      have hadd : ∀ d, ∀ u ∈ update s.zombies c (s.zombies c ++ [s.cur c]) d,
          u ∈ s.zombies d ∨ (d = c ∧ u = s.cur c) := by
        simp only [update_apply]
        grind
      refine h.park (q := .zombies c) hpc ?_ rfl rfl rfl (by simp) ?_ ?_ ?_ ?_ ?_ h.createdState
      · refine ⟨fun _ _ => rfl, fun _ _ => rfl, fun _ _ => rfl, fun _ _ => le_rfl,
          fun _ _ _ => id, fun d hd x hx => ?_⟩
        refine (hadd x _ hx).resolve_right fun hx => hd ?_
        -- another cpu's current thread is another thread
        rw [← h.cpuOf.cur d, hx.2, h.cpuOf.cur c]
      · simp only [Sched.lists, update_self]
        exact List.perm_append_singleton _ _
      · intro r hr
        exact lists_zombies_of_ne (s := s) hr
      · refine ⟨h.cpuOf.cur, h.cpuOf.runqueue, fun d u hu => ?_, h.cpuOf.victims⟩
        rcases hadd d u hu with hu | ⟨rfl, rfl⟩
        · exact h.cpuOf.zombies d u hu
        · exact h.cpuOf.cur d
      · exact ⟨hok.1, hok.2, fun hne => absurd rfl hne⟩
      · intro d u hu
        rcases hadd d u hu with hu | ⟨rfl, rfl⟩
        · refine (h.zombieState d u hu).imp_right ?_
          rintro ⟨hd, rfl⟩
          have hne : d ≠ c := by
            grind
          exact ⟨(update_of_ne hne _ _).trans hd, rfl⟩
        · exact .inr ⟨by simp [Sched.goto], rfl⟩
  | placed x => exact h.setIdle hpc
  | choosing =>
    cases hq : s.runqueue c with simp only [Sched.threadSwitch, hq]
    | nil =>
      exact h.goto (p := .free) _ (.unlockRq hok.2) (by rw [hpc]; rfl) (by rw [hpc]; rfl)
        (by simp [hok.1]) (by simp [hpc]) trivial
    | cons next rest =>
      exact h.choose hpc hq
  | switched =>
    have hrun : s.running c = true := running_of (by rw [hpc]; rfl) hok.1
    have hnz := h.notMem_zombies (cur_mem hrun) (by simp)
    have hs := h.setState (h.curLive c) hnz .run
    exact hs.goto_unlock hpc hok.2 ⟨rfl, rfl, rfl, rfl⟩ hok.1
  | tail => exact h.exorcise_sound hpc
  | _ => rfl

theorem wakeup_sound : SchedSound (s.wakeup c p) := by
  cases p with
  | gathering wc l =>
    cases hw : s.threads wc with simp only [Sched.wakeup, hw]
    | nil =>
      exact h.goto_same hpc ⟨rfl, rfl, rfl, rfl⟩ trivial
    | cons t rest =>
      exact h.wake (p := .gathering wc (l ++ [t])) hw (by rw [hpc]; rfl) rfl rfl
        (by rw [hpc]; rfl) trivial
  | waking l =>
    cases l with
    | nil => exact h.goto_same hpc ⟨rfl, rfl, rfl, rfl⟩ trivial
    | cons t rest =>
      refine sound_whenUnlocked fun _ => ?_
      have hl : t ∈ s.lists (.list c) := by simp [Sched.lists, hpc, SchedPc.list]
      have hs := h.setState (h.placed.live_of_mem hl) (h.notMem_zombies hl (by simp)) .ready
      exact hs.unload (p := .waking rest) (by simp only [Sched.setState, hpc]; rfl) rfl
        (by simp [SchedPc.victims]) rfl trivial
  | _ => rfl

/-- The loops of `thread_consider_migration`: it never takes more from the own run queue than it has
counted there, and never sends more than it has taken. -/
theorem migration_sound : SchedSound (s.migration c p) := by
  have hok := h.ok c
  rw [hpc] at hok
  cases p with
  | counting i m t =>
    simp only [Sched.migration]
    split_ifs with hi hic hm
    · refine sound_whenUnlocked fun _ => ?_
      refine h.goto_same hpc ⟨rfl, rfl, rfl, rfl⟩ ?_
      subst hic
      exact le_rfl
    · refine sound_whenUnlocked fun _ => ?_
      exact h.goto_same hpc ⟨rfl, rfl, rfl, rfl⟩ hok
    · exact h.goto_same hpc ⟨rfl, rfl, rfl, rfl⟩ trivial
    · refine sound_whenUnlocked fun hfree => ?_
      refine h.goto_lock hpc hfree ⟨rfl, rfl, rfl, rfl⟩ ?_
      simp only [SchedPc.Ok] at hok ⊢
      refine ⟨?_, update_self .., by simp⟩
      simp only [Sched.lockRq]
      omega
  | draining k ts sh v =>
    cases k with
    | zero =>
      refine h.goto_unlock hpc hok.2.1 ⟨rfl, rfl, rfl, rfl⟩ ?_
      simp only [SchedPc.Ok] at hok ⊢
      omega
    | succ k =>
      simp only [SchedPc.Ok] at hok
      obtain ⟨rest, t, hq⟩ : ∃ rest t, s.runqueue c = rest ++ [t] :=
        ⟨_, _, (List.dropLast_append_getLast (List.ne_nil_of_length_pos (by omega))).symm⟩
      have hr : Sched.remtail (s.runqueue c) = some (rest, t) := by simp [Sched.remtail, hq]
      simp only [Sched.migration, hr]
      refine h.load (t := t) (p := .draining k ts sh (t :: v)) ?_ ?_ (fun _ => id) ?_ rfl
        (by rw [hpc]; rfl) ?_
      · grind
      · rw [hpc]
        exact .refl _
      · have hv := h.cpuOf.victims c
        rw [hpc] at hv ⊢
        exact hv
      · simp only [SchedPc.Ok, update_self, List.length_cons]
        grind
  | offering i ts sh v =>
    simp only [Sched.migration]
    split_ifs with hi hic hv
    · exact h.goto_same hpc ⟨rfl, rfl, rfl, rfl⟩ hok
    · refine sound_whenUnlocked fun hfree => ?_
      exact h.goto_lock hpc hfree ⟨rfl, rfl, rfl, rfl⟩ ⟨hok, update_self ..⟩
    · subst hv
      exact h.goto_same hpc ⟨rfl, rfl, rfl, rfl⟩ trivial
    · refine sound_whenUnlocked fun hfree => ?_
      exact h.goto_lock hpc hfree ⟨rfl, rfl, rfl, rfl⟩ (update_self ..)
  | sending i ts sh v =>
    simp only [Sched.migration]
    split_ifs with hts
    · obtain ⟨ts, rfl⟩ : ∃ k, ts = k + 1 := ⟨ts - 1, by omega⟩
      cases v with
      | nil => exact absurd hok.1 (by simp)
      | cons t rest =>
        simp only [Nat.add_sub_cancel]
        split_ifs with hcur
        · -- the victims change their order
          have hperm : (rest ++ [t]).Perm (t :: rest) := List.perm_append_singleton _ _
          refine ⟨?_, ?_, h.curLive, ?_, zombieState_goto h.zombieState (by simp [hpc]),
            h.createdState⟩
          · refine h.placed.perm fun r => ?_
            by_cases hr : r = .list c
            · subst hr
              rw [lists_goto_self]
              simp [Sched.lists, hpc, SchedPc.list, SchedPc.victims]
            · rw [lists_goto_of_ne (by rw [hpc]; rfl) hr]
          · refine cpuOf_goto h.cpuOf fun u hu => h.cpuOf.victims c u ?_
            rw [hpc]
            exact hperm.mem_iff.mp hu
          · intro d
            by_cases hd : d = c
            · subst hd
              simp only [SchedPc.Ok, List.length_cons] at hok
              simp only [Sched.goto, update_self, SchedPc.Ok, List.length_append,
                List.length_singleton]
              exact ⟨by omega, hok.2⟩
            · exact (Frame.goto s c _).pc d hd ▸ (Frame.goto s c _).ok hd (h.ok d)
        · exact h.send hpc hcur
    · exact h.goto_unlock hpc hok.2 ⟨rfl, rfl, rfl, rfl⟩ hok.1
  | returning v =>
    cases v with
    | nil => exact h.goto_unlock hpc hok ⟨rfl, rfl, rfl, rfl⟩ trivial
    | cons t rest =>
      refine h.unload (p := .returning rest) (by rw [hpc]; rfl) ?_ ?_ rfl hok
      · exact h.cpuOf.victims c t (by simp [hpc, SchedPc.victims])
      · intro u hu
        rw [hpc]
        exact List.mem_cons_of_mem _ hu
  | _ => rfl

end

theorem resume_sound [DecidableEq L] (h : SchedInv s) : SchedSound (s.resume lk c) := by
  unfold Sched.resume
  cases hpc : s.pc c with
  | free =>
    simp only
    split_ifs with hi
    · refine sound_whenUnlocked fun hfree => ?_
      exact h.goto (p := .choosing) _ (.lockRq c hfree) (by rw [hpc]; rfl) (by rw [hpc]; rfl)
        (by simp [hi.1]) (by simp [hpc]) ⟨hi.1, update_self ..⟩
    · rfl
  | placing | placed | choosing | switched | tail => exact h.threadSwitch_sound hpc
  | gathering | waking => exact h.wakeup_sound hpc
  | _ => exact h.migration_sound hpc

theorem call_sound [DecidableEq L] (h : SchedInv s) {e : SchedMove n T W L}
    (hpc : s.pc e.cpu = .free) : SchedSound (s.call lk e) := by
  cases e with
  | create c t =>
    simp only [Sched.call]
    split_ifs with hc
    · exact h.setCreated (by simp [hc.2]) _
    · rfl
  | discard c t =>
    simp only [Sched.call]
    split_ifs with ht hbad
    · -- the new thread is not running
      have hcur : t ≠ s.cur c := by
        rintro rfl
        exact absurd (ht.symm.trans (h.curLive c)) (by simp)
      exact absurd hbad (by simp [hcur, h.createdState t ht])
    · exact h.setAbsent (by simp [ht])
    · rfl
  | start c t =>
    simp only [Sched.call]
    split_ifs with ht
    · exact sound_whenUnlocked fun _ => h.start ht
    · rfl
  | acquire c l | release c l =>
    simp only [Sched.call]
    split_ifs with hl
    · exact h.setSpinlocks _ _
    · rfl
  | sleep c wc =>
    simp only [Sched.call]
    split_ifs with hc
    · exact h.enter_sound hpc hc.1 _
    · rfl
  | yield c =>
    simp only [Sched.call]
    split_ifs with hi hq
    · exact h
    · exact sound_whenUnlocked fun _ => h
    · exact h.enter_sound (c := c) hpc (by simpa using hi) _
  | exit c =>
    simp only [Sched.call]
    split_ifs with hi
    · rfl
    · exact h.enter_sound (c := c) hpc (by simpa using hi) _
  | wakeone c wc =>
    have hpc : s.pc c = .free := hpc
    simp only [Sched.call]
    split_ifs with hl
    · cases hw : s.threads wc with
      | nil => exact h
      | cons t rest =>
        exact h.wake (p := .waking [t]) hw (by rw [hpc]; rfl) rfl rfl (by rw [hpc]; rfl) trivial
    · rfl
  | wakeall c wc =>
    have hpc : s.pc c = .free := hpc
    simp only [Sched.call]
    split_ifs with hl
    · exact h.goto_same hpc ⟨rfl, rfl, rfl, rfl⟩ trivial
    · rfl
  | migrate c =>
    have hpc : s.pc c = .free := hpc
    simp only [Sched.call]
    split_ifs with hl
    · exact h.goto_same hpc ⟨rfl, rfl, rfl, rfl⟩ (Nat.zero_le _)
    · rfl
  | step c => rfl

theorem exec_sound [DecidableEq L] (lk : W → L) (h : SchedInv s) (e : SchedMove n T W L) :
    SchedSound (s.exec lk e) := by
  cases e with
  | step c => exact h.resume_sound
  | _ =>
    simp only [Sched.exec]
    split_ifs with hpc
    · exact h.call_sound hpc
    · rfl

end Switch

end SchedInv

/-! ## Runs -/

namespace Sched

/-- The runs of the scheduler. -/
abbrev Runs [DecidableEq T] [DecidableEq W] [DecidableEq L] (lk : W → L) :
    Sched n T W L → List (SchedMove n T W L) → Sched n T W L → Prop :=
  Run fun s e t => s.exec lk e = .ok t

/-- No run queue and no wait channel is locked. -/
def Unlocked (s : Sched n T W L) : Prop :=
  (∀ c, s.rqHolder c = none) ∧ ∀ l, s.lkHolder l = none

/-- The thread is the current thread of a cpu that is not idle, or in a list. -/
def IsAt (s : Sched n T W L) (t : T) : SchedPlace n W → Prop
  | .cpu c => s.cur c = t ∧ s.isidle c = false
  | .runqueue c => t ∈ s.runqueue c
  | .wchan wc => t ∈ s.threads wc
  | .zombies c => t ∈ s.zombies c
  | .list c => t ∈ (s.pc c).list

/-- What a state says of the places of the threads. -/
structure OnePlace (lk : W → L) [DecidableEq T] [DecidableEq W] [DecidableEq L]
    (s : Sched n T W L) : Prop where
  place : s.Unlocked → ∀ t, s.life t = .live → ∃! p, s.IsAt t p
  /-- A thread is in its list once. -/
  once : (∀ c, (s.runqueue c).Nodup) ∧ (∀ wc, (s.threads wc).Nodup) ∧ (∀ c, (s.zombies c).Nodup) ∧
    ∀ c, (s.pc c).list.Nodup
  tcpu : ∀ c, ∀ t ∈ s.runqueue c, s.tcpu t = c
  oneCpu : ∀ c d, s.cur c = s.cur d → c = d
  /-- No list operation is given no thread, and no assertion fails. -/
  noFault : ∀ e f, s.exec lk e = .error f → f = .disabled

end Sched

/-- Without locks the cpus that are not idle are those that run their current thread. -/
theorem SchedInv.running_iff {s : Sched n T W L} (h : SchedInv s) (hs : s.Unlocked) (c : Fin n) :
    s.running c = true ↔ s.isidle c = false := by
  have hok := h.ok c
  have hfree := hs.1 c
  unfold Sched.running
  cases hp : s.pc c <;> rw [hp] at hok <;> simp_all [SchedPc.parked, SchedPc.Ok]

theorem SchedInv.exec [DecidableEq T] [DecidableEq W] [DecidableEq L] {s t : Sched n T W L}
    {e : SchedMove n T W L} (h : SchedInv s) (he : s.exec lk e = .ok t) :
    SchedInv t := by
  have hsound := h.exec_sound lk e
  rwa [he] at hsound

theorem SchedInv.of_runs [DecidableEq T] [DecidableEq W] [DecidableEq L] {first : Fin n → T}
    {home : T → Fin n} (hfirst : ∀ c, home (first c) = c) {es : List (SchedMove n T W L)}
    {s : Sched n T W L} (h : (Sched.boot first home).Runs lk es s) :
    SchedInv s :=
  h.invariant (.boot hfirst) fun _ _ _ hs he => hs.exec he

/-- **Every thread is in one place**: in every run, for any number of cpus and threads. -/
theorem threads_in_one_place [DecidableEq T] [DecidableEq W] [DecidableEq L] (lk : W → L)
    (first : Fin n → T) (home : T → Fin n) (hfirst : ∀ c, home (first c) = c)
    {es : List (SchedMove n T W L)} {s : Sched n T W L} (h : (Sched.boot first home).Runs lk es s) :
    s.OnePlace lk := by
  have hinv : SchedInv s := .of_runs hfirst h
  refine ⟨?_, ?_, hinv.cpuOf.runqueue, ?_, ?_⟩
  · intro hu t ht
    have hat : ∀ p, s.IsAt t p ↔ t ∈ s.lists p := by
      intro p
      cases p with
      | cpu c =>
        have hrun := hinv.running_iff hu c
        simp only [Sched.IsAt, Sched.lists]
        grind
      | _ => exact Iff.rfl
    simpa only [hat] using hinv.placed.existsUnique ht
  · exact ⟨fun c => hinv.placed.nodup (.runqueue c), fun wc => hinv.placed.nodup (.wchan wc),
      fun c => hinv.placed.nodup (.zombies c), fun c => hinv.placed.nodup (.list c)⟩
  · intro c d hcd
    rw [← hinv.cpuOf.cur c, hcd, hinv.cpuOf.cur d]
  · intro e f he
    have hsound := hinv.exec_sound lk e
    rw [he] at hsound
    exact hsound

/-- Two cpus: the first thread of cpu 0 forks a thread, sleeps and is woken by it. -/
def Sched.pingPong : List (SchedMove 2 Nat Unit Unit) :=
  [.create 0 2, .start 0 2, .acquire 0 (), .sleep 0 (), .step 0, .step 0, .step 0, .step 0, .step 0,
    .acquire 0 (), .wakeone 0 (), .step 0, .step 0, .release 0 ()]

theorem threads_in_one_place_woken :
    ∃ s : Sched 2 Nat Unit Unit,
      (Sched.boot Fin.val (Fin.ofNat 2)).Runs id Sched.pingPong s ∧ s.OnePlace id ∧
        s.runqueue 0 = [0] ∧ s.cur 0 = 2 := by
  refine Run.exists_imp (Q := fun s => s.runqueue 0 = [0] ∧ s.cur 0 = 2)
    (Run.exists_of_foldlM (f := fun s e => (Sched.exec id s e).toOption)
      (fun _ _ _ => toOption_eq_some.mp) (by decide)) fun s hr hs => ⟨?_, hs⟩
  exact threads_in_one_place id Fin.val (Fin.ofNat 2) (by decide) hr

end OsPaging.Thread
