import OsPaging.Thread.OnePlace
import Mathlib.Data.Prod.Lex

/-!
# `thread_consider_migration`

One call on a cpu `c`, from the timer interrupt to its return, while the other cpus do what they
like (`Migrating`). `thread_consider_migration` counts the run queues one after another, takes
threads off its own according to these counts, offers them to the others and puts back what is left.
What it does to the run queues is the log: nothing, a thread taken from the end of its own queue, or
a thread put at the end of a queue (`QueueChange`).
**`migration_conserves`**: no thread is lost or put back twice, and the call comes to its end.
-/

namespace OsPaging.Thread

open OsPaging.Lib
open Function (update update_self update_of_ne)

variable {n : Nat} {T W L : Type}

namespace SchedPc

/-- The cpu is in `thread_consider_migration`. -/
def migrating : SchedPc n T W → Bool
  | .counting _ _ _ | .draining _ _ _ _ | .offering _ _ _ _ | .sending _ _ _ _ | .returning _ =>
      true
  | _ => false

/-- It will take no more threads. -/
def drained : SchedPc n T W → Bool
  | .counting _ _ _ | .draining _ _ _ _ => false
  | _ => true

/-- How far the end of `thread_consider_migration` is. -/
def distance : SchedPc n T W → ℕ ×ₗ ℕ
  | .counting i _ _ => toLex (4, n + 1 - i)
  | .draining left _ _ _ => toLex (3, left)
  | .offering i toSend _ _ => toLex (2, 2 * (n - i) + toSend + 1)
  | .sending i toSend _ _ => toLex (2, 2 * (n - i) + toSend)
  | .returning l => toLex (1, l.length)
  | _ => toLex (0, 0)

theorem list_of_victims {p : SchedPc n T W} {t : T} (h : t ∈ p.victims) : t ∈ p.list := by
  cases p <;> first | exact h | exact absurd h List.not_mem_nil

end SchedPc

/-- What a step does to the run queues. -/
inductive QueueChange (n : Nat) (T : Type)
  | none
  /-- `threadlist_remtail(&curcpu->c_runqueue)`. -/
  | take (t : T)
  /-- `threadlist_addtail(&d->c_runqueue, t)`. -/
  | put (t : T) (d : Fin n)
deriving DecidableEq, Repr

namespace QueueChange

/-- The change of the run queues from `s` to `s'`, by cpu `c`. -/
def Of (c : Fin n) (s s' : Sched n T W L) : QueueChange n T → Prop
  | .none => s'.runqueue = s.runqueue
  | .take t => s.runqueue = update s'.runqueue c (s'.runqueue c ++ [t])
  | .put t d => s'.runqueue = update s.runqueue d (s.runqueue d ++ [t])

/-- The thread that was taken, and where it was put. -/
def taken : QueueChange n T → Option T
  | .take t => some t
  | _ => Option.none

def placed : QueueChange n T → Option (T × Fin n)
  | .put t d => some (t, d)
  | _ => Option.none

end QueueChange

/-- The threads that the call has taken from its run queue. -/
def took (log : List (QueueChange n T)) : List T := log.filterMap (·.taken)

/-- The threads that the call has put on a run queue, and on which. -/
def sent (log : List (QueueChange n T)) : List (T × Fin n) := log.filterMap (·.placed)

section Calls

variable [DecidableEq T] [DecidableEq W] [DecidableEq L]

/-- A call of `thread_consider_migration` on `c` that began in `s₀`, what it has done so far, and
the state. -/
inductive Migrating (lk : W → L) (c : Fin n) (s₀ : Sched n T W L) :
    List (QueueChange n T) → Sched n T W L → Prop
  | start {s : Sched n T W L} : s₀.exec lk (.migrate c) = .ok s → Migrating lk c s₀ [] s
  /-- Another cpu does something. -/
  | other {log : List (QueueChange n T)} {s s' : Sched n T W L} {e : SchedMove n T W L} :
      Migrating lk c s₀ log s → e.cpu ≠ c → s.exec lk e = .ok s' → Migrating lk c s₀ log s'
  /-- The call goes on. -/
  | own {log : List (QueueChange n T)} {s s' : Sched n T W L} {x : QueueChange n T} :
      Migrating lk c s₀ log s → (s.pc c).migrating = true → s.exec lk (.step c) = .ok s' →
        x.Of c s s' → Migrating lk c s₀ (log ++ [x]) s'

/-- What a call of `thread_consider_migration` is to keep to, in a state in which it has done what
the log says. -/
structure MigrationSafe (lk : W → L) (c : Fin n) (s₀ : Sched n T W L)
    (log : List (QueueChange n T)) (s : Sched n T W L) : Prop where
  /-- No list operation is given no thread: a step that does not happen waits for a lock. -/
  noFault : ∀ f, s.exec lk (.step c) = .error f → f = .disabled
  /-- The current thread stays. -/
  cur : ∀ t d, (t, d) ∈ sent log → d ≠ c → t ≠ s.cur c
  tcpu : ∀ d, ∀ t ∈ s.runqueue d, s.tcpu t = d
  /-- Each thread was taken once, and is on the private list or was put on one run queue. -/
  takenOnce : (took log).Nodup
  conserved : (took log).Perm ((s.pc c).victims ++ (sent log).map (·.1))
  /-- When the call has ended, each thread it took has been put on one run queue. -/
  left : s.pc c = .free → ∀ t ∈ took log, ∃! d, (t, d) ∈ sent log
  /-- Every step is one of the three, and brings the call nearer to its end. -/
  goesOn : (s.pc c).migrating = true → ∀ s', s.exec lk (.step c) = .ok s' →
    (∃ x : QueueChange n T, x.Of c s s') ∧ (s'.pc c).distance < (s.pc c).distance
  /-- The private list is empty at the end. -/
  ends : (s.pc c).migrating = true → ∀ s', s.exec lk (.step c) = .ok s' → s'.pc c = .free →
    (s.pc c).victims = []

end Calls

/-! ## One step -/

section Steps

variable {lk : W → L} {c d : Fin n} {s s' : Sched n T W L} {p q : SchedPc n T W}
  {r : Except SchedFault (Sched n T W L)}

theorem of_whenUnlocked (h : s.whenUnlocked d r = .ok s') : r = .ok s' := by
  unfold Sched.whenUnlocked at h
  split_ifs at h
  exact h

@[simp] theorem goto_pc (s : Sched n T W L) (c : Fin n) (p : SchedPc n T W) :
    (s.goto c p).pc c = p := update_self ..

/-- What a step of the call does, besides the locks. -/
inductive MigrationStep (c : Fin n) (s s' : Sched n T W L) : QueueChange n T → Prop
  /-- The counts, the locks, and the current thread that goes to the end of the list. -/
  | none : s'.runqueue = s.runqueue → (s'.pc c).victims.Perm (s.pc c).victims →
      (s.pc c).drained ≤ (s'.pc c).drained →
      (s'.pc c).migrating = true ∨ (s.pc c).victims = [] → MigrationStep c s s' .none
  | take {t : T} : (s.pc c).drained = false → (s'.pc c).drained = false →
      s.runqueue = update s'.runqueue c (s'.runqueue c ++ [t]) →
      (s'.pc c).victims = t :: (s.pc c).victims → MigrationStep c s s' (.take t)
  | put {t : T} {d : Fin n} : (s'.pc c).drained = true → (s'.pc c).migrating = true →
      s'.runqueue = update s.runqueue d (s.runqueue d ++ [t]) →
      (s.pc c).victims = t :: (s'.pc c).victims → (d ≠ c → t ≠ s.cur c) →
      MigrationStep c s s' (.put t d)

theorem MigrationStep.of {x : QueueChange n T} (h : MigrationStep c s s' x) : x.Of c s s' := by
  cases h with
  | none h => exact h
  | take _ _ h => exact h
  | put _ _ h => exact h

theorem runqueue_of_remtail {l rest : List T} {t : T} (h : Sched.remtail l = some (rest, t)) :
    l = rest ++ [t] := by
  obtain ⟨u, hu, he⟩ := Option.map_eq_some_iff.mp h
  obtain ⟨rfl, rfl⟩ := Prod.mk.inj he
  exact (List.dropLast_append_getLast? u hu).symm

theorem phase_lt {a a' b b' : Nat} (h : a' < a) : toLex (a', b') < toLex (a, b) :=
  Prod.Lex.toLex_lt_toLex.mpr (.inl h)

theorem count_lt {a b b' : Nat} (h : b' < b) : toLex (a, b') < toLex (a, b) :=
  Prod.Lex.toLex_lt_toLex.mpr (.inr ⟨rfl, h⟩)

/-- A step of the call: it does one thing, and the end is nearer. -/
def StepsOn (c : Fin n) (s s' : Sched n T W L) : Prop :=
  s'.cur = s.cur ∧ (s'.pc c).distance < (s.pc c).distance ∧ ∃ x, MigrationStep c s s' x

theorem StepsOn.none (hp : s.pc c = p) (hq : s'.pc c = q) (hcur : s'.cur = s.cur)
    (hrq : s'.runqueue = s.runqueue) (hdist : q.distance < p.distance)
    (hv : q.victims.Perm p.victims) (hd : p.drained ≤ q.drained)
    (hend : q.migrating = true ∨ p.victims = []) : StepsOn c s s' := by
  subst hp hq
  exact ⟨hcur, hdist, .none, .none hrq hv hd hend⟩

variable [DecidableEq T]

theorem migration_step (hp : s.pc c = p) (hm : p.migrating = true)
    (hs : s.migration c p = .ok s') : StepsOn c s s' := by
  cases p with
  | counting i my total =>
    simp only [Sched.migration] at hs
    by_cases hi : i < n
    · rw [dif_pos hi] at hs
      cases of_whenUnlocked hs
      exact .none hp (goto_pc ..) rfl rfl (count_lt (by omega)) (.refl _)
        (Bool.false_le _) (.inl rfl)
    rw [dif_neg hi] at hs
    split_ifs at hs
    · cases hs
      exact .none hp (goto_pc ..) rfl rfl (phase_lt (by decide)) (.refl _)
        (Bool.false_le _) (.inr rfl)
    · cases of_whenUnlocked hs
      exact .none hp (goto_pc ..) rfl rfl (phase_lt (by decide)) (.refl _)
        (Bool.false_le _) (.inl rfl)
  | draining left toSend share victims =>
    cases left with
    | zero =>
      cases hs
      exact .none hp (goto_pc ..) rfl rfl (phase_lt (by decide)) (.refl _)
        (Bool.false_le _) (.inl rfl)
    | succ left =>
      simp only [Sched.migration] at hs
      split at hs
      · cases hs
      · rename_i rest t hrem
        cases hs
        refine ⟨rfl, ?_, .take t, .take (by rw [hp]; rfl) (by rw [goto_pc]; rfl) ?_
          (by rw [goto_pc, hp]; rfl)⟩
        · rw [goto_pc, hp]
          exact count_lt (Nat.lt_succ_self left)
        · change s.runqueue = update (update s.runqueue c rest) c
            (update s.runqueue c rest c ++ [t])
          rw [update_self, ← runqueue_of_remtail hrem, Function.update_idem,
            Function.update_eq_self]
  | offering i toSend share victims =>
    simp only [Sched.migration] at hs
    split_ifs at hs with hi hc hv
    · cases hs
      exact .none hp (goto_pc ..) rfl rfl (count_lt (by omega)) (.refl _)
        (Bool.le_true _) (.inl rfl)
    · cases of_whenUnlocked hs
      exact .none hp (goto_pc ..) rfl rfl (count_lt (by dsimp only; omega)) (.refl _)
        (Bool.le_true _) (.inl rfl)
    · cases hs
      exact .none hp (goto_pc ..) rfl rfl (phase_lt (by decide)) (by rw [hv]; rfl)
        (Bool.le_true _) (.inr hv)
    · cases of_whenUnlocked hs
      exact .none hp (goto_pc ..) rfl rfl (phase_lt (by decide)) (.refl _)
        (Bool.le_true _) (.inl rfl)
  | sending i toSend share victims =>
    simp only [Sched.migration] at hs
    by_cases hmore : (s.runqueue i).length < share ∧ 0 < toSend
    · rw [if_pos hmore] at hs
      cases victims with
      | nil => cases hs
      | cons t rest =>
        dsimp only at hs
        split_ifs at hs with ht
        · cases hs
          exact .none hp (goto_pc ..) rfl rfl (count_lt (by omega))
            (List.perm_append_singleton t rest) (Bool.le_true _) (.inl rfl)
        · cases hs
          refine ⟨rfl, ?_, .put t i, .put (by rw [goto_pc]; rfl) (by rw [goto_pc]; rfl) rfl
            (by rw [goto_pc, hp]; rfl) fun _ => ht⟩
          rw [goto_pc, hp]
          exact count_lt (by omega)
    · rw [if_neg hmore] at hs
      cases hs
      exact .none hp (goto_pc ..) rfl rfl (count_lt (by omega)) (.refl _)
        (Bool.le_true _) (.inl rfl)
  | returning victims =>
    cases victims with
    | nil =>
      cases hs
      exact .none hp (goto_pc ..) rfl rfl (phase_lt (by decide)) (.refl _) (Bool.le_true _)
        (.inr rfl)
    | cons t rest =>
      cases hs
      refine ⟨rfl, ?_, .put t c, .put (by rw [goto_pc]; rfl) (by rw [goto_pc]; rfl) rfl
        (by rw [goto_pc, hp]; rfl) fun hne => absurd rfl hne⟩
      rw [goto_pc, hp]
      exact count_lt (Nat.lt_succ_self _)
  | _ => cases hm

end Steps

namespace QueueChange.Of

variable {c d : Fin n} {s s' : Sched n T W L} {t : T} {x y : QueueChange n T}

theorem take_at (h : (take t).Of c s s') : s.runqueue c = s'.runqueue c ++ [t] :=
  (congrFun h c).trans (update_self ..)

theorem put_at (h : (put t d).Of c s s') : s'.runqueue d = s.runqueue d ++ [t] :=
  (congrFun h d).trans (update_self ..)

theorem put_of_ne (h : (put t d).Of c s s') {e : Fin n} (he : e ≠ d) :
    s'.runqueue e = s.runqueue e :=
  (congrFun h e).trans (update_of_ne he _ _)

theorem ne_append (l : List T) (t : T) : l ≠ l ++ [t] := by simp

theorem not_none_take (h : none.Of c s s') (h' : (take t).Of c s s') : False :=
  ne_append _ t ((congrFun h c).trans h'.take_at)

theorem not_none_put (h : none.Of c s s') (h' : (put t d).Of c s s') : False :=
  ne_append _ t ((congrFun h d).symm.trans h'.put_at)

theorem not_take_put {u : T} (h : (take t).Of c s s') (h' : (put u d).Of c s s') : False := by
  have htake := h.take_at
  by_cases hcd : c = d
  · subst hcd
    rw [h'.put_at] at htake
    simp at htake
  · rw [h'.put_of_ne hcd] at htake
    exact ne_append _ t htake

theorem unique (hx : x.Of c s s') (hy : y.Of c s s') : x = y := by
  cases x with
  | none =>
    cases y with
    | none => rfl
    | take u => exact (not_none_take hx hy).elim
    | put u e => exact (not_none_put hx hy).elim
  | take t =>
    cases y with
    | none => exact (not_none_take hy hx).elim
    | take u =>
      have h : s'.runqueue c ++ [t] = s'.runqueue c ++ [u] := hx.take_at.symm.trans hy.take_at
      obtain rfl : t = u := by simpa using h
      rfl
    | put u e => exact (not_take_put hx hy).elim
  | put t d =>
    cases y with
    | none => exact (not_none_put hy hx).elim
    | take u => exact (not_take_put hy hx).elim
    | put u e =>
      by_cases hde : d = e
      · subst hde
        have h : s.runqueue d ++ [t] = s.runqueue d ++ [u] := hx.put_at.symm.trans hy.put_at
        obtain rfl : t = u := by simpa using h
        rfl
      · exact absurd ((hy.put_of_ne hde).symm.trans hx.put_at) (ne_append _ t)

end QueueChange.Of

/-! ## Other cpus -/

section Others

variable {c d : Fin n} {s s' u : Sched n T W L} {p : SchedPc n T W}

/-- The cpu `c` is where it was, with its thread. -/
def Aside (c : Fin n) (s s' : Sched n T W L) : Prop := s'.pc c = s.pc c ∧ s'.cur c = s.cur c

theorem Aside.goto (hd : c ≠ d) (h : Aside c s u) (p : SchedPc n T W) : Aside c s (u.goto d p) :=
  ⟨(update_of_ne hd _ _).trans h.1, h.2⟩

variable [DecidableEq T]

theorem migration_other (hd : c ≠ d)
    (hs : s.migration d p = .ok s') : Aside c s s' := by
  cases p <;> simp only [Sched.migration] at hs
  case draining left _ _ _ =>
    cases left with
    | zero =>
      cases hs
      exact .goto hd ⟨rfl, rfl⟩ _
    | succ left =>
      simp only at hs
      split at hs <;> cases hs
      exact .goto hd ⟨rfl, rfl⟩ _
  case returning l =>
    cases l <;> cases hs <;> exact .goto hd ⟨rfl, rfl⟩ _
  all_goals
    repeat' split at hs
    all_goals first
      | (cases hs; exact .goto hd ⟨rfl, rfl⟩ _)
      | (cases of_whenUnlocked hs; exact .goto hd ⟨rfl, rfl⟩ _)
      | cases hs

variable [DecidableEq W]

theorem wakeup_other (hd : c ≠ d)
    (hs : s.wakeup d p = .ok s') : Aside c s s' := by
  unfold Sched.wakeup at hs
  repeat' split at hs
  all_goals first
    | (cases hs; exact .goto hd ⟨rfl, rfl⟩ _)
    | (cases of_whenUnlocked hs; exact .goto hd ⟨rfl, rfl⟩ _)
    | cases hs

variable [DecidableEq L] {lk : W → L} {e : SchedMove n T W L}

theorem threadSwitch_other (hd : c ≠ d) (hs : s.threadSwitch lk d p = .ok s') : Aside c s s' := by
  cases p <;> simp only [Sched.threadSwitch, Sched.exorcise] at hs
  case choosing =>
    split at hs <;> cases hs
    · exact .goto hd ⟨rfl, rfl⟩ _
    · exact ⟨update_of_ne hd _ _, update_of_ne hd _ _⟩
  case placing x =>
    cases x <;> simp only at hs
    case ready =>
      split_ifs at hs
      cases hs
      exact .goto hd ⟨rfl, rfl⟩ _
    all_goals
      cases hs
      exact .goto hd ⟨rfl, rfl⟩ _
  case tail =>
    split at hs
    · cases hs
      exact .goto hd ⟨rfl, rfl⟩ _
    · split_ifs at hs
      cases hs
      exact ⟨rfl, rfl⟩
  all_goals
    cases hs
    try exact .goto hd ⟨rfl, rfl⟩ _

theorem call_other (hc : c ≠ e.cpu) (hs : s.call lk e = .ok s') : Aside c s s' := by
  unfold Sched.call Sched.enter at hs
  repeat' split at hs
  all_goals first
    | (cases hs; exact ⟨rfl, rfl⟩)
    | (cases hs; exact .goto hc ⟨rfl, rfl⟩ _)
    | (cases of_whenUnlocked hs; exact ⟨rfl, rfl⟩)
    | (cases of_whenUnlocked hs; exact .goto hc ⟨rfl, rfl⟩ _)
    | cases hs

theorem exec_other (hs : s.exec lk e = .ok s') (hc : e.cpu ≠ c) : Aside c s s' := by
  have hc := hc.symm
  cases e with
  | step d =>
    simp only [Sched.exec, Sched.resume] at hs
    split at hs
    · split_ifs at hs
      cases of_whenUnlocked hs
      exact .goto hc ⟨rfl, rfl⟩ _
    all_goals first
      | exact threadSwitch_other hc hs
      | exact wakeup_other hc hs
      | exact migration_other hc hs
  | _ =>
    simp only [Sched.exec] at hs
    split_ifs at hs
    exact call_other hc hs

theorem exec_step (hm : (s.pc c).migrating = true) :
    s.exec lk (.step c) = s.migration c (s.pc c) := by
  simp only [Sched.exec, Sched.resume]
  cases hp : s.pc c <;> rw [hp] at hm <;> first | rfl | cases hm

end Others

/-! ## The call -/

section Call

variable {c : Fin n} {s s' : Sched n T W L} {log : List (QueueChange n T)} {x : QueueChange n T}

/-- The log, the private list and the current thread. -/
structure MigrationInv (c : Fin n) (log : List (QueueChange n T)) (s : Sched n T W L) : Prop where
  nodup : (took log).Nodup
  perm : (took log).Perm ((s.pc c).victims ++ (sent log).map (·.1))
  cur : ∀ t d, (t, d) ∈ sent log → d ≠ c → t ≠ s.cur c
  early : (s.pc c).drained = false → sent log = []

theorem took_append (log : List (QueueChange n T)) (x : QueueChange n T) :
    took (log ++ [x]) = took log ++ x.taken.toList := by
  cases x <;> simp [took, QueueChange.taken]

theorem sent_append (log : List (QueueChange n T)) (x : QueueChange n T) :
    sent (log ++ [x]) = sent log ++ x.placed.toList := by
  cases x <;> simp [sent, QueueChange.placed]

theorem MigrationInv.step (h : MigrationInv c log s) (hinv : SchedInv s)
    (hx : MigrationStep c s s' x) (hcur : s'.cur = s.cur) : MigrationInv c (log ++ [x]) s' := by
  have htook := took_append log x
  have hsent := sent_append log x
  cases hx with
  | none hrq hv hd hend =>
    simp only [QueueChange.taken, QueueChange.placed, Option.toList_none, List.append_nil]
      at htook hsent
    refine ⟨htook ▸ h.nodup, ?_, ?_, ?_⟩
    · rw [htook, hsent]
      exact h.perm.trans (hv.symm.append_right _)
    · rw [hsent, hcur]
      exact h.cur
    · intro hd'
      rw [hsent]
      rw [hd'] at hd
      exact h.early (Bool.eq_false_of_le_false hd)
  | take hd hd' hrq hv =>
    rename_i t
    simp only [QueueChange.taken, QueueChange.placed, Option.toList_none, List.append_nil,
      Option.toList_some] at htook hsent
    have hnone := h.early hd
    have hperm : (took log).Perm (s.pc c).victims := by
      have := h.perm
      rwa [hnone, List.map_nil, List.append_nil] at this
    -- the thread comes from the run queue, so it is not on the private list
    have hmem : t ∈ s.lists (.runqueue c) := by
      change t ∈ s.runqueue c
      rw [hrq, update_self]
      exact List.mem_append_right _ List.mem_cons_self
    have hnot : t ∉ took log := by
      intro ht
      have hlist : t ∈ s.lists (.list c) := SchedPc.list_of_victims (hperm.mem_iff.mp ht)
      exact absurd (hinv.placed.apart hmem hlist) (by simp)
    refine ⟨?_, ?_, ?_, fun _ => hsent.trans hnone⟩
    · rw [htook]
      refine List.nodup_append.mpr ⟨h.nodup, List.nodup_singleton t, fun a ha b hb => ?_⟩
      grind
    · rw [htook, hsent, hnone, List.map_nil, List.append_nil, hv]
      exact (List.perm_append_singleton t _).trans (hperm.cons t)
    · grind
  | put hd hmig hrq hv hne =>
    rename_i t d
    simp only [QueueChange.taken, QueueChange.placed, Option.toList_none, List.append_nil,
      Option.toList_some] at htook hsent
    refine ⟨htook ▸ h.nodup, ?_, ?_, fun hd' => absurd (hd.symm.trans hd') (by simp)⟩
    · rw [htook, hsent, List.map_append]
      have := h.perm
      rw [hv] at this
      refine this.trans ?_
      simp only [List.map_cons, List.map_nil]
      rw [← List.append_assoc]
      exact (List.perm_append_singleton t _).symm
    · intro u e hu hec
      rw [hcur]
      rw [hsent] at hu
      rcases List.mem_append.mp hu with hu | hu
      · exact h.cur u e hu hec
      · grind

variable [DecidableEq T] [DecidableEq W] [DecidableEq L] {lk : W → L} {s₀ : Sched n T W L}

theorem Migrating.inv (h₀ : SchedInv s₀) (h : Migrating lk c s₀ log s) :
    SchedInv s ∧ MigrationInv c log s := by
  induction h with
  | start hs =>
    have hkept := h₀.exec hs
    simp only [Sched.exec, Sched.call] at hs
    split_ifs at hs
    cases hs
    refine ⟨hkept, List.nodup_nil, ?_, fun _ _ h => absurd h List.not_mem_nil, fun _ => rfl⟩
    rw [goto_pc]
    rfl
  | other _ hne hs ih =>
    obtain ⟨hinv, hm⟩ := ih
    obtain ⟨hpc, hcur⟩ := exec_other hs hne
    refine ⟨hinv.exec hs, hm.nodup, ?_, ?_, ?_⟩
    · rw [hpc]
      exact hm.perm
    · rw [hcur]
      exact hm.cur
    · rw [hpc]
      exact hm.early
  | own _ hmig hs hx ih =>
    obtain ⟨hinv, hm⟩ := ih
    have hstep := hs
    rw [exec_step hmig] at hstep
    obtain ⟨hcur, -, y, hy⟩ := migration_step rfl hmig hstep
    obtain rfl := hx.unique hy.of
    exact ⟨hinv.exec hs, hm.step hinv hy hcur⟩

/-- The event is one of another cpu, or of the call in progress on `c`. -/
def InCall (c : Fin n) (s : Sched n T W L) (e : SchedMove n T W L) : Prop :=
  e.cpu ≠ c ∨ e = .step c ∧ (s.pc c).migrating = true

instance (c : Fin n) (s : Sched n T W L) (e : SchedMove n T W L) : Decidable (InCall c s e) :=
  inferInstanceAs (Decidable (_ ∨ _))

/-- Every run from the start of a call on is such a call. -/
theorem exists_migrating (hs : s₀.exec lk (.migrate c) = .ok s)
    {es : List (SchedMove n T W L)}
    (hr : Run (fun s e t => InCall c s e ∧ s.exec lk e = .ok t) s es s') :
    ∃ log, Migrating lk c s₀ log s' := by
  refine hr.invariant (P := fun t => ∃ log, Migrating lk c s₀ log t) ⟨[], .start hs⟩ ?_
  rintro s e t ⟨log, hlog⟩ ⟨hne | ⟨rfl, hmig⟩, ht⟩
  · exact ⟨log, hlog.other hne ht⟩
  · have hstep := ht
    rw [exec_step hmig] at hstep
    obtain ⟨-, -, x, hx⟩ := migration_step rfl hmig hstep
    exact ⟨_, hlog.own hmig ht hx.of⟩

/-- **Migration conserves threads**, for any number of cpus, from every state of a run, whatever the
other cpus do meanwhile. -/
theorem migration_conserves (lk : W → L) (first : Fin n → T) (home : T → Fin n)
    (hfirst : ∀ c, home (first c) = c) {es : List (SchedMove n T W L)}
    (h₀ : (Sched.boot first home).Runs lk es s₀) (h : Migrating lk c s₀ log s) :
    MigrationSafe lk c s₀ log s := by
  have hinv₀ : SchedInv s₀ := .of_runs hfirst h₀
  obtain ⟨hinv, hm⟩ := h.inv hinv₀
  refine ⟨?_, hm.cur, hinv.cpuOf.runqueue, hm.nodup, hm.perm, ?_, ?_, ?_⟩
  · intro f hf
    have hsound := hinv.exec_sound lk (.step c)
    rwa [hf] at hsound
  · intro hfree t ht
    have hperm := hm.perm
    rw [hfree] at hperm
    have hnodup : ((sent log).map (·.1)).Nodup := hperm.nodup_iff.mp hm.nodup
    obtain ⟨⟨u, d⟩, hd, rfl⟩ := List.mem_map.mp (hperm.mem_iff.mp ht)
    refine ⟨d, hd, fun e he => ?_⟩
    exact congrArg Prod.snd (List.inj_on_of_nodup_map hnodup he hd rfl)
  · intro hmig s' hs
    rw [exec_step hmig] at hs
    obtain ⟨-, hdist, x, hx⟩ := migration_step rfl hmig hs
    exact ⟨⟨x, hx.of⟩, hdist⟩
  · intro hmig s' hs hfree
    rw [exec_step hmig] at hs
    obtain ⟨-, -, x, hx⟩ := migration_step rfl hmig hs
    cases hx with
    | none _ _ _ hend =>
      rw [hfree] at hend
      exact hend.resolve_left (by simp [SchedPc.migrating])
    | take _ hd _ _ =>
      rw [hfree] at hd
      cases hd
    | put _ hmig' _ _ _ =>
      rw [hfree] at hmig'
      cases hmig'

end Call

/-- Two more threads on the run queue of cpu `c`. -/
def Sched.twoReady (c : Fin n) : List (SchedMove n Nat Unit Unit) :=
  [.create c 2, .start c 2, .create c 3, .start c 3]

/-- From here the timer interrupt on cpu `c` takes ten steps, and sends one of them to cpu `d`. -/
def Sched.balances (c d : Fin n) (s₀ : Sched n Nat Unit Unit) : Bool :=
  (s₀.exec id (.migrate c)).toOption.any fun s₁ =>
    ((List.replicate 10 (SchedMove.step c)).foldlM (fun s e =>
      if InCall c s e then (Sched.exec id s e).toOption else none) s₁).any fun s =>
        decide (s.pc c = .free ∧ s.runqueue c = [2] ∧ s.runqueue d = [3])

theorem migration_conserves_two : ∃ (s₀ s : Sched 2 Nat Unit Unit) (log : _),
    (Sched.boot Fin.val (Fin.ofNat 2)).Runs id (Sched.twoReady 0) s₀ ∧
      Migrating id 0 s₀ log s ∧ MigrationSafe id 0 s₀ log s ∧
      s.pc 0 = .free ∧ s.runqueue 0 = [2] ∧ s.runqueue 1 = [3] := by
  obtain ⟨s₀, h₀, hp⟩ : ∃ s₀ : Sched 2 Nat Unit Unit,
      (Sched.boot Fin.val (Fin.ofNat 2)).Runs id (Sched.twoReady 0) s₀ ∧
        s₀.balances 0 1 = true :=
    Run.exists_of_foldlM (f := fun s e => (Sched.exec id s e).toOption) (p := Sched.balances 0 1)
      (fun _ _ _ => toOption_eq_some.mp) (by decide)
  obtain ⟨s₁, hs₁, hp⟩ := (Option.any_eq_true _ _).mp hp
  obtain ⟨s, hr, hp⟩ := Run.exists_of_exec hp
  obtain ⟨log, hlog⟩ := exists_migrating (toOption_eq_some.mp hs₁) hr
  exact ⟨s₀, s, log, h₀, hlog, migration_conserves id Fin.val (Fin.ofNat 2) (by decide) h₀ hlog,
    of_decide_eq_true hp⟩

end OsPaging.Thread
