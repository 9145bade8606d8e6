import OsPaging.Proc.DescriptorRefinement
import Mathlib.Algebra.BigOperators.Group.Finset.Piecewise
import Mathlib.Algebra.Order.BigOperators.Group.Finset
import Mathlib.Data.Finset.Prod
import Mathlib.Order.Interval.Finset.Nat

/-!
# What a process leaves behind

`sys__exit` (`kern/syscall/proc_syscalls.c:25-43`) and `proc_destroy` (`kern/proc/proc.c:140-223`)
do not close the files of the process: slots and vnode references outlive it
(`files_outlive_process`). A `sys_open` that finds a slot and no descriptor (`EMFILE`) closes the
vnode and keeps the slot.

**`exit_releases`** is for runs in which neither happens.
-/

namespace OsPaging.Proc

open OsPaging.Lib OsPaging.Vm OsPaging.Syscall Function

variable {P : Type}
variable {s : FileState P} {e : FileEvent P} {d : DescriptorMap P}

/-- A new process starts with an empty table, a `sys_open` that has got a vnode and a slot finds a
descriptor, and a process has closed its files when it exits. -/
def FileState.Releasing (s : FileState P) : FileEvent P → Prop
  | .create _ garbage => ∀ i ≤ openMax, garbage i = none
  | .call p c _ => c.opened ≠ none → (∃ k < systemOpenMax, (s.system k).vn = none) →
      ∃ j < openMax, 3 ≤ j ∧ s.fileTable p j = none
  | .destroy p => ∀ i < openMax, s.fileTable p i = none

instance (s : FileState P) (e : FileEvent P) : Decidable (s.Releasing e) :=
  match e with
  | .create _ garbage => inferInstanceAs (Decidable (∀ i ≤ openMax, garbage i = none))
  | .call _ c _ => inferInstanceAs (Decidable (c.opened ≠ none → (∃ k < systemOpenMax, _) → _))
  | .destroy p => inferInstanceAs (Decidable (∀ i < openMax, s.fileTable p i = none))

theorem FileState.Releasing.emptyTable (h : s.Releasing e) : e.EmptyTable := by
  cases e with
  | create p garbage => exact h
  | call p c o => trivial
  | destroy p => trivial

variable [DecidableEq P]

/-- A `sys_open` of the process gets a reference to the vnode from `vfs_open`. -/
def FileEvent.opens (p : P) (v : Nat) : FileEvent P → Bool
  | .call q _ o => q = p ∧ o.opened = some v
  | _ => false

/-- A call of the process gives a reference back by `vfs_close`. -/
def FileEvent.closes (p : P) (v : Nat) : FileEvent P → Bool
  | .call q _ o => q = p ∧ o.closed = some v
  | _ => false

/-! ## References -/

/-- Whether a descriptor is a reference to the vnode. -/
def refersTo (v : Nat) (f : Option Descriptor) : Nat :=
  if f.map Descriptor.vn = some v then 1 else 0

/-- The references of a process. -/
def held (v : Nat) (m : Descriptors) : Nat := ∑ fd ∈ Finset.Ico 3 openMax, refersTo v (m fd)

theorem held_update (v : Nat) (m : Descriptors) {j : Nat} (hj : 3 ≤ j ∧ j < openMax)
    (f : Option Descriptor) :
    held v (update m j f) + refersTo v (m j) = held v m + refersTo v f := by
  have hmem : j ∈ Finset.Ico 3 openMax := Finset.mem_Ico.mpr hj
  have hcomp : (fun fd => refersTo v (update m j f fd)) =
      update (fun fd => refersTo v (m fd)) j (refersTo v f) :=
    comp_update (refersTo v) m j f
  unfold held
  rw [hcomp, Finset.sum_update_of_mem hmem, Finset.sdiff_singleton_eq_erase,
    ← Finset.add_sum_erase _ _ hmem]
  omega

/-- The calls of a process have given back all references but those of its descriptors. -/
def Balanced (es : List (FileEvent P)) (d : DescriptorMap P) : Prop :=
  ∀ p v, es.countP (·.opens p v) = es.countP (·.closes p v) + (d p).elim 0 (held v)

theorem held_eq_zero {v : Nat} {m : Descriptors} (h : ∀ fd < openMax, m fd = none) :
    held v m = 0 := by
  refine Finset.sum_eq_zero fun fd hfd => ?_
  rw [h fd (Finset.mem_Ico.mp hfd).2]
  rfl

/-- A call changes the references by those it opens and closes. -/
theorem Descriptors.Moved.held {m m' : Descriptors} {c : FileCall} {o : Observed}
    (h : m.Moved c o m') (hsupp : ∀ fd f, m fd = some f → 3 ≤ fd ∧ fd < openMax) (v : Nat) :
    held v m + (if o.opened = some v then 1 else 0) =
      held v m' + (if o.closed = some v then 1 else 0) := by
  cases h with
  | same ho => rw [ho]
  | @opened _ _ j w hj hnone _ hopened hclosed =>
    have key := held_update v m hj (some ⟨w, 0⟩)
    rw [hnone] at key
    rw [hopened, hclosed]
    simpa [refersTo] using key.symm
  | @closed fd f _ hf hopened hclosed =>
    obtain ⟨-, hfd⟩ := Descriptors.of_lookup hf
    have key := held_update v m (hsupp _ _ hfd) none
    rw [hfd] at key
    rw [hopened, hclosed]
    simpa [refersTo] using key.symm
  | @moved _ fd f _ offset hf hopened hclosed =>
    obtain ⟨-, hfd⟩ := Descriptors.of_lookup hf
    have key := held_update v m (hsupp _ _ hfd) (some { f with offset := offset })
    rw [hfd] at key
    rw [hopened, hclosed]
    simpa [refersTo] using key.symm

/-- An event keeps the balance, if the process that is destroyed has no descriptors. -/
theorem Balanced.step {es : List (FileEvent P)} {d' : DescriptorMap P} (h : Balanced es d)
    (hs : d.Step e d') (hsupp : ∀ p m fd f, d p = some m → m fd = some f → 3 ≤ fd ∧ fd < openMax)
    (hend : ∀ p m, e = .destroy p → d p = some m → ∀ fd < openMax, m fd = none) :
    Balanced (es ++ [e]) d' := by
  intro p v
  have hpv := h p v
  rw [List.countP_append, List.countP_append, List.countP_singleton, List.countP_singleton]
  cases hs with
  | create q garbage hq =>
    have helim : (update d q (some fun _ => none) p).elim 0 (held v) =
        (d p).elim 0 (held v) := by
      rw [update_apply]
      split_ifs with heq
      · rw [heq, hq]
        exact held_eq_zero fun _ _ => rfl
      · rfl
    rw [helim]
    simpa [FileEvent.opens, FileEvent.closes] using hpv
  | destroy q m hq =>
    have helim : (update d q none p).elim 0 (held v) = (d p).elim 0 (held v) := by
      rw [update_apply]
      split_ifs with heq
      · rw [heq, hq]
        exact (held_eq_zero (hend q m rfl hq)).symm
      · rfl
    rw [helim]
    simpa [FileEvent.opens, FileEvent.closes] using hpv
  | call q c m full hq =>
    by_cases heq : q = p
    · subst heq
      have key := (m.spec_moved full c).held (fun fd f => hsupp q m fd f hq) v
      rw [hq] at hpv
      rw [update_self]
      simp only [FileEvent.opens, FileEvent.closes, true_and, decide_eq_true_eq,
        Option.elim_some] at hpv key ⊢
      omega
    · rw [update_of_ne (Ne.symm heq)]
      simpa [FileEvent.opens, FileEvent.closes, heq] using hpv

/-! ## Slots -/

/-- Every occupied slot is an entry of a live process. -/
def Covered (s : FileState P) : Prop :=
  ∀ k < systemOpenMax, (s.system k).vn ≠ none →
    ∃ p fd, s.live p = true ∧ fd ≤ openMax ∧ s.fileTable p fd = some k

/-- A slot that is occupied after a call is an entry of its process, or was occupied before and no
entry of it, unless the call leaves a slot taken. -/
theorem FilesMoved.covered {files files' : Files} {v v' : Option Nat}
    (h : FilesMoved files v v' files')
    (hfree : v ≠ none → (∃ k < systemOpenMax, (files.system k).vn = none) →
      ∃ j < openMax, 3 ≤ j ∧ files.table j = none)
    {k : Nat} (hk : (files'.system k).vn ≠ none) :
    (∃ fd ≤ openMax, files'.table fd = some k) ∨
      (files.system k).vn ≠ none ∧ ∀ fd ≤ openMax, files.table fd ≠ some k := by
  -- what the call leaves alone
  have hold : (files.system k).vn ≠ none →
      (∀ fd ≤ openMax, files.table fd = some k → ∃ fd ≤ openMax, files'.table fd = some k) →
      (∃ fd ≤ openMax, files'.table fd = some k) ∨
        (files.system k).vn ≠ none ∧ ∀ fd ≤ openMax, files.table fd ≠ some k := by
    grind
  cases h with
  | same => exact hold hk fun fd hle hfd => ⟨fd, hle, hfd⟩
  | @leaked i w hi hf hfull =>
    obtain ⟨j, hlt, h3, hnone⟩ := hfree (by simp) ⟨i, hi, hf⟩
    exact absurd hnone (hfull j h3 hlt)
  | @opened i j w hi hf hj hnone =>
    by_cases hki : k = i
    · exact .inl ⟨j, Nat.le_of_lt hj.2, by rw [hki]; exact update_self _ _ _⟩
    · simp only [update_of_ne hki] at hk
      refine hold hk fun fd hle hfd => ⟨fd, hle, ?_⟩
      grind
  | @closed fd k' w hle hk' hv =>
    by_cases hkk : k = k'
    · rw [hkk] at hk
      simp at hk
    · simp only [update_of_ne hkk] at hk
      refine hold hk fun fd' hle' hfd' => ⟨fd', hle', ?_⟩
      grind
  | @moved fd k' w offset hle hk' hv =>
    grind

theorem Covered.step {s' : FileState P} (h : Covered s) (hr : Refines s d) (he : s.Releasing e)
    (hs : s.exec e = some s') : Covered s' := by
  intro k hk hocc
  cases FileState.exec_some hs with
  | @create p garbage hlive =>
    obtain ⟨q, fd, hq, hle, hfd⟩ := h k hk hocc
    have hne : q ≠ p := by
      grind
    exact ⟨q, fd, by simpa [hne] using hq, hle, by simpa [hne] using hfd⟩
  | @destroy p hlive =>
    obtain ⟨q, fd, hq, hle, hfd⟩ := h k hk hocc
    obtain ⟨m, hm⟩ := hr.of_live hq
    have hlt := ((hr.tracks q m hm).entries fd hle k hfd).2.1
    have hne : q ≠ p := by
      rintro rfl
      exact absurd ((he fd hlt).symm.trans hfd) (by simp)
    exact ⟨q, fd, by simpa [hne] using hq, hle, hfd⟩
  | @call p c hlive =>
    obtain ⟨m, hm⟩ := hr.of_live hlive
    obtain ⟨full, -, -, hmoved⟩ := (hr.tracks p m hm).call c
    rcases hmoved.covered he hocc with ⟨fd, hle, hfd⟩ | ⟨hold, hnot⟩
    · exact ⟨p, fd, hlive, hle, by simpa using hfd⟩
    · obtain ⟨q, fd, hq, hle, hfd⟩ := h k hk hold
      have hne : q ≠ p := by
        rintro rfl
        exact hnot fd hle hfd
      exact ⟨q, fd, hq, hle, by simpa [hne] using hfd⟩

/-- Ten processes do not fill the system table. -/
theorem Covered.exists_free (h : Covered s) (hr : Refines s d) {l : List P}
    (hl : ∀ p, s.live p = true → p ∈ l) (hlen : l.length ≤ 10) :
    ∃ k < systemOpenMax, (s.system k).vn = none := by
  by_contra hfull
  have hentry : ∀ k < systemOpenMax, ∃ x : P × Nat, s.live x.1 = true ∧ x.2 ≤ openMax ∧
      s.fileTable x.1 x.2 = some k := fun k hk => by
    obtain ⟨p, fd, hp, hle, hfd⟩ := h k hk fun hnone => hfull ⟨k, hk, hnone⟩
    exact ⟨(p, fd), hp, hle, hfd⟩
  obtain ⟨x₀, -⟩ := hentry 0 (by decide)
  have : Nonempty (P × Nat) := ⟨x₀⟩
  choose! f hlive hle hfd using hentry
  have hcard : (l.toFinset ×ˢ Finset.Ico 3 openMax).card < (Finset.range systemOpenMax).card := by
    rw [Finset.card_product, Nat.card_Ico, Finset.card_range]
    have := l.toFinset_card_le
    simp only [openMax, systemOpenMax]
    omega
  obtain ⟨k, hk, k', hk', hne, heq⟩ := Finset.exists_ne_map_eq_of_card_lt_of_maps_to hcard
    (f := f) fun k hk => by
      have hk := Finset.mem_range.mp hk
      obtain ⟨m, hm⟩ := hr.of_live (hlive k hk)
      have hent := (hr.tracks _ m hm).entries _ (hle k hk) k (hfd k hk)
      exact Finset.mem_product.mpr
        ⟨List.mem_toFinset.mpr (hl _ (hlive k hk)), Finset.mem_Ico.mpr ⟨hent.1, hent.2.1⟩⟩
  grind

/-- **Exit releases the files of a process.** In every run that meets `Releasing`, when a process is
gone its calls have given back every reference they took, every occupied slot is an entry of a live
process, and while at most ten processes are live there is a free slot. -/
theorem exit_releases {es : List (FileEvent P)} {s : FileState P}
    (hr : Run (FileState.Step FileState.Releasing) noFiles es s) :
    (∀ p v, s.live p = false → es.countP (·.opens p v) = es.countP (·.closes p v)) ∧
      (∀ k < systemOpenMax, (s.system k).vn ≠ none →
        ∃ p fd, s.live p = true ∧ fd ≤ openMax ∧ s.fileTable p fd = some k) ∧
      ∀ l : List P, (∀ p, s.live p = true → p ∈ l) → l.length ≤ 10 →
        ∃ k < systemOpenMax, (s.system k).vn = none := by
  obtain ⟨d, href, hbal, hcov⟩ : ∃ d, Refines s d ∧ Balanced es d ∧ Covered s := by
    refine hr.history (R := fun es s => ∃ d, Refines s d ∧ Balanced es d ∧ Covered s)
      ⟨_, .init, fun _ _ => rfl, fun _ _ hocc => absurd rfl hocc⟩ ?_
    rintro es s e t ⟨d, href, hbal, hcov⟩ ⟨he, hs⟩
    obtain ⟨d', hstep, href'⟩ := href.step he.emptyTable hs
    refine ⟨d', href', hbal.step hstep ?_ ?_, hcov.step href he hs⟩
    · intro p m fd f hp hf
      exact (href.tracks p m hp).support hf
    · rintro p m rfl hp fd hlt
      rw [(href.tracks p m hp).map, if_pos (Nat.le_of_lt hlt)]
      simp only [FileState.files, he fd hlt, Option.bind_none]
  refine ⟨fun p v hp => ?_, hcov, fun l => hcov.exists_free href⟩
  have hnone : d p = none := by simpa [href.live p] using hp
  simpa [hnone] using hbal p v

/-- A process that exits with a file open: the slot stays occupied, and the reference is kept. -/
theorem files_outlive_process : ∃ s : FileState Nat,
    Run (FileState.Step fun _ _ => True) noFiles
      [.create 1 fun _ => none, opensThree 1, .destroy 1] s ∧
    s.live 1 = false ∧ (s.system 0).vn = some 7 ∧
    [.create 1 fun _ => none, opensThree 1, .destroy 1].countP (·.opens 1 7) = 1 ∧
    [.create 1 fun _ => none, opensThree 1, .destroy 1].countP (·.closes 1 7) = 0 := by
  exact Run.exists_imp (Q := fun s => s.live 1 = false ∧ (s.system 0).vn = some 7)
    (Run.exists_of_allowed (by decide +kernel))
    fun s _ hs => ⟨hs.1, hs.2, by decide, by decide⟩

/-- A process closes its file and exits, and another one has a file open. -/
abbrev closesFirst : List (FileEvent Nat) :=
  [.create 1 fun _ => none, opensThree 1, .call 1 (.close 3) ⟨[], some (0, 0), none, some 7⟩,
    .destroy 1, .create 2 fun _ => none, opensThree 2]

theorem exit_releases_closed : ∃ s : FileState Nat,
    Run (FileState.Step FileState.Releasing) noFiles closesFirst s ∧ s.live 1 = false ∧
      (s.system 0).vn = some 7 ∧ (∃ p fd, s.live p = true ∧ fd ≤ openMax ∧
        s.fileTable p fd = some 0) ∧
      closesFirst.countP (·.opens 1 7) = closesFirst.countP (·.closes 1 7) := by
  refine Run.exists_imp (Q := fun s => s.live 1 = false ∧ (s.system 0).vn = some 7)
    (Run.exists_of_allowed (by decide +kernel)) ?_
  rintro s hs ⟨hlive, hvn⟩
  obtain ⟨hrefs, hslots, -⟩ := exit_releases hs
  grind

end OsPaging.Proc
