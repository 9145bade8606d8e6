import OsPaging.Vm.Apart
import OsPaging.Vm.FlatMemory

/-!
# What a process finds in its pages

A process should find in its address space what it has stored there since it was created, and zero
elsewhere. `History` is that, as the actions of each process that concern its own memory; it has no
frames. `Remembers` relates it to the machine.

`getuserppage` does not clear the frame it hands out. `Machine.ZeroFrames` says that the frame next
in line, when a page is used for the first time, happens to hold zeros; with the conditions under
which the processes stay apart, a load returns what the process's own history has
(`Remembers.load`), whatever the others do (**`noninterference`**).
-/

namespace OsPaging.Vm

open OsPaging.Lib Function

/-! ## A process's own history -/

/-- The running process, and for each process the stores it has made and the regions it has defined
since its address space was created. -/
structure History where
  current : Nat
  own : Nat → List Action

namespace History

/-- Add an action to the history of the running process. -/
def push (h : History) (a : Action) : History :=
  { h with own := update h.own h.current (h.own h.current ++ [a]) }

/-- What an action adds. -/
def next (h : History) : Action → History
  | .run (.store va v) => h.push (.run (.store va v))
  | .asDefineRegion vaddr sz => h.push (.asDefineRegion vaddr sz)
  | .asCreate => { h with own := update h.own h.current [] }
  | .switch pid => { h with current := pid }
  | _ => h

/-- The history of a run that starts with process `current`. -/
def after (current : Nat) (acts : List Action) : History :=
  acts.foldl next ⟨current, fun _ => []⟩

end History

/-- The access that an action is. -/
def Action.access : Action → MemOp Nat UInt8
  | .run e => e.access
  | _ => .silent

/-- What a process with the history `own` should find at `va`. -/
def ownByte (own : List Action) (va : Nat) : UInt8 :=
  (Flat.lastStore (own.map Action.access) va).getD 0

theorem ownByte_push (own : List Action) (a : Action) (va : Nat) :
    ownByte (own ++ [a]) va =
      (Flat.write (Flat.lastStore (own.map Action.access)) a.access va).getD 0 := by
  simp [ownByte, Flat.lastStore]

/-- What no store has touched is zero. -/
theorem ownByte_of_forall_ne {own : List Action} {va : Nat}
    (h : ∀ v, .run (.store va v) ∉ own) : ownByte own va = 0 := by
  suffices Flat.lastStore (own.map Action.access) va = none by simp [ownByte, this]
  induction own using List.reverseRecOn with
  | nil => rfl
  | append_singleton own a ih =>
    simp only [List.mem_append, List.mem_singleton, not_or] at h
    have hold := ih fun v => (h v).1
    rw [List.map_append, Flat.lastStore, List.foldl_append]
    cases a with
    | run e =>
      cases e with
      | store va' v =>
        have hne : va ≠ va' := by
          rintro rfl
          exact (h v).2 rfl
        exact (update_of_ne hne _ _).trans hold
      | _ => exact hold
    | _ => exact hold

/-! ## The condition -/

/-- The frame next in line for a user page: the lowest free one, or the one that the victim pointer
comes to. -/
def nextFrame (s : VmState) : Option Nat :=
  match freeFrame s with
  | some f => some f
  | none =>
    match coremapVictimSelection s 1 with
    | .ok (victim, _) => some victim.toNat
    | .error _ => none

theorem nextFrame_of_getuserppage {s s' : VmState} {f : Nat}
    (h : getuserppage s = .ok (f * pageSize, s')) : nextFrame s = some f := by
  unfold getuserppage at h
  unfold nextFrame
  grind

/-- Frame `f` holds only zero bytes. -/
def Zeroed (s : VmState) (f : Nat) : Prop := ∀ o < pageSize, s.ram (f * pageSize + o) = 0

instance (s : VmState) (f : Nat) : Decidable (Zeroed s f) :=
  decidable_of_iff (((List.range pageSize).all fun o => s.ram (f * pageSize + o) == 0) = true)
    (by simp only [List.all_eq_true, List.mem_range, beq_iff_eq, Zeroed])

namespace Machine

/-- When a page is used for the first time, the frame next in line holds zeros. -/
def ZeroFrames (m : Machine) : Action → Prop
  | .run (.fault _ va _) => m.vm.entries.find? (ptMatch (pageFrame va)) = none →
      ∀ f ∈ nextFrame m.vm, Zeroed m.vm f
  | _ => True

/-- The TLB is empty when another address space comes into use, no frame is shared, and frames are
handed out zeroed. -/
def Private (m : Machine) (a : Action) : Prop :=
  m.FlushedSwitch a ∧ m.Unshared a ∧ m.ZeroFrames a

instance (m : Machine) : ∀ a : Action, Decidable (m.Unshared a)
  | .run e => inferInstanceAs (Decidable (e.Meets _ _))
  | .switch _ => .isTrue trivial
  | .asCreate => .isTrue trivial
  | .asDefineRegion _ _ => .isTrue trivial
  | .asDestroy _ => .isTrue trivial

instance (m : Machine) : ∀ a : Action, Decidable (m.ZeroFrames a)
  | .run (.fault _ _ _) => inferInstanceAs (Decidable (_ → _))
  | .run (.load _ _) => .isTrue trivial
  | .run (.store _ _) => .isTrue trivial
  | .run (.kalloc _) => .isTrue trivial
  | .run (.kfree _) => .isTrue trivial
  | .run (.kwrite _ _) => .isTrue trivial
  | .switch _ => .isTrue trivial
  | .asCreate => .isTrue trivial
  | .asDefineRegion _ _ => .isTrue trivial
  | .asDestroy _ => .isTrue trivial

instance (m : Machine) (a : Action) : Decidable (m.Private a) :=
  inferInstanceAs (Decidable (_ ∧ _))

end Machine

/-! ## The relation -/

/-- Each process has in its pages what its own history has. -/
structure Remembers (h : History) (m : Machine) : Prop where
  separated : Separated m
  current : h.current = m.current
  bytes : ∀ p ∈ m.spaces, ∀ va, (m.vm.spaceByte p.2 va).getD 0 = ownByte (h.own p.1) va

namespace Remembers

variable {h : History} {m m' : Machine}

theorem of_booted (hb : m.Booted) : Remembers (.after m.current []) m := by
  refine ⟨.of_booted hb, rfl, fun p hp => ?_⟩
  obtain ⟨⟨s₀, s, hpow, hi, hvm⟩, -, hparked, -⟩ := hb
  have has : m.vm.as = none := by
    rw [hvm]
    exact (coremapInit_spec hpow hi).2.1
  simp [Machine.spaces, has, hparked] at hp

section

variable (hr : Remembers h m)
include hr

/-- The address spaces of the others are not the running process's. -/
theorem own_parked {p : Nat × AddrSpace} (hp : p ∈ m.parked) (l : List Action) :
    update h.own h.current l p.1 = h.own p.1 := by
  refine update_of_ne (fun heq => ?_) _ _
  have hpids := (List.nodup_cons.mp hr.separated.pids).1
  exact hpids (List.mem_map.mpr ⟨p, hp, heq.trans hr.current⟩)

/-- An action that leaves the bytes of the others, by what it does to the running process's. -/
theorem cons {h' : History} {as : AddrSpace} (hs : Separated m') (hcur : h'.current = m'.current)
    (hpark : m'.parked = m.parked) (hm : m'.current = m.current)
    (hown : ∃ l, h'.own = update h.own h.current l)
    (hother : ∀ p ∈ m.parked, ∀ va, m'.vm.spaceByte p.2 va = m.vm.spaceByte p.2 va)
    (has : m'.vm.as = some as)
    (hself : ∀ va, (m'.vm.spaceByte as va).getD 0 = ownByte (h'.own m.current) va) :
    Remembers h' m' := by
  refine ⟨hs, hcur, fun p hp va => ?_⟩
  have hspaces : m'.spaces = (m.current, as) :: m.parked := by
    simp [Machine.spaces, has, hpark, hm]
  rw [hspaces] at hp
  rcases List.mem_cons.mp hp with rfl | hp
  · exact hself va
  · obtain ⟨l, hl⟩ := hown
    rw [hother p hp va, hl, hr.own_parked hp]
    refine hr.bytes p ?_ va
    unfold Machine.spaces
    split
    · exact .tail _ hp
    · exact hp

theorem self {as : AddrSpace} (has : m.vm.as = some as) (va : Nat) :
    (m.vm.spaceByte as va).getD 0 = ownByte (h.own m.current) va :=
  hr.bytes (m.current, as) (by simp [Machine.spaces, has]) va

/-- What an event does to the running process's bytes is what it adds to its history. -/
theorem bytes_run {e : Event} {as : AddrSpace} (has : m.vm.as = some as)
    (hz : m.ZeroFrames (.run e)) (hstep : ByteStep m.vm m'.vm e) (va : Nat) :
    (m'.vm.userByte va).getD 0 = ownByte ((h.next (.run e)).own m.current) va := by
  have hself := hr.self has
  simp only [← userByte_eq_spaceByte has] at hself
  cases hstep with
  | @store a v hst =>
    rw [hst, ← hr.current]
    simp only [History.next, History.push, update_self]
    rw [ownByte_push]
    simp only [Action.access, Event.access, Flat.write, update_apply]
    split_ifs
    · rfl
    · rw [hself va, ← hr.current]
      rfl
  | @fresh _ a _ f s₁ hnone hget hnew =>
    rw [hnew]
    have hw := (hr.separated.isolated.sound (by simp [has])).table
    split_ifs with hpage
    · -- the page had no entry, so nothing was ever stored in it
      have hold := hself va
      rw [userByte_none hw] at hold
      · rw [Option.getD_some, hz hnone f (nextFrame_of_getuserppage hget) _ (offset_lt va)]
        exact hold
      · rw [hpage, ← pageFrame_pageFrame]
        exact hw.search_none.mp hnone
    · exact hself va
  | same hne hsame =>
    rw [hsame, hself va]
    cases e with
    | store a v => exact absurd rfl (hne a v)
    | _ => rfl

theorem run {e : Event} (ha : m.Private (.run e)) (hx : m.exec (.run e) = some m') :
    Remembers (h.next (.run e)) m' := by
  obtain ⟨hsep, hsome, hother, hstep⟩ := hr.separated.run ha.1 ha.2.1 hx
  obtain ⟨huser, -, hpark, hcur, -⟩ := Machine.exec_run hx
  have hnext : (h.next (.run e)).current = m'.current := by
    rw [hcur, ← hr.current]
    cases e <;> rfl
  cases has : m.vm.as with
  | none =>
    have has' : m'.vm.as = none := by simpa [has] using hsome
    have hsame : h.next (.run e) = h := by
      cases e with
      | store va v => exact absurd (huser has) (by simp [Event.isUser])
      | _ => rfl
    refine ⟨hsep, hnext, fun p hp va => ?_⟩
    rw [show m'.spaces = m.parked by simp [Machine.spaces, has', hpark]] at hp
    rw [hother p hp va, hsame]
    exact hr.bytes p (by simpa [Machine.spaces, has] using hp) va
  | some as =>
    obtain ⟨as', has'⟩ := Option.isSome_iff_exists.mp (hsome.trans (by simp [has]))
    refine hr.cons hsep hnext hpark hcur ?_ hother has' fun va => ?_
    · cases e with
      | store va v => exact ⟨_, rfl⟩
      | _ => exact ⟨_, (update_eq_self _ _).symm⟩
    · rw [← userByte_eq_spaceByte has']
      exact hr.bytes_run has ha.2.2 (hstep (by simp [has])) va

theorem step {a : Action} (ha : m.Private a) (hx : m.exec a = some m') :
    Remembers (h.next a) m' := by
  cases a with
  | run e => exact hr.run ha hx
  | switch pid =>
    have hsep := hr.separated.switch ha.1 hx
    have hperm := Machine.perm_spaces_switch hx
    obtain rfl := Machine.exec_switch hx
    exact ⟨hsep, rfl, fun p hp => hr.bytes p (hperm.mem_iff.mpr hp)⟩
  | asCreate =>
    have hsep := hr.separated.asCreate ha.1 hx
    obtain ⟨-, rfl⟩ := Machine.exec_asCreate hx
    refine hr.cons hsep hr.current rfl rfl ⟨_, rfl⟩ (fun _ _ _ => rfl) rfl fun va => ?_
    simp only [History.next, ← hr.current, update_self]
    rfl
  | asDefineRegion vaddr sz =>
    have hsep := hr.separated.asDefineRegion hx
    obtain ⟨as, has, rfl⟩ := Machine.exec_asDefineRegion hx
    refine hr.cons hsep hr.current rfl rfl ⟨_, rfl⟩ (fun _ _ _ => rfl) rfl fun va => ?_
    have hself := hr.self has va
    simp only [History.next, History.push, ← hr.current, update_self] at hself ⊢
    rw [ownByte_push]
    exact hself
  | asDestroy pid =>
    have hsep := hr.separated.asDestroy hx
    obtain ⟨as, tlb, as', hvm, -, -, -, -, -, hcur, -, hcase⟩ := Machine.exec_asDestroy hx
    obtain ⟨p, hperm⟩ := Machine.perm_spaces_asDestroy (by rw [hvm]) hcur hcase
    refine ⟨hsep, hr.current.trans hcur.symm, fun q hq va => ?_⟩
    rw [hvm]
    exact hr.bytes q (hperm.mem_iff.mpr (.tail _ hq)) va

end

/-- **A run**: each process has in its pages what its own history has. -/
theorem of_run {m₀ : Machine} {acts : List Action} (hb : m₀.Booted)
    (hr : Run (Machine.Step Machine.Private) m₀ acts m) :
    Remembers (.after m₀.current acts) m := by
  refine hr.history (R := fun acts m => Remembers (.after m₀.current acts) m) (.of_booted hb) ?_
  intro acts s a t hrem ht
  have := hrem.step ht.1 ht.2
  rwa [History.after, List.foldl_append]

theorem load {va : Nat} {v : UInt8} (hr : Remembers h m)
    (hx : m.exec (.run (.load va v)) = some m') : v = ownByte (h.own h.current) va := by
  obtain ⟨huser, hexec, -⟩ := Machine.exec_run hx
  obtain ⟨-, -, te, hte, rfl⟩ := exec_load hexec
  cases has : m.vm.as with
  | none => exact absurd (huser has) (by simp [Event.isUser])
  | some as =>
    have hself := hr.self has va
    rw [← userByte_eq_spaceByte has,
      userByte_hit (hr.separated.isolated.sound (by simp [has])) hte] at hself
    rw [hr.current]
    exact hself

end Remembers

end OsPaging.Vm
