import OsPaging.Lib.Run
import OsPaging.Vm.Ready

/-!
# The system: one process and the kernel around it

A state is the VM state together with the live results of `alloc_kpages`. The events are the user
accesses that hit the TLB, the calls of `vm_fault`, `alloc_kpages` and `free_kpages`, and the
kernel's own writes to the pages it holds. `Sys.exec` runs one event; it gives no state when the
code panics or the event is not one of this state (an access that misses the TLB, a `free_kpages`
of an address that is not live).

A byte is read and written at a time: a word lies in one page, so a word access is one access for
each of its bytes through the same TLB entry.

A run starts at a state that `boot` leaves: `coremap_init`, `swap_init` and the counters have
been set up, no TLB entry is valid, and the process has its regions and an empty page table.
-/

namespace OsPaging.Vm

open OsPaging.Lib Function

variable {va n : Nat} {v : UInt8}

/-! ## States and events -/

/-- `held` has the address and the size of each live result of `alloc_kpages`. -/
structure Sys where
  vm : VmState
  held : List (Nat × Nat)

inductive Event
  /-- The user reads `v` at `va`. -/
  | load (va : Nat) (v : UInt8)
  /-- The user writes `v` at `va`. -/
  | store (va : Nat) (v : UInt8)
  /-- `vm_fault`, with the number of pages that the `kmalloc` of `pt_add` asks for if the fault
  reaches it. -/
  | fault (faulttype va kpages : Nat)
  /-- `alloc_kpages`, of one page or more. -/
  | kalloc (npages : Nat)
  /-- `free_kpages` of a live result. -/
  | kfree (addr : Nat)
  /-- The kernel writes `v` in a page it holds. -/
  | kwrite (paddr : Nat) (v : UInt8)
deriving DecidableEq, Repr

/-- The physical addresses of a block. -/
def blockHas (block : Nat × Nat) (paddr : Nat) : Bool :=
  decide (kvaddrFrame block.1 * pageSize ≤ paddr ∧
    paddr < (kvaddrFrame block.1 + block.2) * pageSize)

/-- Run one event. -/
def Sys.exec (s : Sys) : Event → Option Sys
  | .load va v =>
    match tlbAccess s.vm.tlb va false with
    | .hit paddr => if va < userSpaceTop ∧ s.vm.ram paddr = v then some s else none
    | _ => none
  | .store va v =>
    match tlbAccess s.vm.tlb va true with
    | .hit paddr =>
      if va < userSpaceTop then
        some { s with vm := { s.vm with ram := update s.vm.ram paddr v } }
      else none
    | _ => none
  | .fault faulttype va kpages =>
    match vmFault s.vm faulttype va kpages with
    | .ok (_, addrs, vm) => some { vm := vm, held := addrs.map (·, 1) ++ s.held }
    | .error _ => none
  | .kalloc npages =>
    if 0 < npages ∧ npages < wordSize then
      match allocKpages s.vm npages with
      | .ok (addr, vm) =>
        some { vm := vm, held := if addr = 0 then s.held else (addr, npages) :: s.held }
      | .error _ => none
    else none
  | .kfree addr =>
    match s.held.find? fun b => b.1 == addr with
    | some b =>
      match freeKpages s.vm addr with
      | .ok vm => some { vm := vm, held := s.held.erase b }
      | .error _ => none
    | none => none
  | .kwrite paddr v =>
    if s.held.any (blockHas · paddr) then
      some { s with vm := { s.vm with ram := update s.vm.ram paddr v } }
    else none

/-- A condition on the faults (address, and pages asked for in `pt_add`) and on the kernel requests
(pages). -/
def Event.Meets (fault : Nat → Nat → Prop) (kalloc : Nat → Prop) : Event → Prop
  | .fault _ va kpages => fault va kpages
  | .kalloc npages => kalloc npages
  | _ => True

instance (fault : Nat → Nat → Prop) (kalloc : Nat → Prop)
    [∀ va kpages, Decidable (fault va kpages)] [∀ npages, Decidable (kalloc npages)] :
    ∀ e : Event, Decidable (e.Meets fault kalloc)
  | .fault _ va kpages => inferInstanceAs (Decidable (fault va kpages))
  | .kalloc npages => inferInstanceAs (Decidable (kalloc npages))
  | .load _ _ => .isTrue trivial
  | .store _ _ => .isTrue trivial
  | .kfree _ => .isTrue trivial
  | .kwrite _ _ => .isTrue trivial

/-- The accesses of user mode. -/
def Event.isUser : Event → Bool
  | .load _ _ => true
  | .store _ _ => true
  | _ => false

/-- One event that `allowed` admits in the state it starts from. -/
def Sys.Step (allowed : Sys → Event → Prop) (s : Sys) (e : Event) (t : Sys) : Prop :=
  allowed s e ∧ s.exec e = some t

/-! ## Boot -/

/-- The machine before `coremap_init`: the statics are zero, the boot allocator is above the
exception handlers, no TLB entry is valid and no process has an address space. -/
structure PowerOn (s : VmState) : Prop where
  victim : s.nextVictim = 0
  tlbVictim : s.tlbNextVictim = 0
  first : 0 < s.firstpaddr
  last : s.lastpaddr ≤ ramMax
  tlb : ∀ i < numTlb, (s.tlb i).valid = false
  as : s.as = none

/-- `coremap_init`, `swap_init` and `stats_init`, and a process with its regions defined. -/
def boot (s : VmState) (regions : List Region) : Except Panic Sys :=
  match coremapInit s with
  | .error p => .error p
  | .ok s =>
    .ok ⟨{ swapInit s with stats := statsInit, as := some ⟨regions, ptInit⟩ }, []⟩

/-- The states a run starts from. -/
def Booted (s : Sys) : Prop := ∃ s₀ regions, PowerOn s₀ ∧ boot s₀ regions = .ok s

/-! ## What each event has done -/

section Exec

attribute [local simp] Sys.exec -- unfolded in each lemma below

variable {s t : Sys}

theorem tlbAccess_hit {tlb : Nat → TlbEntry} {paddr : Nat} {write : Bool}
    (h : tlbAccess tlb va write = .hit paddr) :
    ∃ e, tlbHit tlb va = some e ∧ paddr = e.ppage + va % pageSize := by
  unfold tlbAccess at h
  grind

theorem exec_load (h : s.exec (.load va v) = some t) :
    t = s ∧ va < userSpaceTop ∧
      ∃ e, tlbHit s.vm.tlb va = some e ∧ s.vm.ram (e.ppage + va % pageSize) = v := by
  simp only [Sys.exec] at h
  split at h
  · rename_i paddr hp
    obtain ⟨e, he, rfl⟩ := tlbAccess_hit hp
    grind
  · cases h

theorem exec_store (h : s.exec (.store va v) = some t) :
    va < userSpaceTop ∧ ∃ e, tlbHit s.vm.tlb va = some e ∧
      t = { s with vm := { s.vm with
        ram := update s.vm.ram (e.ppage + va % pageSize) v } } := by
  simp only [Sys.exec] at h
  split at h
  · rename_i paddr hp
    obtain ⟨e, he, rfl⟩ := tlbAccess_hit hp
    grind
  · cases h

theorem exec_fault {faulttype kpages : Nat} (h : s.exec (.fault faulttype va kpages) = some t) :
    ∃ err addrs, vmFault s.vm faulttype va kpages = .ok (err, addrs, t.vm) ∧
      t.held = addrs.map (·, 1) ++ s.held := by
  simp only [Sys.exec] at h
  grind

theorem exec_kalloc {npages : Nat} (h : s.exec (.kalloc npages) = some t) :
    0 < npages ∧ npages < wordSize ∧ ∃ addr, allocKpages s.vm npages = .ok (addr, t.vm) ∧
      t.held = if addr = 0 then s.held else (addr, npages) :: s.held := by
  simp only [Sys.exec] at h
  grind

theorem exec_kfree {addr : Nat} (h : s.exec (.kfree addr) = some t) :
    ∃ n, (addr, n) ∈ s.held ∧ freeKpages s.vm addr = .ok t.vm ∧
      t.held = s.held.erase (addr, n) := by
  simp only [Sys.exec] at h
  grind

theorem exec_kwrite {paddr : Nat} (h : s.exec (.kwrite paddr v) = some t) :
    (∃ b ∈ s.held, blockHas b paddr = true) ∧
      t = { s with vm := { s.vm with ram := update s.vm.ram paddr v } } := by
  simp only [Sys.exec] at h
  grind

theorem exec_cases {e : Event} (h : s.exec e = some t) :
    (∃ m, t = { s with vm := { s.vm with ram := m } }) ∨
      (∃ faulttype va kpages err addrs, e = .fault faulttype va kpages ∧
        vmFault s.vm faulttype va kpages = .ok (err, addrs, t.vm) ∧
        t.held = addrs.map (·, 1) ++ s.held) ∨
      (∃ npages addr, e = .kalloc npages ∧ 0 < npages ∧ npages < wordSize ∧
        allocKpages s.vm npages = .ok (addr, t.vm) ∧
        t.held = if addr = 0 then s.held else (addr, npages) :: s.held) ∨
      ∃ addr n, e = .kfree addr ∧ (addr, n) ∈ s.held ∧ freeKpages s.vm addr = .ok t.vm ∧
        t.held = s.held.erase (addr, n) := by
  cases e with
  | load va v => exact .inl ⟨s.vm.ram, (exec_load h).1⟩
  | store va v =>
    obtain ⟨-, _, -, ht⟩ := exec_store h
    exact .inl ⟨_, ht⟩
  | fault faulttype va kpages =>
    obtain ⟨err, addrs, hf⟩ := exec_fault h
    exact .inr (.inl ⟨faulttype, va, kpages, err, addrs, rfl, hf⟩)
  | kalloc npages =>
    obtain ⟨hn, hlt, addr, ha⟩ := exec_kalloc h
    exact .inr (.inr (.inl ⟨npages, addr, rfl, hn, hlt, ha⟩))
  | kfree addr =>
    obtain ⟨n, hf⟩ := exec_kfree h
    exact .inr (.inr (.inr ⟨addr, n, rfl, hf⟩))
  | kwrite paddr v => exact .inl ⟨_, (exec_kwrite h).2⟩

/-- **The rule for events**: of what the allocators keep, RAM and the faults are left to show. -/
theorem AllocStable.exec {I : VmState → Prop} {e : Event} (hI : AllocStable I) (hs : Started s.vm)
    (h : I s.vm) (hram : ∀ m, I { s.vm with ram := m })
    (hfault : ∀ faulttype va kpages addrs as, e = .fault faulttype va kpages →
      s.vm.as = some as → as.validAddress va = true →
      Faulted s.vm (pageFrame va) kpages addrs t.vm → I t.vm)
    (hx : s.exec e = some t) : I t.vm := by
  rcases exec_cases hx with ⟨m, rfl⟩ | ⟨faulttype, va, kpages, err, addrs, rfl, hf, -⟩ |
    ⟨npages, addr, -, -, -, ha, -⟩ | ⟨addr, n, -, -, hf, -⟩
  · exact hram m
  · rcases vmFault_ok hs.pointer hf with ⟨-, -, ht⟩ | ⟨-, ⟨as, has, hv⟩, hf⟩
    · rw [ht]; exact h
    · exact hfault _ va _ _ as rfl has hv hf
  · exact hI.allocKpages hs h ha
  · exact hI.freeKpages hs h hf

/-- Every event keeps the constants, and whether there is a page table. -/
theorem exec_started {e : Event} (hs : Started s.vm) (h : s.exec e = some t) :
    Started t.vm ∧ SameConstants s.vm t.vm :=
  (Started.stable.and (SameConstants.stable s.vm)).exec hs ⟨hs, .refl _⟩
    (fun _ => ⟨hs.same ⟨rfl, rfl, rfl, rfl, rfl, rfl⟩, rfl, rfl, rfl, rfl⟩)
    (fun _ _ _ _ _ _ _ _ => hs.faulted) h

end Exec

/-! ## The state after boot -/

theorem pagesFor_pos (h : 0 < n) : 0 < pagesFor n := by
  unfold pagesFor
  simp only [pageSize]
  split <;> omega

/-- What `coremap_init` has done, above the exception handlers. -/
theorem coremapInit_ok {s₀ s : VmState} (hp : PowerOn s₀) (h : coremapInit s₀ = .ok s) :
    ∃ kernelpages coremapPages, kernelpages = pagesFor s₀.firstpaddr ∧ 0 < kernelpages ∧
      0 < coremapPages ∧ kernelpages + coremapPages ≤ s₀.lastpaddr / pageSize ∧
      s = { s₀ with
        nRamFrames := s₀.lastpaddr / pageSize
        firstpaddr := 0
        lastpaddr := 0
        coremap := coremapInitEntry s₀.coremap kernelpages coremapPages (s₀.lastpaddr / pageSize)
        firstFreeFrame := kernelpages + coremapPages
        allocTableActive := true } := by
  have hk := pagesFor_pos hp.first
  unfold coremapInit at h
  simp only at h
  split_ifs at h with h1 h2
  · omega
  · simp only [Except.ok.injEq] at h
    refine ⟨_, _, rfl, hk, pagesFor_pos ?_, not_lt.mp h1, h.symm⟩
    simp only [coremapEntrySize]
    omega

/-- The kernel runs on the coremap from here on: its own frames are `FIXED`, every other frame of
RAM is `CLEAN` with size `0`. -/
theorem coremapInit_spec {s₀ s : VmState} (hp : PowerOn s₀) (h : coremapInit s₀ = .ok s) :
    Started s ∧ s.as = none ∧ (∀ f < s.firstFreeFrame, (s.coremap f).status = .fixed) ∧
      ∀ f, s.firstFreeFrame ≤ f → f < s.nRamFrames →
        (s.coremap f).status = .clean ∧ (s.coremap f).size = 0 := by
  obtain ⟨k, c, -, hk, -, -, rfl⟩ := coremapInit_ok hp h
  have hlast := hp.last
  refine ⟨⟨rfl, ?_, ?_, Or.inl hp.victim⟩, hp.as, fun f hf => ?_, fun f h1 h2 => ?_⟩
  · simp only
    omega
  · simp only [pageSize, ramMax] at *
    omega
  · simp only at hf ⊢
    unfold coremapInitEntry
    split_ifs <;> rfl
  · simp only at h1 h2 ⊢
    unfold coremapInitEntry
    grind

/-- What `boot` leaves: beside the coremap, the swap table is empty, and so are the page table and
the TLB. -/
theorem booted_spec {s : Sys} (h : Booted s) :
    Ready s.vm ∧ s.held = [] ∧ s.vm.as.isSome ∧ s.vm.entries = [] ∧ s.vm.npages = 0 ∧
      s.vm.stats = statsInit ∧ (∀ i, s.vm.swaptable i = true) ∧ s.vm.tlbNextVictim = 0 ∧
      (∀ i < numTlb, (s.vm.tlb i).valid = false) ∧
      (∀ f < s.vm.firstFreeFrame, (s.vm.coremap f).status = .fixed) ∧
      ∀ f, s.vm.firstFreeFrame ≤ f → f < s.vm.nRamFrames →
        (s.vm.coremap f).status = .clean ∧ (s.vm.coremap f).size = 0 := by
  obtain ⟨s₀, regions, hp, hb⟩ := h
  unfold boot at hb
  split at hb
  · cases hb
  · rename_i s₁ hi
    simp only [Except.ok.injEq] at hb
    subst hb
    obtain ⟨hs, -, hfix, hclean⟩ := coremapInit_spec hp hi
    obtain ⟨_, _, -, -, -, -, rfl⟩ := coremapInit_ok hp hi
    exact ⟨⟨{ hs with }, PtWf.nil⟩, rfl, rfl, rfl, rfl, rfl,
      fun _ => rfl, hp.tlbVictim, hp.tlb, hfix, hclean⟩

/-! ## A small machine -/

/-- A machine with `n` frames of RAM, the first of them the kernel's, at power on. -/
def smallMachine (n : Nat) : VmState where
  ram := fun _ => 0
  firstpaddr := pageSize
  lastpaddr := n * pageSize
  coremap := fun _ => { status := .free, paddr := 0, vaddr := 0, size := 0 }
  nRamFrames := 0
  firstFreeFrame := 0
  allocTableActive := false
  nextVictim := 0
  swaptable := fun _ => true
  swapspace := fun _ => 0
  vop := fun _ => 0
  nvop := 0
  tlb := fun i => ⟨tlbhiInvalid i, tlbloInvalid⟩
  tlbNextVictim := 0
  stats := statsInit
  as := none

/-- `smallMachine n` after `coremap_init`; with at most 256 frames the coremap takes one page. -/
def smallVm (n : Nat) : VmState :=
  { smallMachine n with
    firstpaddr := 0
    lastpaddr := 0
    nRamFrames := n
    coremap := coremapInitEntry (smallMachine n).coremap 1 1 n
    firstFreeFrame := 2
    allocTableActive := true }

/-- `smallMachine n` after `boot`. -/
def smallSys (n : Nat) (regions : List Region) : Sys where
  vm := { smallVm n with as := some ⟨regions, ptInit⟩ }
  held := []

theorem powerOn_smallMachine (h : n ≤ 256) : PowerOn (smallMachine n) := by
  refine ⟨rfl, rfl, Nat.zero_lt_succ _, ?_, fun i _ => valid_invalid _, rfl⟩
  simp only [smallMachine, pageSize, ramMax]
  omega

theorem coremapInit_smallMachine (h1 : 2 ≤ n) (h2 : n ≤ 256) :
    coremapInit (smallMachine n) = .ok (smallVm n) := by
  have hdiv : (smallMachine n).lastpaddr / pageSize = n := Nat.mul_div_cancel n (by decide)
  have hk : pagesFor (smallMachine n).firstpaddr = 1 := by
    simp [smallMachine, pagesFor]
  have hc : pagesFor (n * coremapEntrySize) = 1 := by
    unfold pagesFor
    grind
  unfold coremapInit
  simp only [hdiv, hk, hc]
  rw [if_neg (by omega), if_neg (by omega)]
  rfl

theorem booted_smallSys (h1 : 2 ≤ n) (h2 : n ≤ 256) (regions : List Region) :
    Booted (smallSys n regions) := by
  refine ⟨smallMachine n, regions, powerOn_smallMachine h2, ?_⟩
  unfold boot
  rw [coremapInit_smallMachine h1 h2]
  rfl

/-- Run a list of events, each admitted by `allowed`. -/
def Sys.runAll (allowed : Sys → Event → Prop) [∀ s e, Decidable (allowed s e)] (s : Sys)
    (es : List Event) : Option Sys :=
  es.foldlM (fun s e => if allowed s e then s.exec e else none) s

/-- A run to a state with a property that can be evaluated. -/
theorem Sys.exists_run {allowed : Sys → Event → Prop} [∀ s e, Decidable (allowed s e)] {s : Sys}
    {es : List Event} {p : Sys → Bool} (h : (s.runAll allowed es).any p = true) :
    ∃ t, Run (Sys.Step allowed) s es t ∧ p t = true :=
  Run.exists_of_allowed h

end OsPaging.Vm
