import OsPaging.Vm.Accesses
import OsPaging.Vm.Isolation

/-!
# The pages of all processes

`Apart s spaces` is `Coherent` for all page tables at once: the frames of the resident pages are
pairwise distinct, they are exactly the `DIRTY` frames, and the slots of the others are distinct
and occupied. It does not say which process runs, so a switch keeps it; an event of the running
process keeps it because it spares the frames and the slots of the others (`Apart.exec`).

That needs a frame of a process that does not run never to be taken. The victim search does not
look whose frame it takes; the branches assert that the running process has an entry for the
victim's address that names its frame. An entry that is swapped out still names its last frame, and
that frame may have gone to another process, for a page at the same address: then the assertions
pass, and the other's page is written to the slot. `Machine.Unaliased` says that there is no such
entry.
-/

namespace OsPaging.Vm

open OsPaging.Lib

/-- The frames that the pages of the processes are in. -/
def framesIn (spaces : List (Nat × AddrSpace)) : List Nat :=
  spaces.flatMap fun p => framesOf p.2.pt.entries

/-- The slots that they are in. -/
def slotsIn (spaces : List (Nat × AddrSpace)) : List Nat :=
  spaces.flatMap fun p => slotsOf p.2.pt.entries

theorem mem_framesIn {spaces : List (Nat × AddrSpace)} {f : Nat} :
    f ∈ framesIn spaces ↔ ∃ p ∈ spaces, ∃ e ∈ p.2.pt.entries, e.swapped = false ∧
      e.ppageIndex = f := by
  unfold framesIn
  simp only [List.mem_flatMap, mem_framesOf]

theorem framesOf_eq (es : List PtEntry) :
    framesOf es = (es.filter fun e => !e.swapped).map PtEntry.ppageIndex := by
  unfold framesOf PtEntry.frames
  induction es with
  | nil => rfl
  | cons e es ih =>
    grind

theorem Coherent.framesOf_nodup {P : Set Nat} {s : VmState} (h : Coherent P s) :
    (framesOf s.entries).Nodup := by
  rw [framesOf_eq]
  refine List.Nodup.map_on (fun e he x hx hf => ?_) (h.table.distinct.of_map.filter _)
  rw [List.mem_filter] at he hx
  exact h.eq_of_frame he.1 hx.1 (by simpa using he.2) (by simpa using hx.2) hf

/-- The page table of one process and the coremap agree. -/
structure Mapped (s : VmState) (as : AddrSpace) : Prop where
  table : PtWf as.pt.entries
  count : as.pt.npages = as.pt.entries.length
  frames : ∀ e ∈ as.pt.entries, s.firstFreeFrame ≤ e.ppageIndex ∧ e.ppageIndex < s.nRamFrames
  resident : ∀ e ∈ as.pt.entries, e.swapped = false →
    (s.coremap e.ppageIndex).status = .dirty ∧ (s.coremap e.ppageIndex).vaddr = e.vaddr

/-- The page tables of all processes, the coremap and the swap table agree. -/
structure Apart (s : VmState) (spaces : List (Nat × AddrSpace)) : Prop where
  started : Started s
  kernel : ∀ f < s.firstFreeFrame, (s.coremap f).status = .fixed
  sizes : ∀ f, s.firstFreeFrame ≤ f → f < s.nRamFrames → f + (s.coremap f).size ≤ s.nRamFrames
  paddrs : ∀ f, s.firstFreeFrame ≤ f → f < s.nRamFrames → (s.coremap f).status = .dirty →
    (s.coremap f).paddr = f * pageSize
  mapped : ∀ p ∈ spaces, Mapped s p.2
  owned : ∀ f, s.firstFreeFrame ≤ f → f < s.nRamFrames → (s.coremap f).status = .dirty →
    f ∈ framesIn spaces
  distinct : (framesIn spaces).Nodup
  slots : (slotsIn spaces).Nodup
  full : ∀ i ∈ slotsIn spaces, i < swapSlots ∧ s.swaptable i = false

namespace Apart

variable {s t : VmState} {spaces spaces' rest : List (Nat × AddrSpace)} {as as' : AddrSpace}
  {pid : Nat}

theorem perm (h : Apart s spaces) (hp : spaces.Perm spaces') : Apart s spaces' := by
  have hf : (framesIn spaces).Perm (framesIn spaces') := hp.flatMap_right _
  have hs : (slotsIn spaces).Perm (slotsIn spaces') := hp.flatMap_right _
  exact ⟨h.started, h.kernel, h.sizes, h.paddrs, fun p hm => h.mapped p (hp.mem_iff.mpr hm),
    fun f h1 h2 hd => hf.mem_iff.mp (h.owned f h1 h2 hd), hf.nodup_iff.mp h.distinct,
    hs.nodup_iff.mp h.slots, fun i hi => h.full i (hs.mem_iff.mpr hi)⟩

theorem with_as (h : Apart s spaces) (x : Option AddrSpace) : Apart { s with as := x } spaces :=
  { h with started := { h.started with }, mapped := fun p hp => { h.mapped p hp with } }

theorem cons_empty (he : as.pt = ptInit) : Apart s ((pid, as) :: spaces) ↔ Apart s spaces := by
  have hf : framesIn ((pid, as) :: spaces) = framesIn spaces := by
    simp [framesIn, he, ptInit, framesOf]
  have hs : slotsIn ((pid, as) :: spaces) = slotsIn spaces := by
    simp [slotsIn, he, ptInit, slotsOf]
  have hm : Mapped s as := by
    refine ⟨?_, ?_, ?_, ?_⟩ <;> simp [he, ptInit, PtWf.nil]
  constructor
  · intro h
    exact { h with
      mapped := fun p hp => h.mapped p (.tail _ hp), owned := hf ▸ h.owned
      distinct := hf ▸ h.distinct, slots := hs ▸ h.slots, full := hs ▸ h.full }
  · intro h
    exact { h with
      mapped := List.forall_mem_cons.mpr ⟨hm, h.mapped⟩, owned := hf ▸ h.owned
      distinct := hf ▸ h.distinct, slots := hs ▸ h.slots, full := hs ▸ h.full }

/-- For the running process, the frames of the others are the pending ones. -/
theorem coherent (h : Apart s ((pid, as) :: rest)) (has : s.as = some as) :
    Coherent {f | f ∈ framesIn rest} s ∧ Slots (slotsIn rest) s := by
  have hes : s.entries = as.pt.entries := by simp [VmState.entries, has]
  have hf : framesIn ((pid, as) :: rest) = framesOf s.entries ++ framesIn rest := by
    rw [hes]
    rfl
  have hs : slotsIn ((pid, as) :: rest) = slotsOf s.entries ++ slotsIn rest := by
    rw [hes]
    rfl
  have hm : Mapped s as := h.mapped _ List.mem_cons_self
  have hdis := (List.nodup_append.mp (hf ▸ h.distinct)).2.2
  refine ⟨⟨⟨⟨h.started, hes ▸ hm.table⟩, by simp [has], h.kernel, ?_, hes ▸ hm.frames, h.sizes,
    h.paddrs, fun f h1 h2 hd hP => ?_⟩, fun e he hes' => ?_⟩, hs ▸ h.slots, hs ▸ h.full⟩
  · rw [hes, ← hm.count]
    simp [VmState.npages, has]
  · have hmem := h.owned f h1 h2 hd
    rw [hf] at hmem
    rcases List.mem_append.mp hmem with hmem | hmem
    · obtain ⟨e, he, hsw, hef⟩ := mem_framesOf.mp hmem
      refine ⟨e, he, hsw, hef, ?_⟩
      rw [← hef]
      exact (hm.resident e (hes ▸ he) hsw).2.symm
    · exact absurd hmem hP
  · obtain ⟨hd, hv⟩ := hm.resident e (hes ▸ he) hes'
    exact ⟨hd, hv, fun hP => hdis _ (mem_framesOf.mpr ⟨e, he, hes', rfl⟩) _ hP rfl⟩

theorem dirty (h : Apart s spaces) : ∀ f ∈ framesIn spaces, (s.coremap f).status = .dirty := by
  intro f hf
  obtain ⟨p, hp, e, he, hs, rfl⟩ := mem_framesIn.mp hf
  exact ((h.mapped p hp).resident e he hs).1

/-- And back, after an event of the running process that spared the others. -/
theorem of_coherent (h : Apart s ((pid, as) :: rest)) (has : t.as = some as')
    (hc : SameConstants s t) (hco : Coherent {f | f ∈ framesIn rest} t)
    (hsl : Slots (slotsIn rest) t) (hsp : Spares {f | f ∈ framesIn rest} (slotsIn rest) s t) :
    Apart t ((pid, as') :: rest) := by
  have hes : t.entries = as'.pt.entries := by simp [VmState.entries, has]
  have hf : framesIn ((pid, as') :: rest) = framesOf t.entries ++ framesIn rest := by
    rw [hes]
    rfl
  have hs : slotsIn ((pid, as') :: rest) = slotsOf t.entries ++ slotsIn rest := by
    rw [hes]
    rfl
  have hrest : (framesIn rest).Nodup := by
    have := h.distinct
    unfold framesIn at this ⊢
    grind
  refine ⟨hco.toStarted, hco.kernel, hco.sizes, hco.paddrs, fun p hp => ?_, fun f h1 h2 hd => ?_,
    ?_, hs ▸ hsl.nodup, hs ▸ hsl.full⟩
  · rcases List.mem_cons.mp hp with rfl | hp
    · refine ⟨hes ▸ hco.table, ?_, hes ▸ hco.frames, fun e he hsw => ?_⟩
      · rw [← hes, ← hco.count]
        simp [VmState.npages, has]
      · obtain ⟨hd, hv, -⟩ := hco.resident e (hes.symm ▸ he) hsw
        exact ⟨hd, hv⟩
    · obtain ⟨htab, hcount, hfr, hres⟩ := h.mapped p (.tail _ hp)
      refine ⟨htab, hcount, by rw [hc.first, hc.nRam]; exact hfr, fun e he hsw => ?_⟩
      rw [hsp.coremap _ (mem_framesIn.mpr ⟨p, hp, e, he, hsw, rfl⟩)]
      exact hres e he hsw
  · rw [hf, List.mem_append]
    by_cases hP : f ∈ framesIn rest
    · exact Or.inr hP
    · obtain ⟨e, he, hsw, hef, -⟩ := hco.linked f h1 h2 hd hP
      exact Or.inl (mem_framesOf.mpr ⟨e, he, hsw, hef⟩)
  · rw [hf]
    refine List.nodup_append.mpr ⟨hco.framesOf_nodup, hrest, fun f hf' g hg hfg => ?_⟩
    obtain ⟨e, he, hsw, rfl⟩ := mem_framesOf.mp hf'
    exact (hco.resident e he hsw).2.2 (hfg ▸ hg)

/-- `as_destroy` frees the frames and the slots of one process. -/
theorem destroy (h : Apart s ((pid, as) :: rest)) (tlb : Nat → TlbEntry)
    (x : Option AddrSpace) :
    Apart { unmapped s as.pt.entries with tlb := tlb, as := x } rest := by
  have hf : framesIn ((pid, as) :: rest) = framesOf as.pt.entries ++ framesIn rest := rfl
  have hs : slotsIn ((pid, as) :: rest) = slotsOf as.pt.entries ++ slotsIn rest := rfl
  obtain ⟨-, hnd, hdis⟩ := List.nodup_append.mp (hf ▸ h.distinct)
  obtain ⟨-, hsd, hsdis⟩ := List.nodup_append.mp (hs ▸ h.slots)
  have hkept : ∀ f ∈ framesIn rest, f ∉ framesOf as.pt.entries := fun f hfr hfo =>
    hdis f hfo f hfr rfl
  refine ⟨{ h.started with },
    fun f hlt => ?_, fun f h1 h2 => ?_, fun f h1 h2 hd => ?_, fun p hp => ?_, fun f h1 h2 hd => ?_,
    hnd, hsd, fun i hi => ?_⟩
  · simp only [unmapped]
    rw [if_neg fun hfo => ?_]
    · exact h.kernel f hlt
    · have := h.dirty f (hf ▸ List.mem_append_left _ hfo)
      rw [h.kernel f hlt] at this
      cases this
  · simp only [unmapped]
    split_ifs
    · exact le_of_lt h2
    · exact h.sizes f h1 h2
  · simp only [unmapped] at hd ⊢
    split_ifs at hd ⊢
    exact h.paddrs f h1 h2 hd
  · obtain ⟨htab, hcount, hfr, hres⟩ := h.mapped p (.tail _ hp)
    refine ⟨htab, hcount, hfr, fun e he hsw => ?_⟩
    simp only [unmapped]
    rw [if_neg (hkept _ (mem_framesIn.mpr ⟨p, hp, e, he, hsw, rfl⟩))]
    exact hres e he hsw
  · simp only [unmapped] at hd
    split_ifs at hd with hfo
    have hmem := h.owned f h1 h2 hd
    grind
  · obtain ⟨h1, h2⟩ := h.full i (hs ▸ List.mem_append_right _ hi)
    refine ⟨h1, ?_⟩
    simp only [unmapped]
    grind

end Apart

/-! ## Bytes -/

/-- The byte at `va` in the address space `as`. -/
def VmState.spaceByte (s : VmState) (as : AddrSpace) (va : Nat) : Option UInt8 :=
  (as.pt.entries.find? (ptMatch va)).map fun e => s.entryByte e (va % pageSize)

theorem userByte_eq_spaceByte {s : VmState} {as : AddrSpace} (has : s.as = some as) (va : Nat) :
    s.userByte va = s.spaceByte as va := by
  simp [VmState.userByte, VmState.spaceByte, VmState.entries, has]

/-- What spares the frames and the slots of a process spares its bytes. -/
theorem Spares.spaceByte {s t : VmState} {rest : List (Nat × AddrSpace)} {p : Nat × AddrSpace}
    (h : Spares {f | f ∈ framesIn rest} (slotsIn rest) s t) (hp : p ∈ rest) (va : Nat) :
    t.spaceByte p.2 va = s.spaceByte p.2 va := by
  unfold VmState.spaceByte
  cases hf : p.2.pt.entries.find? (ptMatch va) with
  | none => rfl
  | some e =>
    have he := List.mem_of_find?_eq_some hf
    simp only [Option.map_some, Option.some.injEq]
    unfold VmState.entryByte
    split
    · rename_i hsw
      exact h.swap _ (List.mem_flatMap.mpr ⟨p, hp, mem_slotsOf.mpr ⟨e, he, hsw, rfl⟩⟩) _
        (offset_lt va)
    · rename_i hsw
      exact h.ram _ (mem_framesIn.mpr ⟨p, hp, e, he, by simpa using hsw, rfl⟩) _ (offset_lt va)

/-! ## Events -/

theorem freeRunFrom_congr {s t : VmState} (h : t.coremap = s.coremap) (npages : Nat) :
    ∀ fuel i freePages,
      freeRunFrom t npages fuel i freePages = freeRunFrom s npages fuel i freePages
  | 0, _, _ => rfl
  | fuel + 1, i, freePages => by
    simp only [freeRunFrom, h, freeRunFrom_congr h npages fuel]

theorem releaseFrames_as (s : VmState) (as : Option AddrSpace) (first n : Nat) :
    releaseFrames { s with as := as } first n = { releaseFrames s first n with as := as } := by
  induction n with
  | zero => rfl
  | succ n ih =>
    simp only [releaseFrames, ih]
    rfl

/-- A kernel thread's request is served by a free run: the swap-out branch needs a page table. -/
theorem allocKpages_idle_ok {s s' : VmState} {n addr : Nat} (hs : Started s) (has : s.as = none)
    (hn : 0 < n) (h : allocKpages s n = .ok (addr, s')) :
    ∃ index, freeRun s n = some index ∧ s' = kernelBlock s index n ∧
      addr = if index * pageSize = 0 then 0 else paddrToKvaddr (index * pageSize) := by
  obtain ⟨pa, hg, haddr⟩ := allocKpages_ok h
  rcases getppages_ok hs.active hg with ⟨index, hr, rfl, rfl⟩ | ⟨v, s₁, s₂, -, hsel, hrun, -, -⟩
  · exact ⟨index, hr, rfl, haddr⟩
  · obtain ⟨-, ⟨next, rfl, -⟩, -⟩ := victimSelection_spec hs.pointer hsel
    obtain ⟨-, rfl⟩ := swapOutRun_ind (I := fun i t => t.as = none ∧ i = 0)
      (s := { s with nextVictim := next }) ⟨has, rfl⟩
      (fun i t t' f hI _ hout => by
        obtain ⟨_, _, _, -, hsome, -⟩ := swapOutVictim_ok hout
        rw [hI.1] at hsome
        exact absurd hsome (by simp)) hrun
    cases hn

theorem allocKpages_idle {s s' : VmState} {n addr : Nat} (hs : Started s) (has : s.as = none)
    (hn : 0 < n) (h : allocKpages s n = .ok (addr, s')) (as : Option AddrSpace) :
    allocKpages { s with as := as } n = .ok (addr, { s' with as := as }) := by
  obtain ⟨index, hr, rfl, haddr⟩ := allocKpages_idle_ok hs has hn h
  have hr' : freeRun { s with as := as } n = some index := by
    rw [← hr]
    simp only [freeRun, freeRunFrom_congr (s := s) (t := { s with as := as }) rfl]
  unfold allocKpages getppages
  rw [if_neg (by simp [hs.active]), hr', haddr]
  simp only
  split_ifs <;> rfl

theorem freeKpages_idle {s s' : VmState} {addr : Nat} (h : freeKpages s addr = .ok s')
    (as : Option AddrSpace) :
    freeKpages { s with as := as } addr = .ok { s' with as := as } := by
  unfold freeKpages at h ⊢
  split_ifs at h ⊢
  · cases h
    rfl
  · cases h
    rw [releaseFrames_as]

/-- The system with another running process. -/
def Sys.inSpace (s : Sys) (as : AddrSpace) : Sys := { s with vm := { s.vm with as := some as } }

/-- An event of a kernel thread is an event of any process, or it does nothing. -/
theorem exec_idle {s t : Sys} {e : Event} (hs : Started s.vm) (has : s.vm.as = none)
    (hu : e.isUser = false) (hx : s.exec e = some t) (as : AddrSpace) :
    t = s ∨ (∀ faulttype va kpages, e ≠ .fault faulttype va kpages) ∧
      (s.inSpace as).exec e = some (t.inSpace as) := by
  cases e with
  | load va v | store va v => exact absurd hu (by simp [Event.isUser])
  | fault faulttype va kpages =>
    left
    simp only [Sys.exec, vmFault, has] at hx
    exact (Option.some.inj hx).symm
  | kalloc npages =>
    refine Or.inr ⟨by simp, ?_⟩
    obtain ⟨hn, hw, addr, ha, hheld⟩ := exec_kalloc hx
    have ha' := allocKpages_idle hs has hn ha (some as)
    simp only [Sys.exec, Sys.inSpace, hn, hw, and_self, if_true, ha', hheld]
  | kfree addr =>
    refine Or.inr ⟨by simp, ?_⟩
    simp only [Sys.exec] at hx ⊢
    split at hx
    · rename_i b hb
      split at hx
      · rename_i vm hf
        cases hx
        have hf' := freeKpages_idle hf (some as)
        simp only [Sys.inSpace, hb, hf']
      · cases hx
    · cases hx
  | kwrite paddr v =>
    refine Or.inr ⟨by simp, ?_⟩
    obtain ⟨⟨b, hb, hp⟩, rfl⟩ := exec_kwrite hx
    have hany : s.held.any (blockHas · paddr) = true := List.any_eq_true.mpr ⟨b, hb, hp⟩
    simp only [Sys.exec, Sys.inSpace, hany, if_true]

/-- An event of a process, with the frames of the others reserved for the allocators. -/
theorem Apart.exec {s t : Sys} {e : Event} {pid : Nat} {as : AddrSpace}
    {rest : List (Nat × AddrSpace)} (h : Apart s.vm ((pid, as) :: rest)) (has : s.vm.as = some as)
    (hblocks : Blocks s.vm s.held) (ht : e.isUser = true → Sound s.vm)
    (hres : e.reserves {f | f ∈ framesIn rest} s) (hb : e.belowLastPage) (hw : e.wholeBlock s)
    (hd : e.dirtyWindow s) (hx : s.exec e = some t) :
    ∃ as', t.vm.as = some as' ∧ Apart t.vm ((pid, as') :: rest) ∧ Blocks t.vm t.held ∧
      Spares {f | f ∈ framesIn rest} (slotsIn rest) s.vm t.vm ∧ ByteStep s.vm t.vm e := by
  obtain ⟨hco, hsl⟩ := h.coherent has
  have hsys : CoherentSys {f | f ∈ framesIn rest} (slotsIn rest) s := ⟨hco, hsl, hblocks⟩
  obtain ⟨hco', hsl', hblocks'⟩ := hsys.step hres hb hw hx
  have hdirty : ∀ f ∈ framesIn rest, (s.vm.coremap f).status = .dirty := fun f hf =>
    h.dirty f (List.mem_append_right _ hf)
  obtain ⟨hsp, hstep⟩ := exec_bytes hsys hdirty hres ht hb hd hx
  obtain ⟨as', has'⟩ := Option.isSome_iff_exists.mp hco'.process
  exact ⟨as', has', h.of_coherent has' (exec_started h.started hx).2 hco' hsl' hsp, hblocks', hsp,
    hstep⟩

/-! ## The machine -/

namespace Machine

/-- No entry of the running process names the frame of another process's page at its address. -/
def Unaliased (m : Machine) : Prop :=
  ∀ p ∈ m.parked, ∀ x ∈ p.2.pt.entries, x.swapped = false →
    ∀ e ∈ m.vm.entries, e.vaddr = x.vaddr → e.ppageIndex ≠ x.ppageIndex

instance (m : Machine) : Decidable m.Unaliased :=
  inferInstanceAs (Decidable (∀ p ∈ m.parked, ∀ x ∈ p.2.pt.entries, _))

/-- The allocators are called when no entry is aliased; a kernel request for several pages finds no
free run, and no free frame in the window it selects. -/
def Unshared (m : Machine) : Action → Prop
  | .run e => e.Meets (fun _ _ => m.Unaliased) fun npages =>
      m.Unaliased ∧ WholeBlock m.vm npages ∧ DirtyWindow m.vm npages
  | _ => True

end Machine

/-- The processes' pages are apart, the kernel's blocks are whole, and the TLB is the running
process's. -/
structure Separated (m : Machine) : Prop where
  apart : Apart m.vm m.spaces
  blocks : Blocks m.vm m.held
  isolated : Isolated m
  pids : (m.current :: m.parked.map Prod.fst).Nodup

namespace Separated

variable {m m' : Machine}

theorem of_booted (h : m.Booted) : Separated m := by
  obtain ⟨⟨s₀, s, hp, hi, hvm⟩, hheld, hparked, -⟩ := id h
  obtain ⟨hs, has, hfix, hclean⟩ := coremapInit_spec hp hi
  have hspaces : m.spaces = [] := by
    have : m.vm.as = none := by rw [hvm]; exact has
    simp [Machine.spaces, this, hparked]
  refine ⟨?_, by rw [hheld]; exact .nil _, .of_booted h, by simp [hparked]⟩
  rw [hspaces, hvm]
  refine ⟨{ hs with }, hfix, fun f h1 h2 => ?_,
    fun f h1 h2 hd => ?_, by simp, fun f h1 h2 hd => ?_, by simp [framesIn], by simp [slotsIn],
    by simp [slotsIn]⟩
  · have := (hclean f h1 h2).2
    simp only [swapInit] at *
    omega
  · exact absurd hd (by simp [swapInit, (hclean f h1 h2).1])
  · exact absurd hd (by simp [swapInit, (hclean f h1 h2).1])

variable (h : Separated m)
include h

/-- The frames of the processes that do not run are reserved. -/
theorem reserved (hu : m.Unaliased) : Reserved {f | f ∈ framesIn m.parked} m.vm := by
  have hmapped : ∀ p ∈ m.parked, Mapped m.vm p.2 := fun p hp => h.apart.mapped p (by
    unfold Machine.spaces
    split
    · exact List.mem_cons_of_mem _ hp
    · exact hp)
  refine ⟨fun f hf => ?_, fun f hf e he => ?_⟩
  · obtain ⟨p, hp, x, hx, hs, rfl⟩ := mem_framesIn.mp hf
    exact ((hmapped p hp).resident x hx hs).1
  · obtain ⟨p, hp, x, hx, hs, rfl⟩ := mem_framesIn.mp hf
    rw [((hmapped p hp).resident x hx hs).2] at he
    cases has : m.vm.as with
    | none => simp [VmState.entries, has] at he
    | some as =>
      have hw := (h.isolated.sound (by simp [has])).table
      obtain ⟨hem, hev⟩ := hw.search_some.mp he
      rw [pageFrame_of_aligned ((hmapped p hp).table.aligned x hx)] at hev
      exact hu p hp x hx hs e hem hev

/-- An event of the running process, or of a kernel thread. -/
theorem run {e : Event} (hf : UserFault m.toSys e) (hu : m.Unshared (.run e))
    (hx : m.exec (.run e) = some m') :
    Separated m' ∧ m'.vm.as.isSome = m.vm.as.isSome ∧
      (∀ p ∈ m.parked, ∀ va, m'.vm.spaceByte p.2 va = m.vm.spaceByte p.2 va) ∧
      (m.vm.as.isSome → ByteStep m.vm m'.vm e) := by
  have hiso := h.isolated.run hf hx
  obtain ⟨huser, hexec, hparked, hcur, -⟩ := Machine.exec_run hx
  obtain ⟨-, hc⟩ := exec_started h.isolated.started hexec
  have hpids : (m'.current :: m'.parked.map Prod.fst).Nodup := by
    rw [hcur, hparked]
    exact h.pids
  have hb := belowLastPage_of_userFault hf
  cases has : m.vm.as with
  | some as =>
    have hspaces : m.spaces = (m.current, as) :: m.parked := by simp [Machine.spaces, has]
    have hreq : e.reserves {f | f ∈ framesIn m.parked} m.toSys ∧ e.wholeBlock m.toSys ∧
        e.dirtyWindow m.toSys := by
      cases e with
      | fault => exact ⟨h.reserved hu, trivial, trivial⟩
      | kalloc => exact ⟨h.reserved hu.1, hu.2⟩
      | _ => exact ⟨trivial, trivial, trivial⟩
    obtain ⟨as', has', hap, hbl, hsp, hstep⟩ := Apart.exec (hspaces ▸ h.apart) has h.blocks
      (fun _ => h.isolated.sound (by simp [has])) hreq.1 hb hreq.2.1 hreq.2.2 hexec
    have hspaces' : m'.spaces = (m.current, as') :: m.parked := by
      simp [Machine.spaces, has', hparked, hcur]
    exact ⟨⟨hspaces' ▸ hap, hbl, hiso, hpids⟩, by rw [has']; rfl,
      fun p hp va => hsp.spaceByte hp va, fun _ => hstep⟩
  | none =>
    have has' : m'.vm.as = none := by
      have := hc.process
      rw [has] at this
      simpa using this
    have hspaces : m.spaces = m.parked := by simp [Machine.spaces, has]
    have hspaces' : m'.spaces = m.parked := by simp [Machine.spaces, has', hparked]
    suffices hkey : Apart m'.vm m.parked ∧ Blocks m'.vm m'.held ∧
        ∀ p ∈ m.parked, ∀ va, m'.vm.spaceByte p.2 va = m.vm.spaceByte p.2 va from
      ⟨⟨hspaces' ▸ hkey.1, hkey.2.1, hiso, hpids⟩, by rw [has'], hkey.2.2, by simp⟩
    have hold := h.apart
    rw [hspaces] at hold
    rcases exec_idle h.isolated.started has (huser has) hexec asCreate with ht | ⟨hne, hidle⟩
    · rw [show m'.vm = m.vm from congrArg Sys.vm ht, show m'.held =
        m.held from congrArg Sys.held ht]
      exact ⟨hold, h.blocks, fun _ _ _ => rfl⟩
    · -- the same event of a process without pages
      have hreq : e.reserves {f | f ∈ framesIn m.parked} (m.toSys.inSpace asCreate) ∧
          e.wholeBlock (m.toSys.inSpace asCreate) ∧ e.dirtyWindow (m.toSys.inSpace asCreate) := by
        cases e with
        | fault faulttype va kpages => exact absurd rfl (hne faulttype va kpages)
        | kalloc n =>
          obtain ⟨hn, -, addr, ha, -⟩ := exec_kalloc hexec
          obtain ⟨index, hr, -⟩ := allocKpages_idle_ok h.isolated.started has hn ha
          obtain rfl : n = 1 := by
            rcases hu.2.1 with h1 | hnone
            · exact h1
            · grind
          refine ⟨⟨(h.reserved hu.1).dirty, ?_⟩, Or.inl rfl,
            dirtyWindow_one h.isolated.started.pointer⟩
          intro f _ e he
          exact absurd he (by simp [Sys.inSpace, VmState.entries, asCreate, ptInit])
        | _ => exact ⟨trivial, trivial, trivial⟩
      have hap₀ : Apart (m.toSys.inSpace asCreate).vm ((m.current, asCreate) :: m.parked) :=
        (Apart.cons_empty rfl).mpr (hold.with_as _)
      obtain ⟨as', has₁, hap, hbl, hsp, -⟩ := hap₀.exec rfl (h.blocks.with_as _)
        (fun hus => absurd ((huser has).symm.trans hus) (by simp)) hreq.1 hb hreq.2.1 hreq.2.2 hidle
      obtain rfl : asCreate = as' := Option.some.inj has₁
      exact ⟨((Apart.cons_empty rfl).mp hap).with_as m'.vm.as, hbl.with_as m'.vm.as,
        fun p hp va => hsp.spaceByte hp va⟩

theorem nodup_spaces : (m.spaces.map Prod.fst).Nodup := by
  unfold Machine.spaces
  split
  · exact h.pids
  · exact (List.nodup_cons.mp h.pids).2

theorem switch {pid : Nat} (hf : m.FlushedSwitch (.switch pid))
    (hx : m.exec (.switch pid) = some m') : Separated m' := by
  have hiso := h.isolated.switch hf hx
  have hperm := Machine.perm_spaces_switch hx
  obtain rfl := Machine.exec_switch hx
  refine ⟨(h.apart.perm hperm).with_as _, h.blocks.with_as _, hiso, ?_⟩
  cases hfind : spaceOf m.spaces pid with
  | some as =>
    exact ((Machine.perm_withoutSpace hfind).map Prod.fst).nodup_iff.mp h.nodup_spaces
  | none =>
    simp only [Machine.withoutSpace_of_none hfind]
    refine List.nodup_cons.mpr ⟨fun hmem => ?_, h.nodup_spaces⟩
    obtain ⟨p, hp, rfl⟩ := List.mem_map.mp hmem
    rw [spaceOf, Option.map_eq_none_iff, List.find?_eq_none] at hfind
    exact absurd (hfind p hp) (by simp)

theorem asCreate (hf : m.Flushed) (hx : m.exec .asCreate = some m') : Separated m' := by
  have hiso := h.isolated.asCreate hf hx
  obtain ⟨has, rfl⟩ := Machine.exec_asCreate hx
  have hold := h.apart
  simp only [Machine.spaces, has] at hold
  exact ⟨((Apart.cons_empty rfl).mpr hold).with_as _, h.blocks.with_as _, hiso, h.pids⟩

theorem asDefineRegion {vaddr sz : Nat} (hx : m.exec (.asDefineRegion vaddr sz) = some m') :
    Separated m' := by
  have hiso := h.isolated.asDefineRegion hx
  obtain ⟨as, has, rfl⟩ := Machine.exec_asDefineRegion hx
  have hold := h.apart
  simp only [Machine.spaces, has] at hold
  refine ⟨?_, h.blocks.with_as _, hiso, h.pids⟩
  have hm : ∀ p ∈ (m.current, Vm.asDefineRegion as vaddr sz) :: m.parked,
      Mapped m.vm p.2 := by
    refine List.forall_mem_cons.mpr ⟨?_, fun p hp => hold.mapped p (.tail _ hp)⟩
    exact { hold.mapped _ List.mem_cons_self with }
  exact Apart.with_as { hold with mapped := hm } _

theorem asDestroy {pid : Nat} (hx : m.exec (.asDestroy pid) = some m') : Separated m' := by
  have hiso := h.isolated.asDestroy hx
  obtain ⟨as, tlb, as', hvm, -, -, hfix, -, hheld, hcur, -, hcase⟩ := Machine.exec_asDestroy hx
  obtain ⟨p, hperm⟩ := Machine.perm_spaces_asDestroy (by rw [hvm]) hcur hcase
  refine ⟨?_, ?_, hiso, ?_⟩
  · rw [hvm]
    exact (h.apart.perm hperm).destroy tlb as'
  · rw [hheld, hvm]
    have hk : ∀ f, (m.vm.coremap f).status = .fixed →
        (unmapped m.vm as.pt.entries).coremap f = m.vm.coremap f := fun f hf =>
      if_neg fun hfo => hfix f hfo hf
    refine { h.blocks with fixed := fun b hb f hf => ?_, size := fun b hb => ?_ }
    · have := h.blocks.fixed b hb f hf
      simp only [hk f this]
      exact this
    · have := h.blocks.fixed b hb (kvaddrFrame b.1) ⟨le_refl _, by
        have := h.blocks.pos b hb
        omega⟩
      simp only [hk _ this]
      exact h.blocks.size b hb
  · rw [hcur]
    refine h.pids.sublist (List.Sublist.cons_cons _ (List.Sublist.map _ ?_))
    rcases hcase with ⟨-, -, hp⟩ | ⟨-, -, hp⟩
    · rw [hp]
    · rw [hp]
      exact List.eraseP_sublist

end Separated

end OsPaging.Vm
