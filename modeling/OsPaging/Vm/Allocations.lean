import OsPaging.Vm.Blocks

/-!
# Live physical allocations

The allocators of `vm.c` on their own: `alloc_kpages`, `free_kpages`, `getuserppage` and
`freeuserppage`, with the live allocations kept beside the VM state. What the callers do in
between (fill in the coremap's `vaddr`, link and unlink entries, load the TLB) is the call
`other`: it may change everything but the allocators' own data, and it links no entry for a frame
that is not theirs to hand out.

`getppages` marks only the first frame of a run that its free-frame scan finds, so the scan can
find the other frames again (`blocks_overlap`). As long as a request for two or more pages meets
no run of free frames, **`allocations_disjoint`** holds, and `free_kpages` of a live result
releases exactly its frames (**`release_exact`**). An address from before `coremap_init` is
released with the size of the whole kernel (`boot_page_release`).
-/

namespace OsPaging.Vm

open OsPaging.Lib

/-! ## The allocators -/

/-- `kernel` has the live results of `alloc_kpages` with their sizes, `user` the frames of the
user pages that are neither freed nor swapped out. -/
structure Alloc where
  vm : VmState
  kernel : List (Nat × Nat)
  user : List Nat

inductive Call
  | allocKpages (npages : Nat)
  | freeKpages (addr : Nat)
  | getuserppage
  | freeuserppage (frame : Nat)
  /-- What the callers of the allocators do in between. -/
  | other
deriving DecidableEq, Repr

/-- Run one call of an allocator. A frame that is swapped out is not live any more. -/
def Alloc.exec (a : Alloc) : Call → Option Alloc
  | .allocKpages npages =>
    if 0 < npages ∧ npages < wordSize then
      match allocKpages a.vm npages with
      | .ok (addr, vm) => some {
          vm := vm
          kernel := if addr = 0 then a.kernel else (addr, npages) :: a.kernel
          user := if freeRun a.vm npages = none then
              a.user.filter fun f => decide (¬ InBlock (addr, npages) f)
            else a.user }
      | .error _ => none
    else none
  | .freeKpages addr =>
    match a.kernel.find? fun b => b.1 == addr with
    | some b =>
      match freeKpages a.vm addr with
      | .ok vm => some { a with vm := vm, kernel := a.kernel.erase b }
      | .error _ => none
    | none => none
  | .getuserppage =>
    match getuserppage a.vm with
    | .ok (paddr, vm) => some { a with
        vm := vm
        user := paddr / pageSize ::
          if freeFrame a.vm = none then a.user.erase (paddr / pageSize) else a.user }
    | .error _ => none
  | .freeuserppage frame =>
    if frame ∈ a.user then
      match freeuserppage a.vm (frame * pageSize) with
      | .ok vm => some { a with vm := vm, user := a.user.erase frame }
      | .error _ => none
    else none
  | .other => none

/-- The callers leave the allocators' data alone. -/
structure Bookkeeping (a b : Alloc) : Prop where
  kernel : b.kernel = a.kernel
  user : b.user = a.user
  first : b.vm.firstFreeFrame = a.vm.firstFreeFrame
  nRam : b.vm.nRamFrames = a.vm.nRamFrames
  active : b.vm.allocTableActive = a.vm.allocTableActive
  pointer : b.vm.nextVictim = a.vm.nextVictim
  coremap : ∀ f, (b.vm.coremap f).status = (a.vm.coremap f).status ∧
    (b.vm.coremap f).size = (a.vm.coremap f).size ∧
    (b.vm.coremap f).paddr = (a.vm.coremap f).paddr
  entries : PtFrames b.vm

/-- One call; `whole` admits the kernel requests. -/
def Alloc.Step (whole : Alloc → Nat → Prop) (a : Alloc) (c : Call) (b : Alloc) : Prop :=
  (∀ n, c = .allocKpages n → whole a n) ∧ (a.exec c = some b ∨ c = .other ∧ Bookkeeping a b)

/-- The live allocations as intervals of frames: the first frame and the number of frames. -/
def Alloc.live (a : Alloc) : List (Nat × Nat) :=
  a.kernel.map (fun b => (kvaddrFrame b.1, b.2)) ++ a.user.map fun f => (f, 1)

/-- Pairwise disjoint, and inside `[firstFreeFrame, nRamFrames)`. -/
def Alloc.Disjoint (a : Alloc) : Prop :=
  a.live.Pairwise (fun i j => i.1 + i.2 ≤ j.1 ∨ j.1 + j.2 ≤ i.1) ∧
    ∀ i ∈ a.live, a.vm.firstFreeFrame ≤ i.1 ∧ i.1 + i.2 ≤ a.vm.nRamFrames

instance (a : Alloc) : Decidable a.Disjoint := inferInstanceAs (Decidable (_ ∧ _))

/-! ## The invariant -/

/-- Kernel blocks are `FIXED`, user frames are `DIRTY`. -/
structure Alloc.Inv (a : Alloc) : Prop where
  started : Started a.vm
  entries : PtFrames a.vm
  blocks : Blocks a.vm a.kernel
  nodup : a.user.Nodup
  user : ∀ f ∈ a.user, a.vm.firstFreeFrame ≤ f ∧ f < a.vm.nRamFrames ∧
    (a.vm.coremap f).status = .dirty

namespace Alloc.Inv

variable {a b : Alloc}

attribute [local simp] Alloc.exec

theorem disjoint (h : a.Inv) : a.Disjoint := by
  have hkernel : (a.kernel.map fun b => (kvaddrFrame b.1, b.2)).Pairwise
      (fun i j => i.1 + i.2 ≤ j.1 ∨ j.1 + j.2 ≤ i.1) := by
    rw [List.pairwise_map]
    refine h.blocks.disjoint.imp_of_mem fun {b c} hb hc hdis => ?_
    -- two blocks that overlapped would share the larger of their first frames
    have hb0 := h.blocks.pos b hb
    have hc0 := h.blocks.pos c hc
    by_contra hov
    refine hdis (max (kvaddrFrame b.1) (kvaddrFrame c.1)) ?_ ?_ <;> unfold InBlock <;>
      simp only at hov <;> omega
  have huser : (a.user.map fun f => (f, 1)).Pairwise
      (fun i j => i.1 + i.2 ≤ j.1 ∨ j.1 + j.2 ≤ i.1) := by
    rw [List.pairwise_map]
    exact h.nodup.imp fun hne => by simp only; omega
  refine ⟨List.pairwise_append.mpr ⟨hkernel, huser, fun i hi j hj => ?_⟩, fun i hi => ?_⟩
  · obtain ⟨b, hb, rfl⟩ := List.mem_map.mp hi
    obtain ⟨f, hf, rfl⟩ := List.mem_map.mp hj
    -- a frame is not both `FIXED` and `DIRTY`
    have hnot : ¬ InBlock b f := fun hin => by
      have hd := (h.user f hf).2.2
      rw [h.blocks.fixed b hb f hin] at hd
      cases hd
    unfold InBlock at hnot
    simp only
    omega
  · rcases List.mem_append.mp hi with hi | hi
    · obtain ⟨b, hb, rfl⟩ := List.mem_map.mp hi
      exact h.blocks.range b hb
    · obtain ⟨f, hf, rfl⟩ := List.mem_map.mp hi
      exact ⟨(h.user f hf).1, (h.user f hf).2.1⟩

theorem of_coremapInit {s₀ s : VmState} (hp : PowerOn s₀) (h : coremapInit s₀ = .ok s) :
    Alloc.Inv ⟨s, [], []⟩ := by
  obtain ⟨hs, has, -⟩ := coremapInit_spec hp h
  exact ⟨hs, by simp [PtFrames, VmState.entries, has], .nil _, .nil, by simp⟩

theorem other (h : a.Inv) (hb : Bookkeeping a b) : b.Inv := by
  refine ⟨⟨hb.active.trans h.started.active, hb.first ▸ h.started.booted,
    hb.nRam ▸ h.started.fits, ?_⟩, hb.entries, ?_, by rw [hb.user]; exact h.nodup, ?_⟩
  · unfold VictimPtr
    rw [hb.pointer, hb.first]
    exact h.started.pointer
  · rw [hb.kernel]
    refine ⟨h.blocks.pos, h.blocks.addr, ?_, ?_, ?_, h.blocks.disjoint⟩
    · rw [hb.first, hb.nRam]
      exact h.blocks.range
    · intro c hc f hf
      rw [(hb.coremap f).1]
      exact h.blocks.fixed c hc f hf
    · intro c hc
      rw [(hb.coremap _).2.1]
      exact h.blocks.size c hc
  · rw [hb.user, hb.first, hb.nRam]
    intro f hf
    rw [(hb.coremap f).1]
    exact h.user f hf

/-- A kernel request that marks every frame it gives back. -/
theorem allocKpages (h : a.Inv) {n : Nat} (hwhole : WholeBlock a.vm n)
    (he : a.exec (.allocKpages n) = some b) : b.Inv := by
  simp only [Alloc.exec] at he
  split at he
  swap
  · cases he
  rename_i hn
  split at he
  swap
  · cases he
  rename_i addr vm hal
  obtain ⟨pa, hg, haddr⟩ := allocKpages_ok hal
  obtain ⟨f, rfl, h1, h2, hc, hblocks, -, hout⟩ :=
    h.blocks.getppages h.started h.entries hn.1 hn.2 hwhole hg
  have hf : 0 < f := Nat.lt_of_lt_of_le h.started.booted h1
  rw [if_neg (Nat.mul_ne_zero hf.ne' (by decide))] at haddr
  obtain ⟨hframe, h0⟩ := h.started.kvaddrFrame (f := f) (by omega)
  rw [haddr, if_neg h0, Option.some.injEq] at he
  rw [← he]
  -- a user frame that stays live is outside the block
  have huser : ∀ g ∈ a.user, ¬ InBlock (paddrToKvaddr (f * pageSize), n) g →
      vm.firstFreeFrame ≤ g ∧ g < vm.nRamFrames ∧ (vm.coremap g).status = .dirty := by
    intro g hgm hin
    simp only [InBlock, hframe] at hin
    rw [hc.first, hc.nRam, hout g (by omega)]
    exact h.user g hgm
  refine ⟨Started.stable.allocKpages h.started h.started hal,
    PtFrames.stable.allocKpages h.started h.entries hal, hblocks, ?_, fun g hgm => ?_⟩
  · simp only
    split_ifs
    · exact h.nodup.filter _
    · exact h.nodup
  · simp only at hgm
    split_ifs at hgm with hrun
    · grind
    · refine huser g hgm fun hin => ?_
      -- the scan found free frames, and a live user frame is `DIRTY`
      rcases getppages_ok h.started.active hg with ⟨i, hi, hpa, -⟩ | ⟨_, _, _, hnone, -⟩
      · obtain ⟨-, -, hfree⟩ := freeRun_some hn.1 hi
        obtain rfl : f = i := Nat.eq_of_mul_eq_mul_right (by decide) hpa
        simp only [InBlock, hframe] at hin
        have hg' := hfree (g - f) (by omega)
        rw [show f + (g - f) = g by omega] at hg'
        exact (isFree_iff.mp hg').1 (h.user g hgm).2.2
      · exact hrun hnone

/-- `free_kpages` of a live result touches no user frame. -/
theorem freeKpages (h : a.Inv) {addr : Nat} (he : a.exec (.freeKpages addr) = some b) : b.Inv := by
  simp only [Alloc.exec] at he
  split at he
  swap
  · cases he
  rename_i c hfind
  split at he
  swap
  · cases he
  rename_i vm hfree
  have haddr : c.1 = addr := by simpa using List.find?_some hfind
  have hmem := List.mem_of_find?_eq_some hfind
  rw [← haddr] at hfree
  obtain ⟨hc, hblocks, hcm⟩ := h.blocks.freeKpages h.started hmem hfree
  rw [Option.some.injEq] at he
  rw [← he]
  refine ⟨Started.stable.freeKpages h.started h.started hfree,
    PtFrames.stable.freeKpages h.started h.entries hfree, hblocks, h.nodup, fun g hg => ?_⟩
  have hdirty := (h.user g hg).2.2
  simp only
  rw [hc.first, hc.nRam, hcm, if_neg]
  · exact h.user g hg
  · intro hin
    rw [h.blocks.fixed c hmem g hin] at hdirty
    cases hdirty

/-- The frame of a new user page is live for no other page. -/
theorem getuserppage (h : a.Inv) (he : a.exec .getuserppage = some b) : b.Inv := by
  simp only [Alloc.exec] at he
  split at he
  swap
  · cases he
  rename_i paddr vm hget
  obtain ⟨f, s₁, rfl, rfl, ht⟩ := getuserppage_ok h.started.pointer hget
  have hcm := ht.coremap
  have hc := ht.constants
  have hdiv : f * pageSize / pageSize = f := Nat.mul_div_cancel f (by decide)
  rw [hdiv, Option.some.injEq] at he
  rw [← he]
  have hrest : (f :: if freeFrame a.vm = none then a.user.erase f else a.user).Nodup ∧
      ∀ g ∈ (if freeFrame a.vm = none then a.user.erase f else a.user), g ∈ a.user ∧ g ≠ f := by
    split_ifs with hnone
    · exact ⟨List.nodup_cons.mpr ⟨h.nodup.not_mem_erase, h.nodup.erase f⟩,
        fun g hg => ⟨List.mem_of_mem_erase hg, (h.nodup.mem_erase_iff.mp hg).1⟩⟩
    · have hnot : f ∉ a.user := by
        obtain ⟨-, -, ⟨hfree, -⟩ | ⟨hnone', -⟩⟩ := ht
        · exact fun hf => (isFree_iff.mp hfree).1 (h.user f hf).2.2
        · exact absurd hnone' hnone
      exact ⟨List.nodup_cons.mpr ⟨hnot, h.nodup⟩, fun g hg => ⟨hg, fun e => hnot (e ▸ hg)⟩⟩
  have hstart : Started (userFrame s₁ f) := (h.started.taken ht).modifyFrame f _
  have hblocks : Blocks (userFrame s₁ f) a.kernel :=
    (h.blocks.keep hc (.of_coremap hcm)).keep (sameConstants_modifyFrame _ _ _)
      (.modifyFrame (by rw [hcm]; exact ht.not_fixed) _)
  have hentries : PtFrames (userFrame s₁ f) :=
    PtFrames.stable.modifyFrame (PtFrames.stable.taken h.entries ht) f _
  refine ⟨hstart, hentries, hblocks, hrest.1, fun g hg => ?_⟩
  have hfirst : (userFrame s₁ f).firstFreeFrame = a.vm.firstFreeFrame := hc.first
  have hram : (userFrame s₁ f).nRamFrames = a.vm.nRamFrames := hc.nRam
  simp only
  rw [hfirst, hram, userFrame, VmState.modifyFrame_coremap]
  rcases List.mem_cons.mp hg with rfl | hg
  · rw [if_pos rfl]
    exact ⟨ht.1, ht.2.1, rfl⟩
  · obtain ⟨hgu, hne⟩ := hrest.2 g hg
    rw [if_neg hne, hcm]
    exact h.user g hgu

theorem freeuserppage (h : a.Inv) {f : Nat} (he : a.exec (.freeuserppage f) = some b) :
    b.Inv := by
  simp only [Alloc.exec] at he
  split at he
  swap
  · cases he
  rename_i hmem
  split at he
  swap
  · cases he
  rename_i vm hfree
  have hdiv : f * pageSize / pageSize = f := Nat.mul_div_cancel f (by decide)
  unfold Vm.freeuserppage at hfree
  rw [hdiv] at hfree
  split_ifs at hfree with h1 h2
  rw [Except.ok.injEq] at hfree
  rw [Option.some.injEq] at he
  rw [← he, ← hfree]
  generalize (fun _ => ⟨.free, 0, 0, 0⟩ : CoremapEntry → CoremapEntry) = g
  have hstart := h.started.modifyFrame f g
  have hblocks := h.blocks.keep (sameConstants_modifyFrame _ _ _) (.modifyFrame h2 g)
  refine ⟨hstart, h.entries, hblocks, h.nodup.erase f, fun g hg => ?_⟩
  obtain ⟨hne, hgu⟩ := h.nodup.mem_erase_iff.mp hg
  simp only
  rw [VmState.modifyFrame_coremap, if_neg hne]
  exact h.user g hgu

theorem step {c : Call} (h : a.Inv) (hstep : Alloc.Step (fun a => WholeBlock a.vm) a c b) :
    b.Inv := by
  obtain ⟨hwhole, he | ⟨-, hb⟩⟩ := hstep
  · cases c with
    | allocKpages n => exact h.allocKpages (hwhole n rfl) he
    | freeKpages addr => exact h.freeKpages he
    | getuserppage => exact h.getuserppage he
    | freeuserppage f => exact h.freeuserppage he
    | other => exact absurd he (by simp [Alloc.exec])
  · exact h.other hb

theorem run {s₀ s : VmState} {cs : List Call} (hp : PowerOn s₀) (hi : coremapInit s₀ = .ok s)
    (hr : Run (Alloc.Step fun a => WholeBlock a.vm) ⟨s, [], []⟩ cs b) : b.Inv :=
  hr.invariant (of_coremapInit hp hi) fun _ _ _ => step

end Alloc.Inv

/-- Run a list of allocator calls, each admitted by `whole`. -/
def Alloc.runAll (whole : Alloc → Nat → Prop) [∀ a n, Decidable (whole a n)] (a : Alloc)
    (cs : List Call) : Option Alloc :=
  cs.foldlM (fun a c => match c with
    | .allocKpages n => if whole a n then a.exec c else none
    | _ => a.exec c) a

theorem Alloc.exists_run {whole : Alloc → Nat → Prop} [∀ a n, Decidable (whole a n)]
    {a : Alloc} {cs : List Call} {p : Alloc → Bool} (h : (a.runAll whole cs).any p = true) :
    ∃ b, Run (Alloc.Step whole) a cs b ∧ p b = true := by
  refine Run.exists_of_foldlM (fun a c b he => ?_) h
  cases c with
  | allocKpages n =>
    simp only at he
    split at he
    · rename_i hw
      exact ⟨fun m hm => by cases hm; exact hw, Or.inl he⟩
    · cases he
  | _ => exact ⟨fun _ hn => absurd hn (by simp), Or.inl he⟩

/-! ## Live allocations never overlap -/

/-- **Live allocations are disjoint** and lie in `[firstFreeFrame, nRamFrames)`, in every state
that is reached while no request for two or more pages meets a run of free frames. -/
theorem allocations_disjoint {s₀ s : VmState} {cs : List Call} {a : Alloc} (hp : PowerOn s₀)
    (hi : coremapInit s₀ = .ok s)
    (hr : Run (Alloc.Step fun a => WholeBlock a.vm) ⟨s, [], []⟩ cs a) : a.Disjoint :=
  (Alloc.Inv.run hp hi hr).disjoint

/-- The scan finds frames 2 and 3 for the first request, and frame 3 again for the second. -/
theorem blocks_overlap : PowerOn (smallMachine 8) ∧
    coremapInit (smallMachine 8) = .ok (smallVm 8) ∧
    ∃ a, Run (Alloc.Step fun _ _ => True) ⟨smallVm 8, [], []⟩ [.allocKpages 2, .allocKpages 1] a ∧
      a.live = [(3, 1), (2, 2)] ∧ ¬ a.Disjoint := by
  refine ⟨powerOn_smallMachine (by decide), coremapInit_smallMachine (by decide) (by decide), ?_⟩
  have hrun : ((Alloc.mk (smallVm 8) [] []).runAll (fun _ _ => True)
      [.allocKpages 2, .allocKpages 1]).any
      (fun a => a.live = [(3, 1), (2, 2)] ∧ ¬ a.Disjoint) = true := by decide
  obtain ⟨a, ha, hp⟩ := Alloc.exists_run hrun
  exact ⟨a, ha, by simpa using hp⟩

/-- Six user pages fill RAM; a kernel page takes a free frame again after two of them are freed. -/
theorem allocations_disjoint_eight_frames : PowerOn (smallMachine 8) ∧
    coremapInit (smallMachine 8) = .ok (smallVm 8) ∧
    ∃ cs a, Run (Alloc.Step fun a => WholeBlock a.vm) ⟨smallVm 8, [], []⟩ cs a ∧
      a.live = [(4, 1), (2, 1), (7, 1), (5, 1), (3, 1)] ∧ a.Disjoint := by
  have hp := powerOn_smallMachine (n := 8) (by decide)
  have hi := coremapInit_smallMachine (n := 8) (by decide) (by decide)
  have hrun : ((Alloc.mk (smallVm 8) [] []).runAll (fun a => WholeBlock a.vm)
      [.getuserppage, .getuserppage, .getuserppage, .getuserppage, .getuserppage, .getuserppage,
        .freeuserppage 2, .freeuserppage 4, .freeuserppage 6, .allocKpages 1, .allocKpages 1]).any
      (fun a => a.live = [(4, 1), (2, 1), (7, 1), (5, 1), (3, 1)]) = true := by decide
  obtain ⟨a, ha, hlive⟩ := Alloc.exists_run hrun
  exact ⟨hp, hi, _, a, ha, by simpa using hlive, allocations_disjoint hp hi ha⟩

/-! ## `free_kpages` releases exactly one allocation -/

/-- `free_kpages` of the block returns, changes the status of the block's frames and of no other,
and stays inside the coremap. -/
def ExactRelease (s : VmState) (b : Nat × Nat) : Prop :=
  ∃ s', freeKpages s b.1 = .ok s' ∧
    (∀ f, (s'.coremap f).status ≠ (s.coremap f).status ↔ InBlock b f) ∧
    kvaddrFrame b.1 + (s.coremap (kvaddrFrame b.1)).size ≤ s.nRamFrames

theorem Blocks.exactRelease {s : VmState} {held : List (Nat × Nat)} {b : Nat × Nat}
    (h : Blocks s held) (hs : Started s) (hb : b ∈ held) : ExactRelease s b := by
  obtain ⟨s', hf⟩ := h.freeKpages_isOk hs hb
  obtain ⟨-, -, hcm⟩ := h.freeKpages hs hb hf
  refine ⟨s', hf, fun f => ?_, by rw [h.size b hb]; exact (h.range b hb).2⟩
  rw [hcm]
  by_cases hin : InBlock b f
  · rw [if_pos hin, h.fixed b hb f hin]
    simp [hin]
  · rw [if_neg hin]
    simp [hin]

/-- **`free_kpages` releases exactly the allocation it is called for**, for every result of
`alloc_kpages` after `coremap_init`, in every state that is reached while no request for two or
more pages meets a run of free frames. -/
theorem release_exact {s₀ s : VmState} {cs : List Call} {a : Alloc} (hp : PowerOn s₀)
    (hi : coremapInit s₀ = .ok s)
    (hr : Run (Alloc.Step fun a => WholeBlock a.vm) ⟨s, [], []⟩ cs a) {b : Nat × Nat}
    (hb : b ∈ a.kernel) : ExactRelease a.vm b := by
  have hinv := Alloc.Inv.run hp hi hr
  exact hinv.blocks.exactRelease hinv.started hb

/-- A page taken before `coremap_init` has the size of the whole kernel: freeing frame 1 also
frees frame 2, which holds the coremap. -/
theorem boot_page_release : PowerOn (smallMachine 8) ∧
    ∃ s₁ s₂, allocKpages (smallMachine 8) 1 = .ok (0x80001000, s₁) ∧ coremapInit s₁ = .ok s₂ ∧
      ¬ ExactRelease s₂ (0x80001000, 1) := by
  refine ⟨powerOn_smallMachine (by decide), { smallMachine 8 with firstpaddr := 8192 }, _,
    by simp [allocKpages, getppages, ramStealmem, paddrToKvaddr, smallMachine, pageSize, wordSize,
      mipsKseg0],
    by simp [coremapInit, pagesFor, smallMachine]; rfl, ?_⟩
  rintro ⟨s', hf, hexact, -⟩
  rw [freeKpages, if_neg (by decide), if_neg (by decide), if_neg (by decide)] at hf
  cases hf
  exact absurd ((hexact 2).mp (by decide)) (by decide)

/-- A kernel page, freed among user pages. -/
theorem release_exact_eight_frames : PowerOn (smallMachine 8) ∧
    coremapInit (smallMachine 8) = .ok (smallVm 8) ∧
    ∃ cs a, Run (Alloc.Step fun a => WholeBlock a.vm) ⟨smallVm 8, [], []⟩ cs a ∧
      a.kernel = [(0x80003000, 1)] ∧ ExactRelease a.vm (0x80003000, 1) := by
  have hp := powerOn_smallMachine (n := 8) (by decide)
  have hi := coremapInit_smallMachine (n := 8) (by decide) (by decide)
  have hrun : ((Alloc.mk (smallVm 8) [] []).runAll (fun a => WholeBlock a.vm)
      [.getuserppage, .allocKpages 1, .getuserppage]).any
      (fun a => a.kernel = [(0x80003000, 1)]) = true := by decide
  obtain ⟨a, ha, hkernel⟩ := Alloc.exists_run hrun
  have hkernel : a.kernel = [(0x80003000, 1)] := by simpa using hkernel
  exact ⟨hp, hi, _, a, ha, hkernel, release_exact hp hi ha (by rw [hkernel]; exact .head _)⟩

end OsPaging.Vm
