import OsPaging.Lib.Run
import OsPaging.Vm.System

/-!
# How physical memory is divided at boot

`ram_bootstrap` sets the two ends of free memory, the boot code takes pages from the lower end by
`ram_stealmem` (`getppages` does while no coremap exists), and `coremap_init` closes the boot
allocator and lays out the coremap array in the first free pages. The array describes the memory
it stands in: its size comes from the number of frames, and the frames it fills are among those
it marks `FIXED`.

`Stealing` is what a run of the boot allocator keeps (`stealing_run`): the pages handed out lie
between the end of the kernel and `firstpaddr`, which stays a page boundary inside RAM. The layout
that `coremap_init` makes of it is `coremap_init_partitions`.
-/

namespace OsPaging.Vm

open OsPaging.Lib

variable {ramsize kernelEnd n : Nat} {s : VmState}

/-! ## Before the coremap -/

/-- `ram_bootstrap` (`ram.c:44-72`): `firstfree` is the virtual address `start.S` leaves. -/
def ramBootstrap (s : VmState) (ramsize firstfree : Nat) : VmState :=
  { s with
    lastpaddr := if ramMax < ramsize then ramMax else ramsize
    firstpaddr := (firstfree + wordSize - mipsKseg0) % wordSize }

/-- One call of `ram_stealmem` at boot: the pages asked for and the address returned. -/
def StealStep (s : VmState) (e : Nat × Nat) (s' : VmState) : Prop :=
  ramStealmem s e.1 = (e.2, s')

/-- The bytes `a` that a call of `ram_stealmem` has handed out. -/
def Stolen (e : Nat × Nat) (a : Nat) : Prop :=
  e.2 ≠ 0 ∧ e.2 ≤ a ∧ a < e.2 + e.1 * pageSize

/-- What the boot allocator has done since the kernel, which ends at `kernelEnd`, was loaded into
`ramsize` bytes. -/
structure Stealing (ramsize kernelEnd : Nat) (es : List (Nat × Nat)) (s : VmState) : Prop where
  last : s.lastpaddr = ramsize
  aligned : s.firstpaddr % pageSize = 0
  kernel : kernelEnd ≤ s.firstpaddr
  first : s.firstpaddr ≤ ramsize
  /-- What was handed out is past the kernel and below `firstpaddr`. -/
  stolen : ∀ e ∈ es, ∀ a, Stolen e a → kernelEnd ≤ a ∧ a < s.firstpaddr

theorem ramBootstrap_stealing (s : VmState) (hram : ramsize ≤ ramMax)
    (haligned : kernelEnd % pageSize = 0) (hin : kernelEnd ≤ ramsize) :
    Stealing ramsize kernelEnd [] (ramBootstrap s ramsize (mipsKseg0 + kernelEnd)) := by
  have hfirst : (ramBootstrap s ramsize (mipsKseg0 + kernelEnd)).firstpaddr = kernelEnd := by
    simp only [ramBootstrap, mipsKseg0, wordSize, ramMax] at *
    omega
  have hlast : (ramBootstrap s ramsize (mipsKseg0 + kernelEnd)).lastpaddr = ramsize :=
    if_neg (by omega)
  exact
    { last := hlast
      aligned := by rw [hfirst]; exact haligned
      kernel := hfirst.ge
      first := by rw [hfirst]; exact hin
      stolen := fun e he => absurd he List.not_mem_nil }

/-- A call for fewer than `2 ^ 16` pages cannot wrap around the 32-bit address. -/
theorem ramStealmem_cases (hn : n < 65536) (hfirst : s.firstpaddr ≤ ramMax) :
    ramStealmem s n = (0, s) ∨
      s.firstpaddr + n * pageSize ≤ s.lastpaddr ∧
        ramStealmem s n = (s.firstpaddr, { s with firstpaddr := s.firstpaddr + n * pageSize }) := by
  have hsize : n * pageSize % wordSize = n * pageSize := by
    grind
  have hsum : (s.firstpaddr + n * pageSize) % wordSize = s.firstpaddr + n * pageSize := by
    grind
  simp only [ramStealmem, hsize, hsum]
  grind

theorem Stealing.step {es : List (Nat × Nat)} {s' : VmState} {e : Nat × Nat}
    (hram : ramsize ≤ ramMax) (h : Stealing ramsize kernelEnd es s) (hn : e.1 < 65536)
    (hs : StealStep s e s') :
    Stealing ramsize kernelEnd (es ++ [e]) s' := by
  obtain ⟨n, p⟩ := e
  rcases ramStealmem_cases hn (h.first.trans hram) with hfail | ⟨hfits, hok⟩
  · -- Refused: nothing is handed out, the address is 0.
    rw [StealStep, hfail, Prod.mk.injEq] at hs
    obtain ⟨hp, rfl⟩ := hs
    dsimp only at hp
    subst hp
    refine { h with stolen := fun e he a ha => ?_ }
    rcases List.mem_append.mp he with he | he
    · exact h.stolen e he a ha
    · rw [List.mem_singleton.mp he] at ha
      exact absurd rfl ha.1
  · rw [StealStep, hok, Prod.mk.injEq] at hs
    obtain ⟨hp, rfl⟩ := hs
    dsimp only at hp
    subst hp
    refine
      { last := h.last
        aligned := ?_
        kernel := h.kernel.trans (Nat.le_add_right _ _)
        first := h.last ▸ hfits
        stolen := fun e he a ha => ?_ }
    · have := h.aligned
      simp only [pageSize] at *
      omega
    · rcases List.mem_append.mp he with he | he
      · obtain ⟨hk, hlt⟩ := h.stolen e he a ha
        grind
      · rw [List.mem_singleton.mp he] at ha
        exact ⟨h.kernel.trans ha.2.1, ha.2.2⟩

theorem stealing_run {es : List (Nat × Nat)} {s₀ : VmState} (hram : ramsize ≤ ramMax)
    (h₀ : Stealing ramsize kernelEnd [] s₀) (hrun : Run StealStep s₀ es s)
    (hn : ∀ e ∈ es, e.1 < 65536) :
    Stealing ramsize kernelEnd es s := by
  refine hrun.history (R := fun es s => (∀ e ∈ es, e.1 < 65536) → Stealing ramsize kernelEnd es s)
    (fun _ => h₀) (fun es s e t ih hs hn => ?_) hn
  exact (ih fun e he => hn e (List.mem_append_left _ he)).step hram
    (hn e (List.mem_append_right _ (List.mem_singleton_self e))) hs

/-! ## The layout of `coremap_init` -/

/-- Where `coremap_init` puts the array: `paddr` of `coremap.c:33`. -/
def coremapBase (s : VmState) : Nat := pageSize * pagesFor s.firstpaddr

theorem le_pagesFor (size : Nat) : size ≤ pageSize * pagesFor size := by
  unfold pagesFor
  simp only [pageSize]
  split_ifs <;> omega

theorem pagesFor_of_aligned {size : Nat} (h : size % pageSize = 0) :
    pageSize * pagesFor size = size := by
  unfold pagesFor
  rw [if_pos h]
  simp only [pageSize] at *
  omega

/-- What `coremap_init` leaves when it does not panic, in terms of the boot allocator's two
addresses. -/
theorem coremapInit_layout {s' : VmState} (hfirst : 0 < s.firstpaddr) (h : coremapInit s = .ok s') :
    s'.nRamFrames = s.lastpaddr / pageSize ∧
      s'.firstFreeFrame =
        pagesFor s.firstpaddr + pagesFor (s'.nRamFrames * coremapEntrySize) ∧
      s'.firstFreeFrame ≤ s'.nRamFrames ∧
      s'.coremap = coremapInitEntry s.coremap (pagesFor s.firstpaddr)
        (pagesFor (s'.nRamFrames * coremapEntrySize)) s'.nRamFrames := by
  have hpages : pagesFor s.firstpaddr ≠ 0 := (pagesFor_pos hfirst).ne'
  simp only [coremapInit, if_neg hpages] at h
  grind

theorem coremapInitEntry_fixed_iff (old : Nat → CoremapEntry) {kernelpages coremapPages i : Nat}
    (hi : i < n) :
    (coremapInitEntry old kernelpages coremapPages n i).status = .fixed ↔
      i < kernelpages + coremapPages := by
  unfold coremapInitEntry
  grind

theorem coremapInitEntry_clean (old : Nat → CoremapEntry) {kernelpages coremapPages i : Nat}
    (hi : i < n) (hfree : kernelpages + coremapPages ≤ i) :
    (coremapInitEntry old kernelpages coremapPages n i).status = .clean := by
  unfold coremapInitEntry
  rw [if_neg (by omega), if_neg (by omega), if_pos hi]

/-- How the machine's `ramsize` bytes are divided once the coremap stands at `base`: what the
kernel and the boot allocator (`es`) hold, the array, and the rest. -/
structure Partitioned (ramsize kernelEnd base : Nat) (es : List (Nat × Nat)) (s : VmState) :
    Prop where
  frames : s.nRamFrames = ramsize / pageSize
  free_le : s.firstFreeFrame ≤ s.nRamFrames
  fixed_iff : ∀ i < s.nRamFrames, (s.coremap i).status = .fixed ↔ i < s.firstFreeFrame
  clean : ∀ i < s.nRamFrames, s.firstFreeFrame ≤ i → (s.coremap i).status = .clean
  /-- Every byte handed out earlier is in a `FIXED` frame of RAM. -/
  stolen : ∀ e ∈ es, ∀ a, Stolen e a →
    a / pageSize < s.nRamFrames ∧ (s.coremap (a / pageSize)).status = .fixed
  /-- Entry `i` is in RAM, in a `FIXED` frame, and no byte of it is in a frame with bytes of the
  kernel or of stolen pages. -/
  entry : ∀ i < s.nRamFrames, ∀ a, base + i * coremapEntrySize ≤ a →
    a < base + (i + 1) * coremapEntrySize →
      a < ramsize ∧ a / pageSize < s.nRamFrames ∧ (s.coremap (a / pageSize)).status = .fixed ∧
        ∀ b, b / pageSize = a / pageSize → kernelEnd ≤ b ∧ ∀ e ∈ es, ¬ Stolen e b

/-- **`coremap_init` divides physical memory correctly**: for every size of RAM up to 512
megabytes, every page-aligned end of the kernel in it and every run of the boot allocator. The
kernel is not empty: it starts at `0x80000200` and `start.S` adds a page for the first stack. -/
theorem coremap_init_partitions {s₀ s s' : VmState} {ramsize kernelEnd : Nat}
    {es : List (Nat × Nat)} (hram : ramsize ≤ ramMax) (haligned : kernelEnd % pageSize = 0)
    (hin : kernelEnd ≤ ramsize) (hkernel : 0 < kernelEnd)
    (hrun : Run StealStep (ramBootstrap s₀ ramsize (mipsKseg0 + kernelEnd)) es s)
    (hn : ∀ e ∈ es, e.1 < 65536) (hinit : coremapInit s = .ok s') :
    Partitioned ramsize kernelEnd (coremapBase s) es s' := by
  have hsteal := stealing_run hram (ramBootstrap_stealing s₀ hram haligned hin) hrun hn
  obtain ⟨hframes, hfree, hle, hmap⟩ :=
    coremapInit_layout (Nat.lt_of_lt_of_le hkernel hsteal.kernel) hinit
  rw [hsteal.last] at hframes
  have hbase : coremapBase s = s.firstpaddr := pagesFor_of_aligned hsteal.aligned
  have hkpages : pageSize * pagesFor s.firstpaddr = s.firstpaddr := hbase
  have harray := le_pagesFor (s'.nRamFrames * coremapEntrySize)
  have hfixed : ∀ i < s'.nRamFrames,
      (s'.coremap i).status = .fixed ↔ i < s'.firstFreeFrame := fun i hi => by
    rw [hmap, hfree]
    exact coremapInitEntry_fixed_iff s.coremap hi
  refine
    { frames := hframes
      free_le := hle
      fixed_iff := hfixed
      clean := fun i hi hge => ?_
      stolen := fun e he a ha => ?_
      entry := fun i hi a hlo hhi => ?_ }
  · rw [hmap]
    exact coremapInitEntry_clean s.coremap hi (hfree ▸ hge)
  · obtain ⟨-, hlt⟩ := hsteal.stolen e he a ha
    grind
  · rw [hbase] at hlo hhi
    have hframe : a / pageSize < s'.firstFreeFrame := by
      grind
    have hinram : a / pageSize < s'.nRamFrames := hframe.trans_le hle
    refine ⟨?_, hinram, (hfixed _ hinram).mpr hframe, fun b hb => ?_⟩
    · simp only [pageSize] at *
      omega
    · have hbelow : s.firstpaddr ≤ b := by
        grind
      exact ⟨hsteal.kernel.trans hbelow, fun e he hstolen =>
        absurd (hsteal.stolen e he b hstolen).2 (Nat.not_lt.mpr hbelow)⟩

/-- Sixty-four frames, a kernel of eight and two stolen pages, with a call for a hundred more
refused. -/
theorem coremap_init_partitions_small :
    ∃ s s', Run StealStep (ramBootstrap (smallMachine 64) 0x40000 (mipsKseg0 + 0x8000))
        [(2, 0x8000), (100, 0)] s ∧
      coremapInit s = .ok s' ∧ s'.firstFreeFrame = 11 ∧
      Partitioned 0x40000 0x8000 (coremapBase s) [(2, 0x8000), (100, 0)] s' := by
  have hboot : ramBootstrap (smallMachine 64) 0x40000 (mipsKseg0 + 0x8000) =
      { smallMachine 64 with firstpaddr := 0x8000, lastpaddr := 0x40000 } := by
    simp [ramBootstrap, mipsKseg0, wordSize, ramMax]
  have hfirst : StealStep { smallMachine 64 with firstpaddr := 0x8000, lastpaddr := 0x40000 }
      (2, 0x8000) { smallMachine 64 with firstpaddr := 0xa000, lastpaddr := 0x40000 } := by
    simp [StealStep, ramStealmem, pageSize, wordSize]
  have hsecond : StealStep { smallMachine 64 with firstpaddr := 0xa000, lastpaddr := 0x40000 }
      (100, 0) { smallMachine 64 with firstpaddr := 0xa000, lastpaddr := 0x40000 } := by
    simp [StealStep, ramStealmem, pageSize, wordSize]
  have hrun : Run StealStep (ramBootstrap (smallMachine 64) 0x40000 (mipsKseg0 + 0x8000))
      [(2, 0x8000), (100, 0)]
      { smallMachine 64 with firstpaddr := 0xa000, lastpaddr := 0x40000 } := by
    rw [hboot]
    exact (Run.nil.snoc hfirst).snoc hsecond
  obtain ⟨s', hinit, hfree⟩ : ∃ s', coremapInit
      { smallMachine 64 with firstpaddr := 0xa000, lastpaddr := 0x40000 } = .ok s' ∧
        s'.firstFreeFrame = 11 := by
    simp [coremapInit, pagesFor, pageSize, coremapEntrySize]
  exact ⟨_, s', hrun, hinit, hfree, coremap_init_partitions (by decide) (by decide) (by decide)
    (by decide) hrun (by decide) hinit⟩

end OsPaging.Vm
