import OsPaging.Vm.Machine

/-!
# The coremap: initialisation and victim selection

`coremap_init` and `coremap_victim_selection` of `kern/vm/coremap.c`, and `ram_stealmem` of
`arch/mips/vm/ram.c`, the boot allocator that hands out memory before the coremap exists.

`coremap_victim_selection` walks the frames from its static pointer, counting frames that are not
`FIXED`, once to the end of RAM and once more from `firstFreeFrame`. Its count `victimsfound` is
not reset at the wrap, so the run it returns may start below `firstFreeFrame`;
`victimSelection_spec` states what is true of every run it returns: the frames of the run at or
above `firstFreeFrame` are inside RAM and not `FIXED`. For one victim the run is that frame
(`victimSelection_one`).
-/

namespace OsPaging.Vm

variable {s : VmState} {nvictims : Int}

/-! ## The boot allocator -/

/-- `ram_stealmem` (`ram.c:93-109`): `0` on failure. The size is a 32-bit product. -/
def ramStealmem (s : VmState) (npages : Nat) : Nat × VmState :=
  let size := npages * pageSize % wordSize
  if s.lastpaddr < (s.firstpaddr + size) % wordSize then (0, s)
  else (s.firstpaddr, { s with firstpaddr := (s.firstpaddr + size) % wordSize })

/-! ## `coremap_init` -/

/-- `sizeof(coremap_entry_t)` on the 32-bit target: four words. -/
abbrev coremapEntrySize : Nat := 16

/-- The number of pages that hold `size` bytes: the two branches of `coremap.c:21-28`. -/
def pagesFor (size : Nat) : Nat :=
  if size % pageSize = 0 then size / pageSize else size / pageSize + 1

/-- The entry the three loops of `coremap_init` leave for frame `i`; `vaddr` keeps whatever the
memory of the array held. -/
def coremapInitEntry (old : Nat → CoremapEntry) (kernelpages coremapPages ramsizepages i : Nat) :
    CoremapEntry :=
  if i < kernelpages then
    { status := .fixed, paddr := i * pageSize, vaddr := (old i).vaddr, size := kernelpages }
  else if i < kernelpages + coremapPages then
    { status := .fixed, paddr := pageSize * kernelpages, vaddr := (old i).vaddr,
      size := coremapPages }
  else if i < ramsizepages then
    { status := .clean, paddr := wordSize - 1, vaddr := (old i).vaddr, size := 0 }
  else old i

/-- `coremap_init` (`coremap.c:10-71`), with the assignment of its result to `coremap` in
`kmain`. `ram_getfirstfree` has reset the boot allocator. With `kernelpages = 0` the C function
returns `NULL` and leaves the coremap unset. -/
def coremapInit (s : VmState) : Except Panic VmState :=
  let ramsizepages := s.lastpaddr / pageSize
  let kernelpages := pagesFor s.firstpaddr
  let coremapPages := pagesFor (ramsizepages * coremapEntrySize)
  let s := { s with nRamFrames := ramsizepages, firstpaddr := 0, lastpaddr := 0 }
  if ramsizepages < kernelpages + coremapPages then .error .tooLittleMemory
  else if kernelpages = 0 then .ok s
  else .ok { s with
    coremap := coremapInitEntry s.coremap kernelpages coremapPages ramsizepages
    firstFreeFrame := kernelpages + coremapPages
    allocTableActive := true }

/-! ## `coremap_victim_selection` -/

/-- `int` value of an `unsigned long`. -/
def intOfUnsigned (n : Nat) : Int := if n < 2147483648 then (n : Int) else (n : Int) - wordSize

theorem intOfUnsigned_of_nonneg {n : Nat} (hw : n < wordSize) (h : 0 ≤ intOfUnsigned n) :
    intOfUnsigned n = n := by
  unfold intOfUnsigned at *
  simp only [wordSize] at *
  split_ifs at h ⊢ <;> omega

/-- The inner `for` (`coremap.c:94-100`) from `i` with `victimsfound` and `found`, for at most
`fuel` rounds; `nRamFrames - i` rounds reach its exit. -/
def victimFor (s : VmState) (nvictims : Int) : Nat → Nat → Nat → Bool → Nat × Nat × Bool
  | 0, i, vf, found => (i, vf, found)
  | fuel + 1, i, vf, found =>
    if i < s.nRamFrames ∧ (vf : Int) < nvictims then
      if (s.coremap i).status = .fixed then victimFor s nvictims fuel (i + 1) 0 false
      else victimFor s nvictims fuel (i + 1) (vf + 1) found
    else (i, vf, found)

/-- The `while(!found)` loop (`coremap.c:91-110`); `passes` is `2 - iteration`. Returns
`victim`, `victimsfound` and, for the next call, `victim + nvictims`. A round that ends without
`found` has run to the end of RAM, so every round that is not the last lowers `passes`. -/
def victimWhile (s : VmState) (nvictims : Int) :
    Nat → Nat → Nat → Int → Except Panic (Int × Nat)
  | 0, _, _, _ => .error .noMoreVictims
  | passes + 1, i, vf, victim =>
    let (i, vf, found) := victimFor s nvictims (s.nRamFrames - i) i vf true
    let victim := if (vf : Int) = nvictims then (i : Int) - nvictims else victim
    let found := found || decide ((vf : Int) = nvictims)
    if s.nRamFrames ≤ i then
      match passes with
      | 0 => .error .noMoreVictims
      | _ + 1 =>
        if found then .ok (victim, vf)
        else victimWhile s nvictims passes s.firstFreeFrame vf victim
    else if found then .ok (victim, vf)
    else victimWhile s nvictims passes i vf victim

/-- Where the search starts: `next_victim`, moved to `firstFreeFrame` at the start and at the
end of RAM. -/
def victimStart (s : VmState) : Nat :=
  let next := if s.nextVictim = 0 then s.firstFreeFrame else s.nextVictim
  if s.nRamFrames ≤ next then s.firstFreeFrame else next

/-- `coremap_victim_selection` (`coremap.c:76-112`): the first victim and the state with the
pointer advanced. -/
def coremapVictimSelection (s : VmState) (nvictims : Int) : Except Panic (Int × VmState) :=
  match victimWhile s nvictims 2 (victimStart s) 0 (victimStart s) with
  | .error p => .error p
  | .ok (victim, vf) =>
    if (vf : Int) = nvictims then
      .ok (victim, { s with nextVictim := (victim + nvictims).toNat })
    else .error .victimCount

/-! ### What a selection returns -/

/-- The counting invariant: the last `vf` frames before `i` that lie at or above
`firstFreeFrame` are not `FIXED`, and lie in RAM. -/
def Counted (s : VmState) (i vf : Nat) : Prop :=
  s.firstFreeFrame ≤ i ∧
    ∀ j, s.firstFreeFrame ≤ j → j < i → i ≤ j + vf →
      j < s.nRamFrames ∧ (s.coremap j).status ≠ .fixed

theorem victimFor_counted :
    ∀ {fuel i vf : Nat} {found : Bool} {i' vf' : Nat} {found' : Bool}, Counted s i vf →
      victimFor s nvictims fuel i vf found = (i', vf', found') →
      Counted s i' vf' ∧ (i < i' ∨ i' = i ∧ vf' = vf)
  | 0, i, vf, found, i', vf', found', hc, h => by
    simp only [victimFor, Prod.mk.injEq] at h
    obtain ⟨rfl, rfl, -⟩ := h
    exact ⟨hc, Or.inr ⟨rfl, rfl⟩⟩
  | fuel + 1, i, vf, found, i', vf', found', hc, h => by
    simp only [victimFor] at h
    split at h
    · rename_i hin
      split at h
      · -- a `FIXED` frame empties the count
        have hc' : Counted s (i + 1) 0 := ⟨by have := hc.1; omega, fun j _ _ _ => by omega⟩
        obtain ⟨h1, h2⟩ := victimFor_counted hc' h
        exact ⟨h1, by omega⟩
      · rename_i hfix
        have hc' : Counted s (i + 1) (vf + 1) := by
          refine ⟨by have := hc.1; omega, fun j hj hji hvf => ?_⟩
          rcases Nat.lt_succ_iff_lt_or_eq.mp hji with hlt | rfl
          · exact hc.2 j hj hlt (by omega)
          · exact ⟨hin.1, hfix⟩
        obtain ⟨h1, h2⟩ := victimFor_counted hc' h
        exact ⟨h1, by omega⟩
    · simp only [Prod.mk.injEq] at h
      obtain ⟨rfl, rfl, -⟩ := h
      exact ⟨hc, Or.inr ⟨rfl, rfl⟩⟩

/-- A pass that found no run leaves a count short of `nvictims`, whatever wraps with it; a pass
that did returns the run ending where it stopped, past the frame it started at. -/
theorem victimWhile_spec :
    ∀ {passes i vf : Nat} {v₀ victim : Int} {vf' : Nat}, Counted s i vf →
      (0 < nvictims → (vf : Int) ≠ nvictims) →
      victimWhile s nvictims passes i vf v₀ = .ok (victim, vf') → (vf' : Int) = nvictims →
      ∃ j : Nat, victim = (j : Int) - nvictims ∧ Counted s j vf' ∧
        (0 < nvictims → s.firstFreeFrame < j)
  | 0, i, vf, v₀, victim, vf', _, _, h, _ => by simp [victimWhile] at h
  | passes + 1, i, vf, v₀, victim, vf', hc, hlt, h, hn => by
    obtain ⟨⟨j, vj, fj⟩, hfor⟩ : ∃ r, victimFor s nvictims (s.nRamFrames - i) i vf true = r :=
      ⟨_, rfl⟩
    obtain ⟨hcj, hij⟩ := victimFor_counted hc hfor
    -- the count after a wrap restarts at `firstFreeFrame`, where no frame is counted yet
    have hwrap : Counted s s.firstFreeFrame vj := ⟨le_refl _, fun j _ _ _ => by omega⟩
    have hdone : ∀ {v : Int} {k : Nat}, Except.ok (ε := Panic) (if (vj : Int) = nvictims then
        (j : Int) - nvictims else v₀, vj) = .ok (v, k) → (k : Int) = nvictims →
        ∃ j : Nat, v = (j : Int) - nvictims ∧ Counted s j k ∧
          (0 < nvictims → s.firstFreeFrame < j) := by
      intro v k he hk
      simp only [Except.ok.injEq, Prod.mk.injEq] at he
      obtain ⟨rfl, rfl⟩ := he
      rw [if_pos hk]
      refine ⟨j, rfl, hcj, fun hpos => ?_⟩
      have := hlt hpos
      have := hc.1
      rcases hij with h | ⟨-, rfl⟩ <;> omega
    unfold victimWhile at h
    simp only [hfor] at h
    split at h
    · cases passes with
      | zero => simp at h
      | succ p =>
        simp only at h
        split at h
        · exact hdone h hn
        · rename_i hnf
          exact victimWhile_spec hwrap (fun _ he => hnf (by simp [he])) h hn
    · split at h
      · exact hdone h hn
      · rename_i hnf
        exact victimWhile_spec hcj (fun _ he => hnf (by simp [he])) h hn

/-- The pointer is unset or at or above `firstFreeFrame`. -/
def VictimPtr (s : VmState) : Prop := s.nextVictim = 0 ∨ s.firstFreeFrame ≤ s.nextVictim

theorem firstFreeFrame_le_victimStart (hp : VictimPtr s) : s.firstFreeFrame ≤ victimStart s := by
  unfold victimStart
  rcases hp with h | h <;> simp only <;> split_ifs <;> omega

/-- **What a selection returns**: the pointer moves to the end of the run, and the frames of the
run at or above `firstFreeFrame` are in RAM and not `FIXED`. -/
theorem victimSelection_spec {s' : VmState} {victim : Int} (hp : VictimPtr s)
    (h : coremapVictimSelection s nvictims = .ok (victim, s')) :
    0 ≤ nvictims ∧ (∃ next : Nat, s' = { s with nextVictim := next } ∧
        s.firstFreeFrame ≤ next ∧ (0 < nvictims → s.firstFreeFrame < next) ∧
        (next : Int) = victim + nvictims) ∧
      ∀ j : Nat, s.firstFreeFrame ≤ j → victim ≤ j → (j : Int) < victim + nvictims →
        j < s.nRamFrames ∧ (s.coremap j).status ≠ .fixed := by
  unfold coremapVictimSelection at h
  split at h
  · cases h
  · rename_i v vf hw
    split at h
    · rename_i hn
      simp only [Except.ok.injEq, Prod.mk.injEq] at h
      obtain ⟨rfl, rfl⟩ := h
      have hc0 : Counted s (victimStart s) 0 :=
        ⟨firstFreeFrame_le_victimStart hp, fun j _ _ _ => by omega⟩
      obtain ⟨j, rfl, ⟨hfirst, hc⟩, hlt⟩ := victimWhile_spec hc0 (by omega) hw hn
      grind
    · cases h

/-- One victim: a frame of RAM at or above `firstFreeFrame` that is not `FIXED`. -/
theorem victimSelection_one {s' : VmState} {victim : Int} (hp : VictimPtr s)
    (h : coremapVictimSelection s 1 = .ok (victim, s')) :
    ∃ f : Nat, victim = f ∧ s.firstFreeFrame ≤ f ∧ f < s.nRamFrames ∧
      (s.coremap f).status ≠ .fixed ∧ s' = { s with nextVictim := f + 1 } := by
  obtain ⟨-, ⟨next, rfl, -, hlt, hnext⟩, hrun⟩ := victimSelection_spec hp h
  have := hlt (by omega)
  obtain ⟨f, rfl⟩ : ∃ f, next = f + 1 := ⟨next - 1, by omega⟩
  grind

end OsPaging.Vm
