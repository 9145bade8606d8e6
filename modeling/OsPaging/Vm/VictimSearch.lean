import OsPaging.Lib.Cyclic
import OsPaging.Vm.Coremap

/-!
# When the victim search finds a run

`coremap_victim_selection` should return a run of `n` frames of `[firstFreeFrame, nRamFrames)`
none of which is `FIXED` whenever there is one, and panic otherwise. `Scan` says exactly what
one pass of the inner `for` does, and `victimSelection_cases` what the two passes together return.

Three things can go wrong, each in a search that finds no run at or above the pointer:

* the count of the frames at the end of RAM is carried over the wrap, and the run returned starts
  below `firstFreeFrame` (`Straddles`);
* no frame from the pointer on is `FIXED` but there are fewer than `n` of them: `found` is still
  set, the loop ends after one pass and `KASSERT(victimsfound == nvictims)` fails;
* the only run ends at the end of RAM: the second pass panics although it has found it.

`victim_selection_legal_iff` is the resulting condition. None of the three can happen for one
frame, and single-page selection is round robin (`single_page_round_robin`).
-/

namespace OsPaging.Vm

open OsPaging.Lib

variable {s t : VmState} {i j i' n vf vf' f : Nat} {found found' : Bool}

/-! ## Runs of frames -/

/-- No frame of `[i, j)` is `FIXED`. -/
def NoneFixed (s : VmState) (i j : Nat) : Prop :=
  ∀ k, i ≤ k → k < j → (s.coremap k).status ≠ .fixed

/-- `[v, v + n)` may be evicted: frames of RAM at or above `firstFreeFrame`, none `FIXED`. -/
structure LegalRun (s : VmState) (n v : Nat) : Prop where
  first : s.firstFreeFrame ≤ v
  inRam : v + n ≤ s.nRamFrames
  noneFixed : NoneFixed s v (v + n)

theorem NoneFixed.mono {j' : Nat} (h : NoneFixed s i j) (hi : i ≤ i') (hj : j' ≤ j) :
    NoneFixed s i' j' := fun k h1 h2 => h k (by omega) (by omega)

theorem NoneFixed.empty (h : j ≤ i) : NoneFixed s i j :=
  fun k h1 h2 => absurd h2 (by omega)

theorem NoneFixed.cons (hi : (s.coremap i).status ≠ .fixed) (h : NoneFixed s (i + 1) j) :
    NoneFixed s i j := by
  intro k h1 h2
  rcases Nat.eq_or_lt_of_le h1 with rfl | hlt
  · exact hi
  · exact h k hlt h2

/-! ## One pass -/

/-- What the inner `for` does from frame `i` with the count `vf`: it stops at `i'` with the count
`vf'`, which counts back to the last `FIXED` frame it saw, or to where the count it was given
began. -/
structure Scan (s : VmState) (n i vf : Nat) (found : Bool) (i' vf' : Nat) (found' : Bool) :
    Prop where
  le : i ≤ i'
  inRam : i < i' → i' ≤ s.nRamFrames
  count_le : vf' ≤ n
  stop : vf' = n ∨ s.nRamFrames ≤ i'
  counted : NoneFixed s i i' ∧ vf' = vf + (i' - i) ∧ found' = found ∨
    ∃ b, i ≤ b ∧ b < i' ∧ (s.coremap b).status = .fixed ∧ NoneFixed s (b + 1) i' ∧
      vf' = i' - (b + 1) ∧ found' = false
  /-- The count it was given is completed by the frames from `i` on, at the latest there. -/
  carried : ∀ e, i ≤ e → e ≤ i' → NoneFixed s i e → n ≤ vf + (e - i) → e = i' ∧ vf' = n
  /-- It does not go past a run. -/
  least : ∀ v, i ≤ v → v + n ≤ i' → NoneFixed s v (v + n) → v + n = i' ∧ vf' = n

theorem Scan.refl (hvf : vf ≤ n) (hstop : vf = n ∨ s.nRamFrames ≤ i) :
    Scan s n i vf found i vf found where
  le := le_refl i
  inRam h := absurd h (lt_irrefl i)
  count_le := hvf
  stop := hstop
  counted := Or.inl ⟨NoneFixed.empty (le_refl i), by omega, rfl⟩
  carried e h1 h2 _ h3 := by omega
  least v h1 h2 _ := by omega

theorem Scan.fixed (hi : i < s.nRamFrames) (hvf : vf < n) (hfix : (s.coremap i).status = .fixed)
    (h : Scan s n (i + 1) 0 false i' vf' found') : Scan s n i vf found i' vf' found' where
  le := by have := h.le; omega
  inRam _ := by
    rcases Nat.eq_or_lt_of_le h.le with he | hlt
    · omega
    · exact h.inRam hlt
  count_le := h.count_le
  stop := h.stop
  counted := by
    have hle := h.le
    rcases h.counted with ⟨hnone, hcount, hfound⟩ | ⟨b, h1, h2, hb, hnone, hcount, hfound⟩
    · grind
    · grind
  carried e h1 _ hnone hc := by
    rcases Nat.eq_or_lt_of_le h1 with rfl | hlt
    · omega
    · exact absurd hfix (hnone i (le_refl i) hlt)
  least v h1 h2 hnone := by
    rcases Nat.eq_or_lt_of_le h1 with rfl | hlt
    · exact absurd hfix (hnone i (le_refl i) (by omega))
    · exact h.least v hlt h2 hnone

theorem Scan.count (hi : i < s.nRamFrames) (hvf : vf < n) (hfix : (s.coremap i).status ≠ .fixed)
    (h : Scan s n (i + 1) (vf + 1) found i' vf' found') : Scan s n i vf found i' vf' found' where
  le := by have := h.le; omega
  inRam _ := by
    rcases Nat.eq_or_lt_of_le h.le with he | hlt
    · omega
    · exact h.inRam hlt
  count_le := h.count_le
  stop := h.stop
  counted := by
    have hle := h.le
    rcases h.counted with ⟨hnone, hcount, hfound⟩ | ⟨b, h1, h2, hb, hnone, hcount, hfound⟩
    · exact Or.inl ⟨hnone.cons hfix, by omega, hfound⟩
    · grind
  carried e h1 h2 hnone hc := by
    rcases Nat.eq_or_lt_of_le h1 with rfl | hlt
    · omega
    · exact h.carried e hlt h2 (hnone.mono (by omega) (le_refl e)) (by omega)
  least v h1 h2 hnone := by
    rcases Nat.eq_or_lt_of_le h1 with rfl | hlt
    · exact h.carried (i + n) (by omega) h2 (hnone.mono (by omega) (le_refl _)) (by omega)
    · exact h.least v hlt h2 hnone

theorem victimFor_scan : ∀ (fuel i vf : Nat) (found : Bool), vf ≤ n →
    s.nRamFrames - i ≤ fuel → ∃ i' vf' found',
      victimFor s n fuel i vf found = (i', vf', found') ∧ Scan s n i vf found i' vf' found'
  | 0, i, vf, found, hvf, hfuel =>
    ⟨i, vf, found, rfl, Scan.refl hvf (Or.inr (by omega))⟩
  | fuel + 1, i, vf, found, hvf, hfuel => by
    have hfuel' : s.nRamFrames - (i + 1) ≤ fuel := by omega
    simp only [victimFor]
    by_cases hgo : i < s.nRamFrames ∧ (vf : Int) < n
    · rw [if_pos hgo]
      have hlt : vf < n := by omega
      by_cases hfix : (s.coremap i).status = .fixed
      · rw [if_pos hfix]
        obtain ⟨i', vf', found', he, hs⟩ :=
          victimFor_scan fuel (i + 1) 0 false (Nat.zero_le n) hfuel'
        exact ⟨i', vf', found', he, hs.fixed hgo.1 hlt hfix⟩
      · rw [if_neg hfix]
        obtain ⟨i', vf', found', he, hs⟩ := victimFor_scan fuel (i + 1) (vf + 1) found hlt hfuel'
        exact ⟨i', vf', found', he, hs.count hgo.1 hlt hfix⟩
    · rw [if_neg hgo]
      exact ⟨i, vf, found, rfl, Scan.refl hvf (by omega)⟩

/-! ## Both passes -/

/-- The run the search has found, and the pointer it leaves. -/
def selects (s : VmState) (n : Nat) (victim : Int) : Prop :=
  coremapVictimSelection s n = .ok (victim, { s with nextVictim := (victim + n).toNat })

/-- What the search does when no run starts at or above the pointer, by the last `FIXED` frame
`b` of the first pass. -/
inductive SecondPass (s : VmState) (n b : Nat) : Prop
  /-- The frames after `b` and those from `firstFreeFrame` on make up the count. -/
  | straddle (hb : b + 1 < s.nRamFrames)
      (hrun : NoneFixed s s.firstFreeFrame (s.firstFreeFrame + (n - (s.nRamFrames - (b + 1)))))
      (hsel : selects s n ((s.firstFreeFrame : Int) - ((s.nRamFrames - (b + 1) : Nat) : Int)))
  /-- A run below the end of RAM, the lowest one. -/
  | found (v : Nat) (hv : LegalRun s n v) (hend : v + n < s.nRamFrames)
      (hleast : ∀ w, LegalRun s n w → v ≤ w) (hsel : selects s n v)
      (hno : b + 1 < s.nRamFrames →
        ¬ NoneFixed s s.firstFreeFrame (s.firstFreeFrame + (n - (s.nRamFrames - (b + 1)))))
  /-- None, or one that ends at the end of RAM. -/
  | panics (hend : ∀ w, LegalRun s n w → w + n = s.nRamFrames)
      (hsel : coremapVictimSelection s n = .error .noMoreVictims)
      (hno : b + 1 < s.nRamFrames →
        ¬ NoneFixed s s.firstFreeFrame (s.firstFreeFrame + (n - (s.nRamFrames - (b + 1)))))

/-- The second pass: it panics at the end of RAM and returns what it has found before. -/
theorem victimWhile_one {c : Nat} {v₀ : Int}
    (hfor : victimFor s n (s.nRamFrames - s.firstFreeFrame) s.firstFreeFrame c true =
      (i', vf', found'))
    (hs : Scan s n s.firstFreeFrame c true i' vf' found') :
    victimWhile s n 1 s.firstFreeFrame c v₀ =
      if s.nRamFrames ≤ i' then .error .noMoreVictims else .ok ((i' : Int) - n, n) := by
  unfold victimWhile
  simp only [hfor]
  by_cases hend : s.nRamFrames ≤ i'
  · rw [if_pos hend, if_pos hend]
  · have hn : vf' = n := hs.stop.resolve_right hend
    simp [hend, hn]

/-- The second pass finds the lowest run, unless the frames carried over the wrap are completed
first. -/
theorem secondPass {b : Nat} (v₀ : Int)
    (hfirst : s.firstFreeFrame ≤ b) (hb : b < s.nRamFrames) (hfix : (s.coremap b).status = .fixed)
    (hc : s.nRamFrames - (b + 1) < n)
    (hsel : coremapVictimSelection s n =
      match victimWhile s n 1 s.firstFreeFrame (s.nRamFrames - (b + 1)) v₀ with
      | .error p => .error p
      | .ok (victim, vf) =>
        if (vf : Int) = n then .ok (victim, { s with nextVictim := (victim + n).toNat })
        else .error .victimCount) : SecondPass s n b := by
  obtain ⟨i', vf', found', hfor, hs⟩ := victimFor_scan (s := s) (n := n)
    (s.nRamFrames - s.firstFreeFrame) s.firstFreeFrame (s.nRamFrames - (b + 1)) true (by omega)
    (le_refl _)
  rw [victimWhile_one hfor hs] at hsel
  rcases hs.counted with ⟨hnone, hcount, -⟩ | ⟨b', h1, h2, hfix', hnone, hcount, -⟩
  · -- the count is completed before the first `FIXED` frame, so below `b`
    have hib : i' ≤ b := by
      by_contra hlt
      exact hnone b hfirst (by omega) hfix
    have hvf : vf' = n := hs.stop.resolve_right (by omega)
    rw [if_neg (by omega)] at hsel
    simp only [if_true] at hsel
    by_cases hwrap : b + 1 < s.nRamFrames
    · refine .straddle hwrap (hnone.mono (le_refl _) (by omega)) ?_
      have hv : ((i' : Int) - n) =
          (s.firstFreeFrame : Int) - ((s.nRamFrames - (b + 1) : Nat) : Int) := by omega
      rw [selects, ← hv]
      exact hsel
    · have hv : ((i' : Int) - n) = ((s.firstFreeFrame : Nat) : Int) := by omega
      rw [hv] at hsel
      refine .found s.firstFreeFrame ⟨le_refl _, by omega, ?_⟩ (by omega) (fun w hw => hw.first)
        hsel (fun h => absurd h hwrap)
      exact hnone.mono (le_refl _) (by omega)
  · have hno : b + 1 < s.nRamFrames →
        ¬ NoneFixed s s.firstFreeFrame (s.firstFreeFrame + (n - (s.nRamFrames - (b + 1)))) := by
      intro _ hrun
      by_cases hle : s.firstFreeFrame + (n - (s.nRamFrames - (b + 1))) ≤ b'
      · obtain ⟨he, -⟩ := hs.carried _ (by omega) (by omega) hrun (by omega)
        omega
      · exact hrun b' h1 (by omega) hfix'
    by_cases hend : s.nRamFrames ≤ i'
    · rw [if_pos hend] at hsel
      refine .panics (fun w hw => ?_) hsel hno
      have hram := hw.inRam
      obtain ⟨he, -⟩ := hs.least w hw.first (by omega) hw.noneFixed
      omega
    · have hvf : vf' = n := hs.stop.resolve_right hend
      rw [if_neg hend] at hsel
      simp only [if_true] at hsel
      have hv : ((i' : Int) - n) = ((b' + 1 : Nat) : Int) := by omega
      rw [hv] at hsel
      refine .found (b' + 1) ⟨by omega, by omega, ?_⟩ (by omega) (fun w hw => ?_) hsel hno
      · exact hnone.mono (le_refl _) (by omega)
      · by_contra hlt
        obtain ⟨he, -⟩ := hs.least w hw.first (by omega) hw.noneFixed
        omega

/-- **The search, by cases**: the lowest run at or above the pointer if there is one; otherwise
a failed assertion if no frame from the pointer on is `FIXED`, and the second pass if one is. -/
theorem victimSelection_cases (hp : VictimPtr s) (hn : 1 ≤ n) :
    (∃ v, victimStart s ≤ v ∧ LegalRun s n v ∧
      (∀ w, victimStart s ≤ w → LegalRun s n w → v ≤ w) ∧ selects s n v) ∨
    (∀ w, victimStart s ≤ w → ¬ LegalRun s n w) ∧
      (NoneFixed s (victimStart s) s.nRamFrames ∧
          coremapVictimSelection s n = .error .victimCount ∨
        ∃ b, victimStart s ≤ b ∧ b < s.nRamFrames ∧ (s.coremap b).status = .fixed ∧
          NoneFixed s (b + 1) s.nRamFrames ∧ s.nRamFrames - (b + 1) < n ∧ SecondPass s n b) := by
  have hstart := firstFreeFrame_le_victimStart hp
  obtain ⟨i', vf', found', hfor, hs⟩ := victimFor_scan (s := s) (n := n)
    (s.nRamFrames - victimStart s) (victimStart s) 0 true (Nat.zero_le n) (le_refl _)
  by_cases hvf : vf' = n
  · -- the first pass has found a run; it ends where the pass stopped
    left
    obtain ⟨v, hv, hpv, hnone⟩ : ∃ v, v + n = i' ∧ victimStart s ≤ v ∧ NoneFixed s v i' := by
      rcases hs.counted with ⟨hnone, hcount, -⟩ | ⟨b, h1, h2, -, hnone, hcount, -⟩
      · grind
      · exact ⟨b + 1, by omega, by omega, hnone⟩
    have hram := hs.inRam (by omega)
    refine ⟨v, hpv, ⟨by omega, by omega, hv ▸ hnone⟩, fun w hpw hw => ?_, ?_⟩
    · by_contra hlt
      obtain ⟨he, -⟩ := hs.least w hpw (by omega) hw.noneFixed
      omega
    · unfold selects coremapVictimSelection victimWhile
      grind
  · have hend := hs.stop.resolve_left hvf
    refine Or.inr ⟨fun w hpw hw => ?_, ?_⟩
    · have hram := hw.inRam
      exact hvf (hs.least w hpw (by omega) hw.noneFixed).2
    · rcases hs.counted with ⟨hnone, hcount, rfl⟩ | ⟨b, h1, h2, hfix, hnone, hcount, rfl⟩
      · refine Or.inl ⟨hnone.mono (le_refl _) hend, ?_⟩
        unfold coremapVictimSelection victimWhile
        grind
      · have hi : i' = s.nRamFrames := le_antisymm (hs.inRam (by omega)) hend
        subst hi
        have hcle := hs.count_le
        refine Or.inr ⟨b, h1, h2, hfix, hnone, by omega, ?_⟩
        refine secondPass (victimStart s) (by omega) h2 hfix (by omega) ?_
        rw [← hcount]
        conv_lhs => unfold coremapVictimSelection victimWhile
        grind

/-! ## When the result is right -/

/-- What the search is for: it returns a run that may be evicted, and panics only if there is
none. -/
def SelectsLegalRun (s : VmState) (n : Nat) : Prop :=
  match coremapVictimSelection s n with
  | .ok (victim, _) => ∃ v : Nat, victim = v ∧ LegalRun s n v
  | .error _ => ∀ v, ¬ LegalRun s n v

/-- The first pass ends in fewer than `n` frames after its last `FIXED` frame `b`, and the frames
from `firstFreeFrame` on complete the count carried over the wrap. -/
def Straddles (s : VmState) (n : Nat) : Prop :=
  ∃ b, victimStart s ≤ b ∧ b + 1 < s.nRamFrames ∧ (s.coremap b).status = .fixed ∧
    NoneFixed s (b + 1) s.nRamFrames ∧ s.nRamFrames - (b + 1) < n ∧
    NoneFixed s s.firstFreeFrame (s.firstFreeFrame + (n - (s.nRamFrames - (b + 1))))

/-- There is a run at or above the pointer; or the search does not straddle the wrap, and either
there is no run at all, or a `FIXED` frame makes the search start again and some run ends below
the end of RAM. -/
def SearchMeets (s : VmState) (n : Nat) : Prop :=
  (∃ v, victimStart s ≤ v ∧ LegalRun s n v) ∨
    ¬ Straddles s n ∧ ((∀ v, ¬ LegalRun s n v) ∨
      ¬ NoneFixed s (victimStart s) s.nRamFrames ∧ ∃ v, LegalRun s n v ∧ v + n < s.nRamFrames)

theorem selectsLegalRun_of_selects {victim : Int} (h : selects s n victim) :
    SelectsLegalRun s n ↔ ∃ v : Nat, victim = v ∧ LegalRun s n v := by
  unfold SelectsLegalRun
  rw [show coremapVictimSelection s n = _ from h]

theorem selectsLegalRun_of_panic {p : Panic} (h : coremapVictimSelection s n = .error p) :
    SelectsLegalRun s n ↔ ∀ v, ¬ LegalRun s n v := by
  unfold SelectsLegalRun
  rw [h]

theorem lastFixed_unique {b b' : Nat} (hb : b < s.nRamFrames) (hb' : b' < s.nRamFrames)
    (hfix : (s.coremap b).status = .fixed) (hfix' : (s.coremap b').status = .fixed)
    (hnone : NoneFixed s (b + 1) s.nRamFrames) (hnone' : NoneFixed s (b' + 1) s.nRamFrames) :
    b = b' := by
  rcases Nat.lt_trichotomy b b' with hlt | rfl | hlt
  · exact absurd hfix' (hnone b' hlt hb')
  · rfl
  · exact absurd hfix (hnone' b hlt hb)

/-- **When victim selection is right**: exactly if it meets `SearchMeets`. -/
theorem victim_selection_legal_iff {s : VmState} {n : Nat} (hp : VictimPtr s) (hn : 1 ≤ n) :
    SelectsLegalRun s n ↔ SearchMeets s n := by
  rcases victimSelection_cases hp hn with
    ⟨v, hpv, hv, -, hsel⟩ | ⟨hnone, ⟨hfree, hsel⟩ | ⟨b, hpb, hb, hfix, hafter, hc, h2⟩⟩
  · rw [selectsLegalRun_of_selects hsel]
    exact ⟨fun _ => Or.inl ⟨v, hpv, hv⟩, fun _ => ⟨v, rfl, hv⟩⟩
  · rw [selectsLegalRun_of_panic hsel]
    constructor
    · rintro hno
      refine Or.inr ⟨?_, Or.inl hno⟩
      rintro ⟨b, h1, h2, hfix, -⟩
      exact hfree b h1 (by omega) hfix
    · rintro (⟨v, hpv, hv⟩ | ⟨-, hno | ⟨hfixed, -⟩⟩)
      · exact absurd hv (hnone v hpv)
      · exact hno
      · exact absurd hfree hfixed
  · have hnofree : ¬ NoneFixed s (victimStart s) s.nRamFrames := fun h => h b hpb hb hfix
    have hstraddles : Straddles s n → b + 1 < s.nRamFrames ∧
        NoneFixed s s.firstFreeFrame (s.firstFreeFrame + (n - (s.nRamFrames - (b + 1)))) := by
      rintro ⟨b', -, h2, hfix', hafter', -, hrun⟩
      obtain rfl := lastFixed_unique hb (by omega) hfix hfix' hafter hafter'
      exact ⟨h2, hrun⟩
    cases h2 with
    | straddle hb' hrun hsel =>
      rw [selectsLegalRun_of_selects hsel]
      constructor
      · rintro ⟨v, hv, hlegal⟩
        have := hlegal.first
        omega
      · rintro (⟨v, hpv, hv⟩ | ⟨hno, -⟩)
        · exact absurd hv (hnone v hpv)
        · exact absurd ⟨b, hpb, hb', hfix, hafter, hc, hrun⟩ hno
    | found v hv hend hleast hsel hno =>
      rw [selectsLegalRun_of_selects hsel]
      refine ⟨fun _ => Or.inr ⟨fun h => ?_, Or.inr ⟨hnofree, v, hv, hend⟩⟩, fun _ => ⟨v, rfl, hv⟩⟩
      exact hno (hstraddles h).1 (hstraddles h).2
    | panics hend hsel hno =>
      rw [selectsLegalRun_of_panic hsel]
      constructor
      · intro hnot
        exact Or.inr ⟨fun h => hno (hstraddles h).1 (hstraddles h).2, Or.inl hnot⟩
      · rintro (⟨v, hpv, hv⟩ | ⟨-, hnot | ⟨-, v, hv, hlt⟩⟩)
        · exact absurd hv (hnone v hpv)
        · exact hnot
        · exact absurd (hend v hv) (by omega)

/-- Six frames, two of them the kernel's, and frame 4 `FIXED`. -/
def sixFrames : VmState where
  ram _ := 0
  firstpaddr := 0
  lastpaddr := 0
  coremap i := ⟨if i < 2 ∨ i = 4 then .fixed else .dirty, 0, 0, 0⟩
  nRamFrames := 6
  firstFreeFrame := 2
  allocTableActive := true
  nextVictim := 0
  swaptable _ := false
  swapspace _ := 0
  vop _ := 0
  nvop := 0
  tlb _ := ⟨0, 0⟩
  tlbNextVictim := 0
  stats := statsInit
  as := none

/-- The first request for two frames finds frames 2 and 3. -/
theorem victim_selection_legal_two : SelectsLegalRun sixFrames 2 :=
  (victim_selection_legal_iff (s := sixFrames) (n := 2) (Or.inl rfl) (by decide)).mpr
    (Or.inl ⟨2, by decide, by decide, by decide, by
      intro k h1 h2
      obtain rfl | rfl : k = 2 ∨ k = 3 := by omega
      all_goals decide⟩)

/-- The second request, with the pointer at frame 4, counts frame 5, wraps, and completes the
count with frame 2: it returns the run from frame 1 on, which is the kernel's. -/
theorem selection_below_firstFreeFrame :
    ∃ t, coremapVictimSelection sixFrames 2 = .ok (2, t) ∧ VictimPtr t ∧
      (∀ i < t.firstFreeFrame, (t.coremap i).status = .fixed) ∧
      (coremapVictimSelection t 2).toOption.map (·.1) = some 1 ∧ ¬ SelectsLegalRun t 2 := by
  refine ⟨{ sixFrames with nextVictim := 4 }, rfl, Or.inr (by decide), by decide, by decide, ?_⟩
  rintro ⟨v, hv, hlegal⟩
  have hfirst := hlegal.first
  grind

/-! ## One frame at a time -/

/-- The frames that can be evicted, in order. -/
def evictableFrames (s : VmState) : List Nat :=
  (List.range s.nRamFrames).filter fun f =>
    decide (s.firstFreeFrame ≤ f) && decide ((s.coremap f).status ≠ .fixed)

theorem mem_evictableFrames :
    f ∈ evictableFrames s ↔
      s.firstFreeFrame ≤ f ∧ f < s.nRamFrames ∧ (s.coremap f).status ≠ .fixed := by
  simp only [evictableFrames, List.mem_filter, List.mem_range, Bool.and_eq_true, decide_eq_true_eq]
  tauto

theorem evictableFrames_sorted (s : VmState) : (evictableFrames s).Pairwise (· < ·) :=
  List.Pairwise.filter _ List.pairwise_lt_range

theorem legalRun_one : LegalRun s 1 f ↔ f ∈ evictableFrames s := by
  rw [mem_evictableFrames]
  constructor
  · rintro ⟨h1, h2, h3⟩
    exact ⟨h1, h2, h3 f (le_refl f) (by omega)⟩
  · rintro ⟨h1, h2, h3⟩
    refine ⟨h1, h2, fun k hk hk' => ?_⟩
    obtain rfl : k = f := by omega
    exact h3

/-- The frames that can be evicted in cyclic order from the pointer. -/
def evictionOrder (s : VmState) : List Nat := cyclicFrom (victimStart s) (evictableFrames s)

/-- The lowest element at or above the pointer comes first. -/
theorem head_filter_le {l : List Nat} {p : Nat} (hl : l.Pairwise (· < ·)) (hf : f ∈ l) (hp : p ≤ f)
    (hleast : ∀ g ∈ l, p ≤ g → f ≤ g) :
    (l.filter fun x => decide (p ≤ x)).head? = some f := by
  have hmem : f ∈ l.filter fun x => decide (p ≤ x) :=
    List.mem_filter.mpr ⟨hf, by simpa using hp⟩
  have hsorted := hl.filter (fun x => decide (p ≤ x))
  cases hup : l.filter fun x => decide (p ≤ x) with
  | nil => rw [hup] at hmem; simp at hmem
  | cons g rest =>
    have hg : g ∈ l.filter fun x => decide (p ≤ x) := by rw [hup]; exact List.mem_cons_self
    have hfg := hleast g (List.mem_filter.mp hg).1 (by simpa using (List.mem_filter.mp hg).2)
    rw [hup] at hmem hsorted
    rcases List.mem_cons.mp hmem with rfl | hrest
    · rfl
    · have := (List.pairwise_cons.mp hsorted).1 f hrest
      omega

/-- A single-page selection returns the frame that is next in cyclic order. -/
theorem victimSelection_next (hp : VictimPtr s) (hm : evictableFrames s ≠ []) :
    ∃ f : Nat, (evictionOrder s).head? = some f ∧ f ∈ evictableFrames s ∧
      coremapVictimSelection s 1 = .ok ((f : Int), { s with nextVictim := f + 1 }) := by
  have hsorted := evictableFrames_sorted s
  have hsel : ∀ {f : Nat}, selects s 1 f →
      coremapVictimSelection s 1 = .ok ((f : Int), { s with nextVictim := f + 1 }) := fun h => h
  obtain ⟨g, hg⟩ := List.exists_mem_of_ne_nil _ hm
  obtain ⟨hg1, hg2, hg3⟩ := mem_evictableFrames.mp hg
  rcases victimSelection_cases hp (le_refl 1) with
    ⟨v, hpv, hv, hleast, h⟩ | ⟨hnone, ⟨hfree, -⟩ | ⟨b, hpb, hb, hfix, hafter, hc, h2⟩⟩
  · have hmem := legalRun_one.mp hv
    refine ⟨v, ?_, hmem, hsel h⟩
    have hhead := head_filter_le hsorted hmem hpv
      fun w hw hpw => hleast w hpw (legalRun_one.mpr hw)
    rw [evictionOrder, cyclicFrom, List.head?_append, hhead]
    rfl
  · -- the pointer is inside RAM, so the frame it names would be a run
    have hstart : victimStart s < s.nRamFrames := by
      unfold victimStart
      simp only
      split_ifs <;> omega
    refine absurd (legalRun_one.mpr (mem_evictableFrames.mpr ?_)) (hnone _ (le_refl _))
    exact ⟨firstFreeFrame_le_victimStart hp, hstart, hfree _ (le_refl _) hstart⟩
  · -- the first pass ends in a `FIXED` frame: nothing is carried over the wrap
    cases h2 with
    | straddle hb' _ _ => omega
    | found v hv _ hleast h _ =>
      have hmem := legalRun_one.mp hv
      refine ⟨v, ?_, hmem, hsel h⟩
      have hlt : ∀ x ∈ evictableFrames s, x < victimStart s := fun x hx => by
        by_contra hge
        exact hnone x (by omega) (legalRun_one.mpr hx)
      have hhead := head_filter_le hsorted hmem (Nat.zero_le v)
        fun w hw _ => hleast w (legalRun_one.mpr hw)
      rw [evictionOrder, cyclicFrom_of_lt hlt, ← hhead, List.filter_eq_self.mpr fun y _ => by simp]
    | panics hend _ _ =>
      have hg' := hend g (legalRun_one.mpr hg)
      grind

/-- The pointer left by a selection, moved back to `firstFreeFrame` at the end of RAM, lists the
frames as a pointer past them would. -/
theorem evictionOrder_next (hhead : (evictionOrder s).head? = some f) :
    evictionOrder { s with nextVictim := f + 1 } = (evictionOrder s).rotate 1 := by
  have hnext : evictionOrder { s with nextVictim := f + 1 } =
      cyclicFrom (f + 1) (evictableFrames s) := by
    change cyclicFrom (if s.nRamFrames ≤ f + 1 then s.firstFreeFrame else f + 1)
      (evictableFrames s) = _
    split
    · rename_i hend
      rw [cyclicFrom_of_le fun x hx => (mem_evictableFrames.mp hx).1,
        cyclicFrom_of_lt fun x hx => ?_]
      have := (mem_evictableFrames.mp hx).2.1
      omega
    · rfl
  rw [hnext]
  exact cyclicFrom_succ_head (evictableFrames_sorted s) hhead

/-- Between two calls the victim pointer and the set of `FIXED` frames stay the same. -/
structure SameFixed (s t : VmState) : Prop where
  nextVictim : t.nextVictim = s.nextVictim
  nRamFrames : t.nRamFrames = s.nRamFrames
  firstFreeFrame : t.firstFreeFrame = s.firstFreeFrame
  fixed : ∀ f, (t.coremap f).status = .fixed ↔ (s.coremap f).status = .fixed

theorem SameFixed.evictableFrames (h : SameFixed s t) : evictableFrames t = evictableFrames s := by
  simp only [Vm.evictableFrames, h.nRamFrames, h.firstFreeFrame, ne_eq, h.fixed]

theorem SameFixed.evictionOrder (h : SameFixed s t) : evictionOrder t = evictionOrder s := by
  simp only [Vm.evictionOrder, victimStart, h.evictableFrames, h.nextVictim, h.nRamFrames,
    h.firstFreeFrame]

theorem SameFixed.victimPtr (h : SameFixed s t) (hp : VictimPtr s) : VictimPtr t := by
  unfold VictimPtr at *
  rw [h.nextVictim, h.firstFreeFrame]
  exact hp

/-- Calls one after another: the state of each is what the call before has left, up to changes
that keep the set of `FIXED` frames. -/
def SingleCalls (s : Nat → VmState) : Prop :=
  ∀ k victim t, coremapVictimSelection (s k) 1 = .ok (victim, t) → SameFixed t (s (k + 1))

/-- What one call hands to the next: the eviction order, rotated by one. -/
theorem SingleCalls.step {s : Nat → VmState} (hs : SingleCalls s) {k : Nat}
    (hp : VictimPtr (s k)) (hm : evictableFrames (s k) ≠ []) :
    VictimPtr (s (k + 1)) ∧ evictableFrames (s (k + 1)) = evictableFrames (s k) ∧
      evictionOrder (s (k + 1)) = (evictionOrder (s k)).rotate 1 := by
  obtain ⟨f, hhead, hf, hsel⟩ := victimSelection_next hp hm
  have hsame := hs k _ _ hsel
  refine ⟨hsame.victimPtr (Or.inr ?_), hsame.evictableFrames,
    hsame.evictionOrder.trans (evictionOrder_next hhead)⟩
  have := (mem_evictableFrames.mp hf).1
  change (s k).firstFreeFrame ≤ f + 1
  omega

theorem SingleCalls.after {s : Nat → VmState} (hs : SingleCalls s) {k : Nat}
    (hp : VictimPtr (s k)) (hm : evictableFrames (s k) ≠ []) (j : Nat) :
    VictimPtr (s (k + j)) ∧ evictableFrames (s (k + j)) = evictableFrames (s k) ∧
      evictionOrder (s (k + j)) = (evictionOrder (s k)).rotate j := by
  induction j with
  | zero => exact ⟨hp, rfl, by simp⟩
  | succ j ih =>
    obtain ⟨h1, h2, h3⟩ := ih
    obtain ⟨g1, g2, g3⟩ := hs.step h1 (h2 ▸ hm)
    exact ⟨g1, g2.trans h2, by rw [← Nat.add_assoc, g3, h3, List.rotate_rotate]⟩

/-- The frame a single-page call returns, if it does not panic. -/
def singleVictim (s : VmState) : Option Int :=
  (coremapVictimSelection s 1).toOption.map Prod.fst

theorem singleVictim_eq (hp : VictimPtr s) (hm : evictableFrames s ≠ []) :
    singleVictim s = (evictionOrder s).head?.map Int.ofNat := by
  obtain ⟨f, hhead, -, hsel⟩ := victimSelection_next hp hm
  rw [singleVictim, hsel, hhead]
  rfl

/-- **Single-page replacement is round robin**: no call panics, each returns the frame that comes
first in cyclic order from the pointer, and as many calls in a row as there are frames to evict
return each of them once. -/
theorem single_page_round_robin {s : Nat → VmState} (hs : SingleCalls s)
    (hp : VictimPtr (s 0)) (hm : evictableFrames (s 0) ≠ []) :
    (∀ k, ∃ (f : Nat) (t : VmState), coremapVictimSelection (s k) 1 = .ok ((f : Int), t) ∧
      (evictionOrder (s k)).head? = some f) ∧
    ∀ k, ((List.range (evictableFrames (s 0)).length).map fun j => singleVictim (s (k + j))).Perm
      ((evictableFrames (s 0)).map fun (f : Nat) => some (f : Int)) := by
  have hall : ∀ k, VictimPtr (s k) ∧ evictableFrames (s k) = evictableFrames (s 0) := fun k => by
    have h := hs.after hp hm k
    rw [Nat.zero_add] at h
    exact ⟨h.1, h.2.1⟩
  refine ⟨fun k => ?_, fun k => ?_⟩
  · obtain ⟨hpk, hmk⟩ := hall k
    obtain ⟨f, hhead, -, hsel⟩ := victimSelection_next hpk (hmk ▸ hm)
    exact ⟨f, _, hsel, hhead⟩
  · obtain ⟨hpk, hmk⟩ := hall k
    have hmk' : evictableFrames (s k) ≠ [] := hmk ▸ hm
    have hperm : (evictionOrder (s k)).Perm (evictableFrames (s 0)) :=
      hmk ▸ cyclicFrom_perm (evictableFrames_sorted (s k))
    -- the calls return the eviction order from the first of them, front to back
    have hcalls : ((List.range (evictableFrames (s 0)).length).map
        fun j => singleVictim (s (k + j))) =
          (evictionOrder (s k)).map fun (f : Nat) => some (f : Int) := by
      refine List.ext_getElem (by simp [hperm.length_eq]) fun j h1 h2 => ?_
      have hj : j < (evictionOrder (s k)).length := by simpa using h2
      obtain ⟨hpj, hmj, horder⟩ := hs.after hpk hmk' j
      rw [List.getElem_map, List.getElem_range, singleVictim_eq hpj (hmj ▸ hmk'), horder,
        List.head?_rotate hj, List.getElem?_eq_getElem hj, List.getElem_map]
      rfl
    rw [hcalls]
    exact hperm.map _

/-- The state after `k` single-page calls. -/
def afterCalls (s : VmState) : Nat → VmState
  | 0 => s
  | k + 1 => match coremapVictimSelection (afterCalls s k) 1 with
    | .ok (_, t) => t
    | .error _ => afterCalls s k

theorem singleCalls_afterCalls (s : VmState) : SingleCalls (afterCalls s) := by
  intro k victim t h
  have hnext : afterCalls s (k + 1) = t := by
    rw [afterCalls, h]
  rw [hnext]
  exact ⟨rfl, rfl, rfl, fun _ => Iff.rfl⟩

/-- After one call, the next three return frames 2, 3 and 5 in some order. -/
theorem single_page_round_robin_three :
    ((List.range 3).map fun j => singleVictim (afterCalls sixFrames (1 + j))).Perm
      [some 2, some 3, some 5] :=
  (single_page_round_robin (singleCalls_afterCalls sixFrames) (Or.inl rfl) (by decide)).2 1

end OsPaging.Vm
