import OsPaging.Fs.Bitmap
import OsPaging.Lib.Run
import Mathlib.Data.Finset.Erase
import Mathlib.Data.Finset.Insert

/-!
# Bitmaps as finite sets

`bitmap_create` and the operations of `kern/lib/bitmap.c` with their assertions, over the bit
operations of `Fs.Bitmap`, and what they are for: a subset of the numbers below `nbits`
(`SetStep`). The bits past the end, in the last byte, are marked from the start, so that the test
of a byte against `WORD_ALLBITS` and the search in it need no bound of their own.

**`bitmap_refines_set`** is the refinement. `bitmapAlloc` of `Fs.Bitmap` leaves out the assertion at
the end of the search in a byte; it is `bitmap_alloc` by `bitmapFind_eq`.
-/

namespace OsPaging.Fs

open OsPaging.Lib Function

/-! ## The operations -/

/-- `struct bitmap`. -/
structure Bitmap where
  nbits : Nat
  v : Bytes

/-- `bitmap_create` returns `NULL`, or an assertion fails. -/
inductive BitmapStop
  | null
  | panic
deriving DecidableEq, Repr

/-- The loop of `bitmap_create` over the leftover bits, from bit `j` of byte `ix` on. -/
def bitmapPad (ix : Nat) : (left j : Nat) → Bytes → Bytes
  | 0, _, v => v
  | left + 1, j, v => bitmapPad ix left (j + 1) (bitmapMark v (ix * 8 + j))

/-- `DIVROUNDUP(nbits, BITS_PER_WORD)`, in 32 bits. -/
def bitmapWords (nbits : Nat) : Nat := (nbits + 7) % 4294967296 / 8

/-- `bitmap_create`; `kmalloc` tells whether there is memory for the structure and for the bits. -/
def bitmapCreate (kmalloc : Bool × Bool) (nbits : Nat) : Except BitmapStop Bitmap :=
  let words := bitmapWords nbits
  if kmalloc ≠ (true, true) then .error .null
  else if nbits / 8 < words then
    let overbits := nbits - (words - 1) * 8
    if nbits / 8 = words - 1 ∧ 0 < overbits ∧ overbits < 8 then
      .ok ⟨nbits, bitmapPad (words - 1) (8 - overbits) overbits fun _ => 0⟩
    else .error .panic
  else .ok ⟨nbits, fun _ => 0⟩

/-- The search of `bitmap_alloc`, with the assertion after the inner loop. -/
def bitmapFind (v : Bytes) : (left ix : Nat) → Except BitmapStop (Option Nat)
  | 0, _ => .ok none
  | left + 1, ix =>
    if v ix ≠ 255 then
      match bitmapOffset v ix 8 0 with
      | some index => .ok (some index)
      | none => .error .panic
    else bitmapFind v left (ix + 1)

inductive BitmapOp
  | alloc
  | mark (index : Nat)
  | unmark (index : Nat)
  | isset (index : Nat)
deriving DecidableEq, Repr

/-- What an operation returns. -/
inductive BitmapAnswer
  | index (i : Nat)
  | enospc
  | isset (b : Bool)
  | done
deriving DecidableEq, Repr

namespace Bitmap

/-- One operation: `bitmap_alloc`, `bitmap_mark`, `bitmap_unmark` or `bitmap_isset`. -/
def exec (b : Bitmap) : BitmapOp → Except BitmapStop (BitmapAnswer × Bitmap)
  | .alloc =>
    match bitmapFind b.v (bitmapWords b.nbits) 0 with
    | .error e => .error e
    | .ok none => .ok (.enospc, b)
    | .ok (some i) =>
      if i < b.nbits then .ok (.index i, { b with v := bitmapMark b.v i }) else .error .panic
  | .mark i =>
    if i < b.nbits ∧ bitmapIsset b.v i = false then .ok (.done, { b with v := bitmapMark b.v i })
    else .error .panic
  | .unmark i =>
    if i < b.nbits ∧ bitmapIsset b.v i = true then .ok (.done, { b with v := bitmapUnmark b.v i })
    else .error .panic
  | .isset i => .ok (.isset (bitmapIsset b.v i), b)

end Bitmap

/-! ## The set -/

/-- An operation that a caller may make on a set of numbers below `nbits`. -/
def SetAllows (nbits : Nat) (S : Finset Nat) : BitmapOp → Prop
  | .alloc => True
  | .mark i => i < nbits ∧ i ∉ S
  | .unmark i => i ∈ S
  | .isset i => i < nbits

/-- One operation on the set: the answer, and the set after it. -/
def SetStep (nbits : Nat) (S : Finset Nat) (e : BitmapOp × BitmapAnswer) (S' : Finset Nat) : Prop :=
  SetAllows nbits S e.1 ∧
  match e.1 with
  | .alloc =>
    (∃ i < nbits, i ∉ S ∧ (∀ j < i, j ∈ S) ∧ e.2 = .index i ∧ S' = insert i S) ∨
      (∀ i < nbits, i ∈ S) ∧ e.2 = .enospc ∧ S' = S
  | .mark i => e.2 = .done ∧ S' = insert i S
  | .unmark i => e.2 = .done ∧ S' = S.erase i
  | .isset i => e.2 = .isset (decide (i ∈ S)) ∧ S' = S

/-! ## The search -/

variable {v : Bytes} {i j left ix offset nbits index : Nat} {b : Bitmap} {S : Finset Nat}

/-- The assertion after the inner loop does not fail. -/
theorem bitmapFind_eq : bitmapFind v left ix = .ok (bitmapScan v left ix) := by
  induction left generalizing ix with
  | zero => rfl
  | succ left ih =>
    rw [bitmapFind, bitmapScan]
    split_ifs with hb
    · have hfirst := bitmapOffset_first v ix (show 0 + 8 = 8 from rfl) (by simp)
      cases ho : bitmapOffset v ix 8 0 with
      | none => rw [ho] at hfirst; exact absurd hfirst hb
      | some index => rfl
    · exact ih

/-! ## The refinement -/

/-- The bitmap is the set `S`, and the bits past the end are marked. -/
structure Bitmap.IsSet (nbits : Nat) (b : Bitmap) (S : Finset Nat) : Prop where
  size : b.nbits = nbits
  below : ∀ i ∈ S, i < nbits
  isset : ∀ i < nbits, bitmapIsset b.v i = decide (i ∈ S)
  past : ∀ i, nbits ≤ i → i < bitmapWords nbits * 8 → bitmapIsset b.v i = true

theorem bitmapIsset_pad :
    bitmapIsset (bitmapPad ix left j v) i =
      (bitmapIsset v i || decide (ix * 8 + j ≤ i ∧ i < ix * 8 + (j + left))) := by
  induction left generalizing j v with
  | zero =>
    rw [bitmapPad, decide_eq_false (by omega), Bool.or_false]
  | succ left ih =>
    rw [bitmapPad, ih, bitmapIsset_mark]
    by_cases hi : i = ix * 8 + j
    · subst hi
      rw [update_self, Bool.true_or, decide_eq_true (by omega), Bool.or_true]
    · rw [update_of_ne hi]
      exact congrArg _ (decide_eq_decide.mpr (by omega))

theorem bitmapIsset_zero : bitmapIsset (fun _ => 0) i = false := by
  rw [bitmapIsset_eq]
  exact Nat.zero_testBit _

theorem bitmapCreate_isSet (h : nbits ≤ 2147483648) :
    ∃ b, bitmapCreate (true, true) nbits = .ok b ∧ b.IsSet nbits ∅ := by
  have hw : bitmapWords nbits = (nbits + 7) / 8 := by
    unfold bitmapWords
    omega
  unfold bitmapCreate
  rw [if_neg (by simp), hw]
  dsimp only
  split_ifs with hover hassert
  · refine ⟨_, rfl, rfl, by simp, fun i hi => ?_, fun i h1 h2 => ?_⟩
    · rw [bitmapIsset_pad, bitmapIsset_zero, decide_eq_false (by omega)]
      simp
    · rw [hw] at h2
      rw [bitmapIsset_pad, decide_eq_true (by omega), Bool.or_true]
  · exact absurd ⟨by omega, by omega, by omega⟩ hassert
  · refine ⟨_, rfl, rfl, by simp, fun i hi => ?_, fun i h1 h2 => ?_⟩
    · rw [bitmapIsset_zero]
      simp
    · rw [hw] at h2
      omega

namespace Bitmap.IsSet

theorem marked (h : b.IsSet nbits S) (hi : i < nbits) :
    Bitmap.IsSet nbits { b with v := bitmapMark b.v i } (insert i S) where
  size := h.size
  below j hj := (Finset.mem_insert.mp hj).elim (· ▸ hi) (h.below j)
  isset j hj := by
    rw [bitmapIsset_mark]
    by_cases hji : j = i
    · simp [hji]
    · rw [update_of_ne hji, h.isset j hj]
      simp [hji]
  past j h1 h2 := by
    rw [bitmapIsset_mark, update_of_ne (by omega)]
    exact h.past j h1 h2

theorem unmarked (h : b.IsSet nbits S) (hi : i < nbits) :
    Bitmap.IsSet nbits { b with v := bitmapUnmark b.v i } (S.erase i) where
  size := h.size
  below j hj := h.below j (Finset.mem_of_mem_erase hj)
  isset j hj := by
    rw [bitmapIsset_unmark]
    by_cases hji : j = i
    · simp [hji]
    · rw [update_of_ne hji, h.isset j hj]
      simp [hji]
  past j h1 h2 := by
    rw [bitmapIsset_unmark, update_of_ne (by omega)]
    exact h.past j h1 h2

/-- **One operation** on the bitmap is the operation on the set, and its assertions hold. -/
theorem exec {op : BitmapOp} (h : b.IsSet nbits S) (hN : nbits ≤ 2147483648)
    (ha : SetAllows nbits S op) :
    ∃ r b' S', b.exec op = .ok (r, b') ∧ SetStep nbits S (op, r) S' ∧ b'.IsSet nbits S' := by
  have hw : bitmapWords nbits = (nbits + 7) / 8 := by
    unfold bitmapWords
    omega
  cases op with
  | alloc =>
    have hfirst := bitmapScan_first b.v (bitmapWords nbits) 0
    unfold Bitmap.exec
    rw [bitmapFind_eq, show bitmapWords b.nbits = bitmapWords nbits by rw [h.size]]
    cases hs : bitmapScan b.v (bitmapWords nbits) 0 with
    | none =>
      rw [hs] at hfirst
      refine ⟨_, b, S, rfl, ⟨trivial, .inr ⟨fun i hi => ?_, rfl, rfl⟩⟩, h⟩
      have := hfirst i (Nat.zero_le _) (by omega)
      rwa [h.isset i hi, decide_eq_true_eq] at this
    | some i =>
      rw [hs] at hfirst
      obtain ⟨hlt, hclear, hset⟩ := hfirst
      -- the padding keeps the search below `nbits`
      have hi : i < nbits := by
        by_contra hge
        exact absurd (h.past i (by omega) (by omega)) (by simp [hclear])
      have hmem : i ∉ S := by
        rw [h.isset i hi] at hclear
        exact of_decide_eq_false hclear
      refine ⟨_, _, insert i S, if_pos (h.size.symm ▸ hi),
        ⟨trivial, .inl ⟨i, hi, hmem, fun j hj => ?_, rfl, rfl⟩⟩, h.marked hi⟩
      have := hset j (Nat.zero_le _) hj
      rwa [h.isset j (by omega), decide_eq_true_eq] at this
  | mark i =>
    have hclear : bitmapIsset b.v i = false := by
      rw [h.isset i ha.1]
      exact decide_eq_false ha.2
    exact ⟨_, _, _, if_pos ⟨by rw [h.size]; exact ha.1, hclear⟩, ⟨ha, rfl, rfl⟩, h.marked ha.1⟩
  | unmark i =>
    have hi := h.below i ha
    have hset : bitmapIsset b.v i = true := by
      rw [h.isset i hi]
      exact decide_eq_true ha
    exact ⟨_, _, _, if_pos ⟨by rw [h.size]; exact hi, hset⟩, ⟨ha, rfl, rfl⟩, h.unmarked hi⟩
  | isset i =>
    exact ⟨_, b, S, rfl, ⟨ha, congrArg BitmapAnswer.isset (h.isset i ha), rfl⟩, h⟩

end Bitmap.IsSet

/-- Operations on a bitmap, each with its answer: marks of clear bits, unmarks of set bits, and
questions about bits of the map. -/
def BitmapStep (b : Bitmap) (e : BitmapOp × BitmapAnswer) (b' : Bitmap) : Prop :=
  (match e.1 with
    | .alloc => True
    | .mark i => i < b.nbits ∧ bitmapIsset b.v i = false
    | .unmark i => i < b.nbits ∧ bitmapIsset b.v i = true
    | .isset i => i < b.nbits) ∧ b.exec e.1 = .ok (e.2, b')

theorem BitmapStep.setStep {e : BitmapOp × BitmapAnswer} {b' : Bitmap} (h : b.IsSet nbits S)
    (hN : nbits ≤ 2147483648) (hs : BitmapStep b e b') :
    ∃ S', SetStep nbits S e S' ∧ b'.IsSet nbits S' := by
  obtain ⟨op, r⟩ := e
  obtain ⟨ha, hx⟩ := hs
  have hallow : SetAllows nbits S op := by
    cases op with
    | alloc => trivial
    | mark i =>
      rw [h.size] at ha
      exact ⟨ha.1, of_decide_eq_false ((h.isset i ha.1).symm.trans ha.2)⟩
    | unmark i =>
      rw [h.size] at ha
      have hmem : i ∈ S := of_decide_eq_true ((h.isset i ha.1).symm.trans ha.2)
      exact hmem
    | isset i => exact h.size ▸ ha
  obtain ⟨r', b'', S', hx', hstep, h'⟩ := h.exec hN hallow
  cases hx.symm.trans hx'
  exact ⟨S', hstep, h'⟩

/-- **A bitmap of at most `2 ^ 31` bits refines a finite set.** With memory `bitmap_create`
succeeds; every run of operations has the answers of a run on the set of numbers below `nbits` that
starts empty; in the end the bits are the members, and every operation that the set allows can be
made. -/
theorem bitmap_refines_set (hN : nbits ≤ 2147483648) :
    ∃ b, bitmapCreate (true, true) nbits = .ok b ∧ ∀ es b', Run BitmapStep b es b' →
      ∃ S : Finset Nat, Run (SetStep nbits) ∅ es S ∧ (∀ i ∈ S, i < nbits) ∧
        (∀ i < nbits, bitmapIsset b'.v i = decide (i ∈ S)) ∧
        ∀ op, SetAllows nbits S op → ∃ r b'', b'.exec op = .ok (r, b'') := by
  obtain ⟨b, hb, h0⟩ := bitmapCreate_isSet hN
  refine ⟨b, hb, fun es b' hrun => ?_⟩
  obtain ⟨S, hS, h⟩ := hrun.sim (R := Bitmap.IsSet nbits) (ρ := id) h0
    fun _ _ _ _ h hs => hs.setStep h hN
  rw [List.map_id] at hS
  refine ⟨S, hS, h.below, h.isset, fun op ha => ?_⟩
  obtain ⟨r, b'', -, hx, -⟩ := h.exec hN ha
  exact ⟨r, b'', hx⟩

/-- A map of 10 bits: the first free bits are taken, also after one was given back. -/
theorem bitmap_refines_set_ten : ∃ b b', bitmapCreate (true, true) 10 = .ok b ∧
    Run BitmapStep b [(.alloc, .index 0), (.mark 1, .done), (.alloc, .index 2), (.unmark 0, .done),
      (.isset 1, .isset true), (.alloc, .index 0), (.alloc, .index 3)] b' ∧
    ∃ S : Finset Nat, ∀ i < 10, bitmapIsset b'.v i = decide (i ∈ S) := by
  obtain ⟨b, hb, hruns⟩ := bitmap_refines_set (show 10 ≤ 2147483648 by decide)
  have hrun : ∃ b', Run BitmapStep b [(.alloc, .index 0), (.mark 1, .done), (.alloc, .index 2),
      (.unmark 0, .done), (.isset 1, .isset true), (.alloc, .index 0), (.alloc, .index 3)] b' := by
    cases hb
    refine ⟨_, ((((((Run.nil.snoc ⟨trivial, rfl⟩).snoc ⟨?_, rfl⟩).snoc ⟨trivial, rfl⟩).snoc
      ⟨?_, rfl⟩).snoc ⟨?_, rfl⟩).snoc ⟨trivial, rfl⟩).snoc ⟨trivial, rfl⟩⟩ <;> decide
  obtain ⟨b', hrun⟩ := hrun
  obtain ⟨S, -, -, hS, -⟩ := hruns _ b' hrun
  exact ⟨b, b', hb, hrun, S, hS⟩

end OsPaging.Fs
