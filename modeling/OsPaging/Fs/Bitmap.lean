import OsPaging.Lib.Words
import Mathlib.Data.Nat.Bitwise
import Mathlib.Logic.Function.Basic

/-!
# Bitmaps

Model of `kern/lib/bitmap.c`: `nbits` bits in an array of bytes, bit `index` in byte `index / 8`
at `index % 8` from the low end. `bitmap_alloc` takes the first clear bit.
-/

namespace OsPaging.Fs

open OsPaging.Lib Function

/-- `((WORD_TYPE)1) << (index % BITS_PER_WORD)`. -/
def bitmapMask (index : Nat) : UInt8 := UInt8.ofNat (2 ^ (index % 8))

def bitmapIsset (v : Bytes) (index : Nat) : Bool := v (index / 8) &&& bitmapMask index ≠ 0

/-- `bitmap_mark`, without its assertions: `bitmap_alloc` sets the bit it found in the same
way. -/
def bitmapMark (v : Bytes) (index : Nat) : Bytes :=
  update v (index / 8) (v (index / 8) ||| bitmapMask index)

/-- `bitmap_unmark`, without its assertions. -/
def bitmapUnmark (v : Bytes) (index : Nat) : Bytes :=
  update v (index / 8) (v (index / 8) &&& ~~~bitmapMask index)

/-- The inner loop of `bitmap_alloc`: the first clear bit from `offset` on in byte `ix`. -/
def bitmapOffset (v : Bytes) (ix : Nat) : (left offset : Nat) → Option Nat
  | 0, _ => none
  | left + 1, offset =>
    if v ix &&& bitmapMask offset = 0 then some (ix * 8 + offset)
    else bitmapOffset v ix left (offset + 1)

/-- The outer loop of `bitmap_alloc`: the first clear bit from byte `ix` on. -/
def bitmapScan (v : Bytes) : (left ix : Nat) → Option Nat
  | 0, _ => none
  | left + 1, ix =>
    if v ix ≠ 255 then bitmapOffset v ix 8 0 else bitmapScan v left (ix + 1)

/-- `bitmap_alloc`: the bit it takes, if there is one. -/
def bitmapAlloc (nbits : Nat) (v : Bytes) : Option Nat := bitmapScan v ((nbits + 7) / 8) 0

variable {v : Bytes} {i j left ix offset nbits index : Nat}

/-! ## Marking and unmarking -/

theorem testBit_bitmapMask : (bitmapMask i).toNat.testBit j = decide (i % 8 = j) := by
  have hi : 2 ^ (i % 8) < 2 ^ 8 := Nat.pow_lt_pow_right (by decide) (Nat.mod_lt _ (by decide))
  unfold bitmapMask
  rw [UInt8.toNat_ofNat', Nat.mod_eq_of_lt hi, Nat.testBit_two_pow]

theorem testBit_compl {w : UInt8} (h : j < 8) :
    (~~~w).toNat.testBit j = !w.toNat.testBit j := by
  rw [← UInt8.toNat_toBitVec (~~~w), UInt8.toBitVec_not, BitVec.testBit_toNat,
    BitVec.getLsbD_not, ← UInt8.toNat_toBitVec w, BitVec.testBit_toNat]
  simp [h]

theorem and_bitmapMask_eq_zero {w : UInt8} :
    w &&& bitmapMask i = 0 ↔ w.toNat.testBit (i % 8) = false := by
  have hi : 2 ^ (i % 8) < 2 ^ 8 := Nat.pow_lt_pow_right (by decide) (Nat.mod_lt _ (by decide))
  have hm : (bitmapMask i).toNat = 2 ^ (i % 8) := by
    unfold bitmapMask
    rw [UInt8.toNat_ofNat', Nat.mod_eq_of_lt hi]
  rw [← UInt8.toNat_inj, UInt8.toNat_and, hm, Nat.and_two_pow]
  cases w.toNat.testBit (i % 8) <;> simp

theorem bitmapIsset_eq : bitmapIsset v i = (v (i / 8)).toNat.testBit (i % 8) := by
  unfold bitmapIsset
  rw [decide_not, Bool.eq_iff_iff]
  simp [and_bitmapMask_eq_zero]

theorem bitmapIsset_update {w : UInt8} {b : Bool} (hw : ∀ k < 8, w.toNat.testBit k =
    if i % 8 = k then b else (v (i / 8)).toNat.testBit k) :
    bitmapIsset (update v (i / 8) w) = update (bitmapIsset v) i b := by
  funext j
  rw [bitmapIsset_eq]
  by_cases hd : j / 8 = i / 8
  · rw [hd, update_self, hw _ (Nat.mod_lt _ (by decide))]
    by_cases hij : j = i
    · rw [hij, update_self, if_pos rfl]
    · rw [update_of_ne hij, if_neg (by omega), bitmapIsset_eq, hd]
  · have hij : j ≠ i := fun h => hd (h ▸ rfl)
    rw [update_of_ne hd, update_of_ne hij, bitmapIsset_eq]

theorem bitmapIsset_mark : bitmapIsset (bitmapMark v i) = update (bitmapIsset v) i true := by
  refine bitmapIsset_update fun k _ => ?_
  rw [UInt8.toNat_or, Nat.testBit_or, testBit_bitmapMask]
  split_ifs with hk <;> simp [hk]

theorem bitmapIsset_unmark :
    bitmapIsset (bitmapUnmark v i) = update (bitmapIsset v) i false := by
  refine bitmapIsset_update fun k hk8 => ?_
  rw [UInt8.toNat_and, Nat.testBit_and, testBit_compl hk8, testBit_bitmapMask]
  split_ifs with hk <;> simp [hk]

/-! ## Allocation -/

theorem bitmapIsset_byte (v : Bytes) (ix : Nat) (h : j < 8) :
    bitmapIsset v (ix * 8 + j) = (v ix).toNat.testBit j := by
  rw [bitmapIsset_eq, show (ix * 8 + j) / 8 = ix by omega, show (ix * 8 + j) % 8 = j by omega]

theorem eq_allbits_iff {w : UInt8} : w = 255 ↔ ∀ j < 8, w.toNat.testBit j = true := by
  constructor
  · rintro rfl
    decide
  · intro h
    rw [← UInt8.toNat_inj]
    refine Nat.eq_of_testBit_eq fun j => ?_
    have hall : (255 : UInt8).toNat.testBit j = decide (j < 8) := Nat.testBit_two_pow_sub_one 8 j
    rw [hall]
    by_cases hj : j < 8
    · simp [h j hj, hj]
    · have hlt : w.toNat < 2 ^ j :=
        (UInt8.toNat_lt w).trans_le (Nat.pow_le_pow_right (by decide) (by omega))
      simp [Nat.testBit_lt_two_pow hlt, hj]

/-- The inner loop finds the first clear bit of the byte, if there is one. -/
theorem bitmapOffset_first (v : Bytes) (ix : Nat) (hl : offset + left = 8)
    (hset : ∀ j < offset, bitmapIsset v (ix * 8 + j) = true) :
    match bitmapOffset v ix left offset with
    | some index => ix * 8 ≤ index ∧ index < ix * 8 + 8 ∧ bitmapIsset v index = false ∧
        ∀ j, ix * 8 ≤ j → j < index → bitmapIsset v j = true
    | none => v ix = 255 := by
  induction left generalizing offset with
  | zero =>
    obtain rfl : offset = 8 := hl
    exact eq_allbits_iff.mpr fun j hj => bitmapIsset_byte v ix hj ▸ hset j hj
  | succ left ih =>
    rw [bitmapOffset]
    have hbit := bitmapIsset_byte v ix (show offset < 8 by omega)
    have hmod : offset % 8 = offset := Nat.mod_eq_of_lt (by omega)
    split_ifs with hc
    · rw [and_bitmapMask_eq_zero, hmod] at hc
      refine ⟨by omega, by omega, hbit.trans hc, fun j h1 h2 => ?_⟩
      have := hset (j - ix * 8) (by omega)
      rwa [show ix * 8 + (j - ix * 8) = j by omega] at this
    · rw [and_bitmapMask_eq_zero, hmod, Bool.not_eq_false] at hc
      refine ih (by omega) fun j hj => ?_
      by_cases hjo : j = offset
      · exact hjo ▸ hbit.trans hc
      · exact hset j (by omega)

theorem bitmapScan_first (v : Bytes) (left ix : Nat) :
    match bitmapScan v left ix with
    | some index => index < (ix + left) * 8 ∧ bitmapIsset v index = false ∧
        ∀ j, ix * 8 ≤ j → j < index → bitmapIsset v j = true
    | none => ∀ j, ix * 8 ≤ j → j < (ix + left) * 8 → bitmapIsset v j = true := by
  induction left generalizing ix with
  | zero => exact fun j h1 h2 => by omega
  | succ left ih =>
    have hfirst := bitmapOffset_first v ix (show 0 + 8 = 8 from rfl) (by simp)
    rw [bitmapScan]
    split_ifs with hb
    · cases ho : bitmapOffset v ix 8 0 with
      | none => rw [ho] at hfirst; exact absurd hfirst hb
      | some index =>
        rw [ho] at hfirst
        exact ⟨by have := hfirst.2.1; omega, hfirst.2.2⟩
    · -- the byte is full, and the search goes on in the next one
      have hfull : ∀ j, ix * 8 ≤ j → j < (ix + 1) * 8 → bitmapIsset v j = true := by
        intro j h1 h2
        have := bitmapIsset_byte v ix (show j - ix * 8 < 8 by omega)
        rw [show ix * 8 + (j - ix * 8) = j by omega] at this
        rw [this]
        exact eq_allbits_iff.mp (not_not.mp hb) _ (by omega)
      have hrest := ih (ix + 1)
      cases hs : bitmapScan v left (ix + 1) with
      | none =>
        rw [hs] at hrest
        intro j h1 h2
        by_cases hj : j < (ix + 1) * 8
        · exact hfull j h1 hj
        · exact hrest j (by omega) (by omega)
      | some index =>
        rw [hs] at hrest
        refine ⟨by have := hrest.1; omega, hrest.2.1, fun j h1 h2 => ?_⟩
        by_cases hj : j < (ix + 1) * 8
        · exact hfull j h1 hj
        · exact hrest.2.2 j (by omega) h2

/-- The bit that `bitmap_alloc` takes was clear and is one of the map's. -/
theorem bitmapAlloc_clear (h : bitmapAlloc nbits v = some index) (hb : nbits % 8 = 0) :
    index < nbits ∧ bitmapIsset v index = false := by
  unfold bitmapAlloc at h
  have hfirst := bitmapScan_first v ((nbits + 7) / 8) 0
  rw [h] at hfirst
  exact ⟨by have := hfirst.1; omega, hfirst.2.1⟩

end OsPaging.Fs
