/-!
# Byte arrays as functions, and block copies between them
-/

namespace OsPaging.Lib

/-- Copy `len` bytes of `src` from `spos` to `dst` at `dpos`. -/
def blit (dst : Nat → UInt8) (dpos : Nat) (src : Nat → UInt8) (spos len : Nat) : Nat → UInt8 :=
  fun a => if dpos ≤ a ∧ a < dpos + len then src (spos + (a - dpos)) else dst a

variable {dst src : Nat → UInt8} {dpos spos len a o : Nat}

theorem blit_inside (h : o < len) : blit dst dpos src spos len (dpos + o) = src (spos + o) := by
  unfold blit
  rw [if_pos (by omega), Nat.add_sub_cancel_left]

theorem blit_outside (h : a < dpos ∨ dpos + len ≤ a) : blit dst dpos src spos len a = dst a := by
  unfold blit
  rw [if_neg (by omega)]

/-- A copy in place, then the piece behind it: what is still to be read has not been written. -/
theorem blit_forward {m : Nat → UInt8} {k w : Nat} (h : dpos ≤ spos ∨ spos + (k + w) ≤ dpos) :
    blit (blit m dpos m spos k) (dpos + k) (blit m dpos m spos k) (spos + k) w =
      blit m dpos m spos (k + w) := by
  funext a
  by_cases ha : dpos + k ≤ a ∧ a < dpos + k + w
  · obtain ⟨o, rfl⟩ := Nat.exists_eq_add_of_le ha.1
    rw [blit_inside (by omega), blit_outside (by omega), Nat.add_assoc, Nat.add_assoc,
      blit_inside (by omega)]
  · rw [blit_outside (by omega)]
    unfold blit
    simp only [show dpos ≤ a ∧ a < dpos + (k + w) ↔ dpos ≤ a ∧ a < dpos + k by omega]

/-- The last piece, then what is before it. -/
theorem blit_backward {m : Nat → UInt8} {k w : Nat} (h : spos ≤ dpos) :
    blit (blit m (dpos + k) m (spos + k) w) dpos (blit m (dpos + k) m (spos + k) w) spos k =
      blit m dpos m spos (k + w) := by
  funext a
  by_cases ha : dpos ≤ a ∧ a < dpos + k
  · obtain ⟨o, rfl⟩ := Nat.exists_eq_add_of_le ha.1
    rw [blit_inside (by omega), blit_outside (by omega), blit_inside (by omega)]
  · rw [blit_outside (by omega)]
    unfold blit
    simp only [show dpos + k ≤ a ∧ a < dpos + k + w ↔ dpos ≤ a ∧ a < dpos + (k + w) by omega]
    split
    · congr 1
      omega
    · rfl

end OsPaging.Lib
