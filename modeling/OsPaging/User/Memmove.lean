import OsPaging.Lib.Bytes

/-!
# Copying memory

`memcpy` and `memmove` of `common/libc/string`, on memory as a function from addresses to bytes. A
`long` has four bytes, and an assignment `d[i] = s[i]` reads the whole element before it stores it:
a `blit` within the memory. A block does not run over the top of memory (`memmove.c:56-58`).

**`memmove_simultaneous`** is about `memmove`; `memcpy` does the same unless the destination starts
inside the source (`memcpy_eq_blit`).
-/

namespace OsPaging.User

open OsPaging.Lib

/-- `for (i=0; i<n; i++) d[i] = s[i];` for elements of `size` bytes. -/
def copyForward (size dst src : Nat) (mem : Nat → UInt8) : Nat → Nat → UInt8
  | 0 => mem
  | i + 1 =>
    let mem := copyForward size dst src mem i
    blit mem (dst + i * size) mem (src + i * size) size

/-- `for (i=n; i>0; i--) d[i-1] = s[i-1];`. -/
def copyBackward (size dst src : Nat) : Nat → (Nat → UInt8) → Nat → UInt8
  | 0, mem => mem
  | i + 1, mem =>
    copyBackward size dst src i (blit mem (dst + i * size) mem (src + i * size) size)

/-- The common case, that can be copied by words. -/
abbrev ByWords (dst src len : Nat) : Prop := dst % 4 = 0 ∧ src % 4 = 0 ∧ len % 4 = 0

def memcpy (mem : Nat → UInt8) (dst src len : Nat) : Nat → UInt8 :=
  if ByWords dst src len then copyForward 4 dst src mem (len / 4)
  else copyForward 1 dst src mem len

def memmove (mem : Nat → UInt8) (dst src len : Nat) : Nat → UInt8 :=
  if dst < src then memcpy mem dst src len
  else if ByWords dst src len then copyBackward 4 dst src (len / 4) mem
  else copyBackward 1 dst src len mem

variable {size dst src len n : Nat} {mem : Nat → UInt8}

theorem copyForward_eq (h : dst ≤ src ∨ src + n * size ≤ dst) :
    copyForward size dst src mem n = blit mem dst mem src (n * size) := by
  induction n with
  | zero =>
    funext a
    rw [blit_outside (by omega)]
    rfl
  | succ n ih =>
    rw [Nat.succ_mul] at h ⊢
    rw [copyForward, ih (by omega)]
    exact blit_forward h

theorem copyBackward_eq (h : src ≤ dst) :
    copyBackward size dst src n mem = blit mem dst mem src (n * size) := by
  induction n generalizing mem with
  | zero =>
    funext a
    rw [blit_outside (by omega)]
    rfl
  | succ n ih =>
    rw [copyBackward, ih, Nat.succ_mul]
    exact blit_backward h

theorem memcpy_eq_blit (h : dst ≤ src ∨ src + len ≤ dst) :
    memcpy mem dst src len = blit mem dst mem src len := by
  unfold memcpy
  split
  · next hw =>
    have hlen : len / 4 * 4 = len := Nat.div_mul_cancel (Nat.dvd_of_mod_eq_zero hw.2.2)
    rw [copyForward_eq (by rwa [hlen]), hlen]
  · rw [copyForward_eq (by rwa [Nat.mul_one]), Nat.mul_one]

theorem memmove_eq_blit : memmove mem dst src len = blit mem dst mem src len := by
  unfold memmove
  split
  · next hlt => exact memcpy_eq_blit (.inl (Nat.le_of_lt hlt))
  · next hge =>
    split
    · next hw =>
      rw [copyBackward_eq (Nat.not_lt.mp hge), Nat.div_mul_cancel (Nat.dvd_of_mod_eq_zero hw.2.2)]
    · rw [copyBackward_eq (Nat.not_lt.mp hge), Nat.mul_one]

/-- **`memmove` is a simultaneous copy.** -/
theorem memmove_simultaneous (mem : Nat → UInt8) (dst src len : Nat) :
    (∀ o < len, memmove mem dst src len (dst + o) = mem (src + o)) ∧
      ∀ a, (a < dst ∨ dst + len ≤ a) → memmove mem dst src len a = mem a := by
  rw [memmove_eq_blit]
  exact ⟨fun _ => blit_inside, fun _ => blit_outside⟩

end OsPaging.User
