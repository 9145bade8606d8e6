import OsPaging.Lib.Bytes

/-!
# Big-endian numbers in a byte array

A byte array `b : Nat → UInt8` read as an array of 32-bit words (`word b i` is at the bytes
`4 * i .. 4 * i + 3`) or of 16-bit halves, and the two stores. A store is seen by the loads of the
same number and by no others.
-/

namespace OsPaging.Lib

/-- A byte array. -/
abbrev Bytes := Nat → UInt8

/-- The `i`-th 32-bit word. -/
def word (b : Bytes) (i : Nat) : Nat :=
  (b (4 * i)).toNat * 16777216 + (b (4 * i + 1)).toNat * 65536 + (b (4 * i + 2)).toNat * 256 +
    (b (4 * i + 3)).toNat

/-- Store a 32-bit word. -/
def setWord (b : Bytes) (i v : Nat) : Bytes := fun k =>
  if k / 4 = i then
    UInt8.ofNat (if k % 4 = 0 then v / 16777216 else if k % 4 = 1 then v / 65536 else
      if k % 4 = 2 then v / 256 else v)
  else b k

/-- The `i`-th 16-bit half word. -/
def half (b : Bytes) (i : Nat) : Nat := (b (2 * i)).toNat * 256 + (b (2 * i + 1)).toNat

/-- Store a 16-bit half word. -/
def setHalf (b : Bytes) (i v : Nat) : Bytes := fun k =>
  if k / 2 = i then UInt8.ofNat (if k % 2 = 0 then v / 256 else v) else b k

/-- The array of zeros. -/
def zeros : Bytes := fun _ => 0

variable {b c : Bytes} {i j v k : Nat}

theorem word_lt : word b i < 4294967296 := by
  have h0 := (b (4 * i)).toNat_lt
  have h1 := (b (4 * i + 1)).toNat_lt
  have h2 := (b (4 * i + 2)).toNat_lt
  have h3 := (b (4 * i + 3)).toNat_lt
  unfold word
  omega

theorem half_lt : half b i < 65536 := by
  have h0 := (b (2 * i)).toNat_lt
  have h1 := (b (2 * i + 1)).toNat_lt
  unfold half
  omega

/-- A word depends on its four bytes. -/
theorem word_eq (h : ∀ k < 4, b (4 * i + k) = c (4 * j + k)) : word b i = word c j := by
  have h0 : b (4 * i) = c (4 * j) := h 0 (by omega)
  unfold word
  rw [h0, h 1 (by omega), h 2 (by omega), h 3 (by omega)]

theorem word_congr (h : ∀ k, k / 4 = i → b k = c k) : word b i = word c i :=
  word_eq fun _ _ => h _ (by omega)

theorem word_blit_inside {d t n : Nat} (hd : d % 4 = 0) (ht : t % 4 = 0) (h : i < n) :
    word (blit b d c t (n * 4)) (d / 4 + i) = word c (t / 4 + i) := by
  refine word_eq fun k hk => ?_
  rw [show 4 * (d / 4 + i) + k = d + (4 * i + k) by omega,
    show 4 * (t / 4 + i) + k = t + (4 * i + k) by omega]
  exact blit_inside (by omega)

theorem half_congr (h : ∀ k, k / 2 = i → b k = c k) : half b i = half c i := by
  unfold half
  rw [h (2 * i) (by omega), h (2 * i + 1) (by omega)]

theorem setWord_of_ne (h : k / 4 ≠ i) : setWord b i v k = b k := if_neg h

theorem setHalf_of_ne (h : k / 2 ≠ i) : setHalf b i v k = b k := if_neg h

@[simp] theorem word_setWord_self : word (setWord b i v) i = v % 4294967296 := by
  have h0 : (setWord b i v (4 * i)).toNat = v / 16777216 % 256 := by
    rw [setWord, if_pos (by omega), if_pos (by omega), UInt8.toNat_ofNat']
  have h1 : (setWord b i v (4 * i + 1)).toNat = v / 65536 % 256 := by
    rw [setWord, if_pos (by omega), if_neg (by omega), if_pos (by omega), UInt8.toNat_ofNat']
  have h2 : (setWord b i v (4 * i + 2)).toNat = v / 256 % 256 := by
    rw [setWord, if_pos (by omega), if_neg (by omega), if_neg (by omega), if_pos (by omega),
      UInt8.toNat_ofNat']
  have h3 : (setWord b i v (4 * i + 3)).toNat = v % 256 := by
    rw [setWord, if_pos (by omega), if_neg (by omega), if_neg (by omega), if_neg (by omega),
      UInt8.toNat_ofNat']
  unfold word
  rw [h0, h1, h2, h3]
  omega

theorem word_setWord_of_ne (h : j ≠ i) : word (setWord b i v) j = word b j :=
  word_congr fun _ hk => setWord_of_ne (hk ▸ h)

theorem half_setWord_of_ne (h : j / 2 ≠ i) : half (setWord b i v) j = half b j :=
  half_congr fun k hk => setWord_of_ne (by omega)

@[simp] theorem half_setHalf_self : half (setHalf b i v) i = v % 65536 := by
  have h0 : (setHalf b i v (2 * i)).toNat = v / 256 % 256 := by
    rw [setHalf, if_pos (by omega), if_pos (by omega), UInt8.toNat_ofNat']
  have h1 : (setHalf b i v (2 * i + 1)).toNat = v % 256 := by
    rw [setHalf, if_pos (by omega), if_neg (by omega), UInt8.toNat_ofNat']
  unfold half
  rw [h0, h1]
  omega

theorem half_setHalf_of_ne (h : j ≠ i) : half (setHalf b i v) j = half b j :=
  half_congr fun _ hk => setHalf_of_ne (hk ▸ h)

theorem word_setHalf_of_ne (h : i / 2 ≠ j) : word (setHalf b i v) j = word b j :=
  word_congr fun k hk => setHalf_of_ne (by omega)

@[simp] theorem word_zeros : word zeros i = 0 := by simp [word, zeros]

@[simp] theorem half_zeros : half zeros i = 0 := by simp [half, zeros]

end OsPaging.Lib
