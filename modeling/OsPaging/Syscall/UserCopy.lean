import OsPaging.Vm.Machine

/-!
# Copying between the kernel and user memory

`copycheck`, `copyin` and `copyout` of `kern/vm/copyinout.c` and `uiomove` of `kern/lib/uio.c` for
user buffers. What is modelled is which user addresses the kernel touches and which error the call
returns; the bytes themselves are not. `faults` has the addresses at which an access ends in a
fault that `vm_fault` refuses: inside a copy the recovery function turns it into `EFAULT`.

A `Block` is an access through a user-supplied pointer, or one that was refused before any byte
was touched. `copyBlock_spec`: a block that a copy touches lies below `USERSPACETOP`, and one that
does not is refused with `EFAULT`.
-/

namespace OsPaging.Syscall

open OsPaging.Vm

/-- An access to `len` bytes at `base`; `done` tells whether it was made. -/
structure Block where
  base : Nat
  len : Nat
  write : Bool
  done : Bool
deriving DecidableEq, Repr

/-- The block lies in user space. -/
def Block.below (b : Block) : Prop := b.base + b.len ≤ userSpaceTop

instance (b : Block) : Decidable b.below := inferInstanceAs (Decidable (_ ≤ _))

/-! ## `copyin` and `copyout` -/

/-- An `unsigned` result of 32-bit arithmetic. -/
def unsigned (i : Int) : Nat := (i % (wordSize : Int)).toNat

/-- `copycheck` (`copyinout.c:113-139`): `stoplen`, or the error. The sum is 32-bit. -/
def copycheck (userptr len : Nat) : Except Nat Nat :=
  let bot := userptr
  let top := unsigned (bot + len - 1)
  if top < bot then .error efault
  else if userSpaceTop ≤ bot then .error efault
  else if userSpaceTop ≤ top then .ok (userSpaceTop - bot)
  else .ok len

/-- The common body of `copyin` and `copyout`: the error, and the access. -/
def copyBlock (write : Bool) (faults : Nat → Bool) (userptr len : Nat) : Nat × Block :=
  match copycheck userptr len with
  | .error err => (err, ⟨userptr, len, write, false⟩)
  | .ok stoplen =>
    if stoplen ≠ len then (efault, ⟨userptr, len, write, false⟩)
    else if (List.range len).any fun i => faults (userptr + i) then
      (efault, ⟨userptr, len, write, true⟩)
    else (0, ⟨userptr, len, write, true⟩)

/-- `copyin` (`copyinout.c:148-176`). -/
def copyin (faults : Nat → Bool) (usersrc len : Nat) : Nat × Block :=
  copyBlock false faults usersrc len

/-- `copyout` (`copyinout.c:185-213`). -/
def copyout (faults : Nat → Bool) (userdest len : Nat) : Nat × Block :=
  copyBlock true faults userdest len

theorem copycheck_eq {userptr len : Nat} (hp : userptr < wordSize) (h0 : 0 < len)
    (hl : len < wordSize) :
    copycheck userptr len =
      if wordSize < userptr + len ∨ userSpaceTop ≤ userptr then .error efault
      else if userSpaceTop < userptr + len then .ok (userSpaceTop - userptr)
      else .ok len := by
  unfold copycheck
  by_cases hwrap : wordSize < userptr + len
  · have htop : unsigned (userptr + len - 1) < userptr := by
      simp only [unsigned, wordSize] at *
      omega
    simp only
    rw [if_pos htop, if_pos (Or.inl hwrap)]
  · have htop : unsigned (userptr + len - 1) = userptr + len - 1 := by
      simp only [unsigned, wordSize] at *
      omega
    grind

/-- **A copy touches user space only**, and refuses what is not in it. -/
theorem copyBlock_spec (write : Bool) (faults : Nat → Bool) {userptr len : Nat}
    (hp : userptr < wordSize) (h0 : 0 < len) (hl : len < wordSize) :
    (copyBlock write faults userptr len).2 =
        ⟨userptr, len, write, decide (userptr + len ≤ userSpaceTop)⟩ ∧
      (copyBlock write faults userptr len).1 =
        if userptr + len ≤ userSpaceTop ∧ (List.range len).all fun i => !faults (userptr + i)
        then 0 else efault := by
  unfold copyBlock
  rw [copycheck_eq hp h0 hl]
  by_cases hbelow : userptr + len ≤ userSpaceTop
  · grind
  · grind

theorem copyBlock_below (write : Bool) (faults : Nat → Bool) {userptr len err : Nat} {b : Block}
    (hp : userptr < wordSize) (h0 : 0 < len) (hl : len < wordSize)
    (h : copyBlock write faults userptr len = (err, b)) :
    (b.below ↔ userptr + len ≤ userSpaceTop) ∧ (b.done = true → b.below) ∧
      (¬ b.below → err = efault) ∧
      (b.below → (err = 0 ↔ (List.range len).any (fun i => faults (userptr + i)) = false)) := by
  obtain ⟨hb, he⟩ := copyBlock_spec write faults hp h0 hl
  rw [h] at hb he
  simp only at hb he
  subst hb
  simp only [Block.below, decide_eq_true_eq, imp_self, iff_self, true_and]
  grind

/-! ## `uiomove` -/

/-- `struct uio` for a user buffer: its `iovec`s (address and length), and what is left. -/
structure Uio where
  iov : List (Nat × Nat)
  resid : Nat
  offset : Nat
  /-- `uio_rw == UIO_READ`: the kernel writes to the buffer. -/
  read : Bool
deriving DecidableEq, Repr

/-- `uiomove` (`uio.c:40-113`) of `n` bytes: the error, what is left and the accesses; `none` is the
panic for too few buffers. After a move the current `iovec` is used up, or `n` is. What is left is
an unsigned number. -/
def uiomove (faults : Nat → Bool) (read : Bool) :
    List (Nat × Nat) → Nat → Nat → Nat → Option (Nat × Uio × List Block)
  | [], n, resid, offset =>
    if 0 < n ∧ 0 < resid then none else some (0, ⟨[], resid, offset, read⟩, [])
  | (base, len) :: rest, n, resid, offset =>
    if 0 < n ∧ 0 < resid then
      let size := min len n
      if size = 0 then uiomove faults read rest n resid offset
      else
        match if read then copyout faults base size else copyin faults base size with
        | (0, b) =>
          let resid := unsigned (resid - size)
          if 0 < n - size ∧ 0 < resid then
            (uiomove faults read rest (n - size) resid (offset + size)).map
              fun r => (r.1, r.2.1, b :: r.2.2)
          else some (0, ⟨(base + size, len - size) :: rest, resid, offset + size, read⟩, [b])
        | (err, b) => some (err, ⟨(base, len) :: rest, resid, offset, read⟩, [b])
    else some (0, ⟨(base, len) :: rest, resid, offset, read⟩, [])

end OsPaging.Syscall
