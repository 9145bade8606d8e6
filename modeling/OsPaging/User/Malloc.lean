import OsPaging.Lib.Words

/-!
# The user-level `malloc`

`malloc` and `free` of the C library (`userland/lib/libc/stdlib/malloc.c`), for the 32-bit platform
(`MALLOC32`), over the bytes of the process's memory.

* A block starts with a `struct mheader` of two words; the compiler puts the first bit field of a
  word into its most significant bits (MIPS is big-endian). `mh_prevblock` and `mh_nextblock` count
  units of `MBLOCKSIZE` bytes.
* `mallocInit` (`malloc.c:163-223`), `mallocSbrk` (`malloc.c:281-299`), `mallocSplit`
  (`malloc.c:309-346`), `malloc` (`malloc.c:351-480`): the first-fit search with its checks of the
  headers, and the growth of the heap by whole pages.
* `mallocTrymerge` (`malloc.c:502-528`), `free` (`malloc.c:533-591`).

Addresses and sizes are 32-bit. `errx` ends the program with a message; its format and arguments
are kept. The kernel's answers to `sbrk` are arguments: it extends the heap at the break or fails.
`MALLOCDEBUG` is not defined, and `_SC_PAGESIZE` is not either.
-/

namespace OsPaging.User

open OsPaging.Lib

/-! ## Headers -/

abbrev mblocksize : Nat := 8

abbrev mmagic : Nat := 2

abbrev pageSize : Nat := 4096

/-- Sums and differences of `size_t` and of pointers. -/
def add32 (a b : Nat) : Nat := (a + b) % 4294967296

def sub32 (a b : Nat) : Nat := (a + 4294967296 - b) % 4294967296

/-! A word of a header: 29 bits, one bit, two bits. -/

def bits29 (w : Nat) : Nat := w / 8

def bit1 (w : Nat) : Nat := w / 4 % 2

def bits2 (w : Nat) : Nat := w % 4

def withBits29 (w v : Nat) : Nat := v % 536870912 * 8 + w % 8

def withBit1 (w v : Nat) : Nat := w / 8 * 8 + v % 2 * 4 + w % 4

def withBits2 (w v : Nat) : Nat := w / 4 * 4 + v % 4

/-- The word of the header at `mh` with `mh_prevblock`, `mh_pad` and `mh_magic1`. -/
def lower (m : Bytes) (mh : Nat) : Nat := word m (mh / 4)

/-- The word with `mh_nextblock`, `mh_inuse` and `mh_magic2`. -/
def upper (m : Bytes) (mh : Nat) : Nat := word m (mh / 4 + 1)

def setLower (m : Bytes) (mh w : Nat) : Bytes := setWord m (mh / 4) w

def setUpper (m : Bytes) (mh w : Nat) : Bytes := setWord m (mh / 4 + 1) w

def prevblock (m : Bytes) (mh : Nat) : Nat := bits29 (lower m mh)

def magic1 (m : Bytes) (mh : Nat) : Nat := bits2 (lower m mh)

def nextblock (m : Bytes) (mh : Nat) : Nat := bits29 (upper m mh)

def inuse (m : Bytes) (mh : Nat) : Nat := bit1 (upper m mh)

def magic2 (m : Bytes) (mh : Nat) : Nat := bits2 (upper m mh)

def setPrevblock (m : Bytes) (mh v : Nat) : Bytes := setLower m mh (withBits29 (lower m mh) v)

def setPad (m : Bytes) (mh v : Nat) : Bytes := setLower m mh (withBit1 (lower m mh) v)

def setMagic1 (m : Bytes) (mh v : Nat) : Bytes := setLower m mh (withBits2 (lower m mh) v)

def setNextblock (m : Bytes) (mh v : Nat) : Bytes := setUpper m mh (withBits29 (upper m mh) v)

def setInuse (m : Bytes) (mh v : Nat) : Bytes := setUpper m mh (withBit1 (upper m mh) v)

def setMagic2 (m : Bytes) (mh v : Nat) : Bytes := setUpper m mh (withBits2 (upper m mh) v)

/-- `M_NEXTOFF` and `M_PREVOFF`. -/
def nextoff (m : Bytes) (mh : Nat) : Nat := nextblock m mh * mblocksize

def prevoff (m : Bytes) (mh : Nat) : Nat := prevblock m mh * mblocksize

/-- `M_NEXT` and `M_PREV`. -/
def mNext (m : Bytes) (mh : Nat) : Nat := add32 mh (nextoff m mh)

def mPrev (m : Bytes) (mh : Nat) : Nat := sub32 mh (prevoff m mh)

def mData (mh : Nat) : Nat := add32 mh mblocksize

def mSize (m : Bytes) (mh : Nat) : Nat := sub32 (nextoff m mh) mblocksize

def mOk (m : Bytes) (mh : Nat) : Prop := magic1 m mh = mmagic ∧ magic2 m mh = mmagic

instance (m : Bytes) (mh : Nat) : Decidable (mOk m mh) := inferInstanceAs (Decidable (_ ∧ _))

/-- `M_MKFIELD`. -/
def mkField (off : Nat) : Nat := off / mblocksize

/-! ## The heap -/

/-- How a call ends if it does not return. -/
inductive Exit
  /-- `err` or `errx`, with its format and the arguments. -/
  | errx (fmt : String) (args : List Nat)
  /-- A failed `assert`. -/
  | assertion (what : String)
  /-- A loop without an end. -/
  | diverges
deriving DecidableEq, Repr

/-- The memory of the process, `__heapbase` and `__heaptop`, and the break that the kernel keeps. -/
structure Heap where
  mem : Bytes
  heapbase : Nat
  heaptop : Nat
  brk : Nat

/-- `(void *)-1`. -/
abbrev sbrkFailed : Nat := 4294967295

/-- What the kernel answers to the `sbrk` calls of one `malloc`: those of `__malloc_init`, and the
one that grows the heap. -/
structure Answers where
  init : Bool
  align : Bool
  grow : Bool
deriving DecidableEq, Repr

namespace Heap

/-- `sbrk`: the break moves up by `size`, if the kernel agrees and there are such addresses. -/
def sbrk (h : Heap) (size : Nat) (ok : Bool) : Nat × Heap :=
  if ok ∧ h.brk + size < 4294967296 then (h.brk, { h with brk := h.brk + size })
  else (sbrkFailed, h)

/-- `__malloc_init`; its checks of `sizeof(struct mheader)` and of the constants hold. -/
def mallocInit (h : Heap) (k : Answers) : Except Exit Heap :=
  if h.heapbase ≠ 0 ∨ h.heaptop ≠ 0 then
    .error (.errx "malloc: Internal error - bad init call" [])
  else
    match h.sbrk 0 k.init with
    | (x, h) =>
      if x = sbrkFailed then .error (.errx "malloc: initial sbrk failed" [])
      else if x = 0 then .error (.errx "malloc: Internal error - heap began at 0" [])
      else
        let h := { h with heapbase := x, heaptop := x }
        if h.heapbase % mblocksize ≠ 0 then
          let adjust := mblocksize - h.heapbase % mblocksize
          match h.sbrk adjust k.align with
          | (x, h) =>
            if x = sbrkFailed then .error (.errx "malloc: sbrk failed aligning heap base" [])
            else if x ≠ h.heapbase then .error (.errx "malloc: heap base moved during init" [])
            else
              .ok { h with heapbase := add32 h.heapbase adjust
                           heaptop := add32 h.heapbase adjust }
        else .ok h

/-- `__malloc_sbrk`; `none` is `NULL`. -/
def mallocSbrk (h : Heap) (size : Nat) (ok : Bool) : Except Exit (Option Nat × Heap) :=
  match h.sbrk size ok with
  | (x, h) =>
    if x = sbrkFailed then .ok (none, h)
    else if x ≠ h.heaptop then
      .error (.errx "malloc: Internal error - heap top moved itself from 0x%lx to 0x%lx"
        [h.heaptop, x])
    else .ok (some x, { h with heaptop := add32 h.heaptop size })

/-- The header of the upper part that `__malloc_split` makes. -/
def splitHeader (m : Bytes) (mhnew size oldsize : Nat) : Bytes :=
  let m := setPrevblock m mhnew (mkField (add32 size mblocksize))
  let m := setPad m mhnew 0
  let m := setMagic1 m mhnew mmagic
  let m := setNextblock m mhnew (mkField (sub32 oldsize size))
  let m := setInuse m mhnew 0
  setMagic2 m mhnew mmagic

def mallocSplit (h : Heap) (mh size : Nat) : Except Exit Heap :=
  if size % mblocksize ≠ 0 then
    .error (.errx "malloc: Internal error (size %lu passed to split)" [size])
  else if sub32 (mSize h.mem mh) size < 2 * mblocksize then .ok h
  else
    let mhnext := mNext h.mem mh
    let oldsize := mSize h.mem mh
    let m := setNextblock h.mem mh (mkField (add32 size mblocksize))
    let mhnew := mNext m mh
    if mhnew = mhnext then .error (.errx "malloc: Internal error (split screwed up?)" [])
    else
      let m := splitHeader m mhnew size oldsize
      if mhnext ≠ h.heaptop then
        .ok { h with mem := setPrevblock m mhnext (nextblock m mhnew) }
      else .ok { h with mem := m }

/-! ## `malloc` -/

/-- How the search ends: at a block to take, or past the last header `mh` (`0` is `NULL`). -/
inductive Search
  | found (mh : Nat)
  | ended (i rightprevblock mh : Nat)
deriving DecidableEq, Repr

/-- The first-fit search, from the header at `i`. -/
def search (h : Heap) (size : Nat) : Nat → Nat → Nat → Nat → Except Exit Search
  | 0, _, _, _ => .error .diverges
  | n + 1, i, rightprevblock, mh =>
    if i < h.heaptop then
      let mh := i
      if ¬ mOk h.mem mh then
        .error (.errx "malloc: Heap corrupt; header at 0x%lx has bad magic bits" [i])
      else if prevblock h.mem mh ≠ rightprevblock then
        .error (.errx
          "malloc: Heap corrupt; header at 0x%lx has bad previous-block size %lu (should be %lu)"
          [i, prevoff h.mem mh, rightprevblock * mblocksize])
      else
        let rightprevblock := nextblock h.mem mh
        if inuse h.mem mh ≠ 0 ∨ mSize h.mem mh < size then
          search h size n (add32 i (nextoff h.mem mh)) rightprevblock mh
        else .ok (.found mh)
    else .ok (.ended i rightprevblock mh)

/-- A new header on top of the heap. -/
def topHeader (m : Bytes) (mh rightprevblock morespace : Nat) : Bytes :=
  let m := setPrevblock m mh rightprevblock
  let m := setMagic1 m mh mmagic
  let m := setMagic2 m mh mmagic
  let m := setPad m mh 0
  let m := setInuse m mh 1
  setNextblock m mh (mkField morespace)

/-- The number of bytes asked for, rounded up to whole pages. -/
def wholePages (morespace : Nat) : Nat :=
  pageSize * (add32 morespace (pageSize - 1) / pageSize) % 4294967296

/-- The part of `malloc` after the search has found nothing: `mh` is the top block. -/
def mallocGrow (h : Heap) (size rightprevblock mh : Nat) (ok : Bool) :
    Except Exit (Nat × Heap) :=
  if mh ≠ 0 ∧ inuse h.mem mh = 0 then
    if ¬ mSize h.mem mh < size then .error (.assertion "size > M_SIZE(mh)")
    else
      let morespace := wholePages (sub32 size (mSize h.mem mh))
      match h.mallocSbrk morespace ok with
      | .error e => .error e
      | .ok (none, h) => .ok (0, h)
      | .ok (some _, h) =>
        let m := setNextblock h.mem mh (mkField (add32 (nextoff h.mem mh) morespace))
        match { h with mem := setInuse m mh 1 }.mallocSplit mh size with
        | .error e => .error e
        | .ok h => .ok (mData mh, h)
  else
    let morespace := wholePages (add32 mblocksize size)
    match h.mallocSbrk morespace ok with
    | .error e => .error e
    | .ok (none, h) => .ok (0, h)
    | .ok (some p, h) =>
      match { h with mem := topHeader h.mem p rightprevblock morespace }.mallocSplit p size with
      | .error e => .error e
      | .ok h => .ok (mData p, h)

/-- `malloc` after its `__malloc_init`. The search goes round once for each header. -/
def mallocAt (h : Heap) (size : Nat) (ok : Bool) : Except Exit (Nat × Heap) :=
  if h.heapbase = 0 ∨ h.heaptop = 0 ∨ h.heaptop < h.heapbase then
    .error (.errx "malloc: heapbase 0x%lx; heaptop 0x%lx" [h.heapbase, h.heaptop])
  else
    let size := add32 size (mblocksize - 1) / mblocksize * mblocksize
    match h.search size (h.heaptop - h.heapbase + 1) h.heapbase 0 0 with
    | .error e => .error e
    | .ok (.found mh) =>
      match h.mallocSplit mh size with
      | .error e => .error e
      | .ok h => .ok (mData mh, { h with mem := setInuse h.mem mh 1 })
    | .ok (.ended i rightprevblock mh) =>
      if i ≠ h.heaptop then .error (.errx "malloc: Heap corrupt; ran off end" [])
      else h.mallocGrow size rightprevblock mh ok

/-- `malloc`; the address `0` is `NULL`. -/
def malloc (h : Heap) (size : Nat) (k : Answers) : Except Exit (Nat × Heap) :=
  if h.heapbase = 0 then
    match h.mallocInit k with
    | .error e => .error e
    | .ok h => h.mallocAt size k.grow
  else h.mallocAt size k.grow

/-! ## `free` -/

/-- `__malloc_deadbeef` of `n` words. -/
def deadbeef (m : Bytes) (ptr : Nat) : Nat → Bytes
  | 0 => m
  | n + 1 => setWord (deadbeef m ptr n) (ptr / 4 + n) 0xdeadbeef

def mallocTrymerge (h : Heap) (mh mhnext : Nat) : Except Exit Heap :=
  if nextblock h.mem mh ≠ prevblock h.mem mhnext then
    .error (.errx "free: Heap corrupt (%p and %p inconsistent)" [mh, mhnext])
  else if inuse h.mem mh ≠ 0 ∨ inuse h.mem mhnext ≠ 0 then .ok h
  else
    let mhnextnext := mNext h.mem mhnext
    let m := setNextblock h.mem mh (mkField (add32 (add32 mblocksize (mSize h.mem mh))
      (add32 mblocksize (mSize h.mem mhnext))))
    let m := if mhnextnext ≠ h.heaptop then setPrevblock m mhnextnext (nextblock m mh) else m
    .ok { h with mem := deadbeef m mhnext (mblocksize / 4) }

/-- The merges of `free`: with the block above, then with the block below. -/
def mergeBelow (h : Heap) (mh : Nat) : Except Exit Heap :=
  if mh ≠ h.heapbase then h.mallocTrymerge (mPrev h.mem mh) mh else .ok h

def mergeAbove (h : Heap) (mh : Nat) : Except Exit Heap :=
  if mNext h.mem mh ≠ h.heaptop then h.mallocTrymerge mh (mNext h.mem mh) else .ok h

def free (h : Heap) (x : Nat) : Except Exit Heap :=
  if x = 0 then .ok h
  else if h.heapbase = 0 ∨ h.heaptop = 0 ∨ h.heaptop < h.heapbase then
    .error (.errx "free: heapbase 0x%lx; heaptop 0x%lx" [h.heapbase, h.heaptop])
  else if x < h.heapbase ∨ h.heaptop ≤ x then
    .error (.errx "free: Invalid pointer %p freed (out of range)" [x])
  else
    let mh := sub32 x mblocksize
    if ¬ mOk h.mem mh then
      .error (.errx "free: Invalid pointer %p freed (corrupt header)" [x])
    else if inuse h.mem mh = 0 then
      .error (.errx "free: Invalid pointer %p freed (already free)" [x])
    else
      let m := setInuse h.mem mh 0
      let h := { h with mem := deadbeef m (mData mh) (mSize m mh / 4) }
      match h.mergeAbove mh with
      | .error e => .error e
      | .ok h => h.mergeBelow mh

end Heap

end OsPaging.User
