import OsPaging.Lib.Chain
import OsPaging.Vm.Machine

/-!
# The subpage allocator

`kern/vm/kmalloc.c`: `allocpageref` and `freepageref` (`:218-337`), `remove_lists` (`:795-819`),
`blocktype`, `subpage_kmalloc` (`:822-1018`) and `subpage_kfree` (`:1024-1156`), as they are built
(without `SLOW`, `GUARDS` and `LABELS`).

* `mem` is the memory of the heap pages, word by word: the free list of a page runs through the
  first words of its free blocks. The page descriptors (`struct pageref`) are on pages of their own;
  their fields are kept by the address of the descriptor. A null pointer is `0`.
* Whether `alloc_kpages(1)` finds a page, and which, is decided outside: the two answers that
  `subpage_kmalloc` may ask for come with the event. A page that is given is aligned and not `held`.
* What the kernel does with memory is arbitrary, but it stays within the blocks it got and off the
  pages of the heap (`KheapMove.store`).
* The rounds of a loop over a list are bounded by the number of descriptors; running out of rounds
  is a fault. So are the assertions, and the free of a page that is not held.
* `live` and `held` are not in the source: the results that have not been freed, with the sizes
  asked for, and the pages that have not been given back.
-/

namespace OsPaging.Vm

open OsPaging.Lib
open Function (update)

def sizes (blktype : Nat) : Nat := [16, 32, 64, 128, 256, 512, 1024, 2048].getD blktype 0

/-- `LARGEST_SUBPAGE_SIZE`: a request of that size gets whole pages. -/
def largestSubpageSize : Nat := 2048

/-- `blocktype`, `none` where it panics. -/
def blocktype (clientsz : Nat) : Option Nat := (List.range 8).find? fun i => clientsz ≤ sizes i

def npagerefsPerPage : Nat := 256

/-- `sizeof(struct pageref)`. -/
def sizeofPageref : Nat := 16

def numPagerefpages : Nat := 16

def totalPagerefs : Nat := numPagerefpages * npagerefsPerPage

def invalidOffset : Nat := 0xffff

def mkpab (pa blk : Nat) : Nat := pageFrame pa + blk % pageSize

/-- `struct kheap_root`. -/
structure KheapRoot where
  page : Nat
  /-- `pagerefs_inuse`, bit by bit. -/
  inuse : Nat → Bool
  numinuse : Nat

structure Kheap where
  mem : Nat → Nat
  nextSamesize : Nat → Nat
  nextAll : Nat → Nat
  /-- `pageaddr_and_blocktype`. -/
  pab : Nat → Nat
  freelistOffset : Nat → Nat
  nfree : Nat → Nat
  /-- `kheaproots`. -/
  roots : Nat → KheapRoot
  sizebases : Nat → Nat
  allbase : Nat
  live : List (Nat × Nat)
  held : List Nat

/-- Why a call does not return. -/
inductive KheapFault
  /-- It is not made: the request is for whole pages, the pointer is not live, or the page is not
  fresh. -/
  | disabled
  | assertion
  /-- A loop over a list does not end. -/
  | stuck
  /-- `free_kpages` of a page that was not allocated. -/
  | notHeld
deriving DecidableEq, Repr

namespace Kheap

/-- The heap before the first request. -/
def boot (mem : Nat → Nat) : Kheap where
  mem := mem
  nextSamesize _ := 0
  nextAll _ := 0
  pab _ := 0
  freelistOffset _ := 0
  nfree _ := 0
  roots _ := ⟨0, fun _ => false, 0⟩
  sizebases _ := 0
  allbase := 0
  live := []
  held := []

variable (s : Kheap)

def prPageaddr (pr : Nat) : Nat := pageFrame (s.pab pr)

def prBlocktype (pr : Nat) : Nat := s.pab pr % pageSize

/-! ## Descriptors -/

/-- The first descriptor of the root that is not in use. -/
def KheapRoot.firstUnused (root : KheapRoot) : Option Nat :=
  (List.range npagerefsPerPage).find? fun j => !root.inuse j

/-- `allocpageref`, with the answer of the `alloc_kpages` of `allocpagerefpage`: the loop over the
roots `rs`. -/
def allocpageref (va : Option Nat) : List Nat → Nat × Kheap
  | [] => (0, s)
  | r :: rs =>
    let root := s.roots r
    if npagerefsPerPage ≤ root.numinuse then allocpageref va rs
    else
      match KheapRoot.firstUnused root with
      | none => allocpageref va rs
      | some j =>
        -- the bit is set before there is a page
        let root := { root with inuse := update root.inuse j true, numinuse := root.numinuse + 1 }
        if root.page ≠ 0 then
          (root.page + j * sizeofPageref, { s with roots := update s.roots r root })
        else
          match va with
          | none => (0, { s with roots := update s.roots r root })
          | some va =>
            (va + j * sizeofPageref,
              { s with roots := update s.roots r { root with page := va }, held := va :: s.held })

/-- `freepageref`: the loop over the roots `rs`. A descriptor before the page of a root gives a
difference that is too large as an unsigned number. -/
def freepageref (p : Nat) : List Nat → Except KheapFault Kheap
  | [] => .error .assertion
  | r :: rs =>
    let root := s.roots r
    if root.page = 0 then
      if root.numinuse = 0 then freepageref p rs else .error .assertion
    else
      let j := (p - root.page) / sizeofPageref
      if root.page ≤ p ∧ j < npagerefsPerPage then
        if root.inuse j = true ∧ 0 < root.numinuse then
          let root := { root with inuse := update root.inuse j false, numinuse :=
            root.numinuse - 1 }
          .ok { s with roots := update s.roots r root }
        else .error .assertion
      else freepageref p rs

def removeLists (pr blktype : Nat) : Except KheapFault Kheap :=
  match unlink s.nextSamesize 0 pr (totalPagerefs + 1) (s.sizebases blktype),
      unlink s.nextAll 0 pr (totalPagerefs + 1) s.allbase with
  | some (base, same), some (all, next) =>
    .ok { s with
      sizebases := update s.sizebases blktype base, nextSamesize := same
      allbase := all, nextAll := next }
  | _, _ => .error .stuck

def freeKpages (page : Nat) : Except KheapFault Kheap :=
  if page ∈ s.held then .ok { s with held := s.held.erase page } else .error .notHeld

/-! ## Allocation -/

/-- `subpage_kmalloc` from `doalloc` on. -/
def doalloc (pr sz : Nat) : Except KheapFault Kheap :=
  if s.freelistOffset pr < pageSize then
    let prpage := s.prPageaddr pr
    let fla := prpage + s.freelistOffset pr
    let next := s.mem fla
    let nfree := s.nfree pr - 1
    let s := { s with nfree := update s.nfree pr nfree, live := (fla, sz) :: s.live }
    if next ≠ 0 then
      if 0 < nfree ∧ prpage ≤ next ∧ next - prpage < pageSize then
        .ok { s with freelistOffset := update s.freelistOffset pr (next - prpage) }
      else .error .assertion
    else if nfree = 0 then
      .ok { s with freelistOffset := update s.freelistOffset pr invalidOffset }
    else .error .assertion
  else .error .assertion

/-- The loop that threads the free list through `n` blocks of a new page. -/
def threadBlocks (mem : Nat → Nat) (page size : Nat) : Nat → Nat → Nat
  | 0 => mem
  | 1 => update mem page 0
  | n + 2 => update (threadBlocks mem page size (n + 1)) (page + (n + 1) * size) (page + n * size)

/-- A new page with its descriptor, put on both lists. -/
def newPage (pr prpage blktype : Nat) : Kheap :=
  let n := pageSize / sizes blktype
  { s with
    mem := threadBlocks s.mem prpage (sizes blktype) n
    pab := update s.pab pr (mkpab prpage blktype)
    nfree := update s.nfree pr n
    freelistOffset := update s.freelistOffset pr ((n - 1) * sizes blktype)
    nextSamesize := update s.nextSamesize pr (s.sizebases blktype)
    sizebases := update s.sizebases blktype pr
    nextAll := update s.nextAll pr s.allbase
    allbase := pr }

/-- The loop over the pages of the size. -/
def findSpace (blktype : Nat) : Except KheapFault (Option Nat) :=
  walk s.nextSamesize 0
    (fun pr => if s.prBlocktype pr = blktype then .ok (0 < s.nfree pr) else .error .assertion)
    .stuck (totalPagerefs + 1) (s.sizebases blktype)

/-- `subpage_kmalloc`, with the answers of `alloc_kpages`. -/
def subpageKmalloc (sz : Nat) (page refPage : Option Nat) : Except KheapFault Kheap :=
  match blocktype sz with
  | none => .error .assertion
  | some blktype =>
    match s.findSpace blktype with
    | .error f => .error f
    | .ok (some pr) => s.doalloc pr sz
    | .ok none =>
      match page with
      | none => .ok s
      | some prpage =>
        let s := { s with held := prpage :: s.held }
        match s.allocpageref refPage (List.range numPagerefpages) with
        | (0, s) => s.freeKpages prpage
        | (pr, s) => (s.newPage pr prpage blktype).doalloc pr sz

/-! ## Freeing -/

def fillDeadbeef (mem : Nat → Nat) (ptr len : Nat) : Nat → Nat := fun a =>
  if ptr ≤ a ∧ a < ptr + len then 0xdeadbeef else mem a

/-- The loop over all pages: the descriptor of the page that the pointer is on. -/
def findPage (ptraddr : Nat) : Except KheapFault (Option Nat) :=
  walk s.nextAll 0
    (fun pr => if s.prBlocktype pr < 8 then
        .ok (s.prPageaddr pr ≤ ptraddr ∧ ptraddr < s.prPageaddr pr + pageSize)
      else .error .assertion)
    .stuck (totalPagerefs + 1) s.allbase

/-- `subpage_kfree` once the page is known: the block goes to the front of the free list. -/
def putBlock (pr ptraddr : Nat) : Except KheapFault Kheap :=
  let prpage := s.prPageaddr pr
  let size := sizes (s.prBlocktype pr)
  let offset := ptraddr - prpage
  if pageSize ≤ offset ∨ offset % size ≠ 0 then .error .assertion
  else
    let next := if s.freelistOffset pr = invalidOffset then 0 else prpage + s.freelistOffset pr
    if prpage + offset = next then .error .assertion
    else
      .ok { s with
        mem := update (fillDeadbeef s.mem ptraddr size) (prpage + offset) next
        freelistOffset := update s.freelistOffset pr offset
        nfree := update s.nfree pr (s.nfree pr + 1) }

/-- `subpage_kfree`, for a pointer on one of the pages. -/
def subpageKfree (ptraddr : Nat) : Except KheapFault Kheap := do
  match ← s.findPage ptraddr with
  -- `kfree` takes it for a whole page
  | none => s.freeKpages ptraddr
  | some pr =>
    let prpage := s.prPageaddr pr
    let blktype := s.prBlocktype pr
    let s ← s.putBlock pr ptraddr
    if pageSize / sizes blktype < s.nfree pr then .error .assertion
    else if s.nfree pr = pageSize / sizes blktype then do
      let s ← s.removeLists pr blktype
      let s ← s.freepageref pr (List.range numPagerefpages)
      s.freeKpages prpage
    else .ok s

end Kheap

/-- What the kernel does with the heap. -/
inductive KheapMove
  /-- `kmalloc` of fewer bytes than `LARGEST_SUBPAGE_SIZE`, and what `alloc_kpages(1)` answers for a
  heap page and for a page of descriptors. -/
  | kmalloc (sz : Nat) (page refPage : Option Nat)
  | kfree (ptr : Nat)
  /-- A store of the kernel's. -/
  | store (addr word : Nat)
deriving DecidableEq, Repr

namespace Kheap

variable (s : Kheap)

/-- The pages that `alloc_kpages` may answer with. -/
def FreshPages (pages : List Nat) : Prop :=
  (∀ v ∈ pages, v ≠ 0 ∧ v % pageSize = 0 ∧ v ∉ s.held) ∧ pages.Nodup

instance (pages : List Nat) : Decidable (s.FreshPages pages) := inferInstanceAs (Decidable (_ ∧ _))

/-- The address is in a block that was handed out, or on a page that the heap does not hold. -/
def MayStore (addr : Nat) : Prop :=
  (∃ b ∈ s.live, b.1 ≤ addr ∧ addr < b.1 + b.2) ∨ pageFrame addr ∉ s.held

instance (addr : Nat) : Decidable (s.MayStore addr) := inferInstanceAs (Decidable (_ ∨ _))

/-- One event. -/
def exec : KheapMove → Except KheapFault Kheap
  | .kmalloc sz page refPage =>
    if sz < largestSubpageSize ∧ s.FreshPages (page.toList ++ refPage.toList) then
      s.subpageKmalloc sz page refPage
    else .error .disabled
  | .kfree ptr =>
    if ptr ∈ s.live.map Prod.fst then
      { s with live := s.live.filter (·.1 ≠ ptr) }.subpageKfree ptr
    else .error .disabled
  | .store addr word =>
    if s.MayStore addr then .ok { s with mem := update s.mem addr word } else .error .disabled

end Kheap

end OsPaging.Vm
