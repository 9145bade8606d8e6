import Mathlib.Data.List.Nodup
import Mathlib.Logic.Function.Basic
import Mathlib.Order.Nat
import OsPaging.Lib.Lists

/-!
# The state of the VM system

The data the VM code of `kern/arch/mips/vm/vm.c` reads and writes, one field per global:

* `coremap`, `nRamFrames`, `firstFreeFrame`, `allocTableActive` (`kern/include/coremap.h:13-16`)
  and the static victim pointer of `coremap_victim_selection`;
* the page table of the running process (`kern/include/pt.h:12-23`), a list with a sentinel, here
  the list of its entries from `nil -> next` on, and the process's regions (`addrspace.h:53-76`);
* `swaptable` and the bytes of the swap vnode (`kern/vm/swapfile.c:22-24`);
* the 64 TLB entries, as their two words (`arch/mips/include/tlb.h`), and the static pointer of
  `tlb_get_rr_victim`;
* RAM as bytes, the boot allocator of `arch/mips/vm/ram.c`, and the statistics (`vmstats.h`).

Addresses are natural numbers below `2 ^ 32`; where C arithmetic on them can wrap, the model
reduces modulo `2 ^ 32`. The counters of `stats_t` do not wrap here.

A failed `KASSERT` and a call of `panic` end the run: every function that can reach one returns
`Except Panic`.
-/

namespace OsPaging.Vm

/-! ## Constants -/

abbrev pageSize : Nat := 4096

/-- Addresses and machine words are below `2 ^ 32`. -/
abbrev wordSize : Nat := 4294967296

abbrev mipsKseg0 : Nat := 0x80000000

/-- The most RAM that `ram_bootstrap` uses, so that all of it has an address in kseg0. -/
abbrev ramMax : Nat := 536870912

/-- `USERSPACETOP`, which is also `USERSTACK`. -/
abbrev userSpaceTop : Nat := mipsKseg0

abbrev dumbvmStackPages : Nat := 18

abbrev numTlb : Nat := 64

/-- `SWAPSLOTS`: `9*1024*1024/PAGE_SIZE`, read left to right as the macro expands. -/
abbrev swapSlots : Nat := 2304

/-- `EFAULT` (`kern/include/kern/errno.h`). -/
abbrev efault : Nat := 6

abbrev einval : Nat := 8

/-- `VM_FAULT_READ`, `VM_FAULT_WRITE`, `VM_FAULT_READONLY` (`kern/include/vm.h`). -/
abbrev vmFaultRead : Nat := 0

@[inherit_doc vmFaultRead]
abbrev vmFaultWrite : Nat := 1

@[inherit_doc vmFaultRead]
abbrev vmFaultReadonly : Nat := 2

/-- `addr & PAGE_FRAME`. -/
def pageFrame (addr : Nat) : Nat := addr / pageSize * pageSize

def paddrToKvaddr (paddr : Nat) : Nat := (paddr + mipsKseg0) % wordSize

/-! ## Panics -/

/-- The ways the VM code stops the kernel: its `panic` calls and its `KASSERT`s. -/
inductive Panic
  /-- `panic("dumbvm: got VM_FAULT_READONLY \n")`. -/
  | readonlyFault
  /-- `KASSERT(as -> start_region != NULL)`, in `vm_fault` and `as_destroy`. -/
  | noFirstRegion
  /-- `panic("getuserppage called while table not active\n")`. -/
  | tableNotActive
  /-- `panic("no more victims in the coremap\n")`. -/
  | noMoreVictims
  /-- `KASSERT(victimsfound == nvictims)`. -/
  | victimCount
  /-- `as -> pt` with `as == NULL` in a swap-out branch: a fatal kernel-mode fault. -/
  | nullAddrspace
  /-- `KASSERT(ptvictim != NULL)`. -/
  | victimNotMapped
  /-- `KASSERT(ptvictim -> ppage_index == victim)`. -/
  | victimWrongFrame
  /-- `KASSERT(ptvictim -> vaddr == vvaddr)`. -/
  | victimWrongVaddr
  /-- `panic("no more space in the swap file\n")`. -/
  | swapFull
  /-- `KASSERT(swap_index >= 0)`. -/
  | swapOutFailed
  /-- `KASSERT(err == 0)` after `swap_in`. -/
  | swapInFailed
  /-- `KASSERT(paddr != 0)`. -/
  | paddrZero
  /-- `KASSERT(new != NULL)` in `pt_add`. -/
  | noMemory
  /-- `KASSERT((paddr & PAGE_FRAME) == paddr)` and `KASSERT(addr % PAGE_SIZE == 0)`. -/
  | unaligned
  /-- `KASSERT(coremap[index].status != FIXED)`. -/
  | freeFixed
  /-- `KASSERT(nRamFrames > first)`. -/
  | frameOutOfRange
  /-- `KASSERT(swaptable[index].empty == 0)`. -/
  | slotEmpty
  /-- `panic("Too little memory for the bare minumin\n")`. -/
  | tooLittleMemory
deriving DecidableEq, Repr

/-- `status_t`. -/
inductive Status
  | free
  | clean
  | dirty
  | fixed
deriving DecidableEq, Repr

/-- `coremap_entry_t`. -/
structure CoremapEntry where
  status : Status
  paddr : Nat
  vaddr : Nat
  size : Nat
deriving DecidableEq, Repr

/-- `status == FREE || status == CLEAN`. -/
def CoremapEntry.isFree (c : CoremapEntry) : Bool :=
  c.status == .free || c.status == .clean

/-- `ptentry_t`, without the link. -/
structure PtEntry where
  vaddr : Nat
  ppageIndex : Nat
  swapped : Bool
  swapIndex : Nat
deriving DecidableEq, Repr

/-- `pt_t`: the entries from `nil -> next` on, and `npages`. -/
structure Pt where
  entries : List PtEntry
  npages : Nat
deriving DecidableEq, Repr

/-- `struct region`, without the link. -/
structure Region where
  start : Nat
  size : Nat
  npages : Nat
deriving DecidableEq, Repr

/-- `struct addrspace`: the regions from `start_region` on (`NULL` is the empty list). -/
structure AddrSpace where
  regions : List Region
  pt : Pt
deriving DecidableEq, Repr

/-- A TLB entry: its high and low words. -/
structure TlbEntry where
  ehi : Nat
  elo : Nat
deriving DecidableEq, Repr

/-- `stats_t`. -/
structure Stats where
  tlbFaults : Nat
  tlbFaultsWFree : Nat
  tlbFaultsWReplace : Nat
  tlbInvalidation : Nat
  tlbReloads : Nat
  pageFaultsZero : Nat
  pageFaultsDisk : Nat
  pageFaultsElf : Nat
  pageFaultsSwapfile : Nat
  swapfileWrites : Nat
deriving DecidableEq, Repr

def statsInit : Stats := ⟨0, 0, 0, 0, 0, 0, 0, 0, 0, 0⟩

/-- The state the VM code works on. `vop k` is the result of the `k`-th `VOP_READ` or
`VOP_WRITE` on the swap vnode (`0` for success) and `nvop` counts the calls made. -/
structure VmState where
  ram : Nat → UInt8
  firstpaddr : Nat
  lastpaddr : Nat
  coremap : Nat → CoremapEntry
  nRamFrames : Nat
  firstFreeFrame : Nat
  allocTableActive : Bool
  nextVictim : Nat
  swaptable : Nat → Bool
  swapspace : Nat → UInt8
  vop : Nat → Nat
  nvop : Nat
  tlb : Nat → TlbEntry
  tlbNextVictim : Nat
  stats : Stats
  /-- `proc_getas()`. -/
  as : Option AddrSpace

/-! ## Reading and writing through the running process's page table -/

/-- The entries of the running process's page table. -/
def VmState.entries (s : VmState) : List PtEntry :=
  match s.as with
  | some as => as.pt.entries
  | none => []

/-- `npages` of the running process's page table. -/
def VmState.npages (s : VmState) : Nat :=
  match s.as with
  | some as => as.pt.npages
  | none => 0

/-- Write to the running process's page table. -/
def VmState.modifyPt (s : VmState) (g : Pt → Pt) : VmState :=
  { s with as := s.as.map fun as => { as with pt := g as.pt } }

/-- Write to one coremap entry. -/
def VmState.modifyFrame (s : VmState) (f : Nat) (g : CoremapEntry → CoremapEntry) : VmState :=
  { s with coremap := Function.update s.coremap f (g (s.coremap f)) }

theorem VmState.modifyFrame_coremap (s : VmState) (f : Nat) (g : CoremapEntry → CoremapEntry)
    (j : Nat) : (s.modifyFrame f g).coremap j = if j = f then g (s.coremap f) else s.coremap j := by
  simp only [VmState.modifyFrame, Function.update_apply]

end OsPaging.Vm
