import OsPaging.Syscall.Calls
import OsPaging.Vm.FreshPages

/-!
# Loading an executable

`load_elf` and `load_segment` of `kern/syscall/loadelf.c`, as what they ask of the machine: the
regions they define and the bytes they store, in order, with the error they return. A `Vnode` has
the bytes of the file and, for each `VOP_READ`, the `uiomove` calls it makes; every call moves the
bytes at the offset of the `struct uio`.

The offset of a program header is 32-bit. `p_flags` is left out: the regions ignore it, and the two
kinds of user space it selects are copied to in the same way. The bytes of a copy that faults are
stored up to the address that faults.

`load_segment` gives `uiomove` a buffer of `p_memsz` bytes and asks for `p_filesz` of them.
`loadElf_ok`: when `load_elf` returns `0`, its stores are the file parts of the segments, one after
another. On flat memory that is the image of the file (`load_elf_faithful`).
-/

namespace OsPaging.Syscall

open OsPaging.Lib OsPaging.Vm

variable {v : Vnode} {ph : Phdr} {base err : Nat} {a : Action} {env : LoadEnv} {eh : Ehdr}
    {acts : List Action}

/-! ## The file -/

/-- `ENOEXEC` and `ENOMEM` (`kern/include/kern/errno.h`). -/
abbrev enoexec : Nat := 13

@[inherit_doc enoexec]
abbrev enomem : Nat := 3

structure Vnode where
  bytes : Nat → UInt8
  /-- `VOP_READ` at an offset, of a size. -/
  vop : Nat → Nat → VopPlan

/-- `VOP_READ` to a kernel buffer of `len` bytes, and the test for a short read. -/
def readKernel (v : Vnode) (offset len : Nat) : Except Nat (Nat → UInt8) :=
  let plan := v.vop offset len
  if plan.result ≠ 0 then .error plan.result
  else if plan.moves.foldl (fun resid n => resid - n) len ≠ 0 then .error enoexec
  else .ok fun i => v.bytes (offset + i)

/-- Big-endian numbers of two and of four bytes. -/
def be16 (b : Nat → UInt8) (i : Nat) : Nat := (b i).toNat * 256 + (b (i + 1)).toNat

@[inherit_doc be16]
def be32 (b : Nat → UInt8) (i : Nat) : Nat := be16 b i * 65536 + be16 b (i + 2)

theorem be32_lt (b : Nat → UInt8) (i : Nat) : be32 b i < wordSize := by
  have h0 := (b i).toNat_lt
  have h1 := (b (i + 1)).toNat_lt
  have h2 := (b (i + 2)).toNat_lt
  have h3 := (b (i + 2 + 1)).toNat_lt
  unfold be32 be16
  simp only [wordSize]
  omega

/-- `Elf32_Ehdr`: what `load_elf` reads of it. -/
structure Ehdr where
  ident : List UInt8
  type : Nat
  machine : Nat
  version : Nat
  entry : Nat
  phoff : Nat
  phentsize : Nat
  phnum : Nat
deriving DecidableEq, Repr

/-- `Elf32_Phdr`: what `load_elf` reads of it. -/
structure Phdr where
  type : Nat
  offset : Nat
  vaddr : Nat
  filesz : Nat
  memsz : Nat
deriving DecidableEq, Repr

def readEhdr (v : Vnode) : Except Nat Ehdr :=
  (readKernel v 0 52).map fun b =>
    { ident := (List.range 7).map b, type := be16 b 16, machine := be16 b 18, version := be32 b 20,
      entry := be32 b 24, phoff := be32 b 28, phentsize := be16 b 42, phnum := be16 b 44 }

/-- The test for a 32-bit big-endian version 1 executable for MIPS (`loadelf.c:192-204`). -/
def Ehdr.accepted (eh : Ehdr) : Bool :=
  eh.ident == [0x7f, 69, 76, 70, 1, 2, 1] && eh.version == 1 && eh.type == 2 && eh.machine == 8

/-- The header at `e_phoff + i*e_phentsize`. -/
def readPhdr (v : Vnode) (eh : Ehdr) (i : Nat) : Except Nat Phdr :=
  (readKernel v ((eh.phoff + i * eh.phentsize) % wordSize) 32).map fun b =>
    { type := be32 b 0, offset := be32 b 4, vaddr := be32 b 8, filesz := be32 b 16,
      memsz := be32 b 20 }

abbrev ptLoad : Nat := 1

/-- `PT_NULL`, `PT_PHDR` and `PT_MIPS_REGINFO` are skipped. -/
def Phdr.skipped (ph : Phdr) : Bool := ph.type == 0 || ph.type == 6 || ph.type == 0x70000000

/-- What `load_segment` reads: `p_filesz`, cut to `p_memsz`. -/
def Phdr.filesize (ph : Phdr) : Nat := if ph.memsz < ph.filesz then ph.memsz else ph.filesz

/-! ## Loading -/

/-- `v` is the executable, `faults` has the addresses that `vm_fault` refuses, and `nomem` tells for
which headers the `kmalloc` of `as_define_region` fails. -/
structure LoadEnv where
  v : Vnode
  faults : Nat → Bool
  nomem : Nat → Bool

/-- The stores of a copy to user space: the file's bytes, up to the first address that faults. -/
def copyStores (env : LoadEnv) (ph : Phdr) (b : Block) : List Action :=
  if b.done then
    (List.range (scan (fun i => env.faults (b.base + i)) b.len 0)).map fun i =>
      .run (.store (b.base + i) (env.v.bytes (ph.offset + (b.base + i - ph.vaddr))))
  else []

/-- `load_segment` (`loadelf.c:77-146`): the error and the stores; `none` is the panic of
`uiomove`. -/
def loadSegment (env : LoadEnv) (ph : Phdr) : Option (Nat × List Action) :=
  let plan := env.v.vop ph.offset ph.filesize
  match vopMoves env.faults plan.moves ⟨[(ph.vaddr, ph.memsz)], ph.filesize, ph.offset, true⟩ with
  | none => none
  | some (err, u, log) =>
    let stores := log.flatMap (copyStores env ph)
    if err ≠ 0 then some (err, stores)
    else if plan.result ≠ 0 then some (plan.result, stores)
    else if u.resid ≠ 0 then some (enoexec, stores)
    else some (0, stores)

/-- The first loop of `load_elf` (`loadelf.c:223-257`), over the indices left. -/
def definePass (env : LoadEnv) (eh : Ehdr) : List Nat → Nat × List Action
  | [] => (0, [])
  | i :: is =>
    match readPhdr env.v eh i with
    | .error err => (err, [])
    | .ok ph =>
      if ph.skipped then definePass env eh is
      else if ph.type ≠ ptLoad then (enoexec, [])
      else if env.nomem i then (enomem, [])
      else
        let r := definePass env eh is
        (r.1, .asDefineRegion ph.vaddr ph.memsz :: r.2)

/-- The second loop (`loadelf.c:268-299`). -/
def loadPass (env : LoadEnv) (eh : Ehdr) : List Nat → Option (Nat × List Action)
  | [] => some (0, [])
  | i :: is =>
    match readPhdr env.v eh i with
    | .error err => some (err, [])
    | .ok ph =>
      if ph.skipped then loadPass env eh is
      else if ph.type ≠ ptLoad then some (enoexec, [])
      else
        match loadSegment env ph with
        | none => none
        | some (err, stores) =>
          if err ≠ 0 then some (err, stores)
          else (loadPass env eh is).map fun r => (r.1, stores ++ r.2)

/-- `load_elf` (`loadelf.c:153-307`): the error, what it has asked of the machine, and the entry
point if it got that far. -/
def loadElf (env : LoadEnv) : Option (Nat × List Action × Option Nat) :=
  match readEhdr env.v with
  | .error err => some (err, [], none)
  | .ok eh =>
    if eh.accepted = false then some (enoexec, [], none)
    else
      match definePass env eh (List.range eh.phnum) with
      | (0, regions) =>
        (loadPass env eh (List.range eh.phnum)).map fun r =>
          (r.1, regions ++ r.2, if r.1 = 0 then some eh.entry else none)
      | (err, regions) => some (err, regions, none)

/-- The `PT_LOAD` headers of the file. -/
def segments (v : Vnode) : List Phdr :=
  match readEhdr v with
  | .error _ => []
  | .ok eh => (List.range eh.phnum).filterMap fun i =>
    match readPhdr v eh i with
    | .error _ => none
    | .ok ph => if ph.type = ptLoad then some ph else none

/-- The addresses that a segment takes from the file. -/
def Phdr.filePart (ph : Phdr) (va : Nat) : Prop :=
  ph.vaddr ≤ va ∧ va < ph.vaddr + ph.filesize

/-! ## What a segment stores -/

/-- The stores of `k` bytes at `base`: the bytes of the file at the same distance from the start of
the segment. -/
def fileStores (v : Vnode) (ph : Phdr) (base k : Nat) : List Action :=
  (List.range k).map fun i =>
    .run (.store (base + i) (v.bytes (ph.offset + (base + i - ph.vaddr))))

theorem fileStores_append (v : Vnode) (ph : Phdr) (base k l : Nat) :
    fileStores v ph base k ++ fileStores v ph (base + k) l = fileStores v ph base (k + l) := by
  simp only [fileStores, List.range_add, List.map_append, List.map_map]
  congr 1
  refine List.map_congr_left fun i _ => ?_
  simp only [Function.comp_apply, Nat.add_assoc]

theorem mem_fileStores {k : Nat} (h : a ∈ fileStores v ph base k) :
    ∃ va, base ≤ va ∧ va < base + k ∧
      a = .run (.store va (v.bytes (ph.offset + (va - ph.vaddr)))) := by
  obtain ⟨i, hi, rfl⟩ := List.mem_map.mp h
  grind

/-- A copy that returns `0` was made, below `USERSPACETOP` and without a fault. -/
theorem copyout_ok {faults : Nat → Bool} {n : Nat} {b : Block} (hbase : base < wordSize)
    (h0 : 0 < n) (hn : n < wordSize) (h : copyout faults base n = (0, b)) :
    b = ⟨base, n, true, true⟩ ∧ base + n ≤ userSpaceTop ∧ ∀ i < n, faults (base + i) = false := by
  obtain ⟨hb, he⟩ := copyBlock_spec true faults hbase h0 hn
  rw [show copyBlock true faults base n = (0, b) from h] at hb he
  grind

/-- A `uiomove` to one buffer that returns `0` has filled the first `k` bytes of it. -/
theorem uiomove_ok (ph : Phdr) {len n resid offset : Nat} {u : Uio} {log : List Block}
    (hbase : base < wordSize) (hlen : len < wordSize)
    (h : uiomove env.faults true [(base, len)] n resid offset = some (0, u, log)) :
    ∃ k ≤ len, u.iov = [(base + k, len - k)] ∧ u.read = true ∧
      unsigned u.resid = unsigned (resid - k) ∧ (0 < k → base + k ≤ userSpaceTop) ∧
      log.flatMap (copyStores env ph) = fileStores env.v ph base k := by
  unfold uiomove at h
  by_cases hmove : 0 < n ∧ 0 < resid
  · rw [if_pos hmove] at h
    simp only [if_true] at h
    by_cases hsize : min len n = 0
    · rw [if_pos hsize] at h
      simp [uiomove, hmove] at h
    · rw [if_neg hsize] at h
      obtain ⟨⟨err, b⟩, hc⟩ : ∃ r, copyout env.faults base (min len n) = r := ⟨_, rfl⟩
      rw [hc] at h
      cases err with
      | succ e => simp at h
      | zero =>
        obtain ⟨rfl, hbelow, hfaults⟩ := copyout_ok hbase (by omega) (by omega) hc
        simp only at h
        split_ifs at h with hrest
        · -- the only buffer is used up
          rw [uiomove, if_pos hrest] at h
          cases h
        · obtain ⟨rfl, rfl⟩ := by simpa using h
          refine ⟨min len n, min_le_left _ _, rfl, rfl, ?_, fun _ => hbelow, ?_⟩
          · simp only [unsigned, wordSize]
            omega
          · rw [List.flatMap_singleton]
            simp only [copyStores, if_true]
            obtain ⟨-, hle, -, hstop⟩ :=
              scan_spec (fun i => env.faults (base + i)) (min len n) 0
            have hall : scan (fun i => env.faults (base + i)) (min len n) 0 = min len n := by
              by_contra hne
              have hlt : scan (fun i => env.faults (base + i)) (min len n) 0 < min len n := by omega
              rw [Nat.zero_add, hfaults _ hlt] at hstop
              exact absurd (hstop hlt) (by simp)
            rw [hall]
            rfl
  · rw [if_neg hmove] at h
    obtain ⟨rfl, rfl⟩ := by simpa using h
    exact ⟨0, Nat.zero_le _, by simp, rfl, by simp, by simp, rfl⟩

/-- The moves of a `VOP_READ` that returns `0` fill the buffer from its start. -/
theorem vopMoves_ok (ph : Phdr) :
    ∀ {ns : List Nat} {base len resid offset : Nat} {u : Uio} {log : List Block},
      base < wordSize → len < wordSize →
      vopMoves env.faults ns ⟨[(base, len)], resid, offset, true⟩ = some (0, u, log) →
      ∃ k ≤ len, unsigned u.resid = unsigned (resid - k) ∧ (0 < k → base + k ≤ userSpaceTop) ∧
        log.flatMap (copyStores env ph) = fileStores env.v ph base k
  | [], base, len, resid, offset, u, log, _, _, h => by
    obtain ⟨rfl, rfl⟩ := by simpa [vopMoves] using h
    exact ⟨0, Nat.zero_le _, by simp, by simp, rfl⟩
  | n :: ns, base, len, resid, offset, u, log, hbase, hlen, h => by
    unfold vopMoves at h
    simp only at h
    split at h
    · simp at h
    · rename_i u₁ log₁ hmove
      obtain ⟨k₁, hk₁, hiov, hread, hres₁, hbelow₁, hlog₁⟩ := uiomove_ok ph hbase hlen hmove
      obtain ⟨⟨err, u₂, log₂⟩, hrest, heq⟩ := Option.map_eq_some_iff.mp h
      obtain ⟨rfl, rfl, rfl⟩ := by simpa using heq
      obtain ⟨iov, resid₁, offset₁, read⟩ := u₁
      obtain rfl : iov = _ := hiov
      obtain rfl : read = _ := hread
      have hnext : base + k₁ < wordSize := by
        simp only [userSpaceTop, mipsKseg0, wordSize] at *
        omega
      obtain ⟨k₂, hk₂, hres₂, hbelow₂, hlog₂⟩ := vopMoves_ok ph hnext (by omega) hrest
      refine ⟨k₁ + k₂, by omega, ?_, fun _ => ?_, ?_⟩
      · rw [hres₂]
        simp only [unsigned, wordSize] at hres₁ ⊢
        omega
      · by_cases h2 : 0 < k₂
        · have := hbelow₂ h2
          omega
        · have := hbelow₁ (by omega)
          omega
      · rw [List.flatMap_append, hlog₁, hlog₂, fileStores_append]
    · rename_i err u₁ log₁ hne hmove
      obtain ⟨rfl, rfl, rfl⟩ := by simpa using h
      exact absurd rfl hne

theorem readKernel_error {offset len : Nat} (h : readKernel v offset len = .error err) :
    err ≠ 0 := by
  unfold readKernel at h
  grind

theorem readEhdr_error (h : readEhdr v = .error err) : err ≠ 0 := by
  unfold readEhdr at h
  cases hr : readKernel v 0 52 with
  | error e =>
    obtain rfl : e = err := by simpa [hr, Except.map] using h
    exact readKernel_error hr
  | ok b => simp [hr, Except.map] at h

theorem readPhdr_error {i : Nat} (h : readPhdr v eh i = .error err) : err ≠ 0 := by
  unfold readPhdr at h
  cases hr : readKernel v ((eh.phoff + i * eh.phentsize) % wordSize) 32 with
  | error e =>
    obtain rfl : e = err := by simpa [hr, Except.map] using h
    exact readKernel_error hr
  | ok b => simp [hr, Except.map] at h

theorem readPhdr_lt {i : Nat} (h : readPhdr v eh i = .ok ph) :
    ph.vaddr < wordSize ∧ ph.memsz < wordSize := by
  unfold readPhdr at h
  cases hr : readKernel v ((eh.phoff + i * eh.phentsize) % wordSize) 32 with
  | error err => simp [hr, Except.map] at h
  | ok b =>
    obtain rfl : _ = ph := by simpa [hr, Except.map] using h
    exact ⟨be32_lt b 8, be32_lt b 20⟩

/-- **A segment is loaded when exactly its file part was stored**, all of it below
`USERSPACETOP`. -/
theorem loadSegment_ok {stores : List Action} (hv : ph.vaddr < wordSize) (hm : ph.memsz < wordSize)
    (h : loadSegment env ph = some (0, stores)) :
    stores = fileStores env.v ph ph.vaddr ph.filesize ∧
      (0 < ph.filesize → ph.vaddr + ph.filesize ≤ userSpaceTop) := by
  unfold loadSegment at h
  simp only at h
  split at h
  · simp at h
  · rename_i err u log hmoves
    split_ifs at h with herr hres hleft
    · grind
    · grind
    · simp at h
    · obtain rfl : err = 0 := not_not.mp herr
      obtain rfl := (Prod.mk.inj (Option.some.inj h)).2
      obtain ⟨k, hk, hresid, hbelow, hlog⟩ := vopMoves_ok ph hv hm hmoves
      -- what is left is `0` modulo the word size, and the buffer is shorter than that
      obtain rfl : k = ph.filesize := by
        have hle : ph.filesize ≤ ph.memsz := by
          unfold Phdr.filesize
          split <;> omega
        rw [not_not.mp hleft] at hresid
        simp only [unsigned, wordSize] at hresid hm
        omega
      exact ⟨hlog, hbelow⟩

theorem definePass_regions :
    ∀ {is : List Nat}, a ∈ (definePass env eh is).2 → ∃ va n, a = .asDefineRegion va n
  | [], h => by simp [definePass] at h
  | i :: is, h => by
    unfold definePass at h
    split at h
    · simp at h
    · split_ifs at h
      · exact definePass_regions h
      · simp at h
      · simp at h
      · rcases List.mem_cons.mp h with rfl | h
        · exact ⟨_, _, rfl⟩
        · exact definePass_regions h

/-- The header at index `i`, if it is a `PT_LOAD` header. -/
def readSegment (v : Vnode) (eh : Ehdr) (i : Nat) : Option Phdr :=
  match readPhdr v eh i with
  | .error _ => none
  | .ok ph => if ph.type = ptLoad then some ph else none

theorem Phdr.type_of_skipped (h : ph.skipped = true) : ph.type ≠ ptLoad := by
  intro ht
  rw [Phdr.skipped, ht] at h
  exact absurd h (by decide)

/-- The second loop, when it ends without an error: one segment after another. -/
theorem loadPass_ok :
    ∀ {is : List Nat} {stores : List Action}, loadPass env eh is = some (0, stores) →
      stores = (is.filterMap (readSegment env.v eh)).flatMap
          (fun ph => fileStores env.v ph ph.vaddr ph.filesize) ∧
        ∀ ph ∈ is.filterMap (readSegment env.v eh),
          0 < ph.filesize → ph.vaddr + ph.filesize ≤ userSpaceTop
  | [], stores, h => by
    obtain rfl : [] = stores := by simpa [loadPass] using h
    exact ⟨rfl, by simp⟩
  | i :: is, stores, h => by
    unfold loadPass at h
    split at h
    · rename_i err herr
      exact absurd (Prod.mk.inj (Option.some.inj h)).1 (readPhdr_error herr)
    · rename_i ph hph
      split_ifs at h with hskip htype
      · have hnone : readSegment env.v eh i = none := by
          simp [readSegment, hph, Phdr.type_of_skipped hskip]
        rw [List.filterMap_cons_none hnone]
        exact loadPass_ok h
      · simp at h
      · have hsome : readSegment env.v eh i = some ph := by
          simp [readSegment, hph, not_not.mp htype]
        rw [List.filterMap_cons_some hsome]
        split at h
        · simp at h
        · rename_i err seg hseg
          split_ifs at h with herr
          · exact absurd (Prod.mk.inj (Option.some.inj h)).1 herr
          · obtain rfl : err = 0 := not_not.mp herr
            obtain ⟨⟨err, rest⟩, hrest, heq⟩ := Option.map_eq_some_iff.mp h
            obtain ⟨rfl, rfl⟩ := by simpa using heq
            obtain ⟨hv, hm⟩ := readPhdr_lt hph
            obtain ⟨rfl, hbelow⟩ := loadSegment_ok hv hm hseg
            obtain ⟨rfl, hbelows⟩ := loadPass_ok hrest
            refine ⟨by rw [List.flatMap_cons], fun q hq => ?_⟩
            rcases List.mem_cons.mp hq with rfl | hq
            · exact hbelow
            · exact hbelows q hq

theorem segments_eq (h : readEhdr v = .ok eh) :
    segments v = (List.range eh.phnum).filterMap (readSegment v eh) := by
  unfold segments
  rw [h]
  rfl

/-- **What `load_elf` has done when it returns `0`**: it has defined the regions, stored the file
parts of the segments in table order, all below `USERSPACETOP`, and returns `e_entry`. -/
theorem loadElf_ok {entry : Option Nat} (h : loadElf env = some (0, acts, entry)) :
    ∃ eh, readEhdr env.v = .ok eh ∧ entry = some eh.entry ∧
      acts = (definePass env eh (List.range eh.phnum)).2 ++ (segments env.v).flatMap
        (fun ph => fileStores env.v ph ph.vaddr ph.filesize) ∧
      ∀ ph ∈ segments env.v, 0 < ph.filesize → ph.vaddr + ph.filesize ≤ userSpaceTop := by
  unfold loadElf at h
  split at h
  · rename_i err herr
    exact absurd (Prod.mk.inj (Option.some.inj h)).1 (readEhdr_error herr)
  · rename_i eh heh
    split_ifs at h
    · simp at h
    · split at h
      · rename_i regions hdef
        obtain ⟨⟨err, stores⟩, hload, heq⟩ := Option.map_eq_some_iff.mp h
        obtain ⟨rfl, rfl, rfl⟩ := by simpa using heq
        obtain ⟨rfl, hbelow⟩ := loadPass_ok hload
        rw [segments_eq heh]
        exact ⟨eh, heh, rfl, by rw [hdef], hbelow⟩
      · grind

/-- **A program that is loaded was stored in the file parts of its segments**, and nowhere else. -/
theorem loadElf_stores {entry : Option Nat} (h : loadElf env = some (0, acts, entry))
    (ha : a ∈ acts) :
    (∃ va n, a = .asDefineRegion va n) ∨
      ∃ va b, a = .run (.store va b) ∧ ∃ ph ∈ segments env.v, ph.filePart va := by
  obtain ⟨eh, -, -, rfl, -⟩ := loadElf_ok h
  rcases List.mem_append.mp ha with ha | ha
  · exact .inl (definePass_regions ha)
  · obtain ⟨ph, hph, hstore⟩ := List.mem_flatMap.mp ha
    obtain ⟨va, hlo, hhi, rfl⟩ := mem_fileStores hstore
    exact .inr ⟨va, _, rfl, ph, hph, hlo, hhi⟩

/-! ## The image of the file -/

/-- **Fresh pages read as zero**, as long as the frame next in line holds zeros when a page is used
for the first time. A load returns what the process has stored since its address space was created,
or zero; so does a load from a segment's memory after its file part. It depends on nothing but the
process's own history. -/
theorem fresh_pages_zero {m₀ m : Machine} {acts : List Action} {va : Nat} {v : UInt8}
    (hb : m₀.Booted)
    (hr : Run (Machine.Step Machine.Private) m₀ (acts ++ [.run (.load va v)]) m) :
    let own := (History.after m₀.current acts).own (History.after m₀.current acts).current
    ((∀ b, .run (.store va b) ∉ own) → v = 0) ∧
      (∀ env loaded entry later ph, loadElf env = some (0, loaded, entry) → own = loaded ++ later →
        (∀ b, .run (.store va b) ∉ later) → ph ∈ segments env.v →
        ph.vaddr + ph.filesz ≤ va → va < ph.vaddr + ph.memsz →
        (∀ q ∈ segments env.v, ¬ q.filePart va) → v = 0) ∧
      ∀ m₀' m' acts' v', m₀'.Booted →
        Run (Machine.Step Machine.Private) m₀' (acts' ++ [.run (.load va v')]) m' →
        (History.after m₀'.current acts').own (History.after m₀'.current acts').current = own →
        v' = v := by
  intro own
  have hload : ∀ {m₀ m : Machine} {acts : List Action} {v : UInt8}, m₀.Booted →
      Run (Machine.Step Machine.Private) m₀ (acts ++ [.run (.load va v)]) m →
      v = ownByte ((History.after m₀.current acts).own (History.after m₀.current acts).current)
        va := by
    intro m₀ m acts v hb hr
    obtain ⟨s, hs, -, hx⟩ := hr.last
    exact (Remembers.of_run hb hs).load hx
  refine ⟨fun hnone => (hload hb hr).trans (ownByte_of_forall_ne hnone), ?_, ?_⟩
  · intro env loaded entry later ph helf hown hlater hph hlo hhi hapart
    refine (hload hb hr).trans (ownByte_of_forall_ne fun b (hmem : _ ∈ own) => ?_)
    rw [hown, List.mem_append] at hmem
    rcases hmem with hmem | hmem
    · rcases loadElf_stores helf hmem with ⟨_, _, heq⟩ | ⟨va', b', heq, q, hq, hpart⟩
      · cases heq
      · cases heq
        exact hapart q hq hpart
    · exact hlater b hmem
  · grind

/-- Process 1 stores a byte at `va` and is destroyed. -/
abbrev firstProcess (va : Nat) : List Action :=
  [.switch 1, .asCreate, .asDefineRegion 0x400000 0x1000, .run (.fault vmFaultWrite 0x400000 0),
    .run (.store va 42), .switch 0, .asDestroy 1]

/-- Process 2, which has stored nothing, reads the byte of process 1. -/
theorem old_page_readable : (Machine.small 8).Booted ∧
    ∃ m, Run (Machine.Step fun m a => m.FlushedSwitch a ∧ m.Unshared a) (Machine.small 8)
        (firstProcess 0x400000 ++ [.switch 2, .asCreate, .asDefineRegion 0x400000 0x1000,
          .run (.fault vmFaultRead 0x400000 0), .run (.load 0x400000 42)]) m ∧
      decide (m.current = 2) = true :=
  ⟨Machine.booted_small (by decide) (by decide), Machine.exists_run (by decide +kernel)⟩

/-- An executable with one segment of a page, of which the file has one byte. -/
def oneSegment : LoadEnv where
  v := {
    bytes := fun i => ([0x7f, 69, 76, 70, 1, 2, 1, 0, 0, 0, 0, 0, 0, 0, 0, 0, 0, 2, 0, 8, 0, 0, 0,
      1, 0, 0x40, 0, 0, 0, 0, 0, 52, 0, 0, 0, 0, 0, 0, 0, 0, 0, 52, 0, 32, 0, 1, 0, 0, 0, 0, 0,
      0, 0, 0, 0, 1, 0, 0, 0, 84, 0, 0x40, 0, 0, 0, 0, 0, 0, 0, 0, 0, 1, 0, 0, 0x10, 0, 0, 0, 0, 0,
      0, 0, 0, 0, 7] : List UInt8).getD i 0
    vop := fun _ size => ⟨[size], 0⟩ }
  faults := fun _ => false
  nomem := fun _ => false

theorem oneSegment_loaded : loadElf oneSegment =
    some (0, [.asDefineRegion 0x400000 0x1000, .run (.store 0x400000 7)], some 0x400000) := by
  decide +kernel

theorem oneSegment_segments :
    segments oneSegment.v = [⟨ptLoad, 84, 0x400000, 1, 0x1000⟩] := by
  decide +kernel

/-- Process 1 is destroyed and the kernel takes its frame. Process 2 loads `oneSegment`. -/
abbrev secondProcess : List Action :=
  firstProcess 0x400001 ++ [.run (.kalloc 1), .switch 2, .asCreate,
    .asDefineRegion 0x400000 0x1000, .run (.fault vmFaultWrite 0x400000 0),
    .run (.store 0x400000 7)]

/-- It reads zero after the byte of the file. -/
theorem fresh_pages_zero_one_segment : (Machine.small 8).Booted ∧
    loadElf oneSegment = some (0, [.asDefineRegion 0x400000 0x1000, .run (.store 0x400000 7)],
      some 0x400000) ∧
    (∃ m, Run (Machine.Step Machine.Private) (Machine.small 8)
      (secondProcess ++ [.run (.load 0x400001 0)]) m ∧ decide (m.current = 2) = true) ∧
    ∀ v m, Run (Machine.Step Machine.Private) (Machine.small 8)
      (secondProcess ++ [.run (.load 0x400001 v)]) m → v = 0 := by
  have hb := Machine.booted_small (n := 8) (by decide) (by decide)
  refine ⟨hb, oneSegment_loaded, Machine.exists_run (by decide +kernel), fun v m hr => ?_⟩
  refine (fresh_pages_zero hb hr).2.1 oneSegment _ _ [] ⟨ptLoad, 84, 0x400000, 1, 0x1000⟩
    oneSegment_loaded (by decide) (by simp) (by simp [oneSegment_segments]) (by decide) (by decide)
    ?_
  simp [oneSegment_segments, Phdr.filePart, Phdr.filesize]

end OsPaging.Syscall
