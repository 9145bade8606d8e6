import OsPaging.Vm.KmallocPages

/-!
# The shape of the kernel heap

`KheapShape`: the descriptors on the list of all pages (`all`), those on the list of each size
(`bySize`), and the free list of each page (`free`), as they are chained in memory; every block of a
page is on its free list or handed out. One lemma for each thing that `subpage_kmalloc` and
`subpage_kfree` do to it: a block is taken, a page comes, a block is put back, a page goes.
-/

namespace OsPaging.Vm

open OsPaging.Lib
open Function (update update_self update_of_ne)

namespace Kheap

variable (s : Kheap)

/-- The size of the blocks of a page. -/
def blockSize (p : Nat) : Nat := sizes (s.prBlocktype p)

/-- The address of the first free block. -/
def freeHead (p : Nat) : Nat :=
  if s.freelistOffset p = invalidOffset then 0 else s.prPageaddr p + s.freelistOffset p

/-- A block of the page of descriptor `p`. -/
def IsBlock (p a : Nat) : Prop := BlockAt (s.prPageaddr p) (s.blockSize p) a

/-- The addresses that were handed out. -/
def liveAddrs : List Nat := s.live.map Prod.fst

theorem prPageaddr_aligned (p : Nat) : s.prPageaddr p % pageSize = 0 := by
  unfold prPageaddr pageFrame
  exact Nat.mul_mod_left _ _

end Kheap

/-- The lists of the heap. -/
structure KheapShape (s : Kheap) (all : List Nat) (bySize free : Nat → List Nat) : Prop where
  roots : RootsOk s.roots
  allChain : Chained s.nextAll 0 s.allbase all
  sizeChain : ∀ b < 8, Chained s.nextSamesize 0 (s.sizebases b) (bySize b)
  mem_bySize : ∀ b < 8, ∀ p, p ∈ bySize b ↔ p ∈ all ∧ s.prBlocktype p = b
  ref : ∀ p ∈ all, IsRef s.roots p
  type : ∀ p ∈ all, s.prBlocktype p < 8
  pageNe : ∀ p ∈ all, s.prPageaddr p ≠ 0
  pageInj : ∀ p ∈ all, ∀ q ∈ all, s.prPageaddr p = s.prPageaddr q → p = q
  chain : ∀ p ∈ all, Chained s.mem 0 (s.freeHead p) (free p)
  nfree : ∀ p ∈ all, (free p).length = s.nfree p
  mem_free : ∀ p ∈ all, ∀ a, a ∈ free p ↔ s.IsBlock p a ∧ a ∉ s.liveAddrs
  live : ∀ x ∈ s.live, ∃ p ∈ all, s.IsBlock p x.1 ∧ x.2 ≤ s.blockSize p
  liveNodup : s.liveAddrs.Nodup

namespace KheapShape

variable {s : Kheap} {all : List Nat} {bySize free : Nat → List Nat} {p q a sz : Nat}

section

variable (h : KheapShape s all bySize free) (hp : p ∈ all)
include h hp

theorem size_dvd : s.blockSize p ∣ pageSize ∧ 16 ≤ s.blockSize p ∧ s.blockSize p ≤ 2048 :=
  sizes_dvd (h.type p hp)

/-- Blocks of the heap that are not the same do not overlap. -/
theorem blocks_apart (hq : q ∈ all) {b : Nat} (ha : s.IsBlock p a) (hb : s.IsBlock q b)
    (hne : a ≠ b) : a + s.blockSize p ≤ b ∨ b + s.blockSize q ≤ a := by
  by_cases hpq : p = q
  · subst hpq
    exact BlockAt.apart ha hb hne
  · exact BlockAt.apart_of_ne ha hb (h.size_dvd hp).1 (h.size_dvd hq).1 (s.prPageaddr_aligned p)
      (s.prPageaddr_aligned q) fun he => hpq (h.pageInj p hp q hq he)

/-- A block belongs to one page. -/
theorem isBlock_inj (hq : q ∈ all) (ha : s.IsBlock p a) (hb : s.IsBlock q a) : p = q := by
  by_contra hpq
  have hpos := (h.size_dvd hp).2.1
  have hpos' := (h.size_dvd hq).2.1
  have := BlockAt.apart_of_ne ha hb (h.size_dvd hp).1 (h.size_dvd hq).1 (s.prPageaddr_aligned p)
      (s.prPageaddr_aligned q) fun he => hpq (h.pageInj p hp q hq he)
  omega

theorem offset_lt (ha : s.IsBlock p a) : s.prPageaddr p ≤ a ∧ a - s.prPageaddr p < pageSize := by
  have hb := BlockAt.bounds ha (h.size_dvd hp).1
  have hpos := (h.size_dvd hp).2.1
  omega

end

theorem freeHead_of (hne : s.freelistOffset p ≠ invalidOffset) :
    s.freeHead p = s.prPageaddr p + s.freelistOffset p := by
  unfold Kheap.freeHead
  rw [if_neg hne]

section

variable (h : KheapShape s all bySize free)
include h

theorem length_all : all.length < totalPagerefs + 1 :=
  Nat.lt_succ_of_le (RootsOk.length_le h.allChain.nodup h.ref)

theorem length_bySize {b : Nat} (hb : b < 8) : (bySize b).length < totalPagerefs + 1 :=
  Nat.lt_succ_of_le (RootsOk.length_le (h.sizeChain b hb).nodup fun p hp =>
    h.ref p ((h.mem_bySize b hb p).mp hp).1)

/-! ## The loops over the lists -/

theorem findSpace_eq {b : Nat} (hb : b < 8) :
    s.findSpace b = .ok ((bySize b).find? fun p => 0 < s.nfree p) := by
  refine walk_eq (h.sizeChain b hb) (fun p hp => ?_) (h.length_bySize hb)
  rw [if_pos ((h.mem_bySize b hb p).mp hp).2]

theorem findPage_eq (hp : p ∈ all) (ha : s.IsBlock p a) : s.findPage a = .ok (some p) := by
  have hfind : s.findPage a = .ok (all.find? fun q =>
      s.prPageaddr q ≤ a ∧ a < s.prPageaddr q + pageSize) := by
    refine walk_eq h.allChain (fun q hq => ?_) h.length_all
    rw [if_pos (h.type q hq)]
  rw [hfind]
  have hb := h.offset_lt hp ha
  cases hq : all.find? fun q => s.prPageaddr q ≤ a ∧ a < s.prPageaddr q + pageSize with
  | none =>
    grind
  | some q =>
    -- the pages are aligned
    have hqa := List.mem_of_find?_eq_some hq
    have hs := List.find?_some hq
    simp only [decide_eq_true_eq] at hs
    have h1 := s.prPageaddr_aligned p
    have h2 := s.prPageaddr_aligned q
    have he : s.prPageaddr q = s.prPageaddr p := by
      simp only [pageSize] at *
      omega
    rw [h.pageInj q hqa p hp he]

/-! ## A block is taken -/

/-- The first free block of a page, and the rest of its free list. -/
theorem free_cons (hp : p ∈ all) (hpos : 0 < s.nfree p) :
    ∃ rest, free p = (s.prPageaddr p + s.freelistOffset p) :: rest ∧
      s.freelistOffset p < pageSize ∧
      Chained s.mem 0 (s.mem (s.prPageaddr p + s.freelistOffset p)) rest := by
  have hchain := h.chain p hp
  cases hf : free p with
  | nil =>
    have := h.nfree p hp
    rw [hf] at this
    simp at this
    omega
  | cons x rest =>
    rw [hf] at hchain
    obtain ⟨hx, hx0, hrest⟩ := hchain
    have hne : s.freelistOffset p ≠ invalidOffset := by
      intro he
      rw [Kheap.freeHead, if_pos he] at hx
      exact hx0 hx.symm
    rw [freeHead_of hne] at hx
    have hblock := ((h.mem_free p hp x).mp (by rw [hf]; exact List.mem_cons_self)).1
    have hoff := h.offset_lt hp hblock
    subst hx
    exact ⟨rest, rfl, by omega, hrest⟩

theorem doalloc_ok (hp : p ∈ all) (hpos : 0 < s.nfree p) (hsz : sz ≤ s.blockSize p) :
    ∃ s' a free', s.doalloc p sz = .ok s' ∧ KheapShape s' all bySize free' ∧ s.IsBlock p a ∧
      s'.live = (a, sz) :: s.live ∧ s'.held = s.held ∧ s'.roots = s.roots ∧ s'.pab = s.pab := by
  obtain ⟨rest, hfree, hoff, hrest⟩ := h.free_cons hp hpos
  set a := s.prPageaddr p + s.freelistOffset p with ha
  have hmem := (h.mem_free p hp a).mp (by rw [hfree]; exact List.mem_cons_self)
  have hlen := h.nfree p hp
  rw [hfree, List.length_cons] at hlen
  have hnd := (h.chain p hp).nodup
  rw [hfree] at hnd
  obtain ⟨hnotin, -⟩ := List.nodup_cons.mp hnd
  -- the rest of the proof for either new offset
  have hshape : ∀ off, (if off = invalidOffset then 0 else s.prPageaddr p + off) = s.mem a →
      KheapShape { s with
        nfree := update s.nfree p (s.nfree p - 1), live := (a, sz) :: s.live
        freelistOffset := update s.freelistOffset p off } all bySize (update free p rest) := by
    intro off hhead
    refine { h with chain := ?_, nfree := ?_, mem_free := ?_, live := ?_, liveNodup := ?_ }
    · intro q hq
      by_cases hqp : q = p
      · subst hqp
        have hrest' := hrest
        rw [← hhead] at hrest'
        simp only [Kheap.freeHead, update_self]
        exact hrest'
      · simp only [Kheap.freeHead, update_of_ne hqp]
        exact h.chain q hq
    · intro q hq
      by_cases hqp : q = p
      · grind
      · simp only [update_of_ne hqp]
        exact h.nfree q hq
    · intro q hq x
      simp only [Kheap.liveAddrs, List.map_cons, List.mem_cons, not_or]
      by_cases hqp : q = p
      · subst hqp
        rw [update_self]
        have hx := h.mem_free q hq x
        rw [hfree, List.mem_cons] at hx
        constructor
        · intro hxr
          have hxb := hx.mp (.inr hxr)
          refine ⟨hxb.1, ?_, hxb.2⟩
          rintro rfl
          exact hnotin hxr
        · rintro ⟨hb, hne, hl⟩
          exact (hx.mpr ⟨hb, hl⟩).resolve_left hne
      · rw [update_of_ne hqp]
        refine (h.mem_free q hq x).trans ⟨fun hx => ⟨hx.1, ?_, hx.2⟩, fun hx => ⟨hx.1, hx.2.2⟩⟩
        rintro rfl
        exact hqp (h.isBlock_inj hq hp hx.1 hmem.1)
    · exact List.forall_mem_cons.mpr ⟨⟨p, hp, hmem.1, hsz⟩, h.live⟩
    · exact List.nodup_cons.mpr ⟨hmem.2, h.liveNodup⟩
  have hinv : pageSize ≤ invalidOffset := by decide
  simp only [Kheap.doalloc, hoff, if_true, ← ha]
  cases rest with
  | nil =>
    have hnext : s.mem a = 0 := chained_nil.mp hrest
    grind
  | cons x rest =>
    obtain ⟨hx, hx0, -⟩ := hrest
    have hxb := ((h.mem_free p hp x).mp (by rw [hfree]; simp)).1
    have hxo := h.offset_lt hp hxb
    grind

end

/-! ## A page comes -/

section NewPage

variable {prpage b : Nat}

theorem pab_newPage_self (ha : prpage % pageSize = 0) (hb : b < 8) :
    (s.newPage p prpage b).prPageaddr p = prpage ∧ (s.newPage p prpage b).prBlocktype p = b := by
  simp only [Kheap.newPage, Kheap.prPageaddr, Kheap.prBlocktype, update_self, mkpab, pageFrame,
    pageSize] at *
  omega

theorem pab_newPage_of_ne (hq : q ≠ p) :
    (s.newPage p prpage b).prPageaddr q = s.prPageaddr q ∧
      (s.newPage p prpage b).prBlocktype q = s.prBlocktype q := by
  simp [Kheap.newPage, Kheap.prPageaddr, Kheap.prBlocktype, update_of_ne hq]

/-- A page that the heap does not have comes with a descriptor that is not on the lists: all its
blocks are free. -/
theorem newPage (h : KheapShape s all bySize free) (hb : b < 8) (hp : p ∉ all)
    (href : IsRef s.roots p) (hne : prpage ≠ 0) (ha : prpage % pageSize = 0)
    (hnew : ∀ q ∈ all, s.prPageaddr q ≠ prpage) :
    KheapShape (s.newPage p prpage b) (p :: all) (update bySize b (p :: bySize b))
      (update free p (blocksDown prpage (sizes b) (pageSize / sizes b))) := by
  obtain ⟨hpa, hpt⟩ := pab_newPage_self (s := s) (p := p) ha hb
  obtain ⟨hdvd, hge, hle⟩ := sizes_dvd hb
  have hp0 : p ≠ 0 := RootsOk.isRef_ne_zero href
  have hqne : ∀ q ∈ all, q ≠ p := by
    rintro q hq rfl
    exact hp hq
  have hother : ∀ q ∈ all, (s.newPage p prpage b).prPageaddr q = s.prPageaddr q ∧
      (s.newPage p prpage b).prBlocktype q = s.prBlocktype q := fun q hq =>
    pab_newPage_of_ne (hqne q hq)
  have hblock : ∀ q ∈ all, ∀ x, (s.newPage p prpage b).IsBlock q x ↔ s.IsBlock q x := by
    intro q hq x
    simp only [Kheap.IsBlock, Kheap.blockSize, hother q hq]
  have hself : ∀ x, (s.newPage p prpage b).IsBlock p x ↔ BlockAt prpage (sizes b) x := by
    intro x
    simp only [Kheap.IsBlock, Kheap.blockSize, hpa, hpt]
  -- the new blocks are none of the old ones
  have hapart : ∀ q ∈ all, ∀ x, s.IsBlock q x → ¬ BlockAt prpage (sizes b) x := by
    intro q hq x hx hx'
    have := BlockAt.apart_of_ne hx hx' (h.size_dvd hq).1 hdvd (s.prPageaddr_aligned q) ha
      (hnew q hq)
    have := (h.size_dvd hq).2.1
    omega
  have hdown : ∀ x, x ∈ blocksDown prpage (sizes b) (pageSize / sizes b) ↔
      BlockAt prpage (sizes b) x := fun x => mem_blocksDown
  obtain ⟨n, hn⟩ : ∃ n, pageSize / sizes b = n + 1 :=
    Nat.exists_eq_add_one.mpr (Nat.div_pos (Nat.le_of_dvd (by decide) hdvd) (by omega))
  constructor
  · exact h.roots
  · exact h.allChain.push hp0 hp
  · intro c hc
    by_cases hcb : c = b
    · subst hcb
      simp only [Kheap.newPage, update_self]
      exact (h.sizeChain c hc).push hp0 fun hm => hp ((h.mem_bySize c hc p).mp hm).1
    · simp only [Kheap.newPage, update_of_ne hcb]
      refine (h.sizeChain c hc).congr fun q hq => update_of_ne ?_ _ _
      exact hqne q ((h.mem_bySize c hc q).mp hq).1
  · intro c hc q
    by_cases hqp : q = p
    · subst hqp
      rw [hpt]
      by_cases hcb : c = b
      · subst hcb
        simp
      · have : q ∉ bySize c := fun hm => hp ((h.mem_bySize c hc q).mp hm).1
        simp [update_of_ne hcb, this, Ne.symm hcb]
    · have hmem : q ∈ update bySize b (p :: bySize b) c ↔ q ∈ bySize c := by
        grind
      rw [hmem, h.mem_bySize c hc, (pab_newPage_of_ne hqp).2]
      simp [hqp]
  · exact List.forall_mem_cons.mpr ⟨href, h.ref⟩
  · refine List.forall_mem_cons.mpr ⟨by rwa [hpt], fun q hq => ?_⟩
    rw [(hother q hq).2]
    exact h.type q hq
  · refine List.forall_mem_cons.mpr ⟨by rwa [hpa], fun q hq => ?_⟩
    rw [(hother q hq).1]
    exact h.pageNe q hq
  · intro q hq r hr he
    by_cases hqp : q = p <;> by_cases hrp : r = p
    · rw [hqp, hrp]
    · grind
    · grind
    · have hq' := (List.mem_cons.mp hq).resolve_left hqp
      have hr' := (List.mem_cons.mp hr).resolve_left hrp
      rw [(hother q hq').1, (hother r hr').1] at he
      exact h.pageInj q hq' r hr' he
  · refine List.forall_mem_cons.mpr ⟨?_, fun q hq => ?_⟩
    · have hhead : (s.newPage p prpage b).freeHead p = prpage + n * sizes b := by
        have hlt : n * sizes b < invalidOffset := by
          have := Nat.div_mul_cancel hdvd
          rw [hn, Nat.add_mul] at this
          simp only [invalidOffset, pageSize] at *
          omega
        have hoff : (s.newPage p prpage b).freelistOffset p = n * sizes b := by
          simp only [Kheap.newPage, update_self, hn, Nat.add_sub_cancel]
        rw [freeHead_of (by rw [hoff]; omega), hpa, hoff]
      rw [hhead, update_self]
      simp only [Kheap.newPage, hn]
      exact chained_threadBlocks _ hne (by omega) n
    · have hqp := hqne q hq
      have hhead : (s.newPage p prpage b).freeHead q = s.freeHead q := by
        simp only [Kheap.freeHead, (hother q hq).1]
        simp only [Kheap.newPage, update_of_ne hqp]
      rw [hhead, update_of_ne hqp]
      refine (h.chain q hq).congr fun x hx => threadBlocks_of_notMem ?_
      rw [hdown]
      exact hapart q hq x ((h.mem_free q hq x).mp hx).1
  · refine List.forall_mem_cons.mpr ⟨by simp [Kheap.newPage], fun q hq => ?_⟩
    simp only [Kheap.newPage, update_of_ne (hqne q hq)]
    exact h.nfree q hq
  · refine List.forall_mem_cons.mpr ⟨fun x => ?_, fun q hq x => ?_⟩
    · rw [update_self, hdown, hself]
      refine ⟨fun hx => ⟨hx, fun hl => ?_⟩, And.left⟩
      -- what was handed out is on the old pages
      obtain ⟨y, hy, rfl⟩ := List.mem_map.mp hl
      obtain ⟨r, hr, hrb, -⟩ := h.live y hy
      exact hapart r hr _ hrb hx
    · rw [update_of_ne (hqne q hq), hblock q hq]
      exact h.mem_free q hq x
  · intro x hx
    obtain ⟨q, hq, hqb, hqs⟩ := h.live x hx
    refine ⟨q, List.mem_cons_of_mem _ hq, (hblock q hq _).mpr hqb, ?_⟩
    simpa only [Kheap.blockSize, hother q hq] using hqs
  · exact h.liveNodup

end NewPage

/-! ## A block is put back -/

/-- The blocks that are not handed out keep their words when one block is written. -/
theorem chain_fill (h : KheapShape s all bySize free) (hp : p ∈ all) (ha : s.IsBlock p a)
    (hl : a ∈ s.liveAddrs) (hq : q ∈ all) {mem : Nat → Nat}
    (hmem : ∀ x, (x < a ∨ a + s.blockSize p ≤ x) → mem x = s.mem x) :
    Chained mem 0 (s.freeHead q) (free q) := by
  refine (h.chain q hq).congr fun x hx => hmem x ?_
  obtain ⟨hxb, hxl⟩ := (h.mem_free q hq x).mp hx
  have hne : x ≠ a := by
    rintro rfl
    exact hxl hl
  have := h.blocks_apart hq hp hxb ha hne
  have := (h.size_dvd hq).2.1
  omega

theorem putBlock_eq (hoff : a - s.prPageaddr p < pageSize) (hle : s.prPageaddr p ≤ a)
    (hmod : (a - s.prPageaddr p) % s.blockSize p = 0) (hne : a ≠ s.freeHead p) :
    s.putBlock p a = .ok { s with
      mem := update (Kheap.fillDeadbeef s.mem a (s.blockSize p)) a (s.freeHead p)
      freelistOffset := update s.freelistOffset p (a - s.prPageaddr p)
      nfree := update s.nfree p (s.nfree p + 1) } := by
  have hback : s.prPageaddr p + (a - s.prPageaddr p) = a := by omega
  unfold Kheap.putBlock
  rw [if_neg (by rintro (h | h); exacts [by omega, h hmod])]
  simp only [hback]
  exact if_neg hne

/-- The heap after the block `a` of page `p` was freed. -/
def freed (s : Kheap) (p a : Nat) : Kheap :=
  { s with
    live := s.live.filter (·.1 ≠ a)
    mem := update (Kheap.fillDeadbeef s.mem a (s.blockSize p)) a (s.freeHead p)
    freelistOffset := update s.freelistOffset p (a - s.prPageaddr p)
    nfree := update s.nfree p (s.nfree p + 1) }

theorem freeHead_freed_self (hle : s.prPageaddr p ≤ a) (hoff : a - s.prPageaddr p < pageSize) :
    (freed s p a).freeHead p = a := by
  have hinv : a - s.prPageaddr p ≠ invalidOffset := by
    have : pageSize < invalidOffset := by decide
    omega
  have ho : (freed s p a).freelistOffset p = a - s.prPageaddr p := update_self ..
  rw [freeHead_of (by rwa [ho]), ho]
  change s.prPageaddr p + (a - s.prPageaddr p) = a
  omega

theorem freeHead_freed_of_ne (hq : q ≠ p) : (freed s p a).freeHead q = s.freeHead q := by
  unfold Kheap.freeHead
  simp only [freed, update_of_ne hq]
  rfl

theorem mem_liveAddrs_freed {x : Nat} :
    x ∈ (freed s p a).liveAddrs ↔ x ∈ s.liveAddrs ∧ x ≠ a := by
  simp only [freed, Kheap.liveAddrs, List.mem_map, List.mem_filter, decide_eq_true_eq]
  grind

section

variable (h : KheapShape s all bySize free) (hp : p ∈ all) (ha : s.IsBlock p a)
    (hl : a ∈ s.liveAddrs)
include h hp ha hl

/-- A block that was handed out is not the head of a free list. -/
theorem ne_freeHead : a ≠ s.freeHead p := by
  intro he
  have hchain := h.chain p hp
  cases hf : free p with
  | nil =>
    rw [hf, ← he] at hchain
    have h0 : a = 0 := hchain
    have := h.pageNe p hp
    have := (h.offset_lt hp ha).1
    omega
  | cons x rest =>
    rw [hf, ← he] at hchain
    have hx : x ∈ free p := by
      rw [hf]
      exact List.mem_cons_self
    exact ((h.mem_free p hp x).mp hx).2 (hchain.1 ▸ hl)

theorem putBlock_ok :
    { s with live := s.live.filter (·.1 ≠ a) }.putBlock p a = .ok (freed s p a) := by
  have hoff := h.offset_lt hp ha
  exact putBlock_eq (s := { s with live := s.live.filter (·.1 ≠ a) }) hoff.2 hoff.1
    (BlockAt.offset ha) (h.ne_freeHead hp ha hl)

theorem free_block : KheapShape (freed s p a) all bySize (update free p (a :: free p)) := by
  have hoff := h.offset_lt hp ha
  have ha0 : a ≠ 0 := by
    have := h.pageNe p hp
    omega
  refine { h with chain := ?_, nfree := ?_, mem_free := ?_, live := ?_, liveNodup := ?_ }
  · -- outside the block the memory is as it was
    have hpos := (h.size_dvd hp).2.1
    have hmem : ∀ x, (x < a ∨ a + s.blockSize p ≤ x) → (freed s p a).mem x = s.mem x := by
      intro x hx
      simp only [freed]
      rw [update_of_ne (by omega), Kheap.fillDeadbeef, if_neg (by omega)]
    intro q hq
    by_cases hqp : q = p
    · subst hqp
      rw [update_self, freeHead_freed_self hoff.1 hoff.2]
      refine ⟨rfl, ha0, ?_⟩
      have hnext : (freed s q a).mem a = s.freeHead q := update_self ..
      rw [hnext]
      exact h.chain_fill hq ha hl hq hmem
    · rw [update_of_ne hqp, freeHead_freed_of_ne hqp]
      exact h.chain_fill hp ha hl hq hmem
  · intro q hq
    by_cases hqp : q = p
    · subst hqp
      simp only [freed, update_self, List.length_cons, h.nfree q hq]
    · simp only [freed, update_of_ne hqp]
      exact h.nfree q hq
  · intro q hq x
    rw [mem_liveAddrs_freed]
    by_cases hqp : q = p
    · subst hqp
      rw [update_self, List.mem_cons, h.mem_free q hq]
      constructor
      · rintro (rfl | ⟨hb, hx⟩)
        · exact ⟨ha, fun hx => hx.2 rfl⟩
        · exact ⟨hb, fun hx' => hx hx'.1⟩
      · rintro ⟨hb, hx⟩
        by_cases hxa : x = a
        · exact .inl hxa
        · exact .inr ⟨hb, fun hl => hx ⟨hl, hxa⟩⟩
    · rw [update_of_ne hqp, h.mem_free q hq]
      refine ⟨fun hx => ⟨hx.1, fun hl => hx.2 hl.1⟩, fun hx => ⟨hx.1, fun hl => hx.2 ⟨hl, ?_⟩⟩⟩
      rintro rfl
      exact hqp (h.isBlock_inj hq hp hx.1 ha)
  · intro x hx
    exact h.live x (List.mem_filter.mp hx).1
  · exact (List.filter_sublist.map _).nodup h.liveNodup

end

/-! ## A page goes -/

/-- Without its page the heap is as it was: no block of the page is handed out. -/
theorem remove_page (h : KheapShape s all bySize free) {b : Nat} (hp : p ∈ all)
    (hb : s.prBlocktype p = b) (hnone : ∀ x ∈ s.live, ¬ s.IsBlock p x.1) :
    ∃ s₁ s₂, s.removeLists p b = .ok s₁ ∧
      s₁.freepageref p (List.range numPagerefpages) = .ok s₂ ∧
      KheapShape s₂ (all.erase p) (update bySize b ((bySize b).erase p)) free ∧
      s₂.live = s.live ∧ s₂.held = s.held ∧ s₂.pab = s.pab ∧
      ∀ r, (s₂.roots r).page = (s.roots r).page := by
  have hb8 : b < 8 := hb ▸ h.type p hp
  obtain ⟨base, same, hu, hcs, hout⟩ := unlink_eq (x := p) (h.sizeChain b hb8) (h.length_bySize hb8)
  obtain ⟨base', next, hu', hca, -⟩ := unlink_eq (x := p) h.allChain h.length_all
  have hremove : s.removeLists p b = .ok { s with
      sizebases := update s.sizebases b base, nextSamesize := same
      allbase := base', nextAll := next } := by
    rw [Kheap.removeLists, hu, hu']
  obtain ⟨r, hr, j, hj, hpage, hpe, hin⟩ := h.ref p hp
  obtain ⟨s₂, hfree, hrel⟩ := freepageref_released (s := { s with
      sizebases := update s.sizebases b base, nextSamesize := same
      allbase := base', nextAll := next }) h.roots hr hj hpage hin hpe (r := 0)
      (n := numPagerefpages) (by simp) (Nat.zero_le _)
  have hmem : ∀ q, q ∈ all.erase p ↔ q ∈ all ∧ q ≠ p := by
    intro q
    rw [h.allChain.nodup.mem_erase_iff]
    exact and_comm
  refine ⟨_, s₂, hremove, by rw [List.range_eq_range']; exact hfree, ?_, by rw [hrel.rest],
    by rw [hrel.rest], by rw [hrel.rest], hrel.pages⟩
  rw [hrel.rest]
  constructor
  · exact hrel.ok
  · exact hca
  · intro c hc
    by_cases hcb : c = b
    · grind
    · simp only [update_of_ne hcb]
      -- the lists of the sizes have no descriptor in common
      refine (h.sizeChain c hc).congr fun q hq => hout q fun hqb => hcb ?_
      rw [← ((h.mem_bySize c hc q).mp hq).2, ((h.mem_bySize b hb8 q).mp hqb).2]
  · intro c hc q
    rw [hmem]
    by_cases hcb : c = b
    · subst hcb
      rw [update_self, (h.sizeChain c hc).nodup.mem_erase_iff, h.mem_bySize c hc]
      exact ⟨fun hq => ⟨⟨hq.2.1, hq.1⟩, hq.2.2⟩, fun hq => ⟨hq.1.2, hq.1.1, hq.2⟩⟩
    · rw [update_of_ne hcb, h.mem_bySize c hc]
      refine ⟨fun hq => ⟨⟨hq.1, ?_⟩, hq.2⟩, fun hq => ⟨hq.1.1, hq.2⟩⟩
      rintro rfl
      exact hcb (hq.2.symm.trans hb)
  · intro q hq
    obtain ⟨hq, hqp⟩ := (hmem q).mp hq
    exact hrel.mono q hqp (h.ref q hq)
  · exact fun q hq => h.type q ((hmem q).mp hq).1
  · exact fun q hq => h.pageNe q ((hmem q).mp hq).1
  · exact fun q hq q' hq' => h.pageInj q ((hmem q).mp hq).1 q' ((hmem q').mp hq').1
  · exact fun q hq => h.chain q ((hmem q).mp hq).1
  · exact fun q hq => h.nfree q ((hmem q).mp hq).1
  · exact fun q hq => h.mem_free q ((hmem q).mp hq).1
  · intro x hx
    obtain ⟨q, hq, hqb, hqs⟩ := h.live x hx
    refine ⟨q, (hmem q).mpr ⟨hq, ?_⟩, hqb, hqs⟩
    rintro rfl
    exact hnone x hx hqb
  · exact h.liveNodup

/-! ## A store of the kernel's -/

theorem store (h : KheapShape s all bySize free) {addr word : Nat}
    (hout : ∀ q ∈ all, ∀ x, s.IsBlock q x → x ∉ s.liveAddrs → x ≠ addr) :
    KheapShape { s with mem := update s.mem addr word } all bySize free := by
  refine { h with chain := fun q hq => ?_ }
  refine (h.chain q hq).congr fun x hx => update_of_ne ?_ _ _
  obtain ⟨hb, hl⟩ := (h.mem_free q hq x).mp hx
  exact hout q hq x hb hl

end KheapShape

end OsPaging.Vm
