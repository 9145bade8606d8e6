import OsPaging.User.MallocBlocks

/-!
# What `malloc` and `free` do to the headers

`malloc` and `free` over the bytes of memory do to the headers what `Alloc` and `Release` do to the
list of blocks: `malloc_spec` and `free_spec`, from one lemma for each function they call. Neither
ends with `errx`, but for a `malloc` whose `__malloc_init` fails.
-/

namespace OsPaging.User

open OsPaging.Lib

/-- The list of blocks that the headers of the heap spell out. -/
structure Shape (h : Heap) (bs : List Block) : Prop where
  tiles : Tiles h.mem 0 h.heapbase bs
  top : h.heaptop = layEnd Block.size h.heapbase bs
  aligned : h.heapbase % 8 = 0
  started : h.heapbase ≠ 0 → h.heaptop = h.brk
  empty : h.heapbase = 0 → bs = []
  brk_lt : h.brk < 4294967296
  kept : Kept bs

variable {h : Heap} {m : Bytes} {prev a mh n : Nat} {b c : Block} {bs xs ys zs : List Block}

/-! ## Reading a header -/

section

variable (hh : Header m prev a b)
include hh

theorem Header.nextoff_eq : nextoff m a = b.size := by
  rw [nextoff, hh.next_eq]
  rfl

theorem Header.mSize_eq (hb : b.size < 4294967296) : mSize m a = b.size - 8 := by
  have := b.size_pos
  rw [mSize, hh.nextoff_eq]
  simp only [sub32, mblocksize]
  omega

theorem Header.mNext_eq (hb : a + b.size < 4294967296) : mNext m a = a + b.size := by
  rw [mNext, hh.nextoff_eq, add32, Nat.mod_eq_of_lt hb]

theorem Header.inuse_iff : inuse m a = 0 ↔ b.used = false := by
  rw [hh.inuse_eq]
  cases b.used <;> simp

end

theorem Tiles.header (ht : Tiles m prev a (xs ++ [b] ++ ys)) :
    Header m (lastUnits prev xs) (layEnd Block.size a xs) b := by
  rw [List.append_assoc, tiles_append] at ht
  exact ht.2.1

theorem layEnd_lt_of_ne_nil (h : bs ≠ []) : a < layEnd Block.size a bs := by
  cases bs with
  | nil => exact absurd rfl h
  | cons b bs =>
    have hb := b.size_pos
    have : a + b.size ≤ layEnd Block.size (a + b.size) bs := le_layEnd
    simp only [layEnd_cons]
    omega

theorem length_le_layEnd (a : Nat) (bs : List Block) : a + 8 * bs.length ≤
    layEnd Block.size a bs := by
  induction bs generalizing a with
  | nil => exact Nat.le_refl a
  | cons b bs ih =>
    have hb := b.size_pos
    have := ih (a + b.size)
    simp only [layEnd_cons, List.length_cons]
    omega

theorem lastUnits_le (a : Nat) (bs : List Block) : a + lastUnits 0 bs * 8 ≤
    layEnd Block.size a bs := by
  cases bs using List.reverseRecOn with
  | nil => simp [lastUnits]
  | append_singleton xs b =>
    have hle : a ≤ layEnd Block.size a xs := le_layEnd
    have hb := b.size_eq
    simp only [lastUnits_append, lastUnits, layEnd_append, layEnd_cons, layEnd_nil]
    omega

/-! ## The search -/

/-- The header that the search looked at last. -/
def lastStart (mh a : Nat) : List Block → Nat
  | [] => mh
  | b :: bs => lastStart a (a + b.size) bs

theorem lastStart_concat : lastStart mh a (xs ++ [b]) = layEnd Block.size a xs := by
  induction xs generalizing mh a with
  | nil => rfl
  | cons x xs ih => exact ih

/-- The search takes the first free block that is long enough; past the top, there is none. -/
theorem search_spec (size mh : Nat) (hlt : h.heaptop < 4294967296) (ht : Tiles h.mem prev a bs)
    (htop : layEnd Block.size a bs = h.heaptop) (hn : bs.length < n) :
    (∃ xs b ys, bs = xs ++ [b] ++ ys ∧ b.used = false ∧ size + 8 ≤ b.size ∧
      h.search size n a prev mh = .ok (.found (layEnd Block.size a xs))) ∨
    ((∀ b ∈ bs, b.used = true ∨ b.size < size + 8) ∧
      h.search size n a prev mh =
        .ok (.ended h.heaptop (lastUnits prev bs) (lastStart mh a bs))) := by
  induction bs generalizing prev a mh n with
      obtain ⟨n, rfl⟩ : ∃ k, n = k + 1 := ⟨n - 1, by simp at hn; omega⟩
  | nil =>
    obtain rfl : a = h.heaptop := htop
    exact .inr ⟨by simp, by rw [Heap.search, if_neg (Nat.lt_irrefl _)]; rfl⟩
  | cons b bs ih =>
    have hpos := b.size_pos
    have hle : a + b.size ≤ layEnd Block.size (a + b.size) bs := le_layEnd
    simp only [layEnd_cons] at htop
    obtain ⟨hh, hrest⟩ := ht
    have hsize := hh.mSize_eq (by omega)
    have hadd : add32 a (nextoff h.mem a) = a + b.size := by
      rw [hh.nextoff_eq, add32, Nat.mod_eq_of_lt (by omega)]
    -- one round of the loop at this header
    have hround : h.search size (n + 1) a prev mh =
        if b.used = true ∨ b.size < size + 8 then h.search size n (a + b.size) b.units a
        else .ok (.found a) := by
      have hcond : (inuse h.mem a ≠ 0 ∨ mSize h.mem a < size) ↔
          (b.used = true ∨ b.size < size + 8) := by
        rw [Ne, hh.inuse_iff, hsize, Bool.not_eq_false]
        exact or_congr_right (by omega)
      simp only [Heap.search, if_pos (show a < h.heaptop by omega), not_not.mpr hh.ok, if_false,
        hh.prev_eq, ne_eq, not_true_eq_false, hh.next_eq, hadd]
      exact if_congr hcond rfl rfl
    rw [hround]
    by_cases hskip : b.used = true ∨ b.size < size + 8
    · rw [if_pos hskip]
      rcases ih a hrest htop (by simp at hn; omega) with ⟨xs, c, ys, rfl, hfree, hfit, hs⟩ |
        ⟨hall, hs⟩
      · exact .inl ⟨b :: xs, c, ys, rfl, hfree, hfit, hs⟩
      · refine .inr ⟨fun c hc => ?_, hs⟩
        grind
    · rw [if_neg hskip]
      rw [not_or, Bool.not_eq_true] at hskip
      exact .inl ⟨[], b, bs, rfl, hskip.1, by omega, rfl⟩

/-! ## Splitting -/

section Headers

variable {size oldsize : Nat}

theorem agree_splitHeader {s hi : Nat} (ha : a % 8 = 0) (h : hi ≤ a ∨ a + 8 ≤ s) :
    Agree m (Heap.splitHeader m a size oldsize) s hi := by
  have hl : ∀ m w, Agree m (setLower m a w) s hi := fun m w => agree_setLower ha (by omega)
  have hu : ∀ m w, Agree m (setUpper m a w) s hi := fun m w => agree_setUpper ha (by omega)
  exact ((((hl _ _).trans (hl _ _)).trans (hl _ _)).trans (hu _ _)).trans (hu _ _)|>.trans (hu _ _)

theorem header_splitHeader (hp : mkField (add32 size mblocksize) = prev) (hp' : prev < 536870912)
    (hb : mkField (sub32 oldsize size) = b.units) (hb' : b.units < 536870912)
    (hfree : b.used = false) : Header (Heap.splitHeader m a size oldsize) prev a b := by
  refine header_of_words ?_ ?_
  · simp only [Heap.splitHeader, setPrevblock, setPad, setMagic1, setNextblock, setInuse, setMagic2,
      lower_setLower, lower_setUpper, hp, withBits29, withBit1, withBits2, mmagic]
    omega
  · simp only [Heap.splitHeader, setPrevblock, setPad, setMagic1, setNextblock, setInuse, setMagic2,
      upper_setLower, upper_setUpper, hb, hfree, withBits29, withBit1, withBits2, mmagic,
      Bool.toNat_false]
    omega

theorem agree_topHeader {s hi p more : Nat} (ha : a % 8 = 0) (h : hi ≤ a ∨ a + 8 ≤ s) :
    Agree m (Heap.topHeader m a p more) s hi := by
  have hl : ∀ m w, Agree m (setLower m a w) s hi := fun m w => agree_setLower ha (by omega)
  have hu : ∀ m w, Agree m (setUpper m a w) s hi := fun m w => agree_setUpper ha (by omega)
  exact ((((hl _ _).trans (hl _ _)).trans (hu _ _)).trans (hl _ _)).trans (hu _ _)|>.trans (hu _ _)

theorem header_topHeader {more : Nat} (hp : prev < 536870912) (hb : mkField more = b.units)
    (hb' : b.units < 536870912) (hused : b.used = true) :
    Header (Heap.topHeader m a prev more) prev a b := by
  refine header_of_words ?_ ?_
  · simp only [Heap.topHeader, setPrevblock, setPad, setMagic1, setNextblock, setInuse, setMagic2,
      lower_setLower, lower_setUpper, withBits29, withBit1, withBits2, mmagic]
    omega
  · simp only [Heap.topHeader, setPrevblock, setPad, setMagic1, setNextblock, setInuse, setMagic2,
      upper_setLower, upper_setUpper, hb, hused, withBits29, withBit1, withBits2, mmagic,
      Bool.toNat_true]
    omega

end Headers

/-- `__malloc_split` cuts the block as the list says, with the link of the block above. -/
theorem mallocSplit_spec (hlt : h.heaptop < 4294967296) (ha : a % 8 = 0)
    (ht : Tiles h.mem prev a (xs ++ [b] ++ ys))
    (htop : h.heaptop = layEnd Block.size a (xs ++ [b] ++ ys)) (hn : n + 1 ≤ b.units) :
    ∃ m, h.mallocSplit (layEnd Block.size a xs) (n * 8) = .ok { h with mem := m } ∧
      Tiles m prev a (xs ++ b.cut n ++ ys) := by
  have hh := ht.header
  have hs : layEnd Block.size a xs % 8 = 0 := layEnd_mod ha
  generalize hsdef : layEnd Block.size a xs = s at hh hs
  have hq : layEnd Block.size a (xs ++ [b]) = s + b.size := hsdef ▸ layEnd_concat
  have hle : s + b.size ≤ h.heaptop := by
    rw [htop, layEnd_append, hq]
    exact le_layEnd
  have hbs := b.size_eq
  have hsize := hh.mSize_eq (by omega)
  have hnext := hh.mNext_eq (by omega)
  have hexcess : sub32 (b.size - 8) (n * 8) = b.size - 8 - n * 8 := by
    unfold sub32
    omega
  unfold Heap.mallocSplit
  rw [if_neg (by simp), hsize, hexcess]
  by_cases hroom : n + 3 ≤ b.units
  · -- the upper part becomes a block
    rw [if_neg (by simp only [mblocksize]; omega), Block.cut, dif_pos hroom]
    have hfield : mkField (add32 (n * 8) mblocksize) = n + 1 := by
      simp only [mkField, add32, mblocksize]
      omega
    have hfield' : mkField (sub32 (b.size - 8) (n * 8)) = b.units - (n + 1) := by
      rw [hexcess]
      simp only [mkField, mblocksize]
      omega
    let b₁ : Block := ⟨n + 1, b.used, by omega⟩
    let b₂ : Block := ⟨b.units - (n + 1), false, by omega⟩
    have hs₁ : s + b₁.size = s + (n + 1) * 8 := rfl
    have hs₂ : s + b₁.size + b₂.size = s + b.size := by
      simp only [b₁, b₂, Block.size_eq]
      omega
    have hh₁ : Header (setNextblock h.mem s (n + 1)) (lastUnits prev xs) s b₁ :=
      hh.setNextblock rfl rfl (by omega)
    have hnew := hh₁.mNext_eq (by omega)
    simp only [hfield, hnext, hnew, if_neg (show s + b₁.size ≠ s + b.size by omega)]
    generalize hm₁ : setNextblock h.mem s (n + 1) = m₁ at hh₁
    generalize hm₂ : Heap.splitHeader m₁ (s + b₁.size) (n * 8) (b.size - 8) = m₂
    have hh₂ : Header m₂ (n + 1) (s + b₁.size) b₂ :=
      hm₂ ▸ header_splitHeader hfield (by omega) hfield' (by simp only [b₂]; omega) rfl
    have hbelow : Agree h.mem m₂ a s :=
      hm₂ ▸ hm₁ ▸ (agree_setUpper hs (by omega)).trans (agree_splitHeader (by omega) (by omega))
    rw [tiles_append, tiles_append, hq, hsdef] at ht
    obtain ⟨⟨hxs, -⟩, hys⟩ := ht
    have hlow : Tiles m₂ prev a (xs ++ [b₁, b₂]) := by
      rw [tiles_append, hsdef]
      refine ⟨hxs.frame_range ha (hsdef ▸ hbelow), hh₁.frame hs ?_, hh₂, trivial⟩
      exact hm₂ ▸ agree_splitHeader (by omega) (by omega)
    have hend : layEnd Block.size a (xs ++ [b₁, b₂]) = s + b.size := by
      rw [layEnd_append, hsdef, ← hs₂]
      rfl
    have htop' : layEnd Block.size a (xs ++ [b₁, b₂] ++ ys) = h.heaptop := by
      rw [layEnd_append, hend, htop, layEnd_append, hq]
    have habove : Agree h.mem m₂ (s + b.size) h.heaptop :=
      hm₂ ▸ hm₁ ▸ (agree_setUpper hs (by omega)).trans (agree_splitHeader (by omega) (by omega))
    have hlinked := hlow.link (hend.symm ▸ hys) ha (v := b₂.units) (by simp [lastUnits])
      (by simp only [b₂]; omega) (by rw [hend, htop']; exact habove)
    rw [hend, htop'] at hlinked
    rw [hh₂.next_eq]
    grind
  · rw [if_pos (by simp only [mblocksize]; omega), Block.cut, dif_neg hroom]
    exact ⟨h.mem, rfl, ht⟩

/-! ## Taking a block -/

theorem Tiles.replace {m' : Bytes} (ht : Tiles m prev a (xs ++ [b] ++ ys)) (ha : a % 8 = 0)
    (hc : c.units = b.units)
    (hh : Header m' (lastUnits prev xs) (layEnd Block.size a xs) c)
    (hlow : Agree m m' a (layEnd Block.size a xs))
    (hhigh : Agree m m' (layEnd Block.size a (xs ++ [b]))
      (layEnd Block.size a (xs ++ [b] ++ ys))) : Tiles m' prev a (xs ++ [c] ++ ys) := by
  have hsize : c.size = b.size := congrArg (· * mblocksize) hc
  rw [layEnd_append (xs ++ [b])] at hhigh
  rw [tiles_append, tiles_append] at ht ⊢
  obtain ⟨⟨hxs, -⟩, hys⟩ := ht
  refine ⟨⟨hxs.frame_range ha hlow, hh, trivial⟩, ?_⟩
  have hend : layEnd Block.size a (xs ++ [c]) = layEnd Block.size a (xs ++ [b]) := by
    simp [hsize]
  rw [hend, lastUnits_append, lastUnits, hc]
  rw [lastUnits_append, lastUnits] at hys
  exact hys.frame_range (layEnd_mod ha) hhigh

theorem Tiles.setInuse (u : Bool) (ht : Tiles m prev a (xs ++ [b] ++ ys)) (ha : a % 8 = 0) :
    Tiles (setInuse m (layEnd Block.size a xs) u.toNat) prev a (xs ++ [b.mark u] ++ ys) := by
  have hs : layEnd Block.size a xs % 8 = 0 := layEnd_mod ha
  have hpos := b.size_pos
  refine ht.replace ha rfl ht.header.setInuse (agree_setUpper hs (by omega))
    (agree_setUpper hs (.inr ?_))
  rw [layEnd_append, layEnd_cons, layEnd_nil]
  omega

/-- The lower part of a block that is cut is the one that is taken. -/
theorem Block.cut_mark (b : Block) (n : Nat) :
    ∃ x rest, b.cut n = x :: rest ∧ (b.mark true).cut n = x.mark true :: rest := by
  unfold Block.cut
  by_cases hn : n + 3 ≤ b.units
  · exact ⟨_, _, dif_pos hn, dif_pos hn⟩
  · exact ⟨b, [], dif_neg hn, dif_neg hn⟩

theorem Shape.fit (hs : Shape h (xs ++ [b] ++ ys)) (hbase : h.heapbase ≠ 0)
    (hfree : b.used = false) (hn : n + 1 ≤ b.units) :
    ∃ m, h.mallocSplit (layEnd Block.size h.heapbase xs) (n * 8) = .ok { h with mem := m } ∧
      Shape { h with mem := setInuse m (layEnd Block.size h.heapbase xs) 1 }
        (xs ++ (b.mark true).cut n ++ ys) := by
  have hlt : h.heaptop < 4294967296 := hs.started hbase ▸ hs.brk_lt
  obtain ⟨m, hm, ht⟩ := mallocSplit_spec hlt hs.aligned hs.tiles hs.top hn
  refine ⟨m, hm, ?_⟩
  obtain ⟨x, rest, hcut, hmark⟩ := b.cut_mark n
  have hroom : layEnd Block.size h.heapbase (xs ++ (b.mark true).cut n ++ ys) = h.heaptop := by
    rw [hs.top, layEnd_append, layEnd_append, Block.cut_room, layEnd_append, layEnd_append]
    rfl
  refine ⟨?_, hroom.symm, hs.aligned, hs.started, fun h0 => absurd h0 hbase, hs.brk_lt,
    (Alloc.fit (a := 0) xs b ys hfree hn).kept hs.kept⟩
  have hsplit : xs ++ b.cut n ++ ys = xs ++ [x] ++ (rest ++ ys) := by simp [hcut]
  rw [hsplit] at ht
  have hset := ht.setInuse true hs.aligned
  simpa [hmark] using hset

theorem wholePages_spec {x : Nat} (hx : x ≤ 4294963200) :
    x ≤ Heap.wholePages x ∧ Heap.wholePages x < x + 4096 ∧ Heap.wholePages x % 4096 = 0 := by
  simp only [Heap.wholePages, add32, pageSize]
  omega

theorem mallocSbrk_spec (more : Nat) (ok : Bool) (htop : h.heaptop = h.brk) (hal : h.brk % 8 = 0) :
    h.mallocSbrk more ok = .ok (none, h) ∨
    (h.brk + more < 4294967296 ∧ h.mallocSbrk more ok =
      .ok (some h.heaptop, { h with heaptop := h.heaptop + more, brk := h.brk + more })) := by
  unfold Heap.mallocSbrk Heap.sbrk
  by_cases hok : ok = true ∧ h.brk + more < 4294967296
  · have hne : h.brk ≠ sbrkFailed := by simp only [sbrkFailed]; omega
    refine .inr ⟨hok.2, ?_⟩
    rw [if_pos hok]
    simp [hne, htop, add32, Nat.mod_eq_of_lt hok.2]
  · rw [if_neg hok]
    exact .inl rfl

/-- The heap after the break has moved up. -/
def Heap.raised (h : Heap) (more : Nat) (m : Bytes) : Heap :=
  { h with mem := m, heaptop := h.heaptop + more, brk := h.brk + more }

theorem Shape.raise {more : Nat} (hs : Shape h bs) (hbase : h.heapbase ≠ 0)
    (hlt : h.brk + more < 4294967296) (ht : Tiles m 0 h.heapbase (xs ++ [c]))
    (htop : layEnd Block.size h.heapbase (xs ++ [c]) = h.heaptop + more) (hn : n + 1 ≤ c.units)
    (hkept : Kept (xs ++ c.cut n)) :
    ∃ m', (h.raised more m).mallocSplit (layEnd Block.size h.heapbase xs) (n * 8) =
        .ok (h.raised more m') ∧ Shape (h.raised more m') (xs ++ c.cut n) := by
  have htop' := hs.started hbase
  rw [← List.append_nil (xs ++ [c])] at ht htop
  have hlt' : (h.raised more m).heaptop < 4294967296 := by
    simp only [Heap.raised]
    omega
  obtain ⟨m', hm', ht'⟩ := mallocSplit_spec (h := h.raised more m) hlt' hs.aligned ht htop.symm hn
  rw [List.append_nil] at ht'
  refine ⟨m', hm', ht', ?_, hs.aligned, fun _ => ?_, fun h0 => absurd h0 hbase, hlt, hkept⟩
  · have hcut := c.cut_room n (layEnd Block.size h.heapbase xs)
    rw [List.append_nil] at htop
    simp only [Heap.raised]
    rw [← htop, layEnd_append, layEnd_append, hcut]
  · simp only [Heap.raised]
    omega

theorem Shape.extend {more : Nat} (hs : Shape h (xs ++ [b])) (hbase : h.heapbase ≠ 0)
    (hfree : b.used = false) (hlt : h.brk + more < 4294967296) (hmore : more % 4096 = 0)
    (hpos : 0 < more) (hn : (n + 1) * 8 ≤ b.size + more) :
    let s := layEnd Block.size h.heapbase xs
    ∃ m bs', (h.raised more (setInuse (setNextblock h.mem s
        (mkField (add32 (nextoff h.mem s) more))) s 1)).mallocSplit s (n * 8) =
        .ok (h.raised more m) ∧ Alloc h.heapbase n (xs ++ [b]) s bs' ∧
        Shape (h.raised more m) bs' := by
  intro s
  have hbs := b.size_eq
  have ht := hs.tiles
  rw [← List.append_nil (xs ++ [b])] at ht
  have hh := ht.header
  have hsal : s % 8 = 0 := layEnd_mod hs.aligned
  have htop : s + b.size = h.heaptop := hs.top ▸ layEnd_concat.symm
  have htop' := hs.started hbase
  have hfield : mkField (add32 (nextoff h.mem s) more) = b.units + more / 8 := by
    rw [hh.nextoff_eq]
    simp only [mkField, add32, mblocksize]
    omega
  rw [hfield]
  have halloc : Alloc h.heapbase n (xs ++ [b]) s (xs ++ (b.grow (more / 8)).cut n) :=
    .extend xs b (more / 8) hfree (by omega) (by omega)
  have hgrown : Header (setInuse (setNextblock h.mem s (b.units + more / 8)) s 1)
      (lastUnits 0 xs) s (b.grow (more / 8)) := by
    have hlong : Header (setNextblock h.mem s (b.units + more / 8)) (lastUnits 0 xs) s
        ((b.grow (more / 8)).mark b.used) := hh.setNextblock rfl rfl (by omega)
    exact hlong.setInuse (u := true)
  have hnew : Tiles (setInuse (setNextblock h.mem s (b.units + more / 8)) s 1) 0 h.heapbase
      (xs ++ [b.grow (more / 8)]) := by
    rw [List.append_nil, tiles_append] at ht
    rw [tiles_append]
    refine ⟨ht.1.frame_range hs.aligned ?_, hgrown, trivial⟩
    exact (agree_setUpper hsal (.inl (Nat.le_add_right _ _))).trans
      (agree_setUpper hsal (.inl (Nat.le_add_right _ _)))
  have hend : layEnd Block.size h.heapbase (xs ++ [b.grow (more / 8)]) = h.heaptop + more := by
    simp only [layEnd_append, layEnd_cons, layEnd_nil, Block.size_eq, Block.grow]
    omega
  have hroom : n + 1 ≤ (b.grow (more / 8)).units := by
    simp only [Block.grow]
    omega
  obtain ⟨m, hm, hshape⟩ := hs.raise hbase hlt hnew hend hroom (halloc.kept hs.kept)
  exact ⟨m, _, hm, halloc, hshape⟩

theorem Shape.fresh {more : Nat} (hs : Shape h bs) (hbase : h.heapbase ≠ 0)
    (hused : ∀ c, bs.getLast? = some c → c.used = true) (hlt : h.brk + more < 4294967296)
    (hmore : more % 4096 = 0) (hn : (n + 1) * 8 ≤ more) :
    ∃ m bs', (h.raised more (Heap.topHeader h.mem h.heaptop (lastUnits 0 bs) more)).mallocSplit
        h.heaptop (n * 8) = .ok (h.raised more m) ∧ Alloc h.heapbase n bs h.heaptop bs' ∧
        Shape (h.raised more m) bs' := by
  have htop' := hs.started hbase
  have htop := hs.top
  let c : Block := ⟨more / 8, true, by omega⟩
  have halloc : Alloc h.heapbase n bs h.heaptop (bs ++ c.cut n) := by
    rw [htop]
    exact .fresh bs c hused rfl (by simp only [c]; omega) (by simp only [c]; omega)
  have hal : h.heaptop % 8 = 0 := htop ▸ layEnd_mod hs.aligned
  have hlast := lastUnits_le h.heapbase bs
  replace hlast : lastUnits 0 bs < 536870912 := by omega
  have hnew : Tiles (Heap.topHeader h.mem h.heaptop (lastUnits 0 bs) more) 0 h.heapbase
      (bs ++ [c]) := by
    rw [tiles_append]
    refine ⟨hs.tiles.frame_range hs.aligned (agree_topHeader hal (.inl (by omega))), ?_, trivial⟩
    rw [← htop]
    exact header_topHeader hlast rfl (by simp only [c]; omega) rfl
  have hend : layEnd Block.size h.heapbase (bs ++ [c]) = h.heaptop + more := by
    simp only [layEnd_append, layEnd_cons, layEnd_nil, Block.size_eq, c]
    omega
  have hroom : n + 1 ≤ c.units := by
    simp only [c]
    omega
  obtain ⟨m, hm, hshape⟩ := hs.raise hbase hlt hnew hend hroom (halloc.kept hs.kept)
  grind

/-! ## `malloc` -/

/-- What `malloc` of `n` units leaves: the heap as it was, or with one more block taken. -/
def Takes (h : Heap) (n : Nat) (bs : List Block) (p : Nat) (h' : Heap) : Prop :=
  (p = 0 ∧ h' = h) ∨ ∃ s bs', p = s + 8 ∧ h'.heapbase = h.heapbase ∧
    Alloc h.heapbase n bs s bs' ∧ Shape h' bs'

theorem mData_eq (hs : mh + 8 < 4294967296) : mData mh = mh + 8 := Nat.mod_eq_of_lt hs

/-- The growth of the heap: `mh` is the top block, which is too short or in use. -/
theorem mallocGrow_spec (hs : Shape h bs) (hbase : h.heapbase ≠ 0) (hn : n * 8 ≤ 4294963192)
    (ok : Bool) (hnone : ∀ b ∈ bs, b.used = true ∨ b.size < n * 8 + 8) :
    ∃ p h', h.mallocGrow (n * 8) (lastUnits 0 bs) (lastStart 0 h.heapbase bs) ok = .ok (p, h') ∧
      Takes h n bs p h' := by
  have htop := hs.started hbase
  have hal : h.brk % 8 = 0 := by
    rw [← htop, hs.top]
    exact layEnd_mod hs.aligned
  by_cases hfree : ∃ xs b, bs = xs ++ [b] ∧ b.used = false
  · -- the top block is extended
    obtain ⟨xs, b, rfl, hb⟩ := hfree
    have ht := hs.tiles
    rw [← List.append_nil (xs ++ [b])] at ht
    have hh := ht.header
    have hpos := b.size_pos
    have hend : layEnd Block.size h.heapbase xs + b.size = h.heaptop := hs.top ▸ layEnd_concat.symm
    have hge : h.heapbase ≤ layEnd Block.size h.heapbase xs := le_layEnd
    have hbrk := hs.brk_lt
    have hsize := hh.mSize_eq (by omega)
    have hshort : b.size < n * 8 + 8 := by
      grind
    have hsub : sub32 (n * 8) (b.size - 8) = n * 8 + 8 - b.size := by
      unfold sub32
      omega
    rw [lastStart_concat]
    unfold Heap.mallocGrow
    rw [if_pos ⟨by omega, hh.inuse_iff.mpr hb⟩, hsize, if_neg (by omega), hsub]
    obtain ⟨hle, -, hmod⟩ := wholePages_spec (x := n * 8 + 8 - b.size) (by omega)
    generalize Heap.wholePages (n * 8 + 8 - b.size) = more at hle hmod
    rcases mallocSbrk_spec more ok htop hal with hfail | ⟨hlt, hgrow⟩
    · simp only [hfail]
      exact ⟨0, h, rfl, .inl ⟨rfl, rfl⟩⟩
    · obtain ⟨m, bs', hm, halloc, hshape⟩ :=
        hs.extend (n := n) hbase hb hlt hmod (by omega) (by omega)
      simp only [Heap.raised] at hm
      simp only [hgrow, hm]
      exact ⟨_, _, rfl, .inr ⟨_, _, mData_eq (by omega), rfl, halloc, hshape⟩⟩
  · have hused : ∀ c, bs.getLast? = some c → c.used = true := by
      intro c hc
      by_contra hcu
      obtain ⟨xs, rfl⟩ := List.getLast?_eq_some_iff.mp hc
      exact hfree ⟨xs, c, rfl, by simpa using hcu⟩
    have hcond : ¬ (lastStart 0 h.heapbase bs ≠ 0 ∧ inuse h.mem (lastStart 0 h.heapbase bs) = 0) :=
        by
      cases bs using List.reverseRecOn with
      | nil => simp [lastStart]
      | append_singleton xs b =>
        have ht := hs.tiles
        rw [← List.append_nil (xs ++ [b])] at ht
        rw [lastStart_concat, ht.header.inuse_iff, hused b (by simp)]
        simp
    have hadd : add32 mblocksize (n * 8) = n * 8 + 8 := by
      simp only [add32, mblocksize]
      omega
    unfold Heap.mallocGrow
    rw [if_neg hcond, hadd]
    obtain ⟨hle, -, hmod⟩ := wholePages_spec (x := n * 8 + 8) (by omega)
    generalize Heap.wholePages (n * 8 + 8) = more at hle hmod
    rcases mallocSbrk_spec more ok htop hal with hfail | ⟨hlt, hgrow⟩
    · simp only [hfail]
      exact ⟨0, h, rfl, .inl ⟨rfl, rfl⟩⟩
    · obtain ⟨m, bs', hm, halloc, hshape⟩ := hs.fresh (n := n) hbase hused hlt hmod (by omega)
      simp only [Heap.raised] at hm
      simp only [hgrow, hm]
      exact ⟨_, _, rfl, .inr ⟨_, _, mData_eq (by omega), rfl, halloc, hshape⟩⟩

theorem mallocAt_spec {size : Nat} (hs : Shape h bs) (hbase : h.heapbase ≠ 0)
    (hsize : size ≤ 4294963192) (ok : Bool) :
    ∃ p h', h.mallocAt size ok = .ok (p, h') ∧ Takes h ((size + 7) / 8) bs p h' := by
  have hround : add32 size (mblocksize - 1) / mblocksize * mblocksize = (size + 7) / 8 * 8 := by
    simp only [add32, mblocksize]
    omega
  have htop := hs.started hbase
  have hlt := hs.brk_lt
  have hlen := length_le_layEnd h.heapbase bs
  rw [← hs.top] at hlen
  unfold Heap.mallocAt
  rw [if_neg (by omega)]
  simp only [hround]
  rcases search_spec ((size + 7) / 8 * 8) 0 (by omega) hs.tiles hs.top.symm
      (n := h.heaptop - h.heapbase + 1) (by omega) with
    ⟨xs, b, ys, rfl, hfree, hfit, hfound⟩ | ⟨hnone, hended⟩
  · have hbs := b.size_eq
    obtain ⟨m, hm, hshape⟩ := hs.fit hbase hfree (n := (size + 7) / 8) (by omega)
    rw [hfound]
    simp only [hm]
    have hs' : layEnd Block.size h.heapbase xs + b.size ≤ h.heaptop := by
      rw [hs.top, layEnd_append, layEnd_append]
      exact le_layEnd
    refine ⟨_, _, rfl, .inr ⟨_, _, mData_eq (by omega), rfl, ?_, hshape⟩⟩
    exact .fit xs b ys hfree (by omega)
  · rw [hended]
    simp only [ne_eq, not_true_eq_false, if_false]
    exact mallocGrow_spec hs hbase (by omega) ok hnone

theorem mallocInit_spec (hs : Shape h bs) (hbase : h.heapbase = 0) (k : Answers) :
    (∃ e, h.mallocInit k = .error e) ∨
      ∃ h', h.mallocInit k = .ok h' ∧ h'.heapbase ≠ 0 ∧ Shape h' [] := by
  have htop : h.heaptop = 0 := by
    rw [hs.top, hs.empty hbase, hbase]
    rfl
  have hnil : Kept [] := ⟨.nil, by simp⟩
  have hshape : ∀ base brk : Nat, base % 8 = 0 → base ≠ 0 → brk < 4294967296 → base = brk →
      Shape { h with heapbase := base, heaptop := base, brk := brk } [] := by
    intro base brk hal hne hlt heq
    exact ⟨trivial, rfl, hal, fun _ => heq, fun h0 => absurd h0 hne, hlt, hnil⟩
  unfold Heap.mallocInit Heap.sbrk
  rw [if_neg (by simp [hbase, htop])]
  by_cases hk : k.init = true ∧ h.brk + 0 < 4294967296
  swap
  · rw [if_neg hk]
    exact .inl ⟨_, if_pos rfl⟩
  rw [if_pos hk]
  simp only [Nat.add_zero]
  by_cases hx : h.brk = sbrkFailed
  · exact .inl ⟨_, if_pos hx⟩
  by_cases hz : h.brk = 0
  · exact .inl ⟨_, by rw [if_neg hx, if_pos hz]⟩
  rw [if_neg hx, if_neg hz]
  by_cases hal : h.brk % mblocksize = 0
  · grind
  · -- the base is moved up to a multiple of `MBLOCKSIZE`
    rw [if_pos hal]
    by_cases hk' : k.align = true ∧ h.brk + (mblocksize - h.brk % mblocksize) < 4294967296
    swap
    · rw [if_neg hk']
      exact .inl ⟨_, if_pos rfl⟩
    rw [if_pos hk']
    simp only [mblocksize] at hal hk' ⊢
    have hadd : add32 h.brk (8 - h.brk % 8) = h.brk + (8 - h.brk % 8) := Nat.mod_eq_of_lt hk'.2
    grind

/-- **`malloc`**, for a size that does not wrap around: it fails only before the heap is there. -/
theorem malloc_spec {size : Nat} (hs : Shape h bs) (hsize : size ≤ 4294963192) (k : Answers) :
    (h.heapbase = 0 ∧ ∃ e, h.mallocInit k = .error e ∧ h.malloc size k = .error e) ∨
    ∃ h₀ p h', h.malloc size k = .ok (p, h') ∧ Shape h₀ bs ∧ h₀.heapbase ≠ 0 ∧
      (h.heapbase ≠ 0 → h₀ = h) ∧ Takes h₀ ((size + 7) / 8) bs p h' := by
  unfold Heap.malloc
  by_cases hbase : h.heapbase = 0
  · rw [if_pos hbase]
    rcases mallocInit_spec hs hbase k with ⟨e, he⟩ | ⟨h₀, hinit, hne, hs₀⟩
    · refine .inl ⟨hbase, e, he, ?_⟩
      rw [he]
    · obtain ⟨p, h', hm, ht⟩ := mallocAt_spec hs₀ hne hsize k.grow
      obtain rfl := hs.empty hbase
      grind
  · rw [if_neg hbase]
    obtain ⟨p, h', hm, ht⟩ := mallocAt_spec hs hbase hsize k.grow
    grind

/-! ## `free` -/

theorem deadbeef_of_out {ptr k : Nat} (hp : ptr % 4 = 0) (h : k < ptr ∨ ptr + 4 * n ≤ k) :
    Heap.deadbeef m ptr n k = m k := by
  induction n with
  | zero => rfl
  | succ n ih => exact (setWord_of_ne (by omega)).trans (ih (by omega))

/-- `__malloc_trymerge` of two blocks: one of them is in use, or they become one. -/
theorem mallocTrymerge_spec (hlt : h.heaptop < 4294967296) (ha : a % 8 = 0)
    (ht : Tiles h.mem prev a (xs ++ [b, c] ++ ys))
    (htop : h.heaptop = layEnd Block.size a (xs ++ [b, c] ++ ys)) :
    ∃ m, h.mallocTrymerge (layEnd Block.size a xs) (layEnd Block.size a (xs ++ [b])) =
        .ok { h with mem := m } ∧
      Tiles m prev a
        (xs ++ (if b.used = true ∨ c.used = true then [b, c] else [b.join c]) ++ ys) := by
  have hs : layEnd Block.size a xs % 8 = 0 := layEnd_mod ha
  have hbs := b.size_eq
  have hcs := c.size_eq
  have hb8 := b.size_pos
  have hc8 := c.size_pos
  have htiles := ht
  rw [tiles_append, tiles_append] at ht
  obtain ⟨⟨hxs, hhb, hhc, -⟩, hys⟩ := ht
  have hmid : layEnd Block.size a (xs ++ [b]) = layEnd Block.size a xs + b.size := layEnd_concat
  have hq : layEnd Block.size a (xs ++ [b, c]) = layEnd Block.size a xs + b.size + c.size := by
    rw [layEnd_append]
    rfl
  have hle : layEnd Block.size a xs + b.size + c.size ≤ h.heaptop := by
    rw [htop, layEnd_append, hq]
    exact le_layEnd
  rw [hmid]
  generalize hsdef : layEnd Block.size a xs = s at hs hhb hhc hmid hq hle
  have hbsize := hhb.mSize_eq (by omega)
  have hcsize := hhc.mSize_eq (by omega)
  have hnn := hhc.mNext_eq (by omega)
  have hcond : (inuse h.mem s ≠ 0 ∨ inuse h.mem (s + b.size) ≠ 0) ↔
      (b.used = true ∨ c.used = true) := by
    rw [Ne, Ne, hhb.inuse_iff, hhc.inuse_iff, Bool.not_eq_false, Bool.not_eq_false]
  unfold Heap.mallocTrymerge
  rw [if_neg (by rw [hhb.next_eq, hhc.prev_eq]; simp)]
  by_cases hu : b.used = true ∨ c.used = true
  · rw [if_pos (hcond.mpr hu), if_pos hu]
    exact ⟨h.mem, rfl, htiles⟩
  · rw [if_neg (fun h => hu (hcond.mp h)), if_neg hu]
    rw [not_or, Bool.not_eq_true, Bool.not_eq_true] at hu
    have hfield : mkField (add32 (add32 mblocksize (mSize h.mem s))
        (add32 mblocksize (mSize h.mem (s + b.size)))) = b.units + c.units := by
      rw [hbsize, hcsize]
      simp only [mkField, add32, mblocksize]
      omega
    simp only [hfield, hnn]
    have hjoin : Header (setNextblock h.mem s (b.units + c.units)) (lastUnits prev xs) s
        (b.join c) := hhb.setNextblock rfl hu.1.symm (by omega)
    have hroom := Block.join_room b c s
    have hend : layEnd Block.size a (xs ++ [b.join c]) = s + b.size + c.size := by
      rw [layEnd_append, hsdef, hroom]
      rfl
    have htop' : layEnd Block.size a (xs ++ [b.join c] ++ ys) = h.heaptop := by
      rw [htop, layEnd_append, hend, layEnd_append, hq]
    have hlow : Tiles (setNextblock h.mem s (b.units + c.units)) prev a (xs ++ [b.join c]) := by
      rw [tiles_append, hsdef]
      refine ⟨hxs.frame_range ha ?_, hjoin, trivial⟩
      rw [hsdef]
      exact agree_setUpper hs (.inl (Nat.le_add_right _ _))
    have hlinked := hlow.link (v := b.units + c.units) (hend.symm ▸ hq ▸ hys) ha
      (by simp [lastUnits, Block.join]) (by omega)
      (by rw [hend]; exact agree_setUpper hs (by omega))
    rw [hend, htop'] at hlinked
    rw [hjoin.next_eq]
    have hat : LaidAt Block.size a (xs ++ [b.join c] ++ ys) s (b.join c) := by
      rw [← hsdef]
      exact laidAt_mid
    -- the obsolete header is data of the joined block
    refine ⟨_, rfl, hlinked.frame_data ha hat fun k hk => ?_⟩
    refine deadbeef_of_out (by omega) ?_
    simp only [Block.size_eq, Block.join, mblocksize] at hk ⊢
    omega

theorem mergeAbove_spec {d : Block} (hlt : h.heaptop < 4294967296) (ha : a % 8 = 0)
    (ht : Tiles h.mem prev a (xs ++ [d] ++ ys))
    (htop : h.heaptop = layEnd Block.size a (xs ++ [d] ++ ys)) (hfree : d.used = false) :
    ∃ m, h.mergeAbove (layEnd Block.size a xs) = .ok { h with mem := m } ∧
      Tiles m prev a (xs ++ [(mergeUp d ys).1] ++ (mergeUp d ys).2) := by
  have hend : layEnd Block.size a (xs ++ [d]) = layEnd Block.size a xs + d.size := layEnd_concat
  have hle : layEnd Block.size a xs + d.size ≤ h.heaptop := by
    rw [htop, layEnd_append, hend]
    exact le_layEnd
  unfold Heap.mergeAbove
  rw [ht.header.mNext_eq (by omega), ← hend]
  cases ys with
  | nil =>
    rw [if_neg (by rw [htop, List.append_nil]; simp)]
    exact ⟨h.mem, rfl, ht⟩
  | cons c ys =>
    have hne := layEnd_lt_of_ne_nil (a := layEnd Block.size a (xs ++ [d])) (List.cons_ne_nil c ys)
    rw [← layEnd_append, ← htop] at hne
    have happ : xs ++ [d] ++ c :: ys = xs ++ [d, c] ++ ys := by simp
    rw [happ] at ht htop
    obtain ⟨m, hm, hmt⟩ := mallocTrymerge_spec hlt ha ht htop
    rw [if_pos (by omega)]
    refine ⟨m, hm, ?_⟩
    simp only [hfree, Bool.false_eq_true, false_or] at hmt
    by_cases hc : c.used = true
    · simpa [mergeUp, hc] using hmt
    · simpa [mergeUp, hc] using hmt

theorem mergeBelow_spec {d : Block} (hlt : h.heaptop < 4294967296) (ha : h.heapbase % 8 = 0)
    (ht : Tiles h.mem 0 h.heapbase (xs ++ [d] ++ ys))
    (htop : h.heaptop = layEnd Block.size h.heapbase (xs ++ [d] ++ ys)) (hfree : d.used = false) :
    ∃ m bs', h.mergeBelow (layEnd Block.size h.heapbase xs) = .ok { h with mem := m } ∧
      Tiles m 0 h.heapbase bs' ∧
      (((∀ w ∈ xs.getLast?, w.used = true) ∧ bs' = xs ++ [d] ++ ys) ∨
        ∃ xs' w, xs = xs' ++ [w] ∧ w.used = false ∧ bs' = xs' ++ [w.join d] ++ ys) := by
  unfold Heap.mergeBelow
  cases xs using List.reverseRecOn with
  | nil =>
    rw [if_neg (by simp)]
    exact ⟨h.mem, _, rfl, ht, .inl ⟨by simp, rfl⟩⟩
  | append_singleton xs w =>
    have hw := w.size_pos
    have hle : h.heapbase ≤ layEnd Block.size h.heapbase xs := le_layEnd
    have hend : layEnd Block.size h.heapbase (xs ++ [w]) =
        layEnd Block.size h.heapbase xs + w.size := layEnd_concat
    have hin : layEnd Block.size h.heapbase (xs ++ [w]) ≤ h.heaptop := by
      rw [htop, List.append_assoc, layEnd_append (xs ++ [w])]
      exact le_layEnd
    have hprev : mPrev h.mem (layEnd Block.size h.heapbase (xs ++ [w])) =
        layEnd Block.size h.heapbase xs := by
      have hws := w.size_eq
      rw [mPrev, prevoff, ht.header.prev_eq]
      simp only [lastUnits_append, lastUnits, sub32, mblocksize, hend]
      omega
    have happ : xs ++ [w] ++ [d] ++ ys = xs ++ [w, d] ++ ys := by simp
    rw [happ] at ht htop
    obtain ⟨m, hm, hmt⟩ := mallocTrymerge_spec hlt ha ht htop
    grind

/-- **`free`** of a block in use succeeds and releases it. -/
theorem free_spec (hs : Shape h (xs ++ [b] ++ ys)) (hbase : h.heapbase ≠ 0)
    (hused : b.used = true) :
    ∃ m bs', h.free (layEnd Block.size h.heapbase xs + 8) = .ok { h with mem := m } ∧
      Release xs b ys bs' ∧ Shape { h with mem := m } bs' := by
  have htop := hs.started hbase
  have hbrk := hs.brk_lt
  have hpos := b.size_pos
  have hal : layEnd Block.size h.heapbase xs % 8 = 0 := layEnd_mod hs.aligned
  have hge : h.heapbase ≤ layEnd Block.size h.heapbase xs := le_layEnd
  have hend : layEnd Block.size h.heapbase (xs ++ [b]) =
      layEnd Block.size h.heapbase xs + b.size := layEnd_concat
  have hle : layEnd Block.size h.heapbase (xs ++ [b]) ≤ h.heaptop := by
    rw [hs.top, layEnd_append (xs ++ [b])]
    exact le_layEnd
  have hh := hs.tiles.header
  -- the data of a block with no data is not past the top
  have hrange : layEnd Block.size h.heapbase xs + 8 < h.heaptop := by
    by_cases hys : ys = []
    · have h2 := hs.kept.top b (by simp [hys])
      have := b.size_eq
      omega
    · have := layEnd_lt_of_ne_nil (a := layEnd Block.size h.heapbase (xs ++ [b])) hys
      rw [← layEnd_append, ← hs.top] at this
      omega
  have hsub : sub32 (layEnd Block.size h.heapbase xs + 8) mblocksize =
      layEnd Block.size h.heapbase xs := by
    simp only [sub32, mblocksize]
    omega
  have hin : inuse h.mem (layEnd Block.size h.heapbase xs) ≠ 0 := by
    rw [Ne, hh.inuse_iff, hused]
    simp
  unfold Heap.free
  rw [if_neg (by omega), if_neg (by omega), if_neg (by omega)]
  simp only [hsub, if_neg (not_not.mpr hh.ok), if_neg hin]
  -- marked free, and its data wiped
  have hfree := hs.tiles.setInuse false hs.aligned
  rw [Bool.toNat_false] at hfree
  rw [hfree.header.mSize_eq (by rw [Block.size_mark]; omega), mData_eq (by omega), Block.size_mark]
  generalize setInuse h.mem (layEnd Block.size h.heapbase xs) 0 = m₁ at hfree ⊢
  have hwiped : Tiles (Heap.deadbeef m₁ (layEnd Block.size h.heapbase xs + 8) ((b.size - 8) / 4)) 0
      h.heapbase (xs ++ [b.mark false] ++ ys) := by
    have hat : LaidAt Block.size h.heapbase (xs ++ [b.mark false] ++ ys)
        (layEnd Block.size h.heapbase xs) (b.mark false) := laidAt_mid
    refine hfree.frame_data hs.aligned hat fun k hk => ?_
    rw [Block.size_mark] at hk
    exact deadbeef_of_out (by omega) (by omega)
  generalize Heap.deadbeef m₁ (layEnd Block.size h.heapbase xs + 8) ((b.size - 8) / 4) = m₂
    at hwiped ⊢
  have htop₂ : h.heaptop = layEnd Block.size h.heapbase (xs ++ [b.mark false] ++ ys) := by
    simp only [hs.top, layEnd_append, layEnd_cons, layEnd_nil, Block.size_mark]
  -- the two merges
  obtain ⟨m₃, hm₃, ht₃⟩ := mergeAbove_spec (h := { h with mem := m₂ }) (htop ▸ hbrk) hs.aligned
    hwiped
    htop₂ rfl
  have htop₃ : h.heaptop = layEnd Block.size h.heapbase
      (xs ++ [(mergeUp (b.mark false) ys).1] ++ (mergeUp (b.mark false) ys).2) := by
    rw [htop₂, List.append_assoc xs, List.append_assoc xs, layEnd_append xs, ← mergeUp_room,
      ← layEnd_append]
  obtain ⟨m₄, bs', hm₄, ht₄, hcase⟩ := mergeBelow_spec (h := { h with mem := m₃ }) (htop ▸ hbrk)
    hs.aligned ht₃ htop₃ mergeUp_free
  have hrel : Release xs b ys bs' := by
    rcases hcase with ⟨hw, rfl⟩ | ⟨xs', w, hxs, hw, rfl⟩
    · exact .alone hw
    · exact .below xs' w hxs hw
  simp only [hm₃]
  refine ⟨m₄, bs', hm₄, hrel, ht₄, ?_, hs.aligned, hs.started, fun h0 => absurd h0 hbase, hbrk,
    hrel.kept hs.kept⟩
  exact hs.top.trans hrel.room.symm

end OsPaging.User
