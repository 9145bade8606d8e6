import Mathlib.Data.List.Chain
import OsPaging.Lib.Tiling
import OsPaging.User.Malloc

/-!
# The blocks of the user-level heap

What the headers in memory say, as a list of blocks: `Tiles m prev a bs` reads the blocks `bs` one
after another from `a` on, each with the size of the one before it (`prev` for the first).

* Memory side: the headers are all that counts (`Tiles.frame`, `Tiles.frame_data`), and blocks can
  be put below others, if the link of the first of these is set (`Tiles.link`).
* List side: `Alloc` and `Release` are what `malloc` and `free` do to the list. Both keep `Kept`: no
  two free blocks are adjacent, and the top block has room for data.
-/

namespace OsPaging.User

open OsPaging.Lib

/-- A block: its length in units with the header, and `mh_inuse`. -/
structure Block where
  units : Nat
  used : Bool
  pos : 0 < units
deriving DecidableEq

namespace Block

/-- The length in bytes. -/
def size (b : Block) : Nat := b.units * mblocksize

variable (b : Block)

theorem size_eq : b.size = b.units * 8 := rfl

theorem size_pos : 8 ≤ b.size := by
  have := b.pos
  rw [size_eq]
  omega

theorem size_mod : b.size % 8 = 0 := Nat.mul_mod_left _ _

/-- The same block, in use or not. -/
def mark (b : Block) (used : Bool) : Block := { b with used := used }

@[simp] theorem units_mark (u : Bool) : (b.mark u).units = b.units := rfl

@[simp] theorem used_mark (u : Bool) : (b.mark u).used = u := rfl

@[simp] theorem size_mark (u : Bool) : (b.mark u).size = b.size := rfl

/-- Two blocks as one free block. -/
def join (b c : Block) : Block := ⟨b.units + c.units, false, by have := b.pos; omega⟩

/-- A block with more units. -/
def grow (b : Block) (more : Nat) : Block := ⟨b.units + more, true, by have := b.pos; omega⟩

/-- `__malloc_split` for `n` units of data: the upper part is a block of its own if it has room for
a header and a unit. -/
def cut (b : Block) (n : Nat) : List Block :=
  if h : n + 3 ≤ b.units then
    [⟨n + 1, b.used, by omega⟩, ⟨b.units - (n + 1), false, by omega⟩]
  else [b]

theorem cut_room (n a : Nat) : layEnd size a (b.cut n) = layEnd size a [b] := by
  unfold cut
  split
  · simp only [layEnd_cons, layEnd_nil, size_eq]
    omega
  · rfl

end Block

/-! ## Headers in memory -/

/-- The header at `a` is that of `b`, after a block of `prev` units. -/
structure Header (m : Bytes) (prev a : Nat) (b : Block) : Prop where
  prev_eq : prevblock m a = prev
  next_eq : nextblock m a = b.units
  inuse_eq : inuse m a = b.used.toNat
  ok : mOk m a

/-- The units of the last block, or `prev`. -/
def lastUnits (prev : Nat) : List Block → Nat
  | [] => prev
  | b :: bs => lastUnits b.units bs

/-- The headers from `a` on are those of the blocks `bs`, laid end to end. -/
def Tiles (m : Bytes) (prev a : Nat) : List Block → Prop
  | [] => True
  | b :: bs => Header m prev a b ∧ Tiles m b.units (a + b.size) bs

variable {m m' : Bytes} {prev prev' a s t v : Nat} {b c : Block} {bs xs ys mid mid' : List Block}

@[simp] theorem lastUnits_append : lastUnits prev (xs ++ ys) =
    lastUnits (lastUnits prev xs) ys := by
  induction xs generalizing prev with
  | nil => rfl
  | cons x xs ih => exact ih

theorem tiles_append : Tiles m prev a (xs ++ ys) ↔
    Tiles m prev a xs ∧ Tiles m (lastUnits prev xs) (layEnd Block.size a xs) ys := by
  induction xs generalizing prev a with
  | nil => simp [Tiles, lastUnits]
  | cons x xs ih => simp [Tiles, lastUnits, ih, and_assoc]

/-- The memories agree from `a` to `b`. -/
def Agree (m m' : Bytes) (a b : Nat) : Prop := ∀ k, a ≤ k → k < b → m' k = m k

theorem Agree.mono {b a' b' : Nat} (h : Agree m m' a b) (ha : a ≤ a') (hb : b' ≤ b) :
    Agree m m' a' b' := fun k hlo hhi => h k (ha.trans hlo) (hhi.trans_le hb)

theorem Agree.trans {b : Nat} {m'' : Bytes} (h : Agree m m' a b) (h' : Agree m' m'' a b) :
    Agree m m'' a b := fun k hlo hhi => (h' k hlo hhi).trans (h k hlo hhi)

theorem Agree.lower (h : Agree m m' a (a + 4)) (ha : a % 8 = 0) : lower m' a = lower m a :=
  word_congr fun k hk => h k (by omega) (by omega)

theorem Agree.upper (h : Agree m m' (a + 4) (a + 8)) (ha : a % 8 = 0) : upper m' a = upper m a :=
  word_congr fun k hk => h k (by omega) (by omega)

theorem Header.frame (h : Header m prev a b) (ha : a % 8 = 0) (hm : Agree m m' a (a + 8)) :
    Header m' prev a b := by
  have hl := (hm.mono (Nat.le_refl a) (by omega)).lower ha
  have hu := (hm.mono (by omega) (Nat.le_refl (a + 8))).upper ha
  refine ⟨?_, ?_, ?_, ?_, ?_⟩
  · rw [prevblock, hl]
    exact h.prev_eq
  · rw [nextblock, hu]
    exact h.next_eq
  · rw [inuse, hu]
    exact h.inuse_eq
  · rw [magic1, hl]
    exact h.ok.1
  · rw [magic2, hu]
    exact h.ok.2

section

variable (h : Tiles m prev a bs) (ha : a % 8 = 0)
include h ha

theorem Tiles.frame (hm : ∀ s b, LaidAt Block.size a bs s b → Agree m m' s (s + 8)) :
    Tiles m' prev a bs := by
  induction bs generalizing prev a with
  | nil => trivial
  | cons b bs ih =>
    have hb := b.size_mod
    exact ⟨h.1.frame ha (hm a b (.inl ⟨rfl, rfl⟩)),
      ih h.2 (by omega) fun s c hc => hm s c (.inr hc)⟩

/-- Headers do not change with the bytes outside the blocks. -/
theorem Tiles.frame_range (hm : Agree m m' a (layEnd Block.size a bs)) : Tiles m' prev a bs :=
  h.frame ha fun s b hb => by
    have hlo := b.size_pos
    obtain ⟨hs, hend⟩ := hb.bounds
    exact hm.mono hs (by omega)

theorem Tiles.frame_data (hb : LaidAt Block.size a bs s b)
    (hm : ∀ k, k < s + 8 ∨ s + b.size ≤ k → m' k = m k) : Tiles m' prev a bs := by
  refine h.frame ha fun t c hc k hlo hhi => hm k ?_
  rcases hc.apart hb with ⟨rfl, -⟩ | hle | hle <;> omega

/-- The link of the first block is set, the rest is as it was. -/
theorem Tiles.relink (hm : Agree m m' (a + 4) (layEnd Block.size a bs))
    (hlink : bs ≠ [] → prevblock m' a = prev' ∧ magic1 m' a = mmagic) : Tiles m' prev' a bs := by
  cases bs with
  | nil => trivial
  | cons b bs =>
    have hlo := b.size_pos
    have hend : a + b.size ≤ layEnd Block.size (a + b.size) bs := le_layEnd
    have hb := b.size_mod
    simp only [layEnd_cons] at hm
    obtain ⟨hprev, hmagic⟩ := hlink (List.cons_ne_nil b bs)
    have hu : upper m' a = upper m a := (hm.mono (Nat.le_refl (a + 4)) (by omega)).upper ha
    refine ⟨⟨hprev, ?_, ?_, hmagic, ?_⟩,
      h.2.frame_range (by omega) (hm.mono (by omega) (Nat.le_refl _))⟩
    · rw [nextblock, hu]
      exact h.1.next_eq
    · rw [inuse, hu]
      exact h.1.inuse_eq
    · rw [magic2, hu]
      exact h.1.ok.2

end

theorem layEnd_mod (ha : a % 8 = 0) : layEnd Block.size a bs % 8 = 0 := by
  induction bs generalizing a with
  | nil => exact ha
  | cons b bs ih =>
    have hb := b.size_mod
    exact ih (by omega)

/-! ## Stores to a header -/

section Stores

variable {w hi : Nat}

@[simp] theorem lower_setLower : lower (setLower m a w) a = w % 4294967296 := word_setWord_self

@[simp] theorem upper_setUpper : upper (setUpper m a w) a = w % 4294967296 := word_setWord_self

@[simp] theorem upper_setLower : upper (setLower m a w) a = upper m a :=
  word_setWord_of_ne (by omega)

@[simp] theorem lower_setUpper : lower (setUpper m a w) a = lower m a :=
  word_setWord_of_ne (by omega)

theorem upper_lt : upper m a < 4294967296 := word_lt

theorem agree_setLower (ha : a % 8 = 0) (h : hi ≤ a ∨ a + 4 ≤ s) : Agree m (setLower m a w) s hi :=
  fun _ hlo hhi => setWord_of_ne (by omega)

theorem agree_setUpper (ha : a % 8 = 0) (h : hi ≤ a + 4 ∨ a + 8 ≤ s) :
    Agree m (setUpper m a w) s hi :=
  fun _ hlo hhi => setWord_of_ne (by omega)

theorem link_setPrevblock : prevblock (setPrevblock m a v) a = v % 536870912 ∧
    magic1 (setPrevblock m a v) a = magic1 m a := by
  simp only [prevblock, magic1, setPrevblock, lower_setLower, bits29, bits2, withBits29]
  omega

/-- **The link of the blocks above**: new blocks `xs` below `ys`, and the size of the last one
written to the first header of `ys`, if there is one. -/
theorem Tiles.link (hxs : Tiles m' prev a xs) (hys : Tiles m prev' (layEnd Block.size a xs) ys)
    (ha : a % 8 = 0) (hv : lastUnits prev xs = v) (hv' : v < 536870912)
    (hm : Agree m m' (layEnd Block.size a xs) (layEnd Block.size a (xs ++ ys))) :
    Tiles (if layEnd Block.size a xs ≠ layEnd Block.size a (xs ++ ys) then
      setPrevblock m' (layEnd Block.size a xs) v else m') prev a (xs ++ ys) := by
  have hq : layEnd Block.size a xs % 8 = 0 := layEnd_mod ha
  rw [layEnd_append] at hm ⊢
  cases ys with
  | nil => simpa using hxs
  | cons y ys =>
    have hpos := y.size_pos
    have hend : layEnd Block.size a xs + y.size ≤
        layEnd Block.size (layEnd Block.size a xs + y.size) ys := le_layEnd
    have hmagic : magic1 m' (layEnd Block.size a xs) = mmagic := by
      rw [magic1, (hm.mono (Nat.le_refl _) (by rw [layEnd_cons]; omega)).lower hq]
      exact hys.1.ok.1
    obtain ⟨hlink, hkeep⟩ := link_setPrevblock (m := m') (a := layEnd Block.size a xs) (v := v)
    rw [layEnd_cons, if_pos (by omega), tiles_append]
    refine ⟨hxs.frame_range ha (agree_setLower hq (.inl (Nat.le_refl _))), ?_⟩
    refine hys.relink hq ?_ fun _ => ⟨?_, hkeep.trans hmagic⟩
    · exact (hm.mono (by omega) (Nat.le_refl _)).trans (agree_setLower hq (.inr (Nat.le_refl _)))
    · rw [hlink, hv, Nat.mod_eq_of_lt hv']

theorem Header.setInuse {u : Bool} (h : Header m prev a b) :
    Header (setInuse m a u.toNat) prev a (b.mark u) := by
  have hw := upper_lt (m := m) (a := a)
  obtain ⟨hp, hn, -, h1, h2⟩ := h
  simp only [magic2, nextblock, bits29, bits2] at h2 hn
  have hu : u.toNat = 0 ∨ u.toNat = 1 := by cases u <;> simp
  refine ⟨?_, ?_, ?_, ?_, ?_⟩
  · simpa only [prevblock, User.setInuse, lower_setUpper] using hp
  · simp only [nextblock, User.setInuse, upper_setUpper, bits29, withBit1, Block.units_mark]
    omega
  · simp only [inuse, User.setInuse, upper_setUpper, bit1, withBit1, Block.used_mark]
    omega
  · simpa only [magic1, User.setInuse, lower_setUpper] using h1
  · simp only [magic2, User.setInuse, upper_setUpper, bits2, withBit1]
    omega

theorem Header.setNextblock (h : Header m prev a b) (hc : c.units = v) (hu : c.used = b.used)
    (hv : v < 536870912) : Header (setNextblock m a v) prev a c := by
  obtain ⟨hp, -, hi, h1, h2⟩ := h
  simp only [magic2, inuse, bit1, bits2] at h2 hi
  refine ⟨?_, ?_, ?_, ?_, ?_⟩
  · simpa only [prevblock, User.setNextblock, lower_setUpper] using hp
  · simp only [nextblock, User.setNextblock, upper_setUpper, bits29, withBits29]
    omega
  · simp only [inuse, User.setNextblock, upper_setUpper, bit1, withBits29, hu]
    omega
  · simpa only [magic1, User.setNextblock, lower_setUpper] using h1
  · simp only [magic2, User.setNextblock, upper_setUpper, bits2, withBits29]
    omega

/-- What the stores of a whole header leave in its two words. -/
theorem header_of_words (hl : lower m a = prev * 8 + 2)
    (hu : upper m a = b.units * 8 + b.used.toNat * 4 + 2) : Header m prev a b := by
  have hb : b.used.toNat ≤ 1 := by cases b.used <;> simp
  refine ⟨?_, ?_, ?_, ?_, ?_⟩ <;>
    simp only [prevblock, nextblock, inuse, magic1, magic2, hl, hu, bits29, bits2, bit1, mmagic] <;>
    omega

end Stores

/-! ## What `malloc` and `free` do to the blocks -/

/-- Of two adjacent blocks one is in use. -/
def Packed (b c : Block) : Prop := b.used = true ∨ c.used = true

/-- No two free blocks are adjacent, and the top block has room for data. -/
structure Kept (bs : List Block) : Prop where
  packed : bs.IsChain Packed
  top : ∀ b, bs.getLast? = some b → 2 ≤ b.units

/-- `malloc` of `n` units takes the block at `s`. -/
inductive Alloc (a n : Nat) : List Block → Nat → List Block → Prop
  /-- A free block with room for it. -/
  | fit (xs : List Block) (b : Block) (ys : List Block) : b.used = false → n + 1 ≤ b.units →
      Alloc a n (xs ++ [b] ++ ys) (layEnd Block.size a xs) (xs ++ (b.mark true).cut n ++ ys)
  /-- The top block is free and gets more room. -/
  | extend (xs : List Block) (b : Block) (more : Nat) : b.used = false →
      n + 1 ≤ b.units + more → 2 ≤ more →
      Alloc a n (xs ++ [b]) (layEnd Block.size a xs) (xs ++ (b.grow more).cut n)
  /-- A new block on top of one in use. -/
  | fresh (xs : List Block) (b : Block) : (∀ c, xs.getLast? = some c → c.used = true) →
      b.used = true → n + 1 ≤ b.units → 2 ≤ b.units →
      Alloc a n xs (layEnd Block.size a xs) (xs ++ b.cut n)

/-- A freed block and the block above it. -/
def mergeUp (b : Block) : List Block → Block × List Block
  | [] => (b, [])
  | c :: ys => if c.used then (b, c :: ys) else (b.join c, ys)

/-- `free` of the block between `xs` and `ys`, by its merges with the free blocks beside it. -/
inductive Release (xs : List Block) (b : Block) (ys : List Block) : List Block → Prop
  | alone : (∀ w ∈ xs.getLast?, w.used = true) →
      Release xs b ys (xs ++ [(mergeUp (b.mark false) ys).1] ++ (mergeUp (b.mark false) ys).2)
  | below (xs' : List Block) (w : Block) : xs = xs' ++ [w] → w.used = false →
      Release xs b ys
        (xs' ++ [w.join (mergeUp (b.mark false) ys).1] ++ (mergeUp (b.mark false) ys).2)

theorem Block.isChain_cut {n : Nat} (hb : b.used = true) : (b.cut n).IsChain Packed := by
  unfold Block.cut
  split
  · simp [Packed, hb]
  · simp

theorem Block.top_cut {n : Nat} (hb : 2 ≤ b.units) (hc : c ∈ (b.cut n).getLast?) :
    2 ≤ c.units := by
  unfold Block.cut at hc
  grind

theorem Block.cut_ne_nil {n : Nat} : b.cut n ≠ [] := by
  unfold Block.cut
  split <;> simp

/-- The blocks beside a free block are in use. -/
theorem Kept.beside (h : Kept (xs ++ [b] ++ ys)) (hb : b.used = false) :
    (∀ x ∈ xs.getLast?, x.used = true) ∧ ∀ y ∈ ys.head?, y.used = true := by
  have hc := h.packed
  rw [List.isChain_append, List.isChain_append] at hc
  obtain ⟨⟨-, -, hlow⟩, -, hhigh⟩ := hc
  constructor
  · intro x hx
    simpa [Packed, hb] using hlow x hx b (by simp)
  · intro y hy
    simpa [Packed, hb] using hhigh b (by simp) y hy

/-- Blocks between others, with one in use at each border. -/
theorem Kept.between (hx : xs.IsChain Packed) (hm : mid.IsChain Packed) (hy : ys.IsChain Packed)
    (hlow : ∀ x ∈ xs.getLast?, ∀ y ∈ mid.head?, Packed x y)
    (hhigh : ∀ y ∈ ys.head?, y.used = true) (hne : mid ≠ [])
    (htop : ∀ b ∈ (mid ++ ys).getLast?, 2 ≤ b.units) : Kept (xs ++ mid ++ ys) := by
  refine ⟨?_, ?_⟩
  · rw [List.isChain_append, List.isChain_append]
    refine ⟨⟨hx, hm, hlow⟩, hy, fun _ _ y hy' => .inr (hhigh y hy')⟩
  · intro b hb
    rw [List.append_assoc, List.getLast?_append_of_ne_nil _ (by simp [hne])] at hb
    exact htop b hb

theorem Kept.top_splice (h : Kept (xs ++ mid ++ ys))
    (hmid : ys = [] → ∀ c ∈ mid'.getLast?, 2 ≤ c.units) :
    ∀ c ∈ (mid' ++ ys).getLast?, 2 ≤ c.units := by
  intro c hc
  by_cases hys : ys = []
  · grind
  · rw [List.getLast?_append_of_ne_nil _ hys] at hc
    refine h.top c ?_
    rw [List.getLast?_append_of_ne_nil _ hys]
    exact hc

theorem Kept.chains (h : Kept (xs ++ mid ++ ys)) : xs.IsChain Packed ∧ ys.IsChain Packed := by
  have hc := h.packed
  rw [List.isChain_append, List.isChain_append] at hc
  exact ⟨hc.1.1, hc.2.1⟩

section Alloc

variable {n : Nat} {bs' : List Block} (h : Alloc a n bs s bs')
include h

/-- `malloc` leaves no two free blocks beside each other. -/
theorem Alloc.kept (hk : Kept bs) : Kept bs' := by
  cases h with
  | fit xs b ys hfree hn =>
    obtain ⟨hxs, hys⟩ := hk.chains
    obtain ⟨hlow, hhigh⟩ := hk.beside hfree
    refine .between hxs (Block.isChain_cut rfl) hys (fun x hx _ _ => .inl (hlow x hx)) hhigh
      Block.cut_ne_nil (hk.top_splice fun hnil c hc => Block.top_cut (b := b.mark true) ?_ hc)
    exact hk.top b (by simp [hnil])
  | extend xs b more hfree hn hmore =>
    rw [← List.append_nil (xs ++ [b])] at hk
    rw [← List.append_nil (xs ++ (b.grow more).cut n)]
    obtain ⟨hxs, hys⟩ := hk.chains
    obtain ⟨hlow, hhigh⟩ := hk.beside hfree
    refine .between hxs (Block.isChain_cut rfl) hys (fun x hx _ _ => .inl (hlow x hx)) hhigh
      Block.cut_ne_nil (hk.top_splice fun _ c hc => Block.top_cut ?_ hc)
    simp only [Block.grow]
    omega
  | fresh xs b hlow hused hn htop =>
    rw [← List.append_nil (bs ++ b.cut n)]
    refine .between hk.packed (Block.isChain_cut hused) .nil (fun x hx _ _ => .inl (hlow x hx))
      (by simp) Block.cut_ne_nil fun c hc => Block.top_cut htop (n := n) ?_
    simpa using hc

/-- The block that `malloc` returns is in use and long enough. -/
theorem Alloc.taken : ∃ b, LaidAt Block.size a bs' s b ∧ b.used = true ∧ n + 1 ≤ b.units := by
  have hcut : ∀ (b : Block) (xs ys : List Block), b.used = true → n + 1 ≤ b.units →
      ∃ c, LaidAt Block.size a (xs ++ b.cut n ++ ys) (layEnd Block.size a xs) c ∧
        c.used = true ∧ n + 1 ≤ c.units := by
    intro b xs ys hb hn
    unfold Block.cut
    split
    · refine ⟨⟨n + 1, b.used, by omega⟩, ?_, hb, Nat.le_refl _⟩
      rw [List.append_cons, List.append_assoc]
      exact laidAt_mid
    · exact ⟨b, laidAt_mid, hb, hn⟩
  cases h with
  | fit xs b ys hfree hn => exact hcut (b.mark true) xs ys rfl hn
  | extend xs b more hfree hn hmore => simpa using hcut (b.grow more) xs [] rfl hn
  | fresh xs b hlow hused hn htop => simpa using hcut b bs [] hused hn

theorem Alloc.stays (hc : LaidAt Block.size a bs t c) (hused : c.used = true) :
    LaidAt Block.size a bs' t c := by
  cases h with
  | fit xs b ys hfree hn =>
    refine hc.splice (fun hat => ?_) fun a => Block.cut_room _ n a
    obtain rfl := List.mem_singleton.mp hat.mem
    rw [hfree] at hused
    contradiction
  | extend xs b more hfree hn hmore =>
    rw [laidAt_append] at hc ⊢
    rcases hc with hc | hc
    · exact .inl hc
    · obtain rfl := List.mem_singleton.mp hc.mem
      rw [hfree] at hused
      contradiction
  | fresh xs b hlow hb hn htop => exact laidAt_append.mpr (.inl hc)

/-- No block in use was at the address that `malloc` returns. -/
theorem Alloc.new (hc : LaidAt Block.size a bs s c) : c.used = false := by
  have hpos := c.size_pos
  cases h with
  | fit xs b ys hfree hn =>
    have hb := b.size_pos
    have hat : LaidAt Block.size a (xs ++ [b] ++ ys) (layEnd Block.size a xs) b :=
      laidAt_mid
    rcases hc.apart hat with ⟨-, rfl⟩ | hle | hle
    · exact hfree
    · omega
    · omega
  | extend xs b more hfree hn hmore =>
    have hb := b.size_pos
    have hat : LaidAt Block.size a (xs ++ [b]) (layEnd Block.size a xs) b :=
      laidAt_append.mpr (.inr (.inl ⟨rfl, rfl⟩))
    rcases hc.apart hat with ⟨-, rfl⟩ | hle | hle
    · exact hfree
    · omega
    · omega
  | fresh xs b hlow hb hn htop =>
    have := hc.bounds.2
    omega

end Alloc

section Release

variable {bs' : List Block}

/-- What holds between the two merges: only the freed block may be beside a free one, below it. -/
structure Loose (xs : List Block) (d : Block) (ys : List Block) : Prop where
  free : d.used = false
  below : xs.IsChain Packed
  above : ys.IsChain Packed
  next : ∀ y ∈ ys.head?, y.used = true
  top : ∀ b ∈ ([d] ++ ys).getLast?, 2 ≤ b.units

theorem Kept.loose (hk : Kept (xs ++ [b] ++ ys)) :
    Loose xs (mergeUp (b.mark false) ys).1 (mergeUp (b.mark false) ys).2 := by
  obtain ⟨hxs, hys⟩ := hk.chains
  cases ys with
  | nil =>
    refine ⟨rfl, hxs, .nil, by simp [mergeUp], hk.top_splice fun _ c hc => ?_⟩
    obtain rfl : b.mark false = c := by simpa [mergeUp] using hc
    exact hk.top b (by simp)
  | cons c ys =>
    by_cases hc : c.used = true
    · rw [mergeUp, if_pos hc]
      exact ⟨rfl, hxs, hys, by simpa using hc, hk.top_splice (by simp)⟩
    · rw [Bool.not_eq_true] at hc
      have hk' : Kept (xs ++ [b] ++ [c] ++ ys) := by simpa using hk
      simp only [mergeUp, hc, Bool.false_eq_true, if_false]
      refine ⟨rfl, hxs, hk'.chains.2, (hk'.beside hc).2, hk'.top_splice fun _ d hd => ?_⟩
      obtain rfl : (b.mark false).join c = d := by simpa using hd
      have hb := b.pos
      have hc' := c.pos
      simp only [Block.join, Block.units_mark]
      omega

theorem Loose.kept {d : Block} (h : Loose xs d ys) (hx : ∀ x ∈ xs.getLast?, x.used = true) :
    Kept (xs ++ [d] ++ ys) :=
  .between h.below (by simp) h.above (fun x hx' _ _ => .inl (hx x hx')) h.next (by simp) h.top

/-- `free` leaves no two free blocks beside each other. -/
theorem Release.kept (h : Release xs b ys bs') (hk : Kept (xs ++ [b] ++ ys)) : Kept bs' := by
  have hl := hk.loose
  cases h with
  | alone hx => exact hl.kept hx
  | below xs' w hw hfree =>
    subst hw
    have hchain := hl.below
    rw [List.isChain_append] at hchain
    have hw : ∀ x ∈ xs'.getLast?, x.used = true := by
      intro x hx
      simpa [Packed, hfree] using hchain.2.2 x hx w (by simp)
    refine Loose.kept ⟨rfl, hchain.1, hl.above, hl.next, fun c hc => ?_⟩ hw
    by_cases hys : (mergeUp (b.mark false) ys).2 = []
    · rw [hys] at hc
      obtain rfl : w.join (mergeUp (b.mark false) ys).1 = c := by simpa using hc
      have := hl.top (mergeUp (b.mark false) ys).1 (by rw [hys]; simp)
      simp only [Block.join]
      omega
    · rw [List.getLast?_append_of_ne_nil _ hys] at hc
      exact hl.top c (by rw [List.getLast?_append_of_ne_nil _ hys]; exact hc)

theorem Block.join_room (b c : Block) (a : Nat) :
    layEnd Block.size a [b.join c] = layEnd Block.size a [b, c] := by
  simp only [layEnd_cons, layEnd_nil, Block.size_eq, Block.join]
  omega

theorem mergeUp_room : layEnd Block.size a ([(mergeUp b ys).1] ++ (mergeUp b ys).2) =
    layEnd Block.size a ([b] ++ ys) := by
  cases ys with
  | nil => rfl
  | cons c ys =>
    by_cases hc : c.used = true
    · simp [mergeUp, hc]
    · have hroom := Block.join_room b c a
      simp only [mergeUp, if_neg hc]
      rw [layEnd_append, hroom]
      rfl

theorem mergeUp_free : (mergeUp (b.mark false) ys).1.used = false := by
  cases ys with
  | nil => rfl
  | cons c ys => by_cases hc : c.used = true <;> simp [mergeUp, hc, Block.join]

theorem mergeUp_stays (hc : LaidAt Block.size a (xs ++ [b] ++ ys) t c) (hused : c.used = true)
    (ht : t ≠ layEnd Block.size a xs) :
    LaidAt Block.size a
      (xs ++ [(mergeUp (b.mark false) ys).1] ++ (mergeUp (b.mark false) ys).2) t c := by
  have hmark : LaidAt Block.size a (xs ++ [b.mark false] ++ ys) t c :=
    hc.splice (by simp [ht]) fun _ => rfl
  cases ys with
  | nil => exact hmark
  | cons d ys =>
    by_cases hd : d.used = true
    · simpa only [mergeUp, hd, if_true] using hmark
    · have hmid : LaidAt Block.size a (xs ++ [b.mark false, d] ++ ys) t c := by simpa using hmark
      have hne : c ≠ d := by
        rintro rfl
        exact hd hused
      simp only [mergeUp, if_neg hd]
      exact hmid.splice (by simp [ht, hne]) fun a => Block.join_room _ _ a

theorem Release.room (h : Release xs b ys bs') :
    layEnd Block.size a bs' = layEnd Block.size a (xs ++ [b] ++ ys) := by
  have hmark : layEnd Block.size (layEnd Block.size a xs) ([b.mark false] ++ ys) =
      layEnd Block.size (layEnd Block.size a xs) ([b] ++ ys) := rfl
  cases h with
  | alone hx => rw [List.append_assoc, layEnd_append, mergeUp_room, hmark, ← layEnd_append,
      List.append_assoc]
  | below xs' w hw hfree =>
    subst hw
    rw [layEnd_append, layEnd_append xs', Block.join_room, ← layEnd_append, ← layEnd_append]
    have happ : xs' ++ ([w, (mergeUp (b.mark false) ys).1] ++ (mergeUp (b.mark false) ys).2) =
        (xs' ++ [w]) ++ ([(mergeUp (b.mark false) ys).1] ++ (mergeUp (b.mark false) ys).2) := by
      simp
    rw [happ, layEnd_append, mergeUp_room, hmark, ← layEnd_append, List.append_assoc (xs' ++ [w])]

theorem Release.stays (h : Release xs b ys bs') (hc : LaidAt Block.size a (xs ++ [b] ++ ys) t c)
    (hused : c.used = true) (ht : t ≠ layEnd Block.size a xs) : LaidAt Block.size a bs' t c := by
  have hup := mergeUp_stays hc hused ht
  cases h with
  | alone hx => exact hup
  | below xs' w hw hfree =>
    subst hw
    rw [List.append_assoc xs'] at hup
    refine hup.splice (fun hat => ?_) fun a => Block.join_room _ _ a
    have hmem := hat.mem
    simp only [List.singleton_append, List.mem_cons, List.not_mem_nil, or_false] at hmem
    rcases hmem with rfl | rfl
    · rw [hfree] at hused
      contradiction
    · rw [mergeUp_free] at hused
      contradiction

end Release

end OsPaging.User
