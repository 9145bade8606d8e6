import OsPaging.Fs.SfsRuns
import Mathlib.Data.List.Nodup

/-!
# SFS volumes

Volumes given by the blocks that are in use. `sfsImage` puts a superblock and a freemap around
inodes and data, and `SfsVolume.of_refs` says when the accounts are exact: the references are a list
of different blocks, and the freemap has these and the reserved ones.

`sfsEmpty` is a volume with nothing but its root.
-/

namespace OsPaging.Fs

open OsPaging.Lib Function

variable {N b i k : Nat} {D blocks : Nat → Bytes} {F used : Nat → Bool} {L : Nat → Prop}

/-! ## Freemaps -/

/-- The bitmap with the bits `f`. -/
def bitmapOf (f : Nat → Bool) : Bytes := fun k =>
  UInt8.ofNat (Nat.ofBits fun j : Fin 8 => f (k * 8 + j))

theorem bitmapIsset_bitmapOf {f : Nat → Bool} : bitmapIsset (bitmapOf f) i = f i := by
  have hlt : Nat.ofBits (fun j : Fin 8 => f (i / 8 * 8 + j)) < 2 ^ 8 := Nat.ofBits_lt_two_pow _
  rw [bitmapIsset_eq, bitmapOf, UInt8.toNat_ofNat', Nat.mod_eq_of_lt hlt,
    Nat.testBit_ofBits_lt _ _ (Nat.mod_lt _ (by decide))]
  exact congrArg f (by simp only; omega)

theorem bitmapIsset_congr {v w : Bytes} (h : v (i / 8) = w (i / 8)) :
    bitmapIsset v i = bitmapIsset w i := by
  unfold bitmapIsset
  rw [h]

/-- The blocks that no file may have. -/
def SfsReserved (N b : Nat) : Prop := b = 0 ∨ N ≤ b ∨ 2 ≤ b ∧ b < 2 + sfsFreemapblocks N

instance : Decidable (SfsReserved N b) :=
  inferInstanceAs (Decidable (b = 0 ∨ N ≤ b ∨ 2 ≤ b ∧ b < 2 + sfsFreemapblocks N))

theorem sfsDataBlock_iff : SfsDataBlock N b ↔ ¬SfsReserved N b := by
  unfold SfsDataBlock SfsReserved
  omega

/-- A volume whose references are a list of different blocks. -/
theorem SfsVolume.of_refs (refs : List (SfsRef × Nat)) (hN : N + 4095 < 4294967296)
    (hnames : ∀ r b, SfsNames D L r b ↔ (r, b) ∈ refs) (hinj : (refs.map Prod.snd).Nodup)
    (hok : ∀ e ∈ refs, ¬SfsReserved N e.2)
    (hF : ∀ b < sfsFreemapbits N, F b = true ↔ SfsReserved N b ∨ b ∈ refs.map Prod.snd) :
    SfsVolume N D F L where
  bound := hN
  accounts :=
    { inj := fun r r' b hr hr' => by
        have := List.inj_on_of_nodup_map hinj ((hnames r b).mp hr) ((hnames r' b).mp hr') rfl
        exact congrArg Prod.fst this
      ok_of_names := fun r b hr => sfsDataBlock_iff.mpr (hok _ ((hnames r b).mp hr))
      used_iff := fun b hb => by
        have hlt : b < sfsFreemapbits N := by
          have := hb.2.1
          unfold sfsFreemapbits
          rw [Nat.mod_eq_of_lt (by omega)]
          omega
        rw [hF b hlt, or_iff_right (sfsDataBlock_iff.mp hb), List.mem_map]
        constructor
        · rintro ⟨⟨r, c⟩, hr, rfl⟩
          exact ⟨r, (hnames r c).mpr hr⟩
        · rintro ⟨r, hr⟩
          exact ⟨(r, b), (hnames r b).mp hr, rfl⟩ }
  rest b hlt hb := (hF b hlt).mpr (.inl (not_not.mp fun hr => hb (sfsDataBlock_iff.mpr hr)))

/-! ## Images -/

/-- A volume of `N` blocks with the freemap `used`. -/
def sfsImage (N : Nat) (used : Nat → Bool) (blocks : Nat → Bytes) : Nat → Bytes := fun b =>
  if b = 0 then setWord (setWord zeros 0 0xabadf001) 1 N
  else if 2 ≤ b ∧ b < 2 + sfsFreemapblocks N then fun k => bitmapOf used ((b - 2) * 512 + k)
  else blocks b

theorem sfsImage_of_not_reserved (hb : ¬SfsReserved N b) : sfsImage N used blocks b = blocks b := by
  unfold SfsReserved at hb
  unfold sfsImage
  rw [if_neg (by omega), if_neg (by omega)]

theorem sfsImage_magic : word (sfsImage N used blocks 0) 0 = 0xabadf001 := by
  unfold sfsImage
  rw [if_pos rfl, word_setWord_of_ne (by decide)]
  exact word_setWord_self

theorem sfsNblocks_image (hN : N < 4294967296) : sfsNblocks (sfsImage N used blocks) = N := by
  unfold sfsNblocks sfsImage
  rw [if_pos rfl, word_setWord_self, Nat.mod_eq_of_lt hN]

theorem sfsFreemap_image (hb : b < sfsFreemapbits N) :
    bitmapIsset (sfsFreemapOf (sfsImage N used blocks) (sfsFreemapblocks N)) b = used b := by
  have hbits : sfsFreemapbits N = sfsFreemapblocks N * 4096 := by
    unfold sfsFreemapblocks sfsFreemapbits
    omega
  rw [← bitmapIsset_bitmapOf (f := used)]
  refine bitmapIsset_congr ?_
  unfold sfsFreemapOf sfsImage
  rw [if_pos (by omega), if_neg (by omega), if_pos (by omega)]
  exact congrArg _ (by omega)

/-- An inode with one direct block, or none if `direct` is 0. -/
def sfsInode (type links size direct : Nat) : Bytes :=
  setWord (setWord (setHalf (setHalf zeros 2 type) 3 links) 0 size) 2 direct

section Inode

variable {type links size direct : Nat}

theorem sfiType_inode (h : type < 65536) : sfiType (sfsInode type links size direct) = type := by
  unfold sfiType sfsInode
  rw [half_setWord_of_ne (by decide), half_setWord_of_ne (by decide),
    half_setHalf_of_ne (by decide),
    half_setHalf_self, Nat.mod_eq_of_lt h]

theorem sfiLinkcount_inode (h : links < 65536) :
    sfiLinkcount (sfsInode type links size direct) = links := by
  unfold sfiLinkcount sfsInode
  rw [half_setWord_of_ne (by decide), half_setWord_of_ne (by decide), half_setHalf_self,
    Nat.mod_eq_of_lt h]

theorem sfiSize_inode (h : size < 4294967296) :
    sfiSize (sfsInode type links size direct) = size := by
  unfold sfiSize sfsInode
  rw [word_setWord_of_ne (by decide), word_setWord_self, Nat.mod_eq_of_lt h]

theorem sfiIndirect_inode : sfiIndirect (sfsInode type links size direct) = 0 := by
  unfold sfiIndirect sfsInode
  rw [word_setWord_of_ne (by decide), word_setWord_of_ne (by decide),
    word_setHalf_of_ne (by decide),
    word_setHalf_of_ne (by decide), word_zeros]

theorem sfiDirect_inode (h : direct < 4294967296) :
    sfiDirect (sfsInode type links size direct) k = if k = 0 then direct else 0 := by
  unfold sfiDirect sfsInode
  by_cases hk : k = 0
  · rw [if_pos hk, hk, word_setWord_self, Nat.mod_eq_of_lt h]
  · rw [if_neg hk, word_setWord_of_ne (by omega), word_setWord_of_ne (by omega),
      word_setHalf_of_ne (by omega), word_setHalf_of_ne (by omega), word_zeros]

theorem sfsBlockAt_inode (hD : D i = sfsInode type links size direct) (h : direct < 4294967296) :
    sfsBlockAt D i k = if k = 0 then direct else 0 := by
  by_cases hk : k < 15
  · rw [sfsBlockAt_direct hk, hD, sfiDirect_inode h]
  · rw [sfsBlockAt_none (by omega) (by rw [hD]; exact sfiIndirect_inode), if_neg (by omega)]

end Inode

/-! ## The empty volume -/

/-- A volume with an empty root directory; the other blocks hold what they held. -/
def sfsEmpty (N : Nat) (old : Nat → Bytes) : Nat → Bytes :=
  sfsImage N (fun b => SfsReserved N b ∨ b = 1) (update old 1 (sfsInode 2 1 0 0))

theorem sfsEmpty_root {old : Nat → Bytes} (hN : 2 ≤ N) : sfsEmpty N old 1 = sfsInode 2 1 0 0 := by
  unfold sfsEmpty
  rw [sfsImage_of_not_reserved (by unfold SfsReserved; omega), update_self]

/-- A volume with nothing but an empty root is consistent. -/
theorem SfsConsistent.of_root (hmagic : word (D 0) 0 = 0xabadf001) (hn : sfsNblocks D = N)
    (hN : N + 4095 < 4294967296) (hroom : 2 + sfsFreemapblocks N ≤ N)
    (hroot : D 1 = sfsInode 2 1 0 0)
    (hfree : ∀ b < sfsFreemapbits N, bitmapIsset (sfsFreemapOf D (sfsFreemapblocks N)) b =
      decide (SfsReserved N b ∨ b = 1)) : SfsConsistent D := by
  have hsize : sfiSize (D 1) = 0 := by rw [hroot, sfiSize_inode (by decide)]
  have hslots : sfsSlots D 1 = 0 := by
    unfold sfsSlots
    rw [hsize]
  have hlinks : ∀ i, sfsLinks D 1 i = 0 := fun i => by
    unfold sfsLinks
    rw [hslots]
    rfl
  have hnamed : ∀ i, SfsNamed D i ↔ i = 1 := fun i => by
    unfold SfsNamed
    rw [hlinks]
    simp
  have h1 : ¬SfsReserved N 1 := by
    unfold SfsReserved
    omega
  refine ⟨hmagic, by rw [hn]; exact hroom, ⟨?_, ?_, ?_, ?_⟩, ?_, hlinks 1, fun i _ hi => ?_, ?_⟩
  · rw [hroot, sfiType_inode (by decide)]
  · rw [hsize]
  · rw [hsize]
    decide
  · grind
  · rw [hroot, sfiLinkcount_inode (by decide)]
    decide
  · rw [hlinks] at hi
    exact absurd hi (lt_irrefl 0)
  · rw [hn]
    refine .of_refs [(.inode 1, 1)] hN (fun r b => ?_) (by decide) ?_ fun b hb => ?_
    · cases r with
      | inode i =>
        simp only [SfsNames, hnamed, List.mem_singleton, Prod.mk.injEq, SfsRef.inode.injEq]
        omega
      | indirect i =>
        simp only [SfsNames, hnamed, List.mem_singleton, Prod.mk.injEq, reduceCtorEq, false_and,
          iff_false]
        rintro ⟨rfl, h0, hb⟩
        rw [hroot, sfiIndirect_inode] at hb
        exact h0 hb.symm
      | data i k =>
        simp only [SfsNames, hnamed, List.mem_singleton, Prod.mk.injEq, reduceCtorEq, false_and,
          iff_false]
        rintro ⟨rfl, h0, hb⟩
        rw [sfsBlockAt_inode hroot (by decide), ite_self] at hb
        exact h0 hb.symm
    · simpa using h1
    · rw [hfree b hb]
      simp

theorem sfsEmpty_consistent {old : Nat → Bytes} (hN : N + 4095 < 4294967296)
    (hroom : 2 + sfsFreemapblocks N ≤ N) : SfsConsistent (sfsEmpty N old) :=
  .of_root sfsImage_magic (sfsNblocks_image (by omega)) hN hroom (sfsEmpty_root (by omega))
    fun _ hb => sfsFreemap_image hb

theorem sfsEmpty_sixteen : SfsConsistent (sfsEmpty 16 fun _ => zeros) :=
  sfsEmpty_consistent (by decide) (by decide)

theorem sfsEmpty_sixteen_nblocks : sfsNblocks (sfsEmpty 16 fun _ => zeros) = 16 :=
  sfsNblocks_image (by decide)

/-! ## A large volume -/

/-- The name `a`. -/
def sfsNameA : SfsName := ⟨[97], by decide⟩

/-- The name `b`. -/
def sfsNameB : SfsName := ⟨[98], by decide⟩

/-- The inode of file `a` of the large volume. -/
def sfsLargeA : Bytes := sfsInode 1 1 512 8390661

/-- The directory of the large volume. -/
def sfsLargeDir : Bytes := fun k =>
  if k < 64 then sfsDirentry 2052 sfsNameA k
  else if k < 128 then sfsDirentry 2053 sfsNameB (k - 64)
  else 0

/-- The blocks of the large volume that are not reserved. -/
def sfsLargeBlocks : Nat → Bytes := fun b =>
  if b = 1 then sfsInode 2 1 128 2051
  else if b = 2051 then sfsLargeDir
  else if b = 2052 then sfsLargeA
  else if b = 2053 then sfsInode 1 1 0 0
  else zeros

/-- The references of the large volume. -/
def sfsLargeRefs : List (SfsRef × Nat) :=
  [(.inode 1, 1), (.data 1 0, 2051), (.inode 2052, 2052), (.data 2052 0, 8390661),
    (.inode 2053, 2053)]

/-- A volume of 8392704 blocks with two files: `a` of one block, the 8390661st, and `b` that is
empty. `8390661 * 512` is `2053 * 512` in 32 bits. -/
def sfsLarge : Nat → Bytes :=
  sfsImage 8392704
    (fun b => SfsReserved 8392704 b ∨ b ∈ [1, 2051, 2052, 8390661, 2053]) sfsLargeBlocks

theorem sfsLarge_nblocks : sfsNblocks sfsLarge = 8392704 := sfsNblocks_image (by decide)

theorem sfsLarge_eq (hb : ¬SfsReserved 8392704 b) : sfsLarge b = sfsLargeBlocks b :=
  sfsImage_of_not_reserved hb

theorem sfsLarge_consistent : SfsConsistent sfsLarge := by
  have hroot : sfsLarge 1 = sfsInode 2 1 128 2051 := sfsLarge_eq (by decide)
  have ha : sfsLarge 2052 = sfsInode 1 1 512 8390661 := sfsLarge_eq (by decide)
  have hb : sfsLarge 2053 = sfsInode 1 1 0 0 := sfsLarge_eq (by decide)
  have hslots : sfsSlots sfsLarge 1 = 2 := by decide
  have hino0 : sfsDirIno sfsLarge 1 0 = 2052 := by decide
  have hino1 : sfsDirIno sfsLarge 1 1 = 2053 := by decide
  have hname : sfsDirName sfsLarge 1 0 ≠ sfsDirName sfsLarge 1 1 := by decide
  have hlinks : ∀ i, sfsLinks sfsLarge 1 i =
      (if i = 2053 then 1 else 0) + if i = 2052 then 1 else 0 := by
    intro i
    unfold sfsLinks
    rw [hslots, show List.range 2 = [0, 1] from rfl, List.countP_cons, List.countP_cons,
      List.countP_nil, hino0, hino1]
    simp [eq_comm]
  have hnamed : ∀ i, SfsNamed sfsLarge i ↔ i = 1 ∨ i = 2052 ∨ i = 2053 := by
    intro i
    unfold SfsNamed
    rw [hlinks]
    split_ifs <;> omega
  refine ⟨sfsImage_magic, by rw [sfsLarge_nblocks]; decide, ⟨?_, ?_, ?_, ?_⟩, ?_, ?_,
    fun i _ hi => ?_, ?_⟩
  · rw [hroot, sfiType_inode (by decide)]
  · rw [hroot, sfiSize_inode (by decide)]
  · rw [hroot, sfiSize_inode (by decide)]
    decide
  · grind
  · rw [hroot, sfiLinkcount_inode (by decide)]
    decide
  · rw [hlinks]
    decide
  · rw [hlinks] at hi ⊢
    obtain rfl | rfl : i = 2052 ∨ i = 2053 := by split_ifs at hi <;> omega
    · rw [ha, sfiType_inode (by decide), sfiLinkcount_inode (by decide)]
      exact ⟨rfl, rfl⟩
    · rw [hb, sfiType_inode (by decide), sfiLinkcount_inode (by decide)]
      exact ⟨rfl, rfl⟩
  · rw [sfsLarge_nblocks]
    refine .of_refs sfsLargeRefs (by decide) (fun r b => ?_) (by decide) (by decide) fun b hb => ?_
    · cases r with
      | inode i =>
        simp [SfsNames, hnamed, sfsLargeRefs]
        omega
      | indirect i =>
        simp only [SfsNames, hnamed, sfsLargeRefs]
        refine iff_of_false ?_ (by simp)
        rintro ⟨rfl | rfl | rfl, h0, hi⟩
        · rw [hroot, sfiIndirect_inode] at hi
          exact h0 hi.symm
        · rw [ha, sfiIndirect_inode] at hi
          exact h0 hi.symm
        · rw [hb, sfiIndirect_inode] at hi
          exact h0 hi.symm
      | data i k =>
        simp only [SfsNames, hnamed, sfsLargeRefs]
        constructor
        · rintro ⟨rfl | rfl | rfl, h0, hi⟩
          · rw [sfsBlockAt_inode hroot (by decide)] at hi
            grind
          · rw [sfsBlockAt_inode ha (by decide)] at hi
            grind
          · rw [sfsBlockAt_inode hb (by decide), ite_self] at hi
            exact absurd hi.symm h0
        · simp only [List.mem_cons, Prod.mk.injEq, reduceCtorEq, false_and, SfsRef.data.injEq,
            List.not_mem_nil, or_false, false_or]
          rintro (⟨⟨rfl, rfl⟩, rfl⟩ | ⟨⟨rfl, rfl⟩, rfl⟩)
          · exact ⟨.inl rfl, by decide, (sfsBlockAt_inode hroot (by decide)).trans (if_pos rfl)⟩
          · exact ⟨.inr (.inl rfl), by decide, (sfsBlockAt_inode ha (by decide)).trans (if_pos rfl)⟩
    · unfold sfsLarge
      rw [sfsFreemap_image hb]
      simp [sfsLargeRefs]

end OsPaging.Fs
