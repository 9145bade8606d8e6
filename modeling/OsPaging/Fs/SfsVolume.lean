import OsPaging.Fs.Sfs
import OsPaging.Lib.Accounts

/-!
# SFS volumes

What an SFS volume is, over a plain disk image `D : Nat → Bytes`: the blocks of a file, its bytes,
and the exact accounts of a volume with freemap `F` and the inodes `L` in it (`SfsVolume`).

A block can be named as an inode, as an indirect block or as a data block of a file (`SfsRef`).
What one inode owns is the inode's own block and the blocks it names (`SfsOwns`). Two images that
agree on what an inode owns hold the same file there (`SfsSame`), and as no block is owned twice a
store into a block changes one file only. Each change that the code makes to an image is a lemma
about `SfsVolume`: a block is given to a file, blocks are taken from it, an inode comes or goes.
-/

namespace OsPaging.Fs

open OsPaging.Lib Function

variable {r : SfsRef}

/-! ## Files in an image -/

/-- The disk block that holds block `k` of file `i`, 0 if there is none. -/
def sfsBlockAt (D : Nat → Bytes) (i k : Nat) : Nat :=
  if k < 15 then sfiDirect (D i) k
  else if k < 143 ∧ sfiIndirect (D i) ≠ 0 then word (D (sfiIndirect (D i))) (k - 15)
  else 0

/-- The byte at `pos` of file `i`, 0 where no block is mapped. -/
def sfsByte (D : Nat → Bytes) (i pos : Nat) : UInt8 :=
  if sfsBlockAt D i (pos / 512) = 0 then 0 else D (sfsBlockAt D i (pos / 512)) (pos % 512)

/-- A file: what its inode says, and its bytes. -/
structure SfsFile where
  size : Nat
  type : Nat
  links : Nat
  bytes : Nat → UInt8

/-- The file with inode `i`. -/
def sfsFile (D : Nat → Bytes) (i : Nat) : SfsFile where
  size := sfiSize (D i)
  type := sfiType (D i)
  links := sfiLinkcount (D i)
  bytes := sfsByte D i

/-- The blocks of inode `i`. -/
def SfsOwns (D : Nat → Bytes) (i b : Nat) : Prop :=
  b = i ∨ b ≠ 0 ∧ (sfiIndirect (D i) = b ∨ ∃ k, sfsBlockAt D i k = b)

/-- The images agree on the blocks of inode `i`. -/
def SfsSame (D D' : Nat → Bytes) (i : Nat) : Prop := ∀ b, SfsOwns D i b → D' b = D b

variable {D D' D'' : Nat → Bytes} {i j k b pos v w : Nat} {X : Bytes}

theorem SfsOwns.self : SfsOwns D i i := .inl rfl

theorem SfsOwns.indirect (h : sfiIndirect (D i) ≠ 0) : SfsOwns D i (sfiIndirect (D i)) :=
  .inr ⟨h, .inl rfl⟩

theorem SfsOwns.data (h : sfsBlockAt D i k ≠ 0) : SfsOwns D i (sfsBlockAt D i k) :=
  .inr ⟨h, .inr ⟨k, rfl⟩⟩

/-- The block map of a file reads its inode and its indirect block. -/
theorem sfsBlockAt_congr (hi : D' i = D i)
    (hind : sfiIndirect (D i) ≠ 0 → D' (sfiIndirect (D i)) = D (sfiIndirect (D i))) :
    sfsBlockAt D' i = sfsBlockAt D i := by
  funext k
  unfold sfsBlockAt
  grind

theorem sfsBlockAt_of_ge (h : 143 ≤ k) : sfsBlockAt D i k = 0 := by
  rw [sfsBlockAt, if_neg (by omega), if_neg (by omega)]

namespace SfsSame

theorem refl : SfsSame D D i := fun _ _ => rfl

variable (h : SfsSame D D' i)
include h

theorem inode : D' i = D i := h i .self

theorem blockAt : sfsBlockAt D' i = sfsBlockAt D i :=
  sfsBlockAt_congr h.inode fun h0 => h _ (.indirect h0)

theorem owns : SfsOwns D' i b ↔ SfsOwns D i b := by
  unfold SfsOwns
  rw [h.inode, h.blockAt]

theorem trans (h' : SfsSame D' D'' i) : SfsSame D D'' i :=
  fun b hb => (h' b (h.owns.mpr hb)).trans (h b hb)

theorem byte : sfsByte D' i = sfsByte D i := by
  funext pos
  unfold sfsByte
  rw [h.blockAt]
  split_ifs with h0
  · rfl
  · rw [h _ (.data h0)]

theorem file : sfsFile D' i = sfsFile D i := by
  unfold sfsFile
  rw [h.inode, h.byte]

end SfsSame

theorem sfsSame_update (h : ¬SfsOwns D i b) : SfsSame D (update D b X) i := by
  intro c hc
  refine update_of_ne ?_ _ _
  rintro rfl
  exact h hc

/-! ## Accounts -/

/-- The ways in which a block can be named. -/
inductive SfsRef
  | inode (i : Nat)
  | indirect (i : Nat)
  | data (i k : Nat)

/-- The file that a reference belongs to. -/
def SfsRef.file : SfsRef → Nat
  | .inode i => i
  | .indirect i => i
  | .data i _ => i

/-- The block that a reference names, in the image `D` with the inodes `L`. -/
def SfsNames (D : Nat → Bytes) (L : Nat → Prop) : SfsRef → Nat → Prop
  | .inode i, b => L i ∧ b = i
  | .indirect i, b => L i ∧ b ≠ 0 ∧ sfiIndirect (D i) = b
  | .data i k, b => L i ∧ b ≠ 0 ∧ sfsBlockAt D i k = b

/-- The blocks that are neither the superblock, nor in the freemap, nor outside of the volume. -/
def SfsDataBlock (nblocks b : Nat) : Prop :=
  b ≠ 0 ∧ b < nblocks ∧ ¬(2 ≤ b ∧ b < 2 + sfsFreemapblocks nblocks)

/-- **Block accounting is exact**: the data blocks in use are those that an inode of `L` owns,
each in one way; all other bits of the freemap are set. -/
structure SfsVolume (N : Nat) (D : Nat → Bytes) (F : Nat → Bool) (L : Nat → Prop) : Prop where
  bound : N + 4095 < 4294967296
  accounts : Accounts (SfsNames D L) F (SfsDataBlock N)
  rest : ∀ b, b < sfsFreemapbits N → ¬SfsDataBlock N b → F b = true

variable {N : Nat} {F F' : Nat → Bool} {L L' : Nat → Prop}

theorem SfsNames.live (h : SfsNames D L r b) : L r.file := by
  cases r <;> exact h.1

theorem SfsNames.owns (h : SfsNames D L r b) : SfsOwns D r.file b := by
  cases r with
  | inode i => exact .inl h.2
  | indirect i => exact .inr ⟨h.2.1, .inl h.2.2⟩
  | data i k => exact .inr ⟨h.2.1, .inr ⟨k, h.2.2⟩⟩

theorem SfsOwns.names (h : SfsOwns D i b) (hi : L i) :
    ∃ r : SfsRef, r.file = i ∧ SfsNames D L r b := by
  rcases h with rfl | ⟨h0, hind | ⟨k, hk⟩⟩
  · exact ⟨.inode b, rfl, hi, rfl⟩
  · exact ⟨.indirect i, rfl, hi, h0, hind⟩
  · exact ⟨.data i k, rfl, hi, h0, hk⟩

theorem sfsNames_of_same (h : SfsSame D D' r.file) : SfsNames D' L r b ↔ SfsNames D L r b := by
  cases r with
  | inode i => exact Iff.rfl
  | indirect i =>
    have hi : D' i = D i := h.inode
    simp only [SfsNames, hi]
  | data i k =>
    have hi : sfsBlockAt D' i = sfsBlockAt D i := h.blockAt
    simp only [SfsNames, hi]

/-- Files that two images share name the same blocks in both. -/
theorem sfsNames_of_others (hs : ∀ j, L j → j ≠ i → SfsSame D D' j) (hr : r.file ≠ i) :
    SfsNames D' L r b ↔ SfsNames D L r b := by
  constructor
  · intro hb
    exact (sfsNames_of_same (hs _ hb.live hr)).mp hb
  · intro hb
    exact (sfsNames_of_same (hs _ hb.live hr)).mpr hb

/-- The references of file `i` to its blocks `k` with `S k` and, if `T`, to its indirect block. -/
def SfsGone (i : Nat) (S : Nat → Prop) (T : Prop) : SfsRef → Prop
  | .inode _ => False
  | .indirect j => j = i ∧ T
  | .data j k => j = i ∧ S k

theorem SfsGone.file {S : Nat → Prop} {T : Prop} (h : SfsGone i S T r) : r.file = i := by
  cases r with
  | inode j => exact h.elim
  | indirect j => exact h.1
  | data j k => exact h.1

namespace SfsVolume

variable (h : SfsVolume N D F L)
include h

theorem freemapbits : sfsFreemapbits N = (N + 4095) / 4096 * 4096 := by
  have := h.bound
  unfold sfsFreemapbits
  rw [Nat.mod_eq_of_lt (by omega)]

theorem le_freemapbits : N ≤ sfsFreemapbits N := by
  rw [h.freemapbits]
  omega

theorem dataBlock_of_owns (hi : L i) (hb : SfsOwns D i b) : SfsDataBlock N b := by
  obtain ⟨r, -, hr⟩ := hb.names hi
  exact h.accounts.ok_of_names r b hr

theorem used_of_owns (hi : L i) (hb : SfsOwns D i b) : F b = true := by
  obtain ⟨r, -, hr⟩ := hb.names hi
  exact h.accounts.used_of_names hr

theorem dataBlock_of_free (hb : F b = false) (hlt : b < sfsFreemapbits N) : SfsDataBlock N b := by
  by_contra hd
  rw [h.rest b hlt hd] at hb
  exact absurd hb (by decide)

section

variable (hi : L i)
include hi

theorem not_owns_of_free (hb : F b = false) : ¬SfsOwns D i b := by
  intro ho
  rw [h.used_of_owns hi ho] at hb
  exact absurd hb (by decide)

/-- No block has two owners. -/
theorem owner_unique (hj : L j) (hbi : SfsOwns D i b) (hbj : SfsOwns D j b) : i = j := by
  obtain ⟨r, rfl, hr⟩ := hbi.names hi
  obtain ⟨r', rfl, hr'⟩ := hbj.names hj
  rw [h.accounts.inj r r' b hr hr']

theorem indirect_ne (hj : L j) (h0 : sfiIndirect (D i) ≠ 0) : sfiIndirect (D i) ≠ j := by
  intro hij
  have := h.accounts.inj (.indirect i) (.inode j) j ⟨hi, hij ▸ h0, hij⟩ ⟨hj, rfl⟩
  exact SfsRef.noConfusion this

theorem blockAt_ne (hj : L j) (h0 : sfsBlockAt D i k ≠ 0) : sfsBlockAt D i k ≠ j := by
  intro hij
  have := h.accounts.inj (.data i k) (.inode j) j ⟨hi, hij ▸ h0, hij⟩ ⟨hj, rfl⟩
  exact SfsRef.noConfusion this

theorem blockAt_ne_indirect (hj : L j) (h0 : sfsBlockAt D i k ≠ 0) :
    sfsBlockAt D i k ≠ sfiIndirect (D j) := by
  intro hij
  have := h.accounts.inj (.data i k) (.indirect j) _ ⟨hi, h0, rfl⟩ ⟨hj, h0, hij.symm⟩
  exact SfsRef.noConfusion this

theorem blockAt_inj (h0 : sfsBlockAt D i k ≠ 0) (hjk : sfsBlockAt D i j = sfsBlockAt D i k) :
    j = k := by
  have := h.accounts.inj (.data i j) (.data i k) _ ⟨hi, h0, hjk⟩ ⟨hi, h0, rfl⟩
  cases this
  rfl

/-- A store into a block of one file leaves the others alone. -/
theorem same_of_owns (hb : SfsOwns D i b) (hj : L j) (hne : j ≠ i) : SfsSame D (update D b X) j :=
  sfsSame_update fun hbj => hne (h.owner_unique hj hi hbj hb)

end

theorem of_same (hs : ∀ i, L i → SfsSame D D' i) : SfsVolume N D' F L where
  bound := h.bound
  accounts := h.accounts.congr fun r b => by
    constructor
    · intro hr
      exact (sfsNames_of_same (hs _ hr.live)).mp hr
    · intro hr
      exact (sfsNames_of_same (hs _ hr.live)).mpr hr
  rest := h.rest

theorem assign (hb : F b = false) (hlt : b < sfsFreemapbits N)
    (hn : ∀ q c, SfsNames D' L' q c ↔ SfsNames D L q c ∨ q = r ∧ c = b) :
    SfsVolume N D' (update F b true) L' where
  bound := h.bound
  accounts := h.accounts.assign (h.dataBlock_of_free hb hlt) hb hn
  rest c hc hd := by
    by_cases hcb : c = b
    · rw [hcb, update_self]
    · rw [update_of_ne hcb]
      exact h.rest c hc hd

theorem assignData (hi : L i) (hb : F b = false) (hlt : b < sfsFreemapbits N)
    (hs : ∀ j, L j → j ≠ i → SfsSame D D' j)
    (hblk : sfsBlockAt D' i = update (sfsBlockAt D i) k b) (hk : sfsBlockAt D i k = 0)
    (hind : sfiIndirect (D' i) = sfiIndirect (D i)) :
    SfsVolume N D' (update F b true) L := by
  have hd := h.dataBlock_of_free hb hlt
  refine h.assign (r := .data i k) hb hlt fun r c => ?_
  by_cases hr : r.file = i
  · cases r with
    | inode j => simp [SfsNames]
    | indirect j =>
      obtain rfl : j = i := hr
      simp [SfsNames, hind]
    | data j l =>
      obtain rfl : j = i := hr
      by_cases hl : l = k
      · subst hl
        simp only [SfsNames, hblk, update_self, hk, true_and]
        constructor
        · grind
        · rintro (⟨-, h0, rfl⟩ | rfl)
          · exact absurd rfl h0
          · exact ⟨hi, hd.1, rfl⟩
      · simp [SfsNames, hblk, hl]
  · rw [sfsNames_of_others hs hr, or_iff_left]
    rintro ⟨rfl, -⟩
    exact hr rfl

theorem assignIndirect (hi : L i) (hb : F b = false) (hlt : b < sfsFreemapbits N)
    (hs : ∀ j, L j → j ≠ i → SfsSame D D' j) (hblk : sfsBlockAt D' i = sfsBlockAt D i)
    (h0 : sfiIndirect (D i) = 0) (hind : sfiIndirect (D' i) = b) :
    SfsVolume N D' (update F b true) L := by
  have hd := h.dataBlock_of_free hb hlt
  refine h.assign (r := .indirect i) hb hlt fun r c => ?_
  by_cases hr : r.file = i
  · cases r with
    | inode j => simp [SfsNames]
    | indirect j =>
      obtain rfl : j = i := hr
      simp only [SfsNames, hind, h0, true_and]
      constructor
      · rintro ⟨-, -, rfl⟩
        exact .inr rfl
      · rintro (⟨-, h0, rfl⟩ | rfl)
        · exact absurd rfl h0
        · exact ⟨hi, hd.1, rfl⟩
    | data j l =>
      obtain rfl : j = i := hr
      simp [SfsNames, hblk]
  · rw [sfsNames_of_others hs hr, or_iff_left]
    rintro ⟨rfl, -⟩
    exact hr rfl

/-- File `i` gives up its blocks `k` with `S k`, and its indirect block if `T`; the freemap loses
what they were. -/
theorem release {S : Nat → Prop} {T : Prop} (hi : L i)
    (hs : ∀ j, L j → j ≠ i → SfsSame D D' j)
    (hblk : ∀ k, S k → sfsBlockAt D' i k = 0)
    (hkeep : ∀ k, ¬S k → sfsBlockAt D' i k = sfsBlockAt D i k)
    (hind : T → sfiIndirect (D' i) = 0) (hkind : ¬T → sfiIndirect (D' i) = sfiIndirect (D i))
    (hF : ∀ b, F' b = true ↔ F b = true ∧
      ¬(b ≠ 0 ∧ (T ∧ sfiIndirect (D i) = b ∨ ∃ k, S k ∧ sfsBlockAt D i k = b))) :
    SfsVolume N D' F' L where
  bound := h.bound
  accounts := by
    refine Accounts.release (G := SfsGone i S T) h.accounts (fun r c => ?_) fun b hb => ?_
    · by_cases hr : r.file = i
      · cases r with
        | inode j => simp [SfsNames, SfsGone]
        | indirect j =>
          obtain rfl : j = i := hr
          by_cases hT : T
          · simp only [SfsNames, SfsGone, hind hT, hT, and_self, not_true_eq_false, and_false,
              iff_false]
            grind
          · simp [SfsNames, SfsGone, hkind hT, hT]
        | data j l =>
          obtain rfl : j = i := hr
          by_cases hS : S l
          · simp only [SfsNames, SfsGone, hblk l hS, hS, and_self, not_true_eq_false, and_false,
              iff_false]
            grind
          · simp [SfsNames, SfsGone, hkeep l hS, hS]
      · rw [sfsNames_of_others hs hr, and_iff_left]
        exact fun hg => hr hg.file
    · rw [hF b]
      refine and_congr_right fun _ => ?_
      constructor
      · rintro hno (j | j | ⟨j, k⟩) hg hn
        · exact hg
        · obtain ⟨rfl, hT⟩ := hg
          exact hno ⟨hn.2.1, .inl ⟨hT, hn.2.2⟩⟩
        · obtain ⟨rfl, hS⟩ := hg
          exact hno ⟨hn.2.1, .inr ⟨k, hS, hn.2.2⟩⟩
      · rintro hno ⟨h0, ⟨hT, hb⟩ | ⟨k, hS, hb⟩⟩
        · exact hno (.indirect i) ⟨rfl, hT⟩ ⟨hi, h0, hb⟩
        · exact hno (.data i k) ⟨rfl, hS⟩ ⟨hi, h0, hb⟩
  rest b hb hd := by
    refine (hF b).mpr ⟨h.rest b hb hd, ?_⟩
    rintro ⟨h0, ⟨-, rfl⟩ | ⟨k, -, rfl⟩⟩
    · exact hd (h.dataBlock_of_owns hi (.indirect h0))
    · exact hd (h.dataBlock_of_owns hi (.data h0))

theorem forget (hi : L i) (hblk : ∀ k, sfsBlockAt D i k = 0) (hind : sfiIndirect (D i) = 0)
    (hL : ∀ j, L' j ↔ L j ∧ j ≠ i) : SfsVolume N D (update F i false) L' where
  bound := h.bound
  accounts := by
    have hn : SfsNames D L (.inode i) i := ⟨hi, rfl⟩
    refine h.accounts.release_one hn (fun b hb => hb.2) fun r b => ?_
    cases r with
    | inode j => simp only [SfsNames, hL, ne_eq, SfsRef.inode.injEq]; tauto
    | indirect j | data j k =>
      simp only [SfsNames, hL, ne_eq, reduceCtorEq, not_false_eq_true, and_true]
      grind
  rest b hb hd := by
    have hbi : b ≠ i := by
      rintro rfl
      exact hd (h.dataBlock_of_owns hi .self)
    rw [update_of_ne hbi]
    exact h.rest b hb hd

theorem enroll (hb : F i = false) (hlt : i < sfsFreemapbits N)
    (hs : ∀ j, L j → SfsSame D D' j) (hblk : ∀ k, sfsBlockAt D' i k = 0)
    (hind : sfiIndirect (D' i) = 0) (hL : ∀ j, L' j ↔ L j ∨ j = i) :
    SfsVolume N D' (update F i true) L' := by
  have h' := h.of_same hs
  refine h'.assign (r := .inode i) hb hlt fun r b => ?_
  cases r with
  | inode j =>
    simp only [SfsNames, hL, SfsRef.inode.injEq]
    grind
  | indirect j | data j k =>
    simp only [SfsNames, hL, reduceCtorEq, false_and, or_false]
    grind

end SfsVolume

end OsPaging.Fs
