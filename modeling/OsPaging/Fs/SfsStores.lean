import OsPaging.Fs.SfsVolume

/-!
# Stores into an SFS volume

The stores that the code makes into the image of a volume, and what each does to the accounts and
to the files: a block is mapped into a file (its inode or its indirect block is stored, and the
new block is zero), data are stored into a mapped block, blocks are unmapped, the head of an inode
is changed. In every case the other files keep all they own.
-/

namespace OsPaging.Fs

open OsPaging.Lib Function

variable {N : Nat} {D D' : Nat → Bytes} {F F' : Nat → Bool} {L : Nat → Prop}
  {i j k b pos v w : Nat} {X : Bytes}

/-! ## The fields of an inode after a store -/

@[simp] theorem sfiSize_setDirect : sfiSize (setWord X (2 + k) v) = sfiSize X :=
  word_setWord_of_ne (by omega)

@[simp] theorem sfiType_setDirect : sfiType (setWord X (2 + k) v) = sfiType X :=
  half_setWord_of_ne (by omega)

@[simp] theorem sfiLinkcount_setDirect : sfiLinkcount (setWord X (2 + k) v) = sfiLinkcount X :=
  half_setWord_of_ne (by omega)

theorem sfiDirect_setDirect (hv : v < 4294967296) :
    sfiDirect (setWord X (2 + k) v) = update (sfiDirect X) k v := by
  funext l
  unfold sfiDirect
  by_cases hl : l = k
  · rw [hl, update_self, word_setWord_self, Nat.mod_eq_of_lt hv]
  · rw [update_of_ne hl, word_setWord_of_ne (by omega)]

theorem sfiIndirect_setDirect (hk : k < 15) :
    sfiIndirect (setWord X (2 + k) v) = sfiIndirect X :=
  word_setWord_of_ne (by omega)

@[simp] theorem sfiSize_setIndirect : sfiSize (setWord X 17 v) = sfiSize X :=
  word_setWord_of_ne (by decide)

@[simp] theorem sfiType_setIndirect : sfiType (setWord X 17 v) = sfiType X :=
  half_setWord_of_ne (by decide)

@[simp] theorem sfiLinkcount_setIndirect : sfiLinkcount (setWord X 17 v) = sfiLinkcount X :=
  half_setWord_of_ne (by decide)

theorem sfiDirect_setIndirect (hk : k < 15) :
    sfiDirect (setWord X 17 v) k = sfiDirect X k :=
  word_setWord_of_ne (by omega)

theorem sfiIndirect_setIndirect (hv : v < 4294967296) : sfiIndirect (setWord X 17 v) = v := by
  unfold sfiIndirect
  rw [word_setWord_self, Nat.mod_eq_of_lt hv]

/-! ## The block map after a store -/

theorem sfsBlockAt_update_inode (hne : sfiIndirect X ≠ i) :
    sfsBlockAt (update D i X) i k = if k < 15 then sfiDirect X k
      else if k < 143 ∧ sfiIndirect X ≠ 0 then word (D (sfiIndirect X)) (k - 15) else 0 := by
  unfold sfsBlockAt
  rw [update_self, update_of_ne hne]

theorem sfsBlockAt_update_indirect (h0 : sfiIndirect (D i) ≠ 0) (hne : sfiIndirect (D i) ≠ i) :
    sfsBlockAt (update D (sfiIndirect (D i)) X) i k = if k < 15 then sfiDirect (D i) k
      else if k < 143 then word X (k - 15) else 0 := by
  unfold sfsBlockAt
  rw [update_of_ne hne.symm, update_self]
  simp [h0]

theorem sfsBlockAt_update_data (hi : b ≠ i) (hind : b ≠ sfiIndirect (D i)) :
    sfsBlockAt (update D b X) i = sfsBlockAt D i :=
  sfsBlockAt_congr (update_of_ne hi.symm _ _) fun _ => update_of_ne hind.symm _ _

/-! ## Bytes after a store -/

/-- A new block of zeros is not seen in the bytes of the file. -/
theorem sfsByte_of_assign (hblk : sfsBlockAt D' i = update (sfsBlockAt D i) k b)
    (hk : sfsBlockAt D i k = 0) (hb : D' b = zeros)
    (hdata : ∀ l, sfsBlockAt D i l ≠ 0 → D' (sfsBlockAt D i l) = D (sfsBlockAt D i l)) :
    sfsByte D' i = sfsByte D i := by
  funext pos
  unfold sfsByte
  rw [hblk]
  by_cases hp : pos / 512 = k
  · rw [hp, update_self, hk, if_pos rfl, hb]
    exact ite_self _
  · grind

theorem sfsByte_of_blocks (hblk : sfsBlockAt D' i = sfsBlockAt D i)
    (hdata : ∀ l, sfsBlockAt D i l ≠ 0 → D' (sfsBlockAt D i l) = D (sfsBlockAt D i l)) :
    sfsByte D' i = sfsByte D i := by
  funext pos
  unfold sfsByte
  rw [hblk]
  split_ifs with h0
  · rfl
  · rw [hdata _ h0]

theorem sfsFile_ext (hsize : sfiSize (D' i) = sfiSize (D i))
    (htype : sfiType (D' i) = sfiType (D i))
    (hlinks : sfiLinkcount (D' i) = sfiLinkcount (D i)) (hbyte : sfsByte D' i = sfsByte D i) :
    sfsFile D' i = sfsFile D i := by
  unfold sfsFile
  rw [hsize, htype, hlinks, hbyte]

/-- How an image changes when a call works on file `i`: the accounts stay exact, and the other
files are untouched. -/
structure SfsChange (N : Nat) (L : Nat → Prop) (i : Nat) (D : Nat → Bytes) (D' : Nat → Bytes)
    (F' : Nat → Bool) : Prop where
  volume : SfsVolume N D' F' L
  others : ∀ j, L j → j ≠ i → SfsSame D D' j

namespace SfsVolume

variable (h : SfsVolume N D F L)
include h

theorem lt_of_free (hb : F b = false) (hlt : b < sfsFreemapbits N) : b < 4294967296 := by
  have := (h.dataBlock_of_free hb hlt).2.1
  have := h.bound
  omega

theorem ne_of_free (hi : L i) (hb : F b = false) : b ≠ i := by
  rintro rfl
  exact h.not_owns_of_free hi hb .self

/-- The other files after a new block was cleared and a block of file `i` was stored. -/
theorem same_of_clear (hi : L i) (hb : F b = false) {c : Nat} (hc : SfsOwns D i c) (hj : L j)
    (hne : j ≠ i) : SfsSame D (update (update D b zeros) c X) j := by
  have h1 : SfsSame D (update D b zeros) j := sfsSame_update (h.not_owns_of_free hj hb)
  refine h1.trans (sfsSame_update fun hcj => hne ?_)
  exact h.owner_unique hj hi (h1.owns.mp hcj) hc

/-- The data of file `i` after a new block was cleared and its inode or indirect block stored. -/
theorem data_of_clear (hi : L i) (hb : F b = false) {c : Nat}
    (hc : c = i ∨ c = sfiIndirect (D i)) (l : Nat) (hl : sfsBlockAt D i l ≠ 0) :
    update (update D b zeros) c X (sfsBlockAt D i l) = D (sfsBlockAt D i l) := by
  have hne : sfsBlockAt D i l ≠ c := by
    rcases hc with rfl | rfl
    · exact h.blockAt_ne hi hi hl
    · exact h.blockAt_ne_indirect hi hi hl
  have hnb : sfsBlockAt D i l ≠ b := by
    intro hlb
    exact h.not_owns_of_free hi hb (hlb ▸ SfsOwns.data hl)
  rw [update_of_ne hne, update_of_ne hnb]

/-- A store into the inode that keeps the pointer to the indirect block. -/
theorem blockAt_store (hi : L i) (hind : sfiIndirect X = sfiIndirect (D i))
    (hkeep : sfiIndirect (D i) ≠ 0 → D' (sfiIndirect (D i)) = D (sfiIndirect (D i))) :
    sfsBlockAt (update D' i X) i k = if k < 15 then sfiDirect X k else sfsBlockAt D i k := by
  rw [sfsBlockAt, sfsBlockAt, update_self, hind]
  by_cases hk : k < 15
  · rw [if_pos hk, if_pos hk]
  · rw [if_neg hk, if_neg hk, if_neg hk]
    by_cases hi0 : sfiIndirect (D i) = 0
    · simp [hi0]
    · rw [update_of_ne (h.indirect_ne hi hi hi0), hkeep hi0]

theorem blockAt_setDirect (hi : L i) (hk : k < 15) (hv : v < 4294967296)
    (hkeep : sfiIndirect (D i) ≠ 0 → D' (sfiIndirect (D i)) = D (sfiIndirect (D i))) :
    sfsBlockAt (update D' i (setWord (D i) (2 + k) v)) i = update (sfsBlockAt D i) k v := by
  funext l
  rw [h.blockAt_store hi (sfiIndirect_setDirect hk) hkeep, sfiDirect_setDirect hv]
  by_cases hl : l = k
  · rw [hl, if_pos hk, update_self, update_self]
  · rw [update_of_ne hl, update_of_ne hl]
    by_cases hl' : l < 15
    · rw [if_pos hl', sfsBlockAt, if_pos hl']
    · rw [if_neg hl']

theorem of_same_blocks (hs : ∀ j, L j → j ≠ i → SfsSame D D' j)
    (hblk : sfsBlockAt D' i = sfsBlockAt D i) (hind : sfiIndirect (D' i) = sfiIndirect (D i)) :
    SfsVolume N D' F L := by
  refine ⟨h.bound, h.accounts.congr fun r c => ?_, h.rest⟩
  by_cases hr : r.file = i
  · cases r with
    | inode j => exact Iff.rfl
    | indirect j =>
      obtain rfl : j = i := hr
      simp only [SfsNames, hind]
    | data j l =>
      obtain rfl : j = i := hr
      simp only [SfsNames, hblk]
  · exact sfsNames_of_others hs hr

section

variable (hi : L i) (hb : F b = false) (hlt : b < sfsFreemapbits N)
include hi hb hlt

theorem mapDirect (hk : k < 15) (h0 : sfiDirect (D i) k = 0) (hX : X = setWord (D i) (2 + k) b) :
    SfsChange N L i D (update (update D b zeros) i X) (update F b true) ∧
      sfsBlockAt (update (update D b zeros) i X) i = update (sfsBlockAt D i) k b ∧
      sfsFile (update (update D b zeros) i X) i = sfsFile D i := by
  subst hX
  have hv := h.lt_of_free hb hlt
  have hbi := h.ne_of_free hi hb
  have hk0 : sfsBlockAt D i k = 0 := by
    rw [sfsBlockAt, if_pos hk]
    exact h0
  have hind := sfiIndirect_setDirect (X := D i) (v := b) hk
  have hblk : sfsBlockAt (update (update D b zeros) i (setWord (D i) (2 + k) b)) i =
      update (sfsBlockAt D i) k b := by
    refine h.blockAt_setDirect hi hk hv fun hi0 => update_of_ne (fun hib => ?_) _ _
    exact h.not_owns_of_free hi hb (hib ▸ SfsOwns.indirect hi0)
  have hs : ∀ j, L j → j ≠ i → SfsSame D _ j := fun j hj hne =>
    h.same_of_clear (X := setWord (D i) (2 + k) b) hi hb .self hj hne
  refine ⟨⟨?_, hs⟩, hblk, ?_⟩
  · refine h.assignData hi hb hlt hs hblk hk0 ?_
    rw [update_self, hind]
  · refine sfsFile_ext ?_ ?_ ?_ ?_
    · rw [update_self, sfiSize_setDirect]
    · rw [update_self, sfiType_setDirect]
    · rw [update_self, sfiLinkcount_setDirect]
    · refine sfsByte_of_assign hblk hk0 ?_ (h.data_of_clear hi hb (.inl rfl))
      rw [update_of_ne hbi, update_self]

/-- A free block is cleared and becomes the indirect block. -/
theorem mapIndirect (h0 : sfiIndirect (D i) = 0) (hX : X = setWord (D i) 17 b) :
    SfsChange N L i D (update (update D b zeros) i X) (update F b true) ∧
      sfsBlockAt (update (update D b zeros) i X) i = sfsBlockAt D i ∧
      sfsFile (update (update D b zeros) i X) i = sfsFile D i := by
  subst hX
  have hv := h.lt_of_free hb hlt
  have hbi := h.ne_of_free hi hb
  have hind := sfiIndirect_setIndirect (X := D i) hv
  have hblk : sfsBlockAt (update (update D b zeros) i (setWord (D i) 17 b)) i =
      sfsBlockAt D i := by
    funext l
    rw [sfsBlockAt_update_inode (by rwa [hind]), hind, sfsBlockAt, h0]
    by_cases hl : l < 15
    · rw [if_pos hl, if_pos hl, sfiDirect_setIndirect hl]
    · rw [if_neg hl, if_neg hl, update_self, word_zeros]
      simp
  have hs : ∀ j, L j → j ≠ i → SfsSame D _ j := fun j hj hne =>
    h.same_of_clear (X := setWord (D i) 17 b) hi hb .self hj hne
  refine ⟨⟨?_, hs⟩, hblk, ?_⟩
  · refine h.assignIndirect hi hb hlt hs hblk h0 ?_
    rw [update_self, hind]
  · refine sfsFile_ext ?_ ?_ ?_ (sfsByte_of_blocks hblk (h.data_of_clear hi hb (.inl rfl)))
    · rw [update_self, sfiSize_setIndirect]
    · rw [update_self, sfiType_setIndirect]
    · rw [update_self, sfiLinkcount_setIndirect]

/-- A free block is cleared and put into the indirect block. -/
theorem mapLeaf (hk : 15 ≤ k) (hk' : k < 143) (hind : sfiIndirect (D i) ≠ 0)
    (h0 : sfsBlockAt D i k = 0) (hX : X = setWord (D (sfiIndirect (D i))) (k - 15) b) :
    SfsChange N L i D (update (update D b zeros) (sfiIndirect (D i)) X) (update F b true) ∧
      sfsBlockAt (update (update D b zeros) (sfiIndirect (D i)) X) i =
        update (sfsBlockAt D i) k b ∧
      sfsFile (update (update D b zeros) (sfiIndirect (D i)) X) i = sfsFile D i := by
  subst hX
  have hv := h.lt_of_free hb hlt
  have hbi := h.ne_of_free hi hb
  have hne := h.indirect_ne hi hi hind
  have hnb : b ≠ sfiIndirect (D i) := fun hib =>
    h.not_owns_of_free hi hb (hib ▸ SfsOwns.indirect hind)
  have hD : update D b zeros i = D i := update_of_ne hbi.symm _ _
  have hblk : sfsBlockAt (update (update D b zeros) (sfiIndirect (D i))
      (setWord (D (sfiIndirect (D i))) (k - 15) b)) i = update (sfsBlockAt D i) k b := by
    funext l
    have hu := sfsBlockAt_update_indirect (D := update D b zeros) (i := i) (k := l)
      (X := setWord (D (sfiIndirect (D i))) (k - 15) b) (by rwa [hD]) (by rwa [hD])
    rw [hD] at hu
    rw [hu]
    by_cases hl : l = k
    · rw [hl, update_self, if_neg (by omega), if_pos hk', word_setWord_self, Nat.mod_eq_of_lt hv]
    · rw [update_of_ne hl, sfsBlockAt]
      by_cases hl1 : l < 15
      · rw [if_pos hl1, if_pos hl1]
      · rw [if_neg hl1, if_neg hl1, word_setWord_of_ne (by omega)]
        simp [hind]
  have hs : ∀ j, L j → j ≠ i → SfsSame D _ j := fun j hj hne =>
    h.same_of_clear (X := setWord (D (sfiIndirect (D i))) (k - 15) b) hi hb (.indirect hind)
      hj hne
  have hi' : update (update D b zeros) (sfiIndirect (D i))
      (setWord (D (sfiIndirect (D i))) (k - 15) b) i = D i := by
    rw [update_of_ne hne.symm, hD]
  refine ⟨⟨?_, hs⟩, hblk, ?_⟩
  · exact h.assignData hi hb hlt hs hblk h0 (by rw [hi'])
  · refine sfsFile_ext ?_ ?_ ?_ ?_
    · rw [hi']
    · rw [hi']
    · rw [hi']
    · refine sfsByte_of_assign hblk h0 ?_ (h.data_of_clear hi hb (.inr rfl))
      rw [update_of_ne hnb, update_self]

end

theorem store (hi : L i) (h0 : sfsBlockAt D i k ≠ 0) :
    SfsChange N L i D (update D (sfsBlockAt D i k) X) F ∧
      sfsBlockAt (update D (sfsBlockAt D i k) X) i = sfsBlockAt D i ∧
      update D (sfsBlockAt D i k) X i = D i ∧
      ∀ pos, sfsByte (update D (sfsBlockAt D i k) X) i pos =
        if pos / 512 = k then X (pos % 512) else sfsByte D i pos := by
  have hne := h.blockAt_ne hi hi h0
  have hblk : sfsBlockAt (update D (sfsBlockAt D i k) X) i = sfsBlockAt D i :=
    sfsBlockAt_update_data hne (h.blockAt_ne_indirect hi hi h0)
  have hs : ∀ j, L j → j ≠ i → SfsSame D (update D (sfsBlockAt D i k) X) j :=
    fun j hj hji => h.same_of_owns hi (.data h0) hj hji
  refine ⟨⟨h.of_same_blocks hs hblk (by rw [update_of_ne hne.symm]), hs⟩, hblk,
    update_of_ne hne.symm _ _, fun pos => ?_⟩
  unfold sfsByte
  rw [hblk]
  by_cases hp : pos / 512 = k
  · rw [hp, if_neg h0, if_pos rfl, update_self]
  · rw [if_neg hp]
    by_cases hp0 : sfsBlockAt D i (pos / 512) = 0
    · rw [if_pos hp0, if_pos hp0]
    · have hpk : sfsBlockAt D i (pos / 512) ≠ sfsBlockAt D i k := fun he =>
        hp (h.blockAt_inj hi h0 he)
      rw [if_neg hp0, if_neg hp0, update_of_ne hpk]

/-- The head of an inode changes; it maps the same blocks. -/
theorem storeHead (hi : L i) (hd : ∀ k, k < 15 → sfiDirect X k = sfiDirect (D i) k)
    (hind : sfiIndirect X = sfiIndirect (D i)) :
    SfsChange N L i D (update D i X) F ∧ sfsBlockAt (update D i X) i = sfsBlockAt D i ∧
      sfsByte (update D i X) i = sfsByte D i := by
  have hblk : sfsBlockAt (update D i X) i = sfsBlockAt D i := by
    funext l
    rw [h.blockAt_store hi hind fun _ => rfl]
    by_cases hl : l < 15
    · rw [if_pos hl, hd l hl, sfsBlockAt, if_pos hl]
    · rw [if_neg hl]
  have hs : ∀ j, L j → j ≠ i → SfsSame D (update D i X) j :=
    fun j hj hji => h.same_of_owns hi .self hj hji
  refine ⟨⟨h.of_same_blocks hs hblk (by rw [update_self, hind]), hs⟩, hblk, ?_⟩
  exact sfsByte_of_blocks hblk fun l hl => update_of_ne (h.blockAt_ne hi hi hl) _ _

theorem unmapDirect (hi : L i) (hk : k < 15) (h0 : sfiDirect (D i) k ≠ 0)
    (hX : X = setWord (D i) (2 + k) 0) :
    SfsChange N L i D (update D i X) (update F (sfiDirect (D i) k) false) ∧
      sfsBlockAt (update D i X) i = update (sfsBlockAt D i) k 0 := by
  subst hX
  have hind := sfiIndirect_setDirect (X := D i) (v := 0) hk
  have hblk : sfsBlockAt (update D i (setWord (D i) (2 + k) 0)) i =
      update (sfsBlockAt D i) k 0 :=
    h.blockAt_setDirect hi hk (by decide) fun _ => rfl
  have hs : ∀ j, L j → j ≠ i → SfsSame D (update D i (setWord (D i) (2 + k) 0)) j :=
    fun j hj hji => h.same_of_owns hi .self hj hji
  have hk' : sfsBlockAt D i k = sfiDirect (D i) k := by rw [sfsBlockAt, if_pos hk]
  refine ⟨⟨h.release (S := fun l => l = k) (T := False) hi hs ?_ ?_ False.elim ?_ ?_, hs⟩, hblk⟩
  · rintro l rfl
    rw [hblk, update_self]
  · intro l hl
    rw [hblk, update_of_ne hl]
  · intro _
    rw [update_self, hind]
  · grind

/-- Slots of the indirect block are cleared and their blocks freed. -/
theorem unmapLeaves {S : Nat → Prop} (F' : Nat → Bool) (hi : L i) (hind : sfiIndirect (D i) ≠ 0)
    (hS : ∀ k, S k → 15 ≤ k ∧ k < 143) (hgone : ∀ k, S k → word X (k - 15) = 0)
    (hkept : ∀ k, 15 ≤ k → k < 143 → ¬S k →
      word X (k - 15) = word (D (sfiIndirect (D i))) (k - 15))
    (hF : ∀ b, F' b = true ↔ F b = true ∧ ¬(b ≠ 0 ∧ ∃ k, S k ∧ sfsBlockAt D i k = b)) :
    SfsChange N L i D (update D (sfiIndirect (D i)) X) F' := by
  have hne := h.indirect_ne hi hi hind
  have hs : ∀ j, L j → j ≠ i → SfsSame D (update D (sfiIndirect (D i)) X) j :=
    fun j hj hji => h.same_of_owns hi (.indirect hind) hj hji
  refine ⟨h.release (S := S) (T := False) hi hs ?_ ?_ False.elim ?_ ?_, hs⟩
  · intro k hk
    obtain ⟨h15, h143⟩ := hS k hk
    rw [sfsBlockAt_update_indirect hind hne, if_neg (by omega), if_pos h143, hgone k hk]
  · intro k hk
    rw [sfsBlockAt_update_indirect hind hne, sfsBlockAt]
    grind
  · intro _
    rw [update_of_ne hne.symm]
  · intro b
    rw [hF b]
    simp

/-- All slots of the indirect block are cleared and their blocks freed, and so is the indirect
block itself. -/
theorem unmapIndirect (F' : Nat → Bool) (hi : L i) (hX : X = setWord (D i) 17 0)
    (hF : ∀ b, F' b = true ↔ F b = true ∧
      ¬(b ≠ 0 ∧ (sfiIndirect (D i) = b ∨ ∃ k, 15 ≤ k ∧ sfsBlockAt D i k = b))) :
    SfsChange N L i D (update D i X) F' ∧
      ∀ k, sfsBlockAt (update D i X) i k = if k < 15 then sfsBlockAt D i k else 0 := by
  subst hX
  have hind : sfiIndirect (setWord (D i) 17 0) = 0 := sfiIndirect_setIndirect (by decide)
  have hblk : ∀ k, sfsBlockAt (update D i (setWord (D i) 17 0)) i k =
      if k < 15 then sfsBlockAt D i k else 0 := by
    intro k
    rw [sfsBlockAt, update_self, hind]
    by_cases hk : k < 15
    · rw [if_pos hk, if_pos hk, sfiDirect_setIndirect hk, sfsBlockAt, if_pos hk]
    · simp [hk]
  have hs : ∀ j, L j → j ≠ i → SfsSame D (update D i (setWord (D i) 17 0)) j :=
    fun j hj hji => h.same_of_owns hi .self hj hji
  refine ⟨⟨h.release (S := fun k => 15 ≤ k) (T := True) hi hs ?_ ?_ ?_ (by simp) ?_, hs⟩, hblk⟩
  · intro k hk
    rw [hblk k, if_neg (by omega)]
  · intro k hk
    rw [hblk k, if_pos (by omega)]
  · intro _
    rw [update_self, hind]
  · intro b
    rw [hF b]
    simp

end SfsVolume

end OsPaging.Fs
