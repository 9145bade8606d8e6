import OsPaging.Fs.SfsMapping

/-!
# SFS: what file I/O does

Specifications of `sfs_partialio`, `sfs_blockio` and `sfs_io` over the bytes of a file.

A transfer is made of pieces: a partial block, whole blocks, a partial block. A piece moves all of
its bytes, or it fails and has moved a part of them; so has the whole transfer. `SfsReads` and
`SfsWrites` say what it is to have moved `m` bytes in one direction or the other. That pieces one
after the other add up to a transfer is proved once, for both (`SfsPieces`).

Whole blocks are read and written at a byte offset that is computed in 32 bits, which reaches the
first `2 ^ 23` blocks of the device. The specifications are for volumes that are not larger.
-/

namespace OsPaging.Fs

open OsPaging.Lib Function

open Call (returns_bind andthen_ok returns_bindAssert returns_bindRead returns_bindModify
  returns_pure)

variable {L : Nat → Prop} {s t u : Sfs} {p i k m n len skip : Nat} {X : Bytes}

/-! ## Pieces -/

/-- What a transfer of `len` bytes returns, where `M m` says that `m` bytes were moved and `E` which
errors there are. -/
def SfsTransfers {α : Type} (M : Nat → Sfs → Sfs → Prop) (E : Uio → Nat → Errno → Prop) (len : Nat)
    (s : Sfs) (r : Except Errno α) (t : Sfs) : Prop :=
  ∃ m ≤ len, M m s t ∧ Call.Settled (E s.uio len) (fun _ => m = len) r

/-- The pieces of a transfer for the vnode `p`, in states that satisfy `Q`. -/
structure SfsPieces (p : Nat) (Q : Sfs → Prop) (M : Nat → Sfs → Sfs → Prop)
    (E : Uio → Nat → Errno → Prop) : Prop where
  nothing : ∀ {s}, Q s → M 0 s s
  trans : ∀ {m n s t u}, M m s t → M n t u → M (m + n) s u
  keeps : ∀ {m s t}, Q s → M m s t → m ≤ s.uio.resid → Q t
  offset : ∀ {m s t}, M m s t → t.uio.offset = s.uio.offset + m
  resid : ∀ {m s t}, M m s t → t.uio.resid = s.uio.resid - m
  good : ∀ {m s t}, M m s t → t.uio.good = s.uio.good - m
  grows : ∀ {v w : Uio} {m n e}, E w n e → w.offset = v.offset + m → w.good = v.good - m →
    E v (m + n) e
  later : ∀ {v m n e}, E v m e → E v (m + n) e
  partialio : ∀ {s skip len}, Q s → skip = s.uio.offset % 512 → skip + len ≤ 512 →
    len ≤ s.uio.resid → 0 < len ∨ skip ≠ 0 →
    (sfsPartialio p skip len).Returns s (SfsTransfers M E len s)
  blockio : ∀ {s}, Q s → s.uio.offset % 512 = 0 → 512 ≤ s.uio.resid →
    (sfsBlockio p).Returns s (SfsTransfers M E 512 s)

namespace SfsPieces

variable {Q : Sfs → Prop} {M : Nat → Sfs → Sfs → Prop} {E : Uio → Nat → Errno → Prop}

variable (hP : SfsPieces p Q M E) (hs : Q s)
include hP hs

theorem pure (hlen : len = 0) : (pure () : SfsCall Unit).Returns s (SfsTransfers M E len s) :=
  returns_pure.mpr ⟨0, Nat.zero_le _, hP.nothing hs, hlen.symm⟩

theorem bind {α β : Type} {c : SfsCall α} {d : α → SfsCall β} (hm : m ≤ s.uio.resid)
    (hlen : len = m + n) (hc : c.Returns s (SfsTransfers M E m s))
    (hd : ∀ a t, Q t → t.uio.offset = s.uio.offset + m → t.uio.resid = s.uio.resid - m →
      (d a).Returns t (SfsTransfers M E n t)) :
    (c >>= d).Returns s (SfsTransfers M E len s) := by
  subst hlen
  refine hc.bind ?_ ?_
  · rintro a t ⟨m₀, -, ht, hm₀⟩
    rw [show m₀ = m from hm₀] at ht
    refine (hd a t (hP.keeps hs ht hm) (hP.offset ht) (hP.resid ht)).mono ?_
    rintro r u ⟨m', hm', hu, hr⟩
    refine ⟨m + m', by omega, hP.trans ht hu, ?_⟩
    cases r with
    | ok _ => exact congrArg (m + ·) hr
    | error e => exact hP.grows hr (hP.offset ht) (hP.good ht)
  · rintro e t ⟨m', hm', ht, he⟩
    exact ⟨m', hm'.trans (Nat.le_add_right m n), ht, hP.later he⟩

theorem returns_sfsIoBlocks {nblocks : Nat} (hal : s.uio.offset % 512 = 0)
    (hres : nblocks * 512 ≤ s.uio.resid) :
    (sfsIoBlocks p nblocks).Returns s (SfsTransfers M E (nblocks * 512) s) := by
  induction nblocks generalizing s with
  | zero => exact hP.pure hs (Nat.zero_mul _)
  | succ nblocks ih =>
    have hlen : (nblocks + 1) * 512 = 512 + nblocks * 512 := by omega
    refine hP.bind hs (by omega) hlen (hP.blockio hs hal (by omega)) fun _ t hQ hoff hr => ?_
    refine ih hQ (by omega) ?_
    rw [hlen] at hres
    rw [hr]
    exact Nat.le_sub_of_add_le' hres

theorem returns_sfsIoAligned (hal : s.uio.resid ≠ 0 → s.uio.offset % 512 = 0) :
    (sfsIoAligned p).Returns s (SfsTransfers M E s.uio.resid s) := by
  unfold sfsIoAligned
  rw [returns_bindRead]
  split_ifs with h0
  · exact hP.pure hs h0
  · rw [returns_bindAssert]
    refine ⟨hal h0, ?_⟩
    have hlen : s.uio.resid = s.uio.resid / 512 * 512 + s.uio.resid % 512 := by omega
    refine hP.bind hs (by omega) hlen (hP.returns_sfsIoBlocks hs (hal h0) (by omega))
      fun _ t hQ hoff hr => ?_
    have hresid : t.uio.resid = s.uio.resid % 512 := by omega
    rw [returns_bindRead, returns_bindAssert, hresid]
    refine ⟨Nat.mod_lt _ (by decide), ?_⟩
    split_ifs with hpos
    · have := hal h0
      exact hP.partialio hQ (by omega) (by omega) (by omega) (.inl hpos)
    · exact hP.pure hQ (by omega)

theorem returns_sfsIoTransfer : (sfsIoTransfer p).Returns s (SfsTransfers M E s.uio.resid s) := by
  unfold sfsIoTransfer
  rw [returns_bindRead]
  split_ifs with hal
  · have hlen : s.uio.resid = min (512 - s.uio.offset % 512) s.uio.resid +
        (s.uio.resid - min (512 - s.uio.offset % 512) s.uio.resid) := by omega
    refine hP.bind hs (by omega) hlen (hP.partialio hs rfl (by omega) (by omega) (.inr hal))
      fun _ t hQ hoff hr => ?_
    rw [← hr]
    exact hP.returns_sfsIoAligned hQ (by omega)
  · exact hP.returns_sfsIoAligned hs fun _ => by omega

end SfsPieces

/-! ## Reading -/

/-- The `uio` of a read after `m` bytes of `g` were delivered. -/
def Uio.delivered (v : Uio) (g : Nat → UInt8) (m : Nat) : Uio :=
  { v with
    offset := v.offset + m
    resid := v.resid - m
    good := v.good - m
    buf := v.buf ++ (List.range m).map fun k => g (v.offset + k) }

section Delivered

variable (v : Uio) (g : Nat → UInt8)

@[simp] theorem Uio.offset_delivered : (v.delivered g m).offset = v.offset + m := rfl

@[simp] theorem Uio.resid_delivered : (v.delivered g m).resid = v.resid - m := rfl

@[simp] theorem Sfs.uio_withUio : (s.withUio v).uio = v := rfl

end Delivered

theorem Uio.delivered_zero (v : Uio) (g : Nat → UInt8) : v.delivered g 0 = v := by
  simp [Uio.delivered]

theorem Uio.delivered_add (v : Uio) (g : Nat → UInt8) (m n : Nat) :
    (v.delivered g m).delivered g n = v.delivered g (m + n) := by
  unfold Uio.delivered
  simp only [Uio.mk.injEq, true_and]
  refine ⟨Nat.add_assoc _ _ _, Nat.sub_sub _ _ _, ?_, Nat.sub_sub _ _ _⟩
  rw [List.range_add, List.map_append, List.append_assoc, List.map_map]
  refine congrArg (fun l => v.buf ++ (_ ++ l)) (List.map_congr_left fun k _ => ?_)
  simp [Nat.add_assoc]

/-- The errors of a transfer of `len` bytes, other than `ENOSPC`: the user's memory ends, or the
largest file. -/
def SfsOverrun (v : Uio) (len : Nat) (e : Errno) : Prop :=
  e = .efault ∧ v.good < len ∨ e = .efbig ∧ 73216 < v.offset + len

/-- What a read of `len` bytes of file `i` returns: `m` bytes of the file were delivered. -/
def SfsReads {α : Type} (i len : Nat) (s : Sfs) (r : Except Errno α) (t : Sfs) : Prop :=
  ∃ m ≤ len, t = s.withUio (s.uio.delivered (sfsByte s.cur i) m) ∧
    Call.Settled (SfsOverrun s.uio len) (fun _ => m = len) r

theorem SfsOverrun.grows {v w : Uio} {e : Errno} (h : SfsOverrun w n e)
    (hoff : w.offset = v.offset + m) (hgood : w.good = v.good - m) : SfsOverrun v (m + n) e := by
  refine h.imp (And.imp_right fun hg => ?_) (And.imp_right fun hg => ?_)
  · omega
  · omega

theorem SfsOverrun.later {v : Uio} {e : Errno} (h : SfsOverrun v m e) : SfsOverrun v (m + n) e :=
  h.imp (And.imp_right fun hg => by omega) (And.imp_right fun hg => by omega)

/-- A part of a block, which reads as `ptr`, is moved to the user. -/
theorem returns_uiomove_read {ptr : Bytes} (hrw : s.uio.rw = .read) (hlen : len ≤ s.uio.resid)
    (hptr : ∀ k < len, ptr (skip + k) = sfsByte s.cur i (s.uio.offset + k)) :
    (uiomove ptr skip len).Returns s (SfsReads i len s) := by
  unfold uiomove
  rw [returns_bindRead, Nat.min_eq_left hlen]
  split_ifs with hg
  · rw [Call.returns_fail]
    exact ⟨0, Nat.zero_le _, by rw [Uio.delivered_zero]; rfl, .inl ⟨rfl, hg⟩⟩
  · rw [returns_bindModify, hrw]
    dsimp only
    rw [returns_pure]
    refine ⟨len, le_refl len, ?_, rfl⟩
    have hmoved : s.uio.moved ptr skip len = s.uio.delivered (sfsByte s.cur i) len := by
      unfold Uio.moved Uio.delivered
      rw [hrw]
      simp only [Uio.mk.injEq, true_and, and_true]
      refine congrArg (s.uio.buf ++ ·) (List.map_congr_left fun k hk => ?_)
      exact hptr k (List.mem_range.mp hk)
    rw [hmoved]
    rfl

/-- The block of the file that a position is in, as the code computes it. -/
theorem fileblock_eq (hoff : n < 2199023255552) : n / 512 % 4294967296 = n / 512 := by
  omega

theorem diskoff_eq {b : Nat} (hb : b < 8388608) : b * 512 % 4294967296 = b * 512 := by
  omega

theorem sfsByte_of_block {D : Nat → Bytes} {b pos : Nat} (hb : sfsBlockAt D i (pos / 512) = b)
    (h0 : b ≠ 0) : sfsByte D i pos = D b (pos % 512) := by
  rw [sfsByte, hb, if_neg h0]

theorem sfsByte_of_hole {D : Nat → Bytes} {pos : Nat} (hb : sfsBlockAt D i (pos / 512) = 0) :
    sfsByte D i pos = 0 := by
  rw [sfsByte, if_pos hb]

/-- The bytes of a piece, which lies in one block. -/
theorem SfsOk.byte_of_piece (h : SfsOk L s) (hi : L i) (hk : n % 512 + k < 512) :
    sfsByte s.cur i (n + k) = if sfsBlockAt s.cur i (n / 512) = 0 then 0
      else s.disk (sfsBlockAt s.cur i (n / 512)) (n % 512 + k) := by
  have hd : (n + k) / 512 = n / 512 := by omega
  have hm : (n + k) % 512 = n % 512 + k := by omega
  split_ifs with h0
  · exact sfsByte_of_hole (by rw [hd, h0])
  · rw [sfsByte_of_block (by rw [hd]) h0, hm, h.disk_of_not_live (h.not_live_blockAt hi h0)]

theorem SfsReads.efbig {α : Type} (h : 73216 < s.uio.offset + len) :
    SfsReads (α := α) i len s (.error .efbig) s :=
  ⟨0, Nat.zero_le _, by rw [Uio.delivered_zero]; rfl, .inr ⟨rfl, h⟩⟩

theorem returns_moved_read {c : SfsCall Bytes} (hc : c.Returns s (SfsReads i len s)) :
    (c >>= fun _ => pure () : SfsCall Unit).Returns s (SfsReads i len s) := by
  refine hc.bind ?_ fun e t ht => ht
  rintro a t ⟨m, hm, ht, hr⟩
  exact returns_pure.mpr ⟨m, hm, ht, hr⟩

theorem returns_sfsPartialio_read (h : SfsOk L s) (hp : p ∈ s.vnodes) (hrw : s.uio.rw = .read)
    (hoff : s.uio.offset < 2199023255552) (hskip : skip = s.uio.offset % 512)
    (hlen : skip + len ≤ 512) (hres : len ≤ s.uio.resid) (hne : 0 < len ∨ skip ≠ 0) :
    (sfsPartialio p skip len).Returns s (SfsReads (s.vn p).ino len s) := by
  have hi := h.live_of_mem hp
  subst hskip
  unfold sfsPartialio
  rw [returns_bindRead, hrw, fileblock_eq hoff, returns_bindAssert, returns_bind,
    show decide (UioRw.read = UioRw.write) = false from rfl]
  refine ⟨hlen, ?_⟩
  by_cases hk : s.uio.offset / 512 < 143
  · rw [returns_sfsBmap_found h hp hk (by simp), andthen_ok]
    split_ifs with h0
    · rw [returns_bindAssert]
      refine ⟨rfl, ?_⟩
      refine returns_moved_read (returns_uiomove_read hrw hres fun k hk => ?_)
      rw [h.byte_of_piece hi (by omega), if_pos h0]
      rfl
    · have hown := SfsOwns.data h0
      rw [returns_bind, returns_sfsReadblock h.toSfsHouse (h.lt_of_owns hi hown), andthen_ok]
      refine returns_moved_read (returns_uiomove_read hrw hres fun k hk => ?_)
      rw [h.byte_of_piece hi (by omega), if_neg h0]
  · rw [returns_sfsBmap_efbig (by omega)]
    exact .efbig (by omega)

theorem returns_uiomovezeros (pieces : Nat) (hrw : s.uio.rw = .read)
    (hres : pieces * 16 ≤ s.uio.resid)
    (hzero : ∀ k < pieces * 16, sfsByte s.cur i (s.uio.offset + k) = 0) :
    (uiomovezeros pieces).Returns s (SfsReads i (pieces * 16) s) := by
  induction pieces generalizing s with
  | zero => exact returns_pure.mpr ⟨0, Nat.zero_le _, by rw [Uio.delivered_zero]; rfl, rfl⟩
  | succ pieces ih =>
    have hlen : (pieces + 1) * 16 = 16 + pieces * 16 := by omega
    rw [hlen]
    refine (returns_uiomove_read hrw (by omega) fun k hk => (hzero k (by omega)).symm).bind ?_ ?_
    · rintro a t ⟨m₀, -, rfl, hm₀⟩
      obtain rfl : m₀ = 16 := hm₀
      refine (ih (s := s.withUio (s.uio.delivered (sfsByte s.cur i) 16)) hrw ?_ fun k hk => ?_).mono
        ?_
      · rw [Sfs.uio_withUio, Uio.resid_delivered]
        omega
      · have := hzero (16 + k) (by omega)
        rwa [← Nat.add_assoc] at this
      · rintro r u ⟨m, hm, rfl, hr⟩
        refine ⟨16 + m, by omega, by rw [← Uio.delivered_add]; rfl, ?_⟩
        cases r with
        | ok _ => exact congrArg (16 + ·) hr
        | error e => exact SfsOverrun.grows hr rfl rfl
    · rintro e t ⟨m, hm, ht, he⟩
      exact ⟨m, by omega, ht, SfsOverrun.later he⟩

/-- A whole block is read. The offset of the block on the device does not overflow on a volume of at
most `2 ^ 23` blocks. -/
theorem returns_sfsBlockio_read (h : SfsOk L s) (hp : p ∈ s.vnodes) (hN : s.nblocks ≤ 8388608)
    (hrw : s.uio.rw = .read) (hoff : s.uio.offset < 2199023255552)
    (hal : s.uio.offset % 512 = 0) (hres : 512 ≤ s.uio.resid) :
    (sfsBlockio p).Returns s (SfsReads (s.vn p).ino 512 s) := by
  have hi := h.live_of_mem hp
  unfold sfsBlockio
  rw [returns_bindRead, hrw, fileblock_eq hoff,
    returns_bind, show decide (UioRw.read = UioRw.write) = false from rfl]
  by_cases hk : s.uio.offset / 512 < 143
  · rw [returns_sfsBmap_found h hp hk (by simp), andthen_ok]
    split_ifs with h0
    · rw [returns_bindAssert]
      refine ⟨rfl, returns_uiomovezeros 32 hrw hres fun k hk => ?_⟩
      rw [h.byte_of_piece hi (by omega), if_pos h0]
    · have hlt := h.lt_of_owns hi (.data h0)
      unfold sfsRwblockUser
      rw [returns_bindAssert, returns_bindRead]
      refine ⟨hres, ?_⟩
      dsimp only [id_eq]
      rw [hrw, diskoff_eq (hlt.trans_le hN)]
      dsimp only
      rw [returns_bind]
      refine (returns_sfsReadblock h.toSfsHouse hlt).mpr ?_
      rw [andthen_ok]
      refine returns_moved_read (returns_uiomove_read hrw hres fun k hk => ?_)
      rw [h.byte_of_piece hi (by omega), if_neg h0, hal]
  · rw [returns_sfsBmap_efbig (by omega)]
    exact .efbig (by omega)

/-- The states in which a read of at most `2 ^ 41` bytes goes on. -/
def SfsReadable (L : Nat → Prop) (p i : Nat) (s : Sfs) : Prop :=
  SfsOk L s ∧ p ∈ s.vnodes ∧ (s.vn p).ino = i ∧ s.nblocks ≤ 8388608 ∧ s.uio.rw = .read ∧
    s.uio.offset + s.uio.resid < 2199023255552

theorem sfsReads_pieces : SfsPieces p (SfsReadable L p i)
    (fun m s t => t = s.withUio (s.uio.delivered (sfsByte s.cur i) m)) SfsOverrun where
  nothing _ := by
    rw [Uio.delivered_zero]
    rfl
  trans hm hn := by
    subst hm hn
    rw [← Uio.delivered_add]
    rfl
  keeps := by
    rintro m s t ⟨h, hp, hino, hN, hrw, hoff⟩ rfl hm
    refine ⟨h.withUio, hp, hino, hN, hrw, ?_⟩
    rw [Sfs.uio_withUio, Uio.offset_delivered, Uio.resid_delivered]
    omega
  offset hm := hm ▸ rfl
  resid hm := hm ▸ rfl
  good hm := hm ▸ rfl
  grows := SfsOverrun.grows
  later := SfsOverrun.later
  partialio := by
    rintro s skip len ⟨h, hp, rfl, -, hrw, hoff⟩ hskip hlen hres hne
    exact returns_sfsPartialio_read h hp hrw (by omega) hskip hlen hres hne
  blockio := by
    rintro s ⟨h, hp, rfl, hN, hrw, hoff⟩ hal hres
    exact returns_sfsBlockio_read h hp hN hrw (by omega) hal hres

/-! ## Writing -/

/-- The `uio` of a write after `m` bytes were taken. -/
def Uio.taken (v : Uio) (m : Nat) : Uio :=
  { v with
    offset := v.offset + m
    resid := v.resid - m
    good := v.good - m
    buf := v.buf.drop m }

section Taken

variable (v : Uio)

@[simp] theorem Uio.offset_taken : (v.taken m).offset = v.offset + m := rfl

@[simp] theorem Uio.resid_taken : (v.taken m).resid = v.resid - m := rfl

@[simp] theorem Uio.rw_taken : (v.taken m).rw = v.rw := rfl

theorem Uio.taken_zero : v.taken 0 = v := by
  simp [Uio.taken]

theorem Uio.taken_add : (v.taken m).taken n = v.taken (m + n) := by
  unfold Uio.taken
  simp only [Uio.mk.injEq, true_and]
  exact ⟨Nat.add_assoc _ _ _, Nat.sub_sub _ _ _, List.drop_drop, Nat.sub_sub _ _ _⟩

end Taken

/-- The bytes `g` of a file after `m` bytes of `buf` were written at `offset`. -/
def splice (g : Nat → UInt8) (offset : Nat) (buf : List UInt8) (m : Nat) : Nat → UInt8 := fun pos =>
  if offset ≤ pos ∧ pos < offset + m then buf.getD (pos - offset) 0 else g pos

theorem splice_zero (g : Nat → UInt8) (offset : Nat) (buf : List UInt8) :
    splice g offset buf 0 = g := by
  funext pos
  exact if_neg (by omega)

theorem splice_add (g : Nat → UInt8) (offset : Nat) (buf : List UInt8) :
    splice (splice g offset buf m) (offset + m) (buf.drop m) n = splice g offset buf (m + n) := by
  funext pos
  unfold splice
  by_cases h1 : offset + m ≤ pos ∧ pos < offset + m + n
  · have hpos : m + (pos - (offset + m)) = pos - offset := by omega
    rw [if_pos h1, if_pos (by omega), List.getD, List.getElem?_drop, hpos, List.getD]
  · rw [if_neg h1]
    refine if_congr ?_ rfl rfl
    omega

/-- `m` bytes of the `uio` were written to file `i`. Positions are 41-bit numbers in the code (a
block number of 32 bits), and larger ones wrap around. -/
structure SfsWrote (L : Nat → Prop) (i m : Nat) (s t : Sfs) : Prop extends SfsWork L i s t where
  uio : t.uio = s.uio.taken m
  size : sfiSize (t.cur i) = sfiSize (s.cur i)
  type : sfiType (t.cur i) = sfiType (s.cur i)
  links : sfiLinkcount (t.cur i) = sfiLinkcount (s.cur i)
  bytes : s.uio.offset + m < 2199023255552 →
    sfsByte t.cur i = splice (sfsByte s.cur i) s.uio.offset s.uio.buf m

theorem SfsQuiet.wrote_nothing (h : SfsQuiet L i s t) : SfsWrote L i 0 s t where
  toSfsWork := h.toSfsWork
  uio := by rw [h.uio, Uio.taken_zero]
  size := congrArg SfsFile.size h.file
  type := congrArg SfsFile.type h.file
  links := congrArg SfsFile.links h.file
  bytes _ := by
    rw [splice_zero]
    exact congrArg SfsFile.bytes h.file

theorem SfsWrote.trans (h : SfsWrote L i m s t) (h' : SfsWrote L i n t u) :
    SfsWrote L i (m + n) s u where
  toSfsWork := h.toSfsWork.trans h'.toSfsWork
  uio := by rw [h'.uio, h.uio, Uio.taken_add]
  size := h'.size.trans h.size
  type := h'.type.trans h.type
  links := h'.links.trans h.links
  bytes hlt := by
    rw [h'.bytes (by rw [h.uio, Uio.offset_taken]; omega), h.bytes (by omega), h.uio]
    exact splice_add _ _ _

/-- The errors of a write. -/
def SfsWriteError (v : Uio) (len : Nat) (e : Errno) : Prop := e = .enospc ∨ SfsOverrun v len e

/-- What a write of `len` bytes to file `i` returns: `m` bytes were written. -/
def SfsWrites {α : Type} (L : Nat → Prop) (i len : Nat) (s : Sfs) (r : Except Errno α) (t : Sfs) :
    Prop :=
  ∃ m ≤ len, SfsWrote L i m s t ∧ Call.Settled (SfsWriteError s.uio len) (fun _ => m = len) r

theorem returns_uiomove_write {ptr : Bytes} (hrw : s.uio.rw = .write) (hlen : len ≤ s.uio.resid)
    {Q : Except Errno Bytes → Sfs → Prop} (hfault : s.uio.good < len → Q (.error .efault) s)
    (hok : Q (.ok (blit ptr skip (fun k => s.uio.buf.getD k 0) 0 len))
      (s.withUio (s.uio.taken len))) :
    (uiomove ptr skip len).Returns s Q := by
  unfold uiomove
  rw [returns_bindRead, Nat.min_eq_left hlen]
  split_ifs with hg
  · exact Call.returns_fail.mpr (hfault hg)
  · have hmoved : s.uio.moved ptr skip len = s.uio.taken len := by
      unfold Uio.moved Uio.taken
      rw [hrw]
    rw [returns_bindModify, hrw, hmoved]
    exact returns_pure.mpr hok

/-- The buffer with the user's bytes in place is stored into the block that was mapped. -/
theorem SfsQuiet.wrote {b : Nat} {Y : Bytes} (h : SfsQuiet L i s t) (hi : L i)
    (hgot : SfsGotBlock i (s.uio.offset / 512 % 4294967296) t b)
    (hlen : s.uio.offset % 512 + len ≤ 512)
    (hY : ∀ o < 512, Y o = splice (t.cur b) (s.uio.offset % 512) s.uio.buf len o) :
    SfsWrote L i len s ((t.withUio (s.uio.taken len)).put b Y) := by
  obtain ⟨-, h0, rfl⟩ := hgot
  have hok : SfsOk L (t.withUio (s.uio.taken len)) := h.ok.withUio
  have hnot := h.ok.not_live_blockAt hi h0
  obtain ⟨hchange, hblk, hino, hbyte⟩ := h.ok.volume.store (X := Y) hi h0
  have hcur : ((t.withUio (s.uio.taken len)).put
      (sfsBlockAt t.cur i (s.uio.offset / 512 % 4294967296)) Y).cur =
      update t.cur (sfsBlockAt t.cur i (s.uio.offset / 512 % 4294967296)) Y :=
    Sfs.cur_put (hok.not_opened hnot)
  have hwork : SfsWork L i t ((t.withUio (s.uio.taken len)).put
      (sfsBlockAt t.cur i (s.uio.offset / 512 % 4294967296)) Y) := by
    refine .of_change (hok.put (h.ok.volume.dataBlock_of_owns hi (.data h0)) hnot) ?_
      (SfsFrame.withUio.trans .put)
    rw [hcur]
    exact hchange
  refine ⟨h.toSfsWork.trans hwork, rfl, ?_, ?_, ?_, fun hoff => ?_⟩
  · rw [hcur, hino]
    exact congrArg SfsFile.size h.file
  · rw [hcur, hino]
    exact congrArg SfsFile.type h.file
  · rw [hcur, hino]
    exact congrArg SfsFile.links h.file
  · have hold : sfsByte t.cur i = sfsByte s.cur i := congrArg SfsFile.bytes h.file
    funext pos
    rw [hcur, hbyte pos, fileblock_eq (by omega), ← hold]
    rw [fileblock_eq (by omega)] at hY h0
    by_cases hpos : pos / 512 = s.uio.offset / 512
    · rw [if_pos hpos, hY _ (Nat.mod_lt _ (by decide)), ← hpos]
      unfold splice
      by_cases hin : s.uio.offset ≤ pos ∧ pos < s.uio.offset + len
      · have hsub : pos % 512 - s.uio.offset % 512 = pos - s.uio.offset := by omega
        rw [if_pos (by omega), if_pos hin, hsub]
      · rw [if_neg (by omega), if_neg hin]
        exact (sfsByte_of_block rfl (by rw [hpos]; exact h0)).symm
    · rw [if_neg hpos, splice, if_neg (by omega)]

theorem SfsQuiet.no_block {α : Type} {e : Errno} (len : Nat) (h : SfsQuiet L i s t)
    (he : SfsNoBlock (s.uio.offset / 512 % 4294967296) e)
    (hne : 0 < len ∨ s.uio.offset % 512 ≠ 0) :
    SfsWrites (α := α) L i len s (.error e) t := by
  refine ⟨0, Nat.zero_le _, h.wrote_nothing, ?_⟩
  obtain rfl | ⟨rfl, hk⟩ := he
  · exact .inl rfl
  · exact .inr (.inr ⟨rfl, by omega⟩)

theorem SfsQuiet.fault {α : Type} (h : SfsQuiet L i s t) (hg : t.uio.good < len) :
    SfsWrites (α := α) L i len s (.error .efault) t :=
  ⟨0, Nat.zero_le _, h.wrote_nothing, .inr (.inl ⟨rfl, by rwa [h.uio] at hg⟩)⟩

theorem returns_sfsPartialio_write (h : SfsOk L s) (hp : p ∈ s.vnodes) (hrw : s.uio.rw = .write)
    (hskip : skip = s.uio.offset % 512) (hlen : skip + len ≤ 512) (hres : len ≤ s.uio.resid)
    (hne : 0 < len ∨ skip ≠ 0) :
    (sfsPartialio p skip len).Returns s (SfsWrites L (s.vn p).ino len s) := by
  subst hskip
  have hi := h.live_of_mem hp
  unfold sfsPartialio
  rw [returns_bindRead, hrw, returns_bindAssert,
    show decide (UioRw.write = UioRw.write) = true from rfl]
  refine ⟨hlen, (returns_sfsBmap_alloc h hp).bind ?_ fun e t ht => ht.1.no_block len ht.2 hne⟩
  rintro b t ⟨hq, hgot⟩
  obtain ⟨hlt, hdisk⟩ := hgot.on_disk hq.ok hi
  rw [if_neg hgot.2.1, returns_bind, returns_sfsReadblock hq.ok.toSfsHouse hlt, andthen_ok,
    returns_bind, hdisk]
  refine returns_uiomove_write (by rw [hq.uio, hrw]) (by rw [hq.uio]; exact hres) ?_ ?_
  · exact hq.fault
  · have hh : SfsHouse L (t.withUio (s.uio.taken len)) := hq.ok.withUio.toSfsHouse
    rw [andthen_ok, hq.uio]
    refine (returns_sfsWriteblock hh hlt).mpr ?_
    refine ⟨len, le_refl len, hq.wrote hi hgot hlen fun o _ => ?_, rfl⟩
    unfold blit splice
    simp only [Nat.zero_add]

theorem returns_sfsBlockio_write (h : SfsOk L s) (hp : p ∈ s.vnodes) (hN : s.nblocks ≤ 8388608)
    (hrw : s.uio.rw = .write) (hal : s.uio.offset % 512 = 0) (hres : 512 ≤ s.uio.resid) :
    (sfsBlockio p).Returns s (SfsWrites L (s.vn p).ino 512 s) := by
  have hi := h.live_of_mem hp
  unfold sfsBlockio
  rw [returns_bindRead, hrw, show decide (UioRw.write = UioRw.write) = true from rfl]
  refine (returns_sfsBmap_alloc h hp).bind ?_ fun e t ht =>
    ht.1.no_block 512 ht.2 (.inl (by decide))
  rintro b t ⟨hq, hgot⟩
  obtain ⟨-, hb0, -⟩ := id hgot
  have hlt := (hgot.on_disk hq.ok hi).1
  have hN' : b < 8388608 := by
    rw [hq.frame.nblocks] at hlt
    exact hlt.trans_le hN
  unfold sfsRwblockUser
  rw [if_neg hb0, returns_bindAssert, returns_bindRead, diskoff_eq hN']
  refine ⟨hres, ?_⟩
  dsimp only [id_eq]
  rw [hq.uio, hrw]
  dsimp only
  rw [returns_bindAssert, returns_bind, Nat.mul_div_cancel b (by decide)]
  refine ⟨hq.ok.inRange hlt, returns_uiomove_write (by rw [hq.uio, hrw])
    (by rw [hq.uio]; exact hres)
    hq.fault ?_⟩
  have hh : SfsHouse L (t.withUio (s.uio.taken 512)) := hq.ok.withUio.toSfsHouse
  rw [andthen_ok, hq.uio]
  refine (returns_sfsWriteblock hh hlt).mpr ?_
  refine ⟨512, le_refl 512, hq.wrote hi hgot (by omega) fun o ho => ?_, rfl⟩
  unfold blit splice
  rw [if_pos (by omega), if_pos (by omega), hal, Nat.zero_add]

/-- The states in which a write goes on. -/
def SfsWritable (L : Nat → Prop) (p i : Nat) (s : Sfs) : Prop :=
  SfsOk L s ∧ p ∈ s.vnodes ∧ (s.vn p).ino = i ∧ s.nblocks ≤ 8388608 ∧ s.uio.rw = .write

theorem sfsWrites_pieces : SfsPieces p (SfsWritable L p i) (SfsWrote L i) SfsWriteError where
  nothing hs := (SfsQuiet.refl hs.1).wrote_nothing
  trans := SfsWrote.trans
  keeps := by
    rintro m s t ⟨-, hp, hino, hN, hrw⟩ ht -
    refine ⟨ht.ok, ht.frame.mem hp, (ht.frame.ino p).trans hino, ?_, ?_⟩
    · rw [ht.frame.nblocks]
      exact hN
    · rw [ht.uio, Uio.rw_taken, hrw]
  offset ht := ht.uio ▸ rfl
  resid ht := ht.uio ▸ rfl
  good ht := ht.uio ▸ rfl
  grows h hoff hgood := h.imp id fun h => h.grows hoff hgood
  later h := h.imp id SfsOverrun.later
  partialio := by
    rintro s skip len ⟨h, hp, rfl, -, hrw⟩ hskip hlen hres hne
    exact returns_sfsPartialio_write h hp hrw hskip hlen hres hne
  blockio := by
    rintro s ⟨h, hp, rfl, hN, hrw⟩ hal hres
    exact returns_sfsBlockio_write h hp hN hrw hal hres

/-! ## `sfs_io` -/

/-- The end of `sfs_io`, which returns the result of the transfer. -/
theorem returns_result {r : Except Errno Unit} {Q : Except Errno Unit → Sfs → Prop} :
    (match r with
      | .ok _ => pure ()
      | .error e => Call.fail e : SfsCall Unit).Returns s Q ↔ Q r s := by
  cases r with
  | ok _ => exact returns_pure
  | error e => exact Call.returns_fail

/-- The size of a file after `m` bytes were written up to `offset + m`. -/
def sfsGrown (size offset m : Nat) : Nat :=
  if m ≠ 0 ∧ size < offset + m then (offset + m) % 4294967296 else size

/-- `sfs_io` for a write: `m` bytes are in the file, and it is as long as its last byte needs. -/
theorem returns_sfsIoWrite (h : SfsOk L s) (hp : p ∈ s.vnodes) (hN : s.nblocks ≤ 8388608)
    (hrw : s.uio.rw = .write) :
    (sfsIoWrite p).Returns s fun r t => ∃ m ≤ s.uio.resid, SfsWork L (s.vn p).ino s t ∧
      t.uio = s.uio.taken m ∧
      sfiSize (t.cur (s.vn p).ino) = sfsGrown (sfiSize (s.cur (s.vn p).ino)) s.uio.offset m ∧
      sfiType (t.cur (s.vn p).ino) = sfiType (s.cur (s.vn p).ino) ∧
      sfiLinkcount (t.cur (s.vn p).ino) = sfiLinkcount (s.cur (s.vn p).ino) ∧
      (s.uio.offset + m < 2199023255552 → sfsByte t.cur (s.vn p).ino =
        splice (sfsByte s.cur (s.vn p).ino) s.uio.offset s.uio.buf m) ∧
      Call.Settled (SfsWriteError s.uio s.uio.resid) (fun _ => m = s.uio.resid) r := by
  unfold sfsIoWrite
  rw [returns_bindRead, returns_bind, Call.returns_attempt]
  refine (sfsWrites_pieces.returns_sfsIoTransfer ⟨h, hp, rfl, hN, hrw⟩).mono ?_
  rintro r t ⟨m, hm, ht, hr⟩
  rw [andthen_ok, returns_bindModify]
  have hpt := ht.frame.mem hp
  have hino := ht.frame.ino p
  have hcond : (t.uio.resid ≠ s.uio.resid ∧ sfiSize (t.vn p).inode < t.uio.offset) ↔
      (m ≠ 0 ∧ sfiSize (s.cur (s.vn p).ino) < s.uio.offset + m) := by
    rw [← ht.ok.cur_of_mem hpt, hino, ht.size, ht.uio, Uio.resid_taken, Uio.offset_taken]
    omega
  refine returns_result.mpr ⟨m, hm, ?_⟩
  split_ifs with hc
  · obtain ⟨hwork, hcur, -, hbyte⟩ := ht.ok.head (f := (setWord · 0 t.uio.offset)) hpt
      (fun X k hk => word_setWord_of_ne (by omega)) fun X => word_setWord_of_ne (by decide)
    rw [hino] at hwork hcur hbyte
    refine ⟨ht.toSfsWork.trans hwork, ht.uio, ?_, ?_, ?_, fun hlt => ?_, hr⟩
    · rw [hcur, update_self, sfsGrown, if_pos (hcond.mp hc), ht.uio]
      exact word_setWord_self
    · rw [hcur, update_self, ← ht.type]
      exact half_setWord_of_ne (by decide)
    · rw [hcur, update_self, ← ht.links]
      exact half_setWord_of_ne (by decide)
    · rw [hbyte, ht.bytes hlt]
  · refine ⟨ht.toSfsWork, ht.uio, ?_, ht.type, ht.links, ht.bytes, hr⟩
    rw [ht.size, sfsGrown, if_neg fun hc' => hc (hcond.mpr hc')]

/-- `sfs_io` for a read: `m` of the bytes before the end of the file are delivered. -/
theorem returns_sfsIoRead (h : SfsOk L s) (hp : p ∈ s.vnodes) (hN : s.nblocks ≤ 8388608)
    (hrw : s.uio.rw = .read) :
    (sfsIoRead p).Returns s fun r t => ∃ v m, t = s.withUio v ∧
      v.buf = s.uio.buf ++
        (List.range m).map (fun k => sfsByte s.cur (s.vn p).ino (s.uio.offset + k)) ∧
      m ≤ min s.uio.resid (sfiSize (s.cur (s.vn p).ino) - s.uio.offset) ∧
      Call.Settled
        (SfsOverrun s.uio (min s.uio.resid (sfiSize (s.cur (s.vn p).ino) - s.uio.offset)))
        (fun _ => m = min s.uio.resid (sfiSize (s.cur (s.vn p).ino) - s.uio.offset)) r := by
  have hcur := h.cur_of_mem hp
  have hsize : sfiSize (s.cur (s.vn p).ino) < 4294967296 := word_lt
  unfold sfsIoRead
  rw [returns_bindRead, returns_bindRead, ← hcur]
  split_ifs with hend
  · rw [returns_pure]
    refine ⟨s.uio, 0, rfl, by simp, Nat.zero_le _, ?_⟩
    have hzero : sfiSize (s.cur (s.vn p).ino) - s.uio.offset = 0 := by omega
    rw [hzero, Nat.min_zero]
    rfl
  rw [returns_bindAssert, returns_bindModify, returns_bind, Call.returns_attempt]
  refine ⟨by omega, ?_⟩
  -- the part of the request before the end of the file
  have hshort : s.uio.resid - (s.uio.offset + s.uio.resid - sfiSize (s.cur (s.vn p).ino)) =
      min s.uio.resid (sfiSize (s.cur (s.vn p).ino) - s.uio.offset) := by omega
  rw [hshort]
  have hok : SfsOk L (s.withUio { s.uio with
    resid := min s.uio.resid (sfiSize (s.cur (s.vn p).ino) - s.uio.offset) }) := h.withUio
  refine (sfsReads_pieces.returns_sfsIoTransfer ⟨hok, hp, rfl, hN, hrw, ?_⟩).mono ?_
  · rw [Sfs.uio_withUio]
    dsimp only
    omega
  · rintro r t ⟨m, hm, rfl, hr⟩
    rw [andthen_ok, returns_bindModify]
    refine returns_result.mpr ⟨_, m, rfl, rfl, hm, hr⟩

/-! ## The place of a block on the device -/

/-- `diskoff` of `sfs_blockio`: `diskblock * SFS_BLOCKSIZE`, a product of 32-bit numbers. -/
def sfsDiskoff (diskblock : Nat) : Nat := diskblock * 512 % 4294967296

/-- The offset that `SFSUIO` computes, in 64 bits. -/
def sfsuioOffset (block : Nat) : Nat := block * 512

theorem sfsWriteblock_eq {b : Nat} : sfsWriteblock b X = sfsRwblockWrite (sfsuioOffset b) X := rfl

/-- **Data and metadata address the same place of the device**, and the one path reads what the
other wrote, exactly for the first `2 ^ 23` blocks: past them the product of `sfs_blockio`
overflows. -/
theorem sfsBlockio_same_place_iff {b : Nat} (hb : b < 4294967296) :
    (sfsDiskoff b = sfsuioOffset b ∧ sfsuioOffset b = 512 * b ∧
      ∀ (s : Sfs) (X : Bytes), b < s.dBlocks → s.uio.rw = .read → 512 ≤ s.uio.resid →
        512 ≤ s.uio.good → (sfsWriteblock b X >>= fun _ => sfsRwblockUser (sfsDiskoff b)).Returns s
          fun r t => r = .ok () ∧ t.uio.buf = s.uio.buf ++ (List.range 512).map X) ↔
      b < 8388608 := by
  constructor
  · rintro ⟨hplace, -⟩
    unfold sfsDiskoff sfsuioOffset at hplace
    omega
  · intro hlt
    have hplace : sfsDiskoff b = sfsuioOffset b := diskoff_eq hlt
    refine ⟨hplace, Nat.mul_comm _ _, fun s X hdev hrw hres hgood => ?_⟩
    have hrange : (sfsuioOffset b / 512 + 1) % 4294967296 ≤ s.dBlocks := by
      unfold sfsuioOffset
      omega
    rw [hplace, sfsWriteblock_eq]
    unfold sfsRwblockWrite sfsRwblockUser sfsRwblockRead uiomove
    simp [hrange, hrw, Nat.min_eq_left hres, Nat.not_lt.mpr hgood, Uio.moved, update_self]

/-- The last block whose place is right. -/
theorem sfsBlockio_same_place_last : 8388607 < 4294967296 ∧
    sfsDiskoff 8388607 = sfsuioOffset 8388607 :=
  ⟨by decide, ((sfsBlockio_same_place_iff (by decide)).mpr (by decide)).1⟩

/-- Block `2 ^ 23` is taken for block 0, the superblock. -/
theorem sfsBlockio_other_place : sfsDiskoff 8388608 = sfsuioOffset 0 ∧
    sfsDiskoff 8388608 ≠ sfsuioOffset 8388608 := by
  decide

end OsPaging.Fs
