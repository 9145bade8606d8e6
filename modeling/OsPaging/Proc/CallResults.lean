import OsPaging.Proc.OpenFails
import OsPaging.Syscall.Pointers

/-!
# What the registers tell about a file call

`syscall` (`kern/arch/mips/syscall/syscall.c:101-183`) encodes the value of `sys_open`, `sys_close`,
`sys_read` and `sys_write` in `v0` and `a3`. `answer` is what the layers below have come to: the
code of the layer that failed, or the descriptor or the number of bytes that were moved. A negative
value becomes `ENOSYS`, whatever the code was; a positive `errno`, which `file_read` and
`file_write` pass on from the vnode operation, becomes a count; and so does no count from `2 ^ 31`
on.

**`results_tell_iff`** is the exact condition under which the registers tell the answer.
-/

namespace OsPaging.Proc

open OsPaging.Vm OsPaging.Syscall

variable {value n buf : Nat} {faults : Nat → Bool} {read : Bool} {fd : Int} {size : BitVec 32}

/-! ## What the layers have come to -/

inductive Answer
  /-- With the code of the layer that failed; `-1` is what the tests of a descriptor return. -/
  | fails (code : Int)
  | returns (value : Nat)
deriving DecidableEq, Repr

/-- The registers that tell it: `v0` and `a3`. -/
def Answer.regs : Answer → BitVec 32 × Nat
  | .fails code => (BitVec.ofInt 32 code, 1)
  | .returns value => (BitVec.ofNat 32 value, 0)

/-- The bytes that a call has moved. -/
def moved : List Block → Nat
  | [] => 0
  | b :: log => b.len + moved log

/-- `file_read` and `file_write`. -/
def ioAnswer (env : Env) (files : Files) (read : Bool) (fd : Int) (buf size : Nat) : Answer :=
  match (entry files fd).bind fun k => (files.system k).vn.map fun v => (k, v) with
  | none => .fails (-1)
  | some (k, v) =>
    let plan := env.vop v (files.system k).offset size read
    match vopMoves env.faults plan.moves ⟨[(buf, size)], size, (files.system k).offset, read⟩ with
    | none => .fails 0
    | some (err, _, log) =>
      if err ≠ 0 then .fails err
      else if plan.result ≠ 0 then .fails plan.result
      else .returns (moved log)

/-- What a call has come to; a call that does not return has an answer that nobody gets. -/
def FileCall.answer (files : Files) : FileCall → Answer
  | .open env path openflags =>
    match (vfsOpen env path openflags.toNat).1 with
    | none => .fails 0
    | some (.error err) => .fails err
    | some (.ok v) =>
      if SlotFree files then
        if (installFile files v).1 = -1 then .fails emfile
        else .returns (installFile files v).1.toNat
      else .fails enfile
  | .close fd =>
    match (entry files fd).bind fun k => (files.system k).vn with
    | none => .fails (-1)
    | some _ => .returns 0
  | .read env fd buf size =>
    if fd ≠ 0 then ioAnswer env files true fd buf size.toNat
    else .returns (moved (sysRead env files fd buf size).log)
  | .write env fd buf size =>
    if fd ≠ 1 ∧ fd ≠ 2 then ioAnswer env files false fd buf size.toNat
    else .returns (moved (sysWrite env files fd buf size).log)

/-- The file call of a trap frame. -/
def callOf (env : Env) (tf : Trapframe) : Option FileCall :=
  match sysno tf.v0.toNat with
  | .open => some (.open env tf.a0.toNat tf.a1)
  | .close => some (.close tf.a0.toInt)
  | .write => some (.write env tf.a0.toInt tf.a1.toNat tf.a2)
  | .read => some (.read env tf.a0.toInt tf.a1.toNat tf.a2)
  | _ => none

theorem syscall_eq_run {env : Env} {files : Files} {tf : Trapframe} {c : FileCall}
    (h : callOf env tf = some c) : syscall env files tf = c.run files := by
  unfold callOf at h
  unfold syscall
  cases hno : sysno tf.v0.toNat <;> rw [hno] at h <;> cases h <;> rfl

/-! ## The encoding -/

theorem signed_eq_returns_iff (h : value < wordSize) :
    signed (BitVec.ofNat 32 value).toInt = (Answer.returns value).regs ↔ value < 2147483648 := by
  have htoInt : (BitVec.ofNat 32 value).toInt =
      if value < 2147483648 then (value : Int) else value - wordSize := by
    rw [BitVec.toInt_eq_toNat_cond, BitVec.toNat_ofNat]
    simp only [wordSize] at *
    split_ifs <;> omega
  unfold signed returnRegs Answer.regs
  grind

/-- `-1` becomes `ENOSYS`. -/
theorem signed_neg_one_eq_fails_iff {code : Int} :
    signed (-1) = (Answer.fails code).regs ↔ code % wordSize = enosys := by
  have hsigned : signed (-1) = (1#32, 1) := rfl
  rw [hsigned, Answer.regs, Prod.mk.injEq, and_iff_left rfl, ← BitVec.toNat_inj, BitVec.toNat_ofInt]
  grind

theorem signed_neg_ne_returns {retval : Int} (h : retval < 0) :
    signed retval ≠ (Answer.returns value).regs := by
  unfold signed returnRegs Answer.regs
  rw [if_pos h, if_pos (by decide)]
  simp

theorem signed_nat_eq_returns_iff {retval : Nat} (hr : retval < wordSize) (hv : value < wordSize) :
    signed retval = (Answer.returns value).regs ↔ retval = value := by
  have hpos : ¬ (retval : Int) < 0 := by omega
  unfold signed returnRegs Answer.regs
  rw [if_neg hpos, if_neg (by decide), Prod.mk.injEq, and_iff_left rfl, BitVec.ofInt_natCast,
    ← BitVec.toNat_inj, BitVec.toNat_ofNat, BitVec.toNat_ofNat]
  simp only [wordSize] at *
  omega

/-- A positive `errno` becomes a value. -/
theorem signed_errno_ne_fails {code : Int} (err : Nat) : signed err ≠ (Answer.fails code).regs := by
  have hpos : ¬ (err : Int) < 0 := by omega
  unfold signed returnRegs Answer.regs
  rw [if_neg hpos]
  simp

/-! ## Bytes moved -/

theorem moved_append (log log' : List Block) : moved (log ++ log') = moved log + moved log' := by
  induction log with
  | nil => exact (Nat.zero_add _).symm
  | cons b log ih =>
    rw [List.cons_append, moved, moved, ih]
    exact (Nat.add_assoc ..).symm

theorem copyBlock_len {write : Bool} {userptr len err : Nat} {b : Block}
    (h : copyBlock write faults userptr len = (err, b)) : b.len = len := by
  unfold copyBlock at h
  grind

/-- A `uiomove` to or from a whole buffer moves its first bytes, and what is left of the buffer is
what is left of the transfer. -/
theorem uiomove_moved {base len offset : Nat} {u : Uio} {log : List Block} (hlen : len < wordSize)
    (h : uiomove faults read [(base, len)] n len offset = some (0, u, log)) :
    ∃ k ≤ len, u = ⟨[(base + k, len - k)], len - k, offset + k, read⟩ ∧ moved log = k := by
  unfold uiomove at h
  by_cases hmove : 0 < n ∧ 0 < len
  · rw [if_pos hmove] at h
    dsimp only at h
    rw [if_neg (by omega : ¬ min len n = 0)] at h
    obtain ⟨⟨err, b⟩, hc⟩ : ∃ r, (if read then copyout faults base (min len n)
      else copyin faults base (min len n)) = r := ⟨_, rfl⟩
    have hb : b.len = min len n := by
      cases read
      · exact copyBlock_len hc
      · exact copyBlock_len hc
    rw [hc] at h
    cases err with
    | succ e => simp at h
    | zero =>
      have hresid : unsigned (len - (min len n : Nat)) = len - min len n := by
        simp only [unsigned, wordSize] at *
        omega
      simp only [hresid] at h
      rw [if_neg (by omega : ¬ (0 < n - min len n ∧ 0 < len - min len n))] at h
      obtain ⟨rfl, rfl⟩ := by simpa using h
      exact ⟨min len n, min_le_left _ _, rfl, by simp [moved, hb]⟩
  · rw [if_neg hmove] at h
    obtain ⟨rfl, rfl⟩ := by simpa using h
    exact ⟨0, Nat.zero_le _, by simp, rfl⟩

theorem vopMoves_moved :
    ∀ {ns : List Nat} {base len offset : Nat} {u : Uio} {log : List Block}, len < wordSize →
      vopMoves faults ns ⟨[(base, len)], len, offset, read⟩ = some (0, u, log) →
      moved log ≤ len ∧ u.resid = len - moved log
  | [], base, len, offset, u, log, _, h => by
    obtain ⟨rfl, rfl⟩ := by simpa [vopMoves] using h
    exact ⟨Nat.zero_le _, rfl⟩
  | n :: ns, base, len, offset, u, log, hlen, h => by
    unfold vopMoves at h
    dsimp only at h
    split at h
    · simp at h
    · rename_i u₁ log₁ hmove
      obtain ⟨k, hk, rfl, hmoved⟩ := uiomove_moved hlen hmove
      obtain ⟨⟨err, u₂, log₂⟩, hrest, heq⟩ := Option.map_eq_some_iff.mp h
      obtain ⟨rfl, rfl, rfl⟩ := by simpa using heq
      obtain ⟨hle, hresid⟩ := vopMoves_moved (by omega) hrest
      have hsum : moved (log₁ ++ log₂) = k + moved log₂ := by
        rw [moved_append, hmoved]
      rw [hsum]
      omega
    · rename_i err u₁ log₁ hne hmove
      obtain ⟨rfl, rfl, rfl⟩ := by simpa using h
      exact absurd rfl hne

/-! ## When the registers tell -/

/-- The vnode operation on an open file succeeds, and moves fewer than `2 ^ 31` bytes. -/
def IoTold (env : Env) (files : Files) (read : Bool) (fd : Int) (buf size : Nat) : Prop :=
  ∃ k v u log, entry files fd = some k ∧ (files.system k).vn = some v ∧
    (env.vop v (files.system k).offset size read).result = 0 ∧
    vopMoves env.faults (env.vop v (files.system k).offset size read).moves
      ⟨[(buf, size)], size, (files.system k).offset, read⟩ = some (0, u, log) ∧
    moved log < 2147483648

/-- The calls whose answer gets through: those that succeed, up to a count of `2 ^ 31` and, at the
console, without a negative character; and an `open` that `vfs_open` itself refused with
`ENOSYS`. -/
def FileCall.Told (files : Files) : FileCall → Prop
  | .open env path openflags =>
    (∃ err : Nat, (vfsOpen env path openflags.toNat).1 = some (.error err) ∧
      err % wordSize = enosys) ∨
    (∃ v, (vfsOpen env path openflags.toNat).1 = some (.ok v)) ∧ SlotFree files ∧ EntryFree files
  | .close fd => ∃ k v, entry files fd = some k ∧ (files.system k).vn = some v
  | .read env fd buf size =>
    fd ≠ 0 ∧ IoTold env files true fd buf size.toNat ∨
      fd = 0 ∧ size.toNat < 2147483648 ∧ ∀ i < size.toNat, (env.getch i).toNat < 128
  | .write env fd buf size =>
    (fd ≠ 1 ∧ fd ≠ 2) ∧ IoTold env files false fd buf size.toNat ∨
      (fd = 1 ∨ fd = 2) ∧ size.toNat < 2147483648

theorem fileIo_of_closed {env : Env} {files : Files} {size : Nat}
    (h : ((entry files fd).bind fun k => (files.system k).vn) = none) :
    fileIo env files read fd buf size = (some (-1), [], files) := by
  cases hentry : entry files fd with
  | none => exact fileIo_of_none hentry
  | some k =>
    have hv : (files.system k).vn = none := by simpa [hentry] using h
    unfold entry at hentry
    unfold fileIo
    grind

theorem fileIo_tells_iff {env : Env} {files : Files} {size : Nat} {retval : Int}
    (hsize : size < wordSize) (h : (fileIo env files read fd buf size).1 = some retval) :
    signed retval = (ioAnswer env files read fd buf size).regs ↔
      IoTold env files read fd buf size := by
  cases hopen : (entry files fd).bind fun k => (files.system k).vn with
  | none =>
    have hanswer : ioAnswer env files read fd buf size = .fails (-1) := by
      unfold ioAnswer
      cases hentry : entry files fd with
      | none => rfl
      | some k =>
        grind
    rw [fileIo_of_closed hopen] at h
    cases h
    rw [hanswer, signed_neg_one_eq_fails_iff]
    refine iff_of_false (by decide) ?_
    rintro ⟨k, v, u, log, hk, hv, -⟩
    simp [hk, hv] at hopen
  | some v =>
    obtain ⟨k, hk, hv⟩ := Option.bind_eq_some_iff.mp hopen
    rw [fileIo_of_some hk hv] at h
    unfold transfer at h
    have htold : IoTold env files read fd buf size ↔
        (env.vop v (files.system k).offset size read).result = 0 ∧ ∃ u log,
          vopMoves env.faults (env.vop v (files.system k).offset size read).moves
            ⟨[(buf, size)], size, (files.system k).offset, read⟩ = some (0, u, log) ∧
          moved log < 2147483648 := by
      constructor
      · rintro ⟨k', v', u, log, hk', hv', hres, hmoves, hlt⟩
        grind
      · rintro ⟨hres, u, log, hmoves, hlt⟩
        exact ⟨k, v, u, log, hk, hv, hres, hmoves, hlt⟩
    rw [htold]
    unfold ioAnswer
    simp only [hk, hv, Option.bind_some, Option.map_some]
    dsimp only at h
    rcases hmoves : vopMoves env.faults (env.vop v (files.system k).offset size read).moves
      ⟨[(buf, size)], size, (files.system k).offset, read⟩ with _ | ⟨_ | err, u, log⟩ <;>
      rw [hmoves] at h
    · cases h
    · -- the operation's own result decides
      simp only at h
      dsimp only
      by_cases hres : (env.vop v (files.system k).offset size read).result = 0
      · rw [if_neg (not_not.mpr hres)] at h
        cases h
        obtain ⟨hle, hresid⟩ := vopMoves_moved hsize hmoves
        have hcount : size - u.resid = moved log := by omega
        rw [if_neg (not_not.mpr rfl), if_neg (not_not.mpr hres), hcount,
          signed_eq_returns_iff (by omega)]
        simp [hres]
      · rw [if_pos hres] at h
        cases h
        rw [if_neg (not_not.mpr rfl), if_pos hres]
        exact iff_of_false (signed_errno_ne_fails _) fun hc => hres hc.1
    · cases h
      dsimp only
      rw [if_pos (Nat.succ_ne_zero err)]
      exact iff_of_false (signed_errno_ne_fails _) (by simp)

/-! ## At the console -/

/-- A console loop that comes back has touched the bytes up to the first with `stop`. -/
theorem consoleLog_moved {stop : Nat → Bool} {write : Bool} {p : Nat}
    (h : (consoleLog faults stop write p n).1 = false) :
    moved (consoleLog faults stop write p n).2 = min n (scan stop n 0 + 1) := by
  obtain ⟨-, hle, hbefore, hat⟩ := scan_spec stop n 0
  obtain ⟨-, hle', hbefore', hat'⟩ :=
    scan_spec (fun i => faults ((p + i) % wordSize) || stop i) n 0
  rw [Nat.zero_add] at hle hat hle' hat'
  have hscan : scan (fun i => faults ((p + i) % wordSize) || stop i) n 0 = scan stop n 0 := by
    rcases Nat.lt_trichotomy (scan (fun i => faults ((p + i) % wordSize) || stop i) n 0)
      (scan stop n 0) with hlt | heq | hgt
    · -- it ended at a fault, which is fatal
      have hfault := hat' (by omega)
      rw [hbefore _ (Nat.zero_le _) hlt, Bool.or_false] at hfault
      unfold consoleLog span at h
      grind
    · exact heq
    · grind
  unfold consoleLog span
  rw [hscan]
  dsimp only
  split_ifs with h0
  · rw [h0]
    rfl
  · simp [moved]

/-- `sys_write` to the console returns its argument. -/
theorem consoleWrite_tells_iff (hn : n = size.toInt.toNat) :
    signed size.toInt = (Answer.returns n).regs ↔ size.toNat < 2147483648 := by
  have hsize := size.isLt
  have htoInt := BitVec.toInt_eq_toNat_cond size
  by_cases hlt : size.toNat < 2147483648
  · have hint : size.toInt = (size.toNat : Int) := by
      rw [htoInt, if_pos (by omega)]
    rw [hn, hint, Int.toNat_natCast, signed_nat_eq_returns_iff (by simpa using hsize)
      (by simpa using hsize)]
    exact iff_of_true rfl hlt
  · have hneg : size.toInt < 0 := by
      rw [htoInt, if_neg (by omega)]
      omega
    exact iff_of_false (signed_neg_ne_returns hneg) hlt

/-- `sys_read` from the console does not count the negative character it ends at. -/
theorem consoleRead_tells_iff {getch : Nat → UInt8} 
    (hn : n = min size.toInt.toNat
      (scan (fun i => decide (128 ≤ (getch i).toNat)) size.toInt.toNat 0 + 1)) :
    signed (consoleRead getch size.toInt) = (Answer.returns n).regs ↔
      size.toNat < 2147483648 ∧ ∀ i < size.toNat, (getch i).toNat < 128 := by
  have htoInt := BitVec.toInt_eq_toNat_cond size
  obtain ⟨-, hle, hbefore, hat⟩ :=
    scan_spec (fun i => decide (128 ≤ (getch i).toNat)) size.toInt.toNat 0
  unfold consoleRead
  dsimp only
  by_cases hlt : size.toNat < 2147483648
  · have hint : size.toInt = (size.toNat : Int) := by
      rw [htoInt, if_pos (by omega)]
    rw [hint, Int.toNat_natCast] at hn hle hbefore hat ⊢
    generalize scan (fun i => decide (128 ≤ (getch i).toNat)) size.toNat 0 = k at *
    rw [Nat.zero_add] at hle hat
    by_cases hk : k < size.toNat
    · rw [if_pos (by omega), signed_nat_eq_returns_iff (by simp only [wordSize]; omega)
        (by simp only [wordSize]; omega)]
      grind
    · rw [if_neg (by omega), signed_nat_eq_returns_iff (by simp only [wordSize]; omega)
        (by simp only [wordSize]; omega)]
      grind
  · have hneg : size.toInt < 0 := by
      rw [htoInt, if_neg (by omega)]
      omega
    rw [if_neg (by omega)]
    exact iff_of_false (signed_neg_ne_returns hneg) fun h => hlt h.1

/-! ## The calls -/

section Calls

variable {env : Env} {files : Files} {r : BitVec 32 × Nat}

attribute [local simp] FileCall.answer FileCall.Told

theorem sysOpen_tells_iff {path : Nat} {openflags : BitVec 32}
    (hr : (sysOpen env files path openflags).regs = some r) :
    r = ((FileCall.open env path openflags).answer files).regs ↔
      (FileCall.open env path openflags).Told files := by
  unfold sysOpen at hr
  simp only [FileCall.answer, FileCall.Told]
  rcases hopen : vfsOpen env path openflags.toNat with ⟨_ | (err | v), log⟩ <;>
    rw [hopen] at hr
  · cases hr
  · cases hr
    dsimp only
    rw [signed_neg_one_eq_fails_iff]
    grind
  · obtain rfl := Option.some.inj hr
    dsimp only
    rw [or_iff_right (by simp), and_iff_right ⟨v, rfl⟩]
    rcases installFile_cases files v with
      ⟨hfull, hinst⟩ | ⟨hfull, i, hi, hfree, hinst⟩ | ⟨hslot, hentry, j, hlt, hj⟩
    · rw [hinst, if_neg hfull, signed_neg_one_eq_fails_iff]
      exact iff_of_false (by decide) fun h => hfull h.1
    · rw [hinst, if_pos ⟨i, hi, hfree⟩, if_pos rfl, signed_neg_one_eq_fails_iff]
      exact iff_of_false (by decide) fun h => hfull h.2
    · rw [if_pos hslot, hj, if_neg (by omega), Int.toNat_natCast]
      simp only [openMax] at hlt
      rw [signed_nat_eq_returns_iff (by simp only [wordSize]; omega)
        (by simp only [wordSize]; omega)]
      exact iff_of_true rfl ⟨hslot, hentry⟩

theorem sysClose_tells_iff (hr : (sysClose files fd).regs = some r) :
    r = ((FileCall.close fd).answer files).regs ↔ (FileCall.close fd).Told files := by
  simp only [FileCall.answer, FileCall.Told]
  cases hopen : (entry files fd).bind fun k => (files.system k).vn with
  | none =>
    have hregs : (sysClose files fd).regs = some (signed (-1)) := by
      cases hentry : entry files fd with
      | none => rw [sysClose_of_none hentry]
      | some k =>
        have hv : (files.system k).vn = none := by simpa [hentry] using hopen
        unfold entry at hentry
        unfold sysClose
        grind
    obtain rfl := Option.some.inj (hr.symm.trans hregs)
    dsimp only
    rw [signed_neg_one_eq_fails_iff]
    grind
  | some v =>
    obtain ⟨k, hk, hv⟩ := Option.bind_eq_some_iff.mp hopen
    rw [sysClose_of_some hk hv] at hr
    cases hr
    exact iff_of_true rfl ⟨k, v, hk, hv⟩

theorem sysRead_tells_iff (hr : (sysRead env files fd buf size).regs = some r) :
    r = ((FileCall.read env fd buf size).answer files).regs ↔
      (FileCall.read env fd buf size).Told files := by
  simp only [FileCall.answer, FileCall.Told]
  by_cases hfd : fd = 0
  · rw [if_neg (not_not.mpr hfd), or_iff_right fun h => h.1 hfd, and_iff_right hfd]
    unfold sysRead at hr ⊢
    rw [if_neg (not_not.mpr hfd)] at hr ⊢
    dsimp only at hr ⊢
    split_ifs at hr with hfatal
    cases hr
    exact consoleRead_tells_iff (consoleLog_moved (by simpa using hfatal))
  · rw [if_pos hfd, or_iff_left fun h => hfd h.1, and_iff_right hfd]
    unfold sysRead at hr
    rw [if_pos hfd] at hr
    dsimp only at hr
    obtain ⟨retval, hretval, rfl⟩ := Option.map_eq_some_iff.mp hr
    exact fileIo_tells_iff size.isLt hretval

theorem sysWrite_tells_iff (hr : (sysWrite env files fd buf size).regs = some r) :
    r = ((FileCall.write env fd buf size).answer files).regs ↔
      (FileCall.write env fd buf size).Told files := by
  simp only [FileCall.answer, FileCall.Told]
  by_cases hfd : fd ≠ 1 ∧ fd ≠ 2
  · rw [if_pos hfd, or_iff_left (by tauto), and_iff_right hfd]
    unfold sysWrite at hr
    rw [if_pos hfd] at hr
    dsimp only at hr
    obtain ⟨retval, hretval, rfl⟩ := Option.map_eq_some_iff.mp hr
    exact fileIo_tells_iff size.isLt hretval
  · rw [if_neg hfd, or_iff_right fun h => hfd h.1, and_iff_right (by tauto)]
    unfold sysWrite at hr ⊢
    rw [if_neg hfd] at hr ⊢
    dsimp only at hr ⊢
    split_ifs at hr with hfatal
    cases hr
    refine consoleWrite_tells_iff ((consoleLog_moved (by simpa using hfatal)).trans ?_)
    -- nothing stops the loop
    obtain ⟨-, hle, -, hat⟩ := scan_spec (fun _ => false) size.toInt.toNat 0
    grind

end Calls

/-- **When the registers tell what a file call has come to**: for every `open`, `close`, `read` and
`write`, every state of the file tables and whatever the layers below answer, if the call comes back
then `v0` and `a3` are right exactly under the condition `Told`. -/
theorem results_tell_iff {env : Env} {files : Files} {tf : Trapframe} {c : FileCall}
    {r : BitVec 32 × Nat} (hc : callOf env tf = some c)
    (hr : (syscall env files tf).regs = some r) : r = (c.answer files).regs ↔ c.Told files := by
  rw [syscall_eq_run hc] at hr
  cases c with
  | «open» env path openflags => exact sysOpen_tells_iff hr
  | close fd => exact sysClose_tells_iff hr
  | read env fd buf size => exact sysRead_tells_iff hr
  | write env fd buf size => exact sysWrite_tells_iff hr

/-- `read(3, 0x400000, 10)`. -/
def readTen : Trapframe := ⟨50#32, 3#32, 0x400000#32, 10#32⟩

/-- It moves ten bytes, and says so. -/
theorem results_tell_ten_bytes :
    (syscall quietEnv oneFile readTen).regs = some (10#32, 0) ∧
      ((FileCall.read quietEnv 3 0x400000 10#32).answer oneFile).regs = (10#32, 0) := by
  have hregs : (syscall quietEnv oneFile readTen).regs = some (10#32, 0) := by decide +kernel
  refine ⟨hregs, ((results_tell_iff (c := .read quietEnv 3 0x400000 10#32) (by rfl) hregs).mpr
    ?_).symm⟩
  exact Or.inl ⟨by decide, 0, 0, ⟨[(0x40000a, 0)], 0, 10, true⟩, [⟨0x400000, 10, true, true⟩],
    by decide, by decide, rfl, by decide, by decide⟩

/-- A vnode operation that fails with `EIO` (32). -/
def failingEnv : Env := { quietEnv with vop := fun _ _ _ _ => ⟨[], 32⟩ }

/-- `read` of a file that fails with `EIO` comes back as one of 32 bytes; `close` of a descriptor
that is not open comes back with `ENOSYS`, which no layer has returned. -/
theorem read_error_is_count :
    callOf failingEnv readTen = some (.read failingEnv 3 0x400000 10#32) ∧
      (syscall failingEnv oneFile readTen).regs = some (32#32, 0) ∧
      (FileCall.read failingEnv 3 0x400000 10#32).answer oneFile = .fails 32 ∧
      (syscall quietEnv oneFile ⟨49#32, 4#32, 0#32, 0#32⟩).regs = some (1#32, 1) ∧
      (FileCall.close 4).answer oneFile = .fails (-1) :=
  ⟨rfl, by decide, by decide, by decide, by decide⟩

end OsPaging.Proc
