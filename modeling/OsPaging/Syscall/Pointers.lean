import OsPaging.Syscall.Calls

/-!
# User pointers and kernel memory

`Confined`: every access that a call makes through a user-supplied pointer lies below
`USERSPACETOP`, and a call with one that would not returns an error. `__time` goes through
`copyout` and is confined for all arguments. `open`, the console loops of `read` and `write`, and
`waitpid` use the pointer as it is, so they are confined only if the bytes they go over happen to
lie in user space; `read` and `write` on files go through `copyin` and `copyout`, which refuse the
others, but the error they return is taken for a result (`kernel_pointers`). **`confined_iff`** has
the exact condition for every call.
-/

namespace OsPaging.Syscall

open OsPaging.Vm

variable {env : Env} {path : Nat}

/-- No access leaves user space, and one that would makes the call fail. -/
def Confined (o : Outcome) : Prop :=
  (∀ b ∈ o.log, b.done = true → b.below) ∧
    ((∃ b ∈ o.log, ¬ b.below) → ∃ v0, o.regs = some (v0, 1))

/-- `n` bytes at `p` lie in user space. -/
def Within (p n : Nat) : Prop := n = 0 ∨ p + n ≤ userSpaceTop

/-- How many bytes of the buffer the `uiomove` calls `moves` of a file system go over, up to the
first that meets a fault. -/
def ioSpan (faults : Nat → Bool) : List Nat → Nat → Nat → Nat
  | [], _, _ => 0
  | n :: ns, base, resid =>
    let k := min resid n
    if k = 0 then ioSpan faults ns base resid
    else if (List.range k).any fun i => faults (base + i) then k
    else k + ioSpan faults ns (base + k) (resid - k)

/-- The buffer of a `read` or `write` on a file. -/
def FileWithin (env : Env) (files : Files) (read : Bool) (fd : Int) (buf size : Nat) : Prop :=
  0 ≤ fd → fd ≤ (openMax : Int) → ∀ k ∈ files.table fd.toNat, ∀ v ∈ (files.system k).vn,
    Within buf (ioSpan env.faults (env.vop v (files.system k).offset size read).moves buf size)

/-- The buffer of a `read` or `write` on the console. -/
def ConsoleWithin (faults stop : Nat → Bool) (buf n : Nat) : Prop :=
  Within buf (span (fun i => faults ((buf + i) % wordSize) || stop i) n)

/-- The bytes that the call goes over lie in user space. -/
def PointersBelow (env : Env) (files : Files) (tf : Trapframe) : Prop :=
  match sysno tf.v0.toNat with
  | .open => tf.a1.toNat % 4 = 3 ∨ Within tf.a0.toNat ((vfsWalk env tf.a0.toNat).last + 1)
  | .write =>
    if tf.a0.toInt ≠ 1 ∧ tf.a0.toInt ≠ 2 then
      FileWithin env files false tf.a0.toInt tf.a1.toNat tf.a2.toNat
    else ConsoleWithin env.faults (fun _ => false) tf.a1.toNat tf.a2.toInt.toNat
  | .read =>
    if tf.a0.toInt ≠ 0 then FileWithin env files true tf.a0.toInt tf.a1.toNat tf.a2.toNat
    else
      ConsoleWithin env.faults (fun i => decide (128 ≤ (env.getch i).toNat)) tf.a1.toNat
        tf.a2.toInt.toNat
  | .waitpid => ∀ status, env.wait tf.a0.toInt = .exited status → tf.a1.toNat = 0 ∨
      Within tf.a1.toNat intSize
  | _ => True

/-! ## Calls that use the pointer as it is -/

section Direct

variable {regs : Option (BitVec 32 × Nat)} {files : Files}

theorem confined_nil : Confined ⟨[], regs, files⟩ := ⟨by simp, by simp⟩

theorem confined_of_below {log : List Block} (h : ∀ b ∈ log, b.below) :
    Confined ⟨log, regs, files⟩ :=
  ⟨fun b hm _ => h b hm, fun ⟨b, hm, hn⟩ => absurd (h b hm) hn⟩

/-- Direct accesses are confined exactly if they lie in user space. -/
theorem confined_done {log : List Block} (h : ∀ b ∈ log, b.done = true) :
    Confined ⟨log, regs, files⟩ ↔ ∀ b ∈ log, b.below := by
  constructor
  · exact fun hc b hb => hc.1 b hb (h b hb)
  · exact confined_of_below

/-- The `:` that `getdevice` overwrites is one of the bytes it has gone over. -/
theorem getdevice_colon {i : Nat} (h : (getdevice env path).colon = some i) :
    i < (getdevice env path).last := by
  unfold getdevice at h ⊢
  simp only at h ⊢
  split_ifs at h ⊢ <;> simp only [Option.some.injEq] at h <;>
  · rw [← h]
    exact (scan_spec _ _ _).1

theorem vfsWalk_colon {i : Nat} (h : (vfsWalk env path).colon = some i) :
    i < (vfsWalk env path).last := by
  unfold vfsWalk at h ⊢
  simp only at h ⊢
  split at h
  · exact getdevice_colon h
  · rename_i err rest _
    by_cases herr : err ≠ 0
    · rw [if_pos herr] at h ⊢
      exact getdevice_colon h
    · rw [if_neg herr] at h ⊢
      exact Nat.lt_of_lt_of_le (getdevice_colon h) (le_max_left _ _)

/-- A walk stays in user space exactly if its last byte does. -/
theorem walk_below (hp : path < wordSize) :
    (∀ b ∈ (vfsWalk env path).log path, b.below) ↔ Within path ((vfsWalk env path).last + 1) := by
  unfold Walk.log Within Block.below
  constructor
  · exact fun h => Or.inr (h _ List.mem_cons_self)
  · intro h b hb
    have h : path + ((vfsWalk env path).last + 1) ≤ userSpaceTop := by omega
    rcases List.mem_cons.mp hb with rfl | hb
    · exact h
    · obtain ⟨i, hi, rfl⟩ := Option.map_eq_some_iff.mp (Option.mem_toList.mp hb)
      have hlt := vfsWalk_colon hi
      simp only [wordSize, userSpaceTop, mipsKseg0] at *
      omega

theorem confined_sysOpen (env : Env) (files : Files) (hp : path < wordSize)
    (openflags : BitVec 32) : Confined (sysOpen env files path openflags) ↔
      openflags.toNat % 4 = 3 ∨ Within path ((vfsWalk env path).last + 1) := by
  have hdone : ∀ b ∈ (vfsWalk env path).log path, b.done = true := by
    intro b hb
    unfold Walk.log at hb
    rcases List.mem_cons.mp hb with rfl | hb
    · rfl
    · obtain ⟨i, -, rfl⟩ := Option.map_eq_some_iff.mp (Option.mem_toList.mp hb)
      rfl
  unfold sysOpen vfsOpen
  by_cases hm : openflags.toNat % 4 = 3
  · simp only [hm, if_true, true_or, iff_true]
    exact confined_nil
  · simp only [hm, if_false, false_or]
    rw [← walk_below hp]
    split <;> rename_i heq <;> obtain ⟨-, rfl⟩ := Prod.mk.inj heq <;> exact confined_done hdone

theorem confined_console {faults stop : Nat → Bool} {write : Bool} {p n : Nat} :
    Confined ⟨(consoleLog faults stop write p n).2, regs, files⟩ ↔
      ConsoleWithin faults stop p n := by
  unfold consoleLog ConsoleWithin Within
  simp only
  split_ifs with hk
  · simp [hk, confined_nil]
  · rw [confined_done (by simp)]
    simp [hk, Block.below]

theorem confined_sysWaitpid (env : Env) (pid : Int) (status : Nat) :
    Confined (sysWaitpid env files pid status) ↔
      ∀ code, env.wait pid = .exited code → status = 0 ∨ Within status intSize := by
  unfold sysWaitpid
  split
  · simp [*, confined_nil]
  · simp [*, confined_nil]
  · rename_i code hw
    rw [hw]
    by_cases h0 : status = 0
    · simp [h0, confined_nil]
    · rw [if_neg h0, confined_done (by simp)]
      simp [h0, Block.below, Within]

theorem confined_sysClose (files : Files) (fd : Int) : Confined (sysClose files fd) := by
  unfold sysClose
  split_ifs
  · exact confined_nil
  · split
    · exact confined_nil
    · simp only
      split_ifs
      · exact confined_nil
      · exact confined_nil

end Direct

/-! ## Calls that copy -/

/-- `__time` is confined for all arguments. -/
theorem confined_sysTime (env : Env) (files : Files) {seconds nanoseconds : Nat}
    (hs : seconds < wordSize) (hn : nanoseconds < wordSize) :
    Confined (sysTime env files seconds nanoseconds) := by
  have herr : ∀ {err : Nat}, err = efault → ∃ v0, some (returnRegs err 0) = some (v0, 1) := by
    rintro err rfl
    exact ⟨_, rfl⟩
  have hspec {err : Nat} {b : Block} (h : copyBlock true env.faults seconds timeSize = (err, b)) :=
    copyBlock_below true env.faults hs (by decide) (by decide) h
  unfold sysTime copyout
  split
  · rename_i b hc
    obtain ⟨-, hdone, hrefuse, -⟩ := hspec hc
    obtain ⟨⟨err', b'⟩, hc'⟩ : ∃ r, copyBlock true env.faults nanoseconds nsecSize = r := ⟨_, rfl⟩
    obtain ⟨-, hdone', hrefuse', -⟩ :=
      copyBlock_below true env.faults hn (by decide) (by decide) hc'
    rw [hc']
    refine ⟨by simpa using ⟨hdone, hdone'⟩, ?_⟩
    grind
  · rename_i err b _ hc
    obtain ⟨-, hdone, hrefuse, -⟩ := hspec hc
    refine ⟨by simpa using hdone, ?_⟩
    grind

/-- One `uiomove` on a buffer that is one `iovec`: at most one copy. -/
theorem uiomove_one (faults : Nat → Bool) (read : Bool) {base len : Nat} (n offset : Nat)
    (hl : len < wordSize) :
    uiomove faults read [(base, len)] n len offset =
      if min len n = 0 then some (0, ⟨[(base, len)], len, offset, read⟩, [])
      else
        let r := copyBlock read faults base (min len n)
        if r.1 = 0 then
          some (0, ⟨[(base + min len n, len - min len n)], len - min len n, offset + min len n,
            read⟩,
            [r.2])
        else some (r.1, ⟨[(base, len)], len, offset, read⟩, [r.2]) := by
  have hcopy : ∀ size, (if read then copyout faults base size else copyin faults base size) =
      copyBlock read faults base size := by
    intro size
    cases read <;> rfl
  have hresid : unsigned ((len : Int) - (min len n : Nat)) = len - min len n := by
    simp only [unsigned, wordSize] at *
    omega
  unfold uiomove
  grind

/-- **The moves of a file system**: what is touched lies in user space; what would not is refused,
and the refusal is the error. -/
theorem vopMoves_spec (faults : Nat → Bool) (read : Bool) :
    ∀ (ns : List Nat) (base len offset : Nat), base < wordSize → len < wordSize →
      ∃ err u log, vopMoves faults ns ⟨[(base, len)], len, offset, read⟩ = some (err, u, log) ∧
        (∀ b ∈ log, b.done = true → b.below) ∧
        ((∃ b ∈ log, ¬ b.below) → err = efault) ∧
        ((∃ b ∈ log, ¬ b.below) ↔ ¬ Within base (ioSpan faults ns base len))
  | [], base, len, offset, hb, hl => by
    refine ⟨0, _, [], rfl, by simp, by simp, ?_⟩
    simp [ioSpan, Within]
  | n :: ns, base, len, offset, hb, hl => by
    by_cases h0 : min len n = 0
    · -- nothing to move
      obtain ⟨err, u, log, hv, hrest⟩ := vopMoves_spec faults read ns base len offset hb hl
      refine ⟨err, u, log, ?_, ?_⟩
      · simp [vopMoves, uiomove_one faults read n offset hl, h0, hv]
      · simpa only [ioSpan, h0, if_true] using hrest
    · obtain ⟨⟨err, b⟩, hc⟩ : ∃ r, copyBlock read faults base (min len n) = r := ⟨_, rfl⟩
      obtain ⟨hbelow, hdone, hrefuse, hfault⟩ :=
        copyBlock_below read faults hb (by omega) (by omega) hc
      have hspan : ¬ b.below → ∀ m, ¬ Within base (min len n + m) := by
        intro hn m hw
        rw [hbelow] at hn
        unfold Within at hw
        omega
      by_cases herr : err = 0
      · -- the copy was made: the rest of the moves
        subst herr
        have hbb : b.below := by
          by_contra hn
          exact absurd (hrefuse hn) (by decide)
        have hle := hbelow.mp hbb
        obtain ⟨err, u, log, hv, h1, h2, h3⟩ := vopMoves_spec faults read ns
          (base + min len n) (len - min len n) (offset + min len n)
          (by simp only [wordSize, userSpaceTop, mipsKseg0] at *; omega) (by omega)
        have hex : (∃ x ∈ b :: log, ¬ x.below) ↔ ∃ x ∈ log, ¬ x.below := by
          simp [hbb]
        refine ⟨err, u, b :: log, ?_, ?_, by rw [hex]; exact h2, ?_⟩
        · simp [vopMoves, uiomove_one faults read n offset hl, h0, hc, hv]
        · exact List.forall_mem_cons.mpr ⟨hdone, h1⟩
        · rw [hex, h3]
          simp only [ioSpan, h0, if_false, (hfault hbb).mp rfl, Bool.false_eq_true]
          unfold Within
          omega
      · -- the copy met a fault or was refused
        refine ⟨err, ⟨[(base, len)], len, offset, read⟩, [b], ?_, by simpa using hdone,
          by simpa using hrefuse, ?_⟩
        · simp [vopMoves, uiomove_one faults read n offset hl, h0, hc, herr]
        · simp only [List.mem_singleton, exists_eq_left, ioSpan, h0, if_false]
          by_cases hbb : b.below
          · have hany : (List.range (min len n)).any (fun i => faults (base + i)) = true := by
              by_contra hn
              exact herr ((hfault hbb).mpr (by simpa using hn))
            have := hbelow.mp hbb
            simp [hbb, hany, Within, this]
          · refine iff_of_true hbb ?_
            split_ifs
            · exact hspan hbb 0
            · exact hspan hbb _

/-- `read` and `write` on a file: the accesses are in user space, but a refusal is not an error. -/
theorem confined_fileIo (env : Env) (files : Files) (read : Bool) (fd : Int) {buf size : Nat}
    (hb : buf < wordSize) (hs : size < wordSize) :
    Confined ⟨(fileIo env files read fd buf size).2.1,
        (fileIo env files read fd buf size).1.map signed,
        (fileIo env files read fd buf size).2.2⟩ ↔
      FileWithin env files read fd buf size := by
  unfold fileIo FileWithin
  by_cases hfd : fd < 0 ∨ (openMax : Int) < fd
  · rw [if_pos hfd]
    refine iff_of_true confined_nil fun h1 h2 => ?_
    omega
  · rw [if_neg hfd]
    have h1 : 0 ≤ fd ∧ fd ≤ (openMax : Int) := by omega
    simp only [h1.1, h1.2, true_imp_iff]
    cases hk : files.table fd.toNat with
    | none => simp [confined_nil]
    | some k =>
      cases hv : (files.system k).vn with
      | none => simp [hv, confined_nil]
      | some v =>
        simp only [Option.mem_def, Option.some.injEq, forall_eq', hv]
        obtain ⟨err, u, log, hmoves, hdone, hrefuse, hspan⟩ := vopMoves_spec env.faults read
          (env.vop v (files.system k).offset size read).moves buf size (files.system k).offset hb hs
        rw [hmoves, ← not_iff_not, ← hspan]
        cases err with
        | zero =>
          -- nothing was refused
          have hall : ∀ b ∈ log, b.below := fun b hm => by
            grind
          refine iff_of_false (not_not.mpr ?_) fun ⟨b, hm, hn⟩ => hn (hall b hm)
          simp only
          split_ifs
          · exact confined_of_below hall
          · exact confined_of_below hall
        | succ e =>
          -- the error is positive, so it is returned as a value
          constructor
          · intro hnot
            by_contra hall
            exact hnot (confined_of_below fun b hm => by_contra fun hn => hall ⟨b, hm, hn⟩)
          · intro hex hc
            obtain ⟨v0, hv0⟩ := hc.2 hex
            have hpos : ¬ ((e + 1 : Nat) : Int) < 0 := by omega
            simp only [Option.map_some, signed, returnRegs, hpos, if_false, ne_eq,
              not_true_eq_false,
              Option.some.injEq, Prod.mk.injEq] at hv0
            exact absurd hv0.2 (by decide)

/-! ## The dispatcher -/

/-- **Which calls are confined**: `reboot`, `__time`, `close`, `_exit`, `getpid` and unknown numbers
always; `open`, `read`, `write` and `waitpid` exactly when the bytes they go over lie in user
space. -/
theorem confined_iff (env : Env) (files : Files) (tf : Trapframe) :
    Confined (syscall env files tf) ↔ PointersBelow env files tf := by
  have h0 : tf.a0.toNat < wordSize := tf.a0.isLt
  have h1 : tf.a1.toNat < wordSize := tf.a1.isLt
  have h2 : tf.a2.toNat < wordSize := tf.a2.isLt
  unfold syscall PointersBelow
  cases sysno tf.v0.toNat with
  | time => exact iff_of_true (confined_sysTime env files h0 h1) trivial
  | «open» => exact confined_sysOpen env files h0 tf.a1
  | close => exact iff_of_true (confined_sysClose files _) trivial
  | write =>
    simp only [sysWrite]
    by_cases hfd : tf.a0.toInt ≠ 1 ∧ tf.a0.toInt ≠ 2
    · rw [if_pos hfd, if_pos hfd]
      exact confined_fileIo env files false _ h1 h2
    · rw [if_neg hfd, if_neg hfd]
      exact confined_console
  | read =>
    simp only [sysRead]
    by_cases hfd : tf.a0.toInt ≠ 0
    · rw [if_pos hfd, if_pos hfd]
      exact confined_fileIo env files true _ h1 h2
    · rw [if_neg hfd, if_neg hfd]
      exact confined_console
  | waitpid => exact confined_sysWaitpid env _ _
  | _ => exact iff_of_true confined_nil trivial

/-- A kernel in which no access faults and every file system moves all data at once. -/
def quietEnv : Env where
  mem _ := 0
  faults _ := false
  getch _ := 65
  getcurdir := 0
  getroot := 0
  getstart := 0
  lookup := .ok 0
  vop _ _ size _ := ⟨[size], 0⟩
  wait _ := .exited 0
  getpid := 1
  reboot := none

/-- One file is open, as descriptor 3. -/
def oneFile : Files where
  system k := if k = 0 then ⟨some 0, 1, 0⟩ else ⟨none, 0, 0⟩
  table j := if j = 3 then some 0 else none

/-- At `0x80000000`, the first kernel address: `write` to the console sends a kernel byte, `read`
from it overwrites one, and both succeed; `read` from a file touches nothing, but gives `EFAULT` as
the number of bytes read. -/
theorem kernel_pointers :
    ((syscall quietEnv oneFile ⟨55, 1, 0x80000000, 1⟩).log = [⟨0x80000000, 1, false, true⟩] ∧
      (syscall quietEnv oneFile ⟨55, 1, 0x80000000, 1⟩).regs = some (1, 0)) ∧
    ((syscall quietEnv oneFile ⟨50, 0, 0x80000000, 1⟩).log = [⟨0x80000000, 1, true, true⟩] ∧
      (syscall quietEnv oneFile ⟨50, 0, 0x80000000, 1⟩).regs = some (1, 0)) ∧
    ((syscall quietEnv oneFile ⟨50, 3, 0x80000000, 1⟩).log = [⟨0x80000000, 1, true, false⟩] ∧
      (syscall quietEnv oneFile ⟨50, 3, 0x80000000, 1⟩).regs = some (6, 0)) ∧
    ¬ Confined (syscall quietEnv oneFile ⟨55, 1, 0x80000000, 1⟩) ∧
    ¬ Confined (syscall quietEnv oneFile ⟨50, 0, 0x80000000, 1⟩) ∧
    ¬ Confined (syscall quietEnv oneFile ⟨50, 3, 0x80000000, 1⟩) := by
  refine ⟨by decide, by decide, by decide, ?_, ?_, ?_⟩
  · exact fun h => absurd (h.1 _ List.mem_cons_self rfl) (by decide)
  · exact fun h => absurd (h.1 _ List.mem_cons_self rfl) (by decide)
  · intro h
    obtain ⟨v0, hv0⟩ := h.2 ⟨_, List.mem_cons_self, by decide⟩
    exact absurd (Prod.mk.inj (Option.some.inj hv0)).2 (by decide)

end OsPaging.Syscall
