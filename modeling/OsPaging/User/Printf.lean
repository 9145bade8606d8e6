import Mathlib.Algebra.Group.Nat.Defs
import Mathlib.Data.List.Basic
import Mathlib.Data.List.Induction

/-!
# Printing and reading integers

`__vprintf` of `common/libc/printf/__printf.c`, `vsnprintf` of `common/libc/printf/snprintf.c` and
`atoi` of `common/libc/stdlib/atoi.c`. The printf code hands its text on through `sendfunc`, which
keeps a state of any type. Arguments are a list; one of the wrong kind, and a digit written before
the start of the number buffer, are `none`. The counters `charcount` and `spacing` do not overflow.

**`printed_integers_read_back`** is about the digits, **`vsnprintf_truncates`** about the buffer.
-/

namespace OsPaging.User

variable {ds : List Char}

/-- An argument: an integer of any type, or a string that may be `NULL`. -/
inductive PfArg
  | int (n : Int)
  | str (s : Option (List Char))
deriving DecidableEq, Repr

inductive PfSize
  | intsz
  | longsz
  | llongsz
  | sizetsz
deriving DecidableEq, Repr

/-- The range of the unsigned type. -/
def PfSize.range : PfSize → Nat
  | .llongsz => 18446744073709551616
  | _ => 4294967296

/-- `PF`, without the function that it calls. -/
structure PF (δ : Type) where
  clientdata : δ
  ap : List PfArg
  charcount : Nat
  inPct : Bool
  size : PfSize
  num : Nat
  sign : Bool
  spacing : Nat
  rightspc : Bool
  fillchar : Char
  base : Nat
  baseprefix : Bool
  altformat : Bool

namespace PF

variable {δ : Type} (sendfunc : δ → List Char → δ)

def print (pf : PF δ) (txt : List Char) : PF δ :=
  { pf with clientdata := sendfunc pf.clientdata txt, charcount := pf.charcount + txt.length }

def endfield (pf : PF δ) : PF δ :=
  { pf with
    inPct := false, size := .intsz, num := 0, sign := false, spacing := 0, rightspc := false
    fillchar := ' ', base := 0, baseprefix := false, altformat := false }

def modifier (pf : PF δ) (ch : Char) : PF δ :=
  if ch = '#' then { pf with altformat := true }
  else if ch = '-' then { pf with rightspc := true }
  else if ch = 'l' then
    { pf with size := if pf.size = .longsz then .llongsz else .longsz }
  else if ch = 'z' then { pf with size := .sizetsz }
  else if ch = '0' then
    if 0 < pf.spacing then { pf with spacing := pf.spacing * 10 } else { pf with fillchar := '0' }
  else { pf with spacing := pf.spacing * 10 + (ch.toNat - '0'.toNat) }

/-- `__pf_getnum`: `va_arg`, and the sign for `%d`. -/
def getnum (pf : PF δ) (ch : Char) : Option (PF δ) :=
  match pf.ap with
  | .int n :: ap =>
    if ch = 'p' then some { pf with ap := ap, num := (n % 4294967296).toNat }
    else if ch = 'd' then
      if n < 0 then some { pf with ap := ap, sign := true, num := (-n).toNat }
      else some { pf with ap := ap, num := n.toNat }
    else some { pf with ap := ap, num := (n % pf.size.range).toNat }
  | _ => none

def setbase (pf : PF δ) (ch : Char) : PF δ :=
  { pf with
    base := if ch = 'd' ∨ ch = 'u' then 10 else if ch = 'x' ∨ ch = 'p' then 16
      else if ch = 'o' then 8 else pf.base
    baseprefix := pf.altformat || ch = 'p' || pf.baseprefix }

def fill (pf : PF δ) (spc : Nat) : PF δ :=
  (List.range spc).foldl (fun pf _ => pf.print sendfunc [pf.fillchar]) pf

def printstuff (pf : PF δ) (pre pre2 stuff : List Char) : PF δ :=
  let spc := pf.spacing - (pre.length + pre2.length + stuff.length)
  let pf := if 0 < spc ∧ pf.rightspc = false ∧ pf.fillchar ≠ '0' then pf.fill sendfunc spc else pf
  let pf := (pf.print sendfunc pre).print sendfunc pre2
  let pf := if 0 < spc ∧ pf.rightspc = false ∧ pf.fillchar = '0' then pf.fill sendfunc spc else pf
  let pf := pf.print sendfunc stuff
  if 0 < spc ∧ pf.rightspc = true then pf.fill sendfunc spc else pf

end PF

/-- `digits[d]`. -/
def digit (d : Nat) : Char := "0123456789abcdef".toList.getD d '0'

/-- The loop of `__pf_printnum`, with `x` places left in the buffer and the text behind them. -/
def printnumLoop (base : Nat) : Nat → Nat → List Char → Option (List Char)
  | 0, _, _ => none
  | x + 1, xnum, text =>
    if 0 < xnum / base then printnumLoop base x (xnum / base) (digit (xnum % base) :: text)
    else some (digit (xnum % base) :: text)

def numberBufSize : Nat := 8 * 8 / 3 + 2

namespace PF

variable {δ : Type} (sendfunc : δ → List Char → δ)

/-- `__pf_printnum`; the last place of the buffer holds the null terminator. -/
def printnum (pf : PF δ) : Option (PF δ) :=
  match printnumLoop pf.base (numberBufSize - 1) pf.num [] with
  | none => none
  | some x =>
    let bprefix := if pf.baseprefix ∧ pf.base = 16 then "0x".toList
      else if pf.baseprefix ∧ pf.base = 8 then "0".toList else []
    let sprefix := if pf.sign then ['-'] else []
    some (pf.printstuff sendfunc sprefix bprefix x)

def send (pf : PF δ) (ch : Char) : Option (PF δ) :=
  if pf.inPct = false ∧ ch ≠ '%' then some (pf.print sendfunc [ch])
  else if pf.inPct = false then some { pf with inPct := true }
  else if ch ∈ "#-lz0123456789".toList then some (pf.modifier ch)
  else if ch ∈ "doupx".toList then do
    let pf ← pf.getnum ch
    let pf ← (pf.setbase ch).printnum sendfunc
    some pf.endfield
  else if ch = 's' then
    match pf.ap with
    | .str s :: ap =>
      some (({ pf with ap := ap }).printstuff sendfunc [] [] (s.getD "(null)".toList)).endfield
    | _ => none
  else if ch = 'c' then
    match pf.ap with
    | .int n :: ap =>
      let x := (n % 256).toNat
      some (({ pf with ap := ap }).printstuff sendfunc [] []
        (if x = 0 then [] else [Char.ofNat x])).endfield
    | _ => none
  else some (pf.printstuff sendfunc [] [] [ch]).endfield

end PF

/-- `__vprintf`: the number of characters, and what `sendfunc` made of them. -/
def vprintf {δ : Type} (sendfunc : δ → List Char → δ) (clientdata : δ) (format : List Char)
    (ap : List PfArg) : Option (Nat × δ) := do
  let pf ← format.foldlM (PF.send sendfunc)
    (PF.endfield ⟨clientdata, ap, 0, false, .intsz, 0, false, 0, false, ' ', 0, false, false⟩)
  some (pf.charcount, pf.clientdata)

/-- `__snprintf_send`: characters are stored while there is room for them. -/
def snprintfSend (buflen : Nat) (buf data : List Char) : List Char :=
  data.foldl (fun buf c => if buf.length < buflen then buf ++ [c] else buf) buf

/-- `vsnprintf` into `len` bytes: the result, and the string in the buffer. -/
def vsnprintf (len : Nat) (fmt : List Char) (ap : List PfArg) : Option (Nat × List Char) :=
  vprintf (snprintfSend (len - 1)) [] fmt ap

/-- The loop of `atoi`, in 32-bit arithmetic. -/
def atoiLoop : List Char → Nat → Nat
  | [], val => val
  | c :: s, val =>
    match "0123456789".toList.idxOf? c with
    | none => val
    | some digit => atoiLoop s ((val * 10 + digit) % 4294967296)

/-- An `unsigned` as an `int`. -/
def toInt (val : Nat) : Int := if val < 2147483648 then val else (val : Int) - 4294967296

def atoi (s : List Char) : Int :=
  match s.dropWhile (fun c => c = ' ' ∨ c = '\t') with
  | '-' :: s => toInt ((4294967296 - atoiLoop s 0) % 4294967296)
  | '+' :: s => toInt (atoiLoop s 0)
  | s => toInt (atoiLoop s 0)

/-! ## Digits -/

def digitValue (c : Char) : Nat := "0123456789abcdef".toList.idxOf c

/-- The number that digits denote. -/
def denoted (base : Nat) (ds : List Char) : Nat := ds.foldl (fun v c => v * base + digitValue c) 0

theorem digitValue_digit : ∀ d < 16, digitValue (digit d) = d := by decide

theorem idxOf?_digit : ∀ d < 10, "0123456789".toList.idxOf? (digit d) = some d := by decide

/-- What the loop of `__pf_printnum` writes. -/
structure Digits (base num : Nat) (ds : List Char) : Prop where
  denoted : denoted base ds = num
  legal : ∀ c ∈ ds, ∃ d < base, c = digit d
  leading : ds.head? = some '0' → num = 0 ∧ ds = ['0']
  ne_nil : ds ≠ []

theorem Digits.one {base num : Nat} (hb : base ≤ 16) (h : num < base) :
    Digits base num [digit num] where
  denoted := by
    rw [User.denoted, List.foldl_cons, List.foldl_nil, Nat.zero_mul, Nat.zero_add]
    exact digitValue_digit num (by omega)
  legal := by simpa using ⟨num, h, rfl⟩
  leading h0 := by
    have hd : digitValue (digit num) = 0 := congrArg digitValue (Option.some.inj h0)
    rw [digitValue_digit num (by omega)] at hd
    exact ⟨hd, by rw [Option.some.inj h0]⟩
  ne_nil := by simp

theorem Digits.snoc {base num d : Nat} (h : Digits base num ds) (hb : base ≤ 16) (hnum : num ≠ 0)
    (hd : d < base) : Digits base (num * base + d) (ds ++ [digit d]) where
  denoted := by
    rw [User.denoted, List.foldl_append, List.foldl_cons, List.foldl_nil]
    rw [← User.denoted, h.denoted, digitValue_digit d (by omega)]
  legal := by
    intro c hc
    rcases List.mem_append.mp hc with hc | hc
    · exact h.legal c hc
    · exact ⟨d, hd, List.mem_singleton.mp hc⟩
  leading h0 := by
    rw [List.head?_append_of_ne_nil _ h.ne_nil] at h0
    exact absurd (h.leading h0).1 hnum
  ne_nil := by simp

/-- The buffer is long enough for a number below `b ^ x`, and the digits of one below `b ^ k`
are at most `k`. -/
theorem printnumLoop_spec {b x n k : Nat} {s : List Char} (h2 : 2 ≤ b) (h16 : b ≤ 16)
    (hx : n < b ^ (x + 1)) (hk : n < b ^ (k + 1)) :
    ∃ ds, printnumLoop b (x + 1) n s = some (ds ++ s) ∧ Digits b n ds ∧
      ds.length ≤ k + 1 := by
  induction x generalizing n k s with
  | zero =>
    rw [Nat.zero_add, Nat.pow_one] at hx
    refine ⟨[digit n], ?_, .one h16 hx, by simp⟩
    rw [printnumLoop, Nat.div_eq_of_lt hx, if_neg (by omega), Nat.mod_eq_of_lt hx]
    rfl
  | succ x ih =>
    by_cases hlt : n < b
    · refine ⟨[digit n], ?_, .one h16 hlt, by simp⟩
      rw [printnumLoop, Nat.div_eq_of_lt hlt, if_neg (by omega), Nat.mod_eq_of_lt hlt]
      rfl
    · have hdiv : 0 < n / b := Nat.div_pos (Nat.not_lt.mp hlt) (by omega)
      cases k with
      | zero => exact absurd (Nat.pow_one b ▸ hk) hlt
      | succ k =>
        obtain ⟨ds, hds, hd, hlen⟩ := ih (n := n / b) (s := digit (n % b) :: s)
          (Nat.div_lt_of_lt_mul (by rwa [Nat.pow_succ'] at hx))
          (Nat.div_lt_of_lt_mul (by rwa [Nat.pow_succ'] at hk))
        refine ⟨ds ++ [digit (n % b)], ?_, ?_, by simpa using hlen⟩
        · rw [printnumLoop, if_pos hdiv, hds, List.append_assoc]
          rfl
        · have hs := hd.snoc h16 (Nat.ne_of_gt hdiv) (Nat.mod_lt n (by omega : 0 < b))
          rwa [Nat.div_add_mod'] at hs

/-! ## The text of a number -/

theorem snprintfSend_eq {n : Nat} {b d : List Char}
    (h : b.length + d.length ≤ n) : snprintfSend n b d = b ++ d := by
  induction d generalizing b with
  | nil => exact (List.append_nil b).symm
  | cons c d ih =>
    rw [List.length_cons] at h
    rw [snprintfSend, List.foldl_cons, if_pos (by omega), ← snprintfSend, ih, List.append_assoc]
    · rfl
    · rw [List.length_append, List.length_singleton]
      omega

/-- What `%d` prints for a number, with its digits. -/
def signed (n : Int) (ds : List Char) : List Char := if n < 0 then '-' :: ds else ds

theorem vsnprintf_d {n : Int} {len : Nat}
    (hds : printnumLoop 10 (numberBufSize - 1) n.natAbs [] = some ds)
    (hlen : (signed n ds).length < len) :
    vsnprintf len "%d".toList [.int n] = some ((signed n ds).length, signed n ds) := by
  have hsend : ∀ pre : List Char, (pre ++ ds).length < len →
      snprintfSend (len - 1) (snprintfSend (len - 1) (snprintfSend (len - 1) [] pre) []) ds =
        pre ++ ds := by
    intro pre hpre
    rw [List.length_append] at hpre
    rw [snprintfSend_eq (b := []) (by simp; omega), List.nil_append,
      snprintfSend_eq (d := []) (by simp; omega), List.append_nil, snprintfSend_eq (by omega)]
  unfold signed at hlen ⊢
  by_cases hn : n < 0
  · have habs : (-n).toNat = n.natAbs := by omega
    rw [if_pos hn] at hlen ⊢
    have htext := hsend ['-'] hlen
    simp [vsnprintf, vprintf, PF.send, PF.endfield, PF.getnum, PF.setbase, PF.printnum,
      PF.printstuff, PF.print, hn, habs, hds, htext, Nat.add_comm 1]
  · have habs : n.toNat = n.natAbs := by omega
    rw [if_neg hn] at hlen ⊢
    have htext := hsend [] hlen
    simp [vsnprintf, vprintf, PF.send, PF.endfield, PF.getnum, PF.setbase, PF.printnum,
      PF.printstuff, PF.print, hn, habs, hds, htext]

/-! ## Reading -/

theorem le_foldl (ds : List Char) (v : Nat) :
    v ≤ ds.foldl (fun v c => v * 10 + digitValue c) v := by
  induction ds generalizing v with
  | nil => exact Nat.le_refl v
  | cons c ds ih =>
    have hc := ih (v * 10 + digitValue c)
    rw [List.foldl_cons]
    omega

theorem atoiLoop_eq (hl : ∀ c ∈ ds, ∃ d < 10, c = digit d) {v : Nat}
    (hv : ds.foldl (fun v c => v * 10 + digitValue c) v < 4294967296) :
    atoiLoop ds v = ds.foldl (fun v c => v * 10 + digitValue c) v := by
  induction ds generalizing v with
  | nil => rfl
  | cons c ds ih =>
    obtain ⟨d, hd, rfl⟩ := hl c (.head _)
    rw [List.foldl_cons, digitValue_digit d (by omega)] at hv ⊢
    have hle := le_foldl ds (v * 10 + d)
    rw [atoiLoop, idxOf?_digit d hd]
    dsimp only
    rw [Nat.mod_eq_of_lt (by omega)]
    exact ih (fun c hc => hl c (.tail _ hc)) hv

theorem digit_ne : ∀ d < 10, ¬(digit d = ' ' ∨ digit d = '\t') ∧ digit d ≠ '-' ∧ digit d ≠ '+' := by
  decide

theorem atoi_digit {d : Nat} {s : List Char} (hd : d < 10) :
    atoi (digit d :: s) = toInt (atoiLoop (digit d :: s) 0) := by
  obtain ⟨hblank, hminus, hplus⟩ := digit_ne d hd
  rw [atoi, List.dropWhile_cons_of_neg (by simpa using hblank)]
  split
  · next heq => exact absurd (List.cons.inj heq).1 hminus
  · next heq => exact absurd (List.cons.inj heq).1 hplus
  · rfl

theorem atoi_signed {n : Int} (hds : Digits 10 n.natAbs ds) (hmin : -2147483648 ≤ n)
    (hmax : n < 2147483648) : atoi (signed n ds) = n := by
  have hval : atoiLoop ds 0 = n.natAbs :=
    (atoiLoop_eq hds.legal (lt_of_eq_of_lt hds.denoted (by omega))).trans hds.denoted
  unfold signed
  split
  · rw [atoi, List.dropWhile_cons_of_neg (by decide)]
    change toInt ((4294967296 - atoiLoop ds 0) % 4294967296) = n
    rw [hval, toInt]
    split <;> omega
  · obtain ⟨c, s, rfl⟩ := List.exists_cons_of_ne_nil hds.ne_nil
    obtain ⟨d, hd, rfl⟩ := hds.legal c (.head _)
    rw [atoi_digit hd, hval, toInt]
    split <;> omega

/-- **Printed integers read back.** -/
theorem printed_integers_read_back :
    (∀ n : Int, -2147483648 ≤ n → n < 2147483648 → ∃ text, text.length ≤ 11 ∧ atoi text = n ∧
      ∀ len, text.length < len →
        vsnprintf len "%d".toList [.int n] = some (text.length, text)) ∧
    ∀ num < 18446744073709551616, ∀ base ∈ [8, 10, 16], ∃ ds,
      printnumLoop base (numberBufSize - 1) num [] = some ds ∧ denoted base ds = num ∧
      (∀ c ∈ ds, ∃ d < base, c = digit d) ∧ (ds.head? = some '0' → num = 0 ∧ ds = ['0']) := by
  constructor
  · intro n hmin hmax
    obtain ⟨ds, hloop, hds, hlen⟩ := printnumLoop_spec (b := 10) (x := 21) (k := 9)
      (n := n.natAbs) (s := []) (by decide) (by decide) (by omega) (by omega)
    rw [List.append_nil] at hloop
    refine ⟨signed n ds, ?_, atoi_signed hds hmin hmax, fun len hl => vsnprintf_d hloop hl⟩
    unfold signed
    split
    · exact Nat.succ_le_succ hlen
    · exact Nat.le_succ_of_le hlen
  · intro num hnum base hbase
    have hb : 8 ≤ base ∧ base ≤ 16 := by
      simp only [List.mem_cons, List.not_mem_nil, or_false] at hbase
      omega
    have hpow : num < base ^ 22 := by
      have h8 : 8 ^ 22 ≤ base ^ 22 := Nat.pow_le_pow_left hb.1 22
      exact Nat.lt_of_lt_of_le (Nat.lt_of_lt_of_le hnum (by decide)) h8
    obtain ⟨ds, hloop, hds, -⟩ := printnumLoop_spec (s := []) (by omega) hb.2 hpow hpow
    rw [List.append_nil] at hloop
    exact ⟨ds, hloop, hds.denoted, hds.legal, hds.leading⟩

/-- `INT_MIN`, into a buffer of 12 bytes. -/
theorem printed_integers_read_back_min : ∃ text,
    vsnprintf 12 "%d".toList [.int (-2147483648)] = some (text.length, text) ∧
      atoi text = -2147483648 := by
  obtain ⟨text, hlen, hread, hprint⟩ :=
    printed_integers_read_back.1 (-2147483648) (by decide) (by decide)
  exact ⟨text, hprint 12 (by omega), hread⟩

/-! ## Truncation -/

/-- `SNP`: the bytes from `buf` on, how many of them may get characters, and the next one to. -/
structure SNP where
  buf : Nat → Char
  buflen : Nat
  bufpos : Nat

namespace SNP

/-- `__snprintf_send`. -/
def send (snp : SNP) (data : List Char) : SNP :=
  data.foldl (fun snp c => if snp.bufpos < snp.buflen then
    { snp with buf := Function.update snp.buf snp.bufpos c, bufpos := snp.bufpos + 1 } else snp) snp

/-- `vsnprintf`: the `int` that it returns, and the bytes from `buf` on. -/
def vsnprintf (buf : Nat → Char) (len : Nat) (fmt : List Char) (ap : List PfArg) :
    Option (Int × (Nat → Char)) := do
  let r ← vprintf send ⟨buf, len - 1, 0⟩ fmt ap
  some (toInt (r.1 % 4294967296),
    if 0 < len then Function.update r.2.buf r.2.bufpos '\x00' else r.2.buf)

theorem send_append (snp : SNP) (s t : List Char) : snp.send (s ++ t) = (snp.send s).send t :=
  List.foldl_append

/-- The buffer holds what fits of the characters sent. -/
theorem send_eq (buf : Nat → Char) (n : Nat) (s : List Char) :
    send ⟨buf, n, 0⟩ s = ⟨fun i => (s.take n)[i]?.getD (buf i), n, min n s.length⟩ := by
  induction s using List.reverseRecOn with
  | nil => simp [send]
  | append_singleton s c ih =>
    have hlen : (s ++ [c]).length = s.length + 1 := List.length_append
    rw [send_append, ih, send, List.foldl_cons, List.foldl_nil, hlen]
    dsimp only
    split
    · have hlt : s.length < n := by omega
      have hle := Nat.le_of_lt hlt
      rw [List.take_of_length_le hle, List.take_of_length_le (by rwa [hlen])]
      congr 1
      · funext i
        rw [Nat.min_eq_right hle, Function.update_apply]
        split
        · next hi => rw [hi, List.getElem?_concat_length, Option.getD_some]
        · next hi =>
          rcases Nat.lt_or_gt_of_ne hi with hi | hi
          · rw [List.getElem?_append_left hi]
          · rw [List.getElem?_eq_none (Nat.le_of_lt hi), List.getElem?_eq_none (by rwa [hlen])]
      · omega
    · rw [List.take_append_of_le_length (by omega)]
      congr 1
      omega

end SNP

/-- Two states of printf that differ in what their clients keep. -/
def PF.Sim {δ γ : Type} (R : Nat → δ → γ → Prop) (pf : PF δ) (qf : PF γ) : Prop :=
  ∃ d, qf = { pf with clientdata := d } ∧ R pf.charcount pf.clientdata d

namespace PF.Sim

variable {δ γ : Type} {f : δ → List Char → δ} {g : γ → List Char → γ} {R : Nat → δ → γ → Prop}
  {pf : PF δ} {qf : PF γ} (hR : ∀ n a b t, R n a b → R (n + t.length) (f a t) (g b t))

theorem endfield (h : Sim R pf qf) : Sim R pf.endfield qf.endfield := by
  obtain ⟨d, rfl, hd⟩ := h
  exact ⟨d, rfl, hd⟩

theorem modifier (h : Sim R pf qf) (ch : Char) : Sim R (pf.modifier ch) (qf.modifier ch) := by
  obtain ⟨d, rfl, hd⟩ := h
  unfold PF.modifier
  dsimp only
  split_ifs <;> exact ⟨d, rfl, hd⟩

theorem getnum (h : Sim R pf qf) {ch : Char} {pf' : PF δ} (hs : pf.getnum ch = some pf') :
    ∃ qf', qf.getnum ch = some qf' ∧ Sim R (pf'.setbase ch) (qf'.setbase ch) := by
  obtain ⟨d, rfl, hd⟩ := h
  unfold PF.getnum at hs ⊢
  dsimp only
  split at hs
  · split_ifs at hs ⊢ <;> cases hs <;> exact ⟨_, rfl, d, rfl, hd⟩
  · cases hs

include hR

theorem print (h : Sim R pf qf) (txt : List Char) : Sim R (pf.print f txt) (qf.print g txt) := by
  obtain ⟨d, rfl, hd⟩ := h
  exact ⟨g d txt, rfl, hR _ _ _ txt hd⟩

theorem pad (h : Sim R pf qf) (c : Bool → Char → Prop) [∀ b x, Decidable (c b x)] (spc : Nat) :
    Sim R (if c pf.rightspc pf.fillchar then pf.fill f spc else pf)
      (if c qf.rightspc qf.fillchar then qf.fill g spc else qf) := by
  obtain ⟨d, rfl, hd⟩ := h
  dsimp only
  split
  · refine List.foldl_rel ⟨d, rfl, hd⟩ fun _ _ pf qf h => ?_
    obtain ⟨d, rfl, hd⟩ := h
    exact print hR ⟨d, rfl, hd⟩ _
  · exact ⟨d, rfl, hd⟩

theorem printstuff (h : Sim R pf qf) (pre pre2 stuff : List Char) :
    Sim R (pf.printstuff f pre pre2 stuff) (qf.printstuff g pre pre2 stuff) := by
  obtain ⟨d, rfl, hd⟩ := h
  let spc := pf.spacing - (pre.length + pre2.length + stuff.length)
  have h1 := pad hR ⟨d, rfl, hd⟩ (fun r x => 0 < spc ∧ r = false ∧ x ≠ '0') spc
  have h2 := pad hR (print hR (print hR h1 pre) pre2) (fun r x => 0 < spc ∧ r = false ∧ x = '0') spc
  exact pad hR (print hR h2 stuff) (fun r _ => 0 < spc ∧ r = true) spc

theorem printnum (h : Sim R pf qf) {pf' : PF δ} (hs : pf.printnum f = some pf') :
    ∃ qf', qf.printnum g = some qf' ∧ Sim R pf' qf' := by
  obtain ⟨d, rfl, hd⟩ := h
  unfold PF.printnum at hs ⊢
  cases hx : printnumLoop pf.base (numberBufSize - 1) pf.num [] with
  | none =>
    rw [hx] at hs
    cases hs
  | some x =>
    rw [hx] at hs
    cases hs
    exact ⟨_, rfl, printstuff hR ⟨d, rfl, hd⟩ _ _ x⟩

theorem send (h : Sim R pf qf) {ch : Char} {pf' : PF δ} (hs : pf.send f ch = some pf') :
    ∃ qf', qf.send g ch = some qf' ∧ Sim R pf' qf' := by
  obtain ⟨d, rfl, hd⟩ := h
  unfold PF.send at hs ⊢
  dsimp only
  split_ifs at hs ⊢
  · cases hs
    exact ⟨_, rfl, print hR ⟨d, rfl, hd⟩ [ch]⟩
  · cases hs
    exact ⟨_, rfl, d, rfl, hd⟩
  · cases hs
    exact ⟨_, rfl, modifier ⟨d, rfl, hd⟩ ch⟩
  · obtain ⟨pf₁, h₁, hs⟩ := Option.bind_eq_some_iff.mp hs
    obtain ⟨pf₂, h₂, hs⟩ := Option.bind_eq_some_iff.mp hs
    obtain ⟨qf₁, hq₁, hsim⟩ := getnum ⟨d, rfl, hd⟩ h₁
    obtain ⟨qf₂, hq₂, hsim⟩ := printnum hR hsim h₂
    cases hs
    exact ⟨_, by rw [hq₁, Option.bind_eq_bind, Option.bind_some, hq₂]; rfl, endfield hsim⟩
  · split at hs
    · cases hs
      refine ⟨_, rfl, endfield (printstuff hR ?_ _ _ _)⟩
      exact ⟨d, rfl, hd⟩
    · cases hs
  · split at hs
    · cases hs
      refine ⟨_, rfl, endfield (printstuff hR ?_ _ _ _)⟩
      exact ⟨d, rfl, hd⟩
    · cases hs
  · cases hs
    exact ⟨_, rfl, endfield (printstuff hR ⟨d, rfl, hd⟩ _ _ _)⟩

end PF.Sim

/-- **The clients' states of two runs of `__vprintf` stay related.** -/
theorem vprintf_rel {δ γ : Type} {f : δ → List Char → δ} {g : γ → List Char → γ}
    {R : Nat → δ → γ → Prop} (hR : ∀ n a b t, R n a b → R (n + t.length) (f a t) (g b t)) {a : δ}
    {b : γ} (h : R 0 a b) {fmt : List Char} {ap : List PfArg} {n : Nat} {a' : δ}
    (hv : vprintf f a fmt ap = some (n, a')) :
    ∃ b', vprintf g b fmt ap = some (n, b') ∧ R n a' b' := by
  obtain ⟨pf', hf, hret⟩ := Option.bind_eq_some_iff.mp hv
  cases hret
  have hrun : ∀ (fmt : List Char) (pf : PF δ) (qf : PF γ), pf.Sim R qf →
      fmt.foldlM (PF.send f) pf = some pf' →
      ∃ qf', fmt.foldlM (PF.send g) qf = some qf' ∧ pf'.Sim R qf' := by
    intro fmt
    induction fmt with
    | nil =>
      intro pf qf hsim hf
      cases hf
      exact ⟨qf, rfl, hsim⟩
    | cons ch fmt ih =>
      intro pf qf hsim hf
      rw [List.foldlM_cons] at hf
      obtain ⟨pf₁, h₁, hf⟩ := Option.bind_eq_some_iff.mp hf
      obtain ⟨qf₁, hq₁, hsim⟩ := hsim.send hR h₁
      obtain ⟨qf', hq', hsim'⟩ := ih pf₁ qf₁ hsim hf
      refine ⟨qf', ?_, hsim'⟩
      rw [List.foldlM_cons, hq₁]
      exact hq'
  obtain ⟨qf', hq, d, rfl, hd⟩ := hrun fmt _ _ ⟨b, rfl, h⟩ hf
  exact ⟨d, Option.bind_eq_some_iff.mpr ⟨_, hq, rfl⟩, hd⟩

/-- **`vsnprintf` truncates exactly**: `s` is what the format prints where there is room for all of
it. -/
theorem vsnprintf_truncates (buf : Nat → Char) (len : Nat) (fmt : List Char) (ap : List PfArg)
    {n : Nat} {s : List Char} (h : vprintf (· ++ ·) [] fmt ap = some (n, s))
    (hs : s.length < 2147483648) :
    ∃ buf', SNP.vsnprintf buf len fmt ap = some ((s.length : Int), buf') ∧ (len = 0 → buf' = buf) ∧
      (0 < len → (∀ i c, (s.take (len - 1))[i]? = some c → buf' i = c) ∧
        buf' (min (len - 1) s.length) = '\x00' ∧
        ∀ i, min (len - 1) s.length < i → buf' i = buf i) := by
  obtain ⟨snp, hv, rfl, rfl⟩ := vprintf_rel (g := SNP.send)
    (R := fun n s snp => n = s.length ∧ snp = SNP.send ⟨buf, len - 1, 0⟩ s)
    (fun n s snp t hr => by
      obtain ⟨rfl, rfl⟩ := hr
      exact ⟨List.length_append.symm, (SNP.send_append ..).symm⟩) ⟨rfl, rfl⟩ h
  have hint : toInt (s.length % 4294967296) = s.length := by
    unfold toInt
    rw [if_pos (by omega), Nat.mod_eq_of_lt (by omega)]
  refine ⟨_, Option.bind_eq_some_iff.mpr ⟨_, hv, by rw [hint, SNP.send_eq]⟩, ?_, ?_⟩
  · rintro rfl
    rfl
  · intro hlen
    rw [if_pos hlen]
    dsimp only
    refine ⟨fun i c hc => ?_, Function.update_self .., fun i hi => ?_⟩
    · have hi := (List.getElem?_eq_some_iff.mp hc).1
      rw [List.length_take] at hi
      rw [Function.update_of_ne (Nat.ne_of_lt hi), hc]
      rfl
    · rw [Function.update_of_ne (Nat.ne_of_gt hi), List.getElem?_eq_none (by
        rw [List.length_take]
        exact Nat.le_of_lt hi)]
      rfl

/-- Five characters into a buffer of four. -/
theorem vsnprintf_truncates_five : ∃ buf',
    SNP.vsnprintf (fun _ => 'x') 4 "a%3d!".toList [.int 42] = some (5, buf') ∧
      buf' 2 = '4' ∧ buf' 3 = '\x00' ∧ buf' 4 = 'x' := by
  obtain ⟨buf', hv, -, hbuf⟩ := vsnprintf_truncates (fun _ => 'x') 4 "a%3d!".toList [.int 42]
    (n := 5) (s := "a 42!".toList) (by decide) (by decide)
  obtain ⟨hin, hnul, hout⟩ := hbuf (by decide)
  exact ⟨buf', hv, hin 2 '4' rfl, hnul, hout 4 (by decide)⟩

end OsPaging.User
