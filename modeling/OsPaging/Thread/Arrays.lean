import Mathlib.Algebra.Group.Nat.Defs
import OsPaging.Lib.Run
import OsPaging.Lib.Words
import OsPaging.User.Memmove

/-!
# Resizable arrays

`kern/lib/array.c` and the inline functions of `array.h`: `void *` elements in a block that grows
by doubling. Memory is bytes, an element is an aligned word of it. What `kmalloc`, `kfree` and the
rest of the kernel write outside the array's block is a step of its own. `none` is a failed
`KASSERT` or a loop that does not end.

Below `2^29` elements the doubling ends and neither `newmax` nor a byte count wraps around.
**`arrays_refine_lists`** is the refinement.
-/

namespace OsPaging.Thread

open OsPaging.Lib OsPaging.User

abbrev PtrArray.enomem : Nat := 3

open PtrArray

/-- `struct array`, and the memory its block is in. -/
structure PtrArray where
  v : Nat
  num : Nat
  max : Nat
  mem : Bytes

/-- `a->v[index]`. -/
def PtrArray.elem (s : PtrArray) (index : Nat) : Nat := word s.mem (s.v / 4 + index)

/-- `a->v[index] = val`. -/
def PtrArray.store (s : PtrArray) (index : Nat) (val : UInt32) : PtrArray :=
  { s with mem := setWord s.mem (s.v / 4 + index) val.toNat }

def arrayInit (mem : Bytes) : PtrArray := { v := 0, num := 0, max := 0, mem }

/-- `while (num > newmax) newmax = newmax ? newmax*2 : 4;`, for as many rounds. -/
def growMax (num : Nat) : Nat → Nat → Option Nat
  | 0, _ => none
  | rounds + 1, newmax =>
    if num > newmax then
      growMax num rounds (if newmax ≠ 0 then newmax * 2 % 4294967296 else 4)
    else some newmax

/-- `array_preallocate`, with the error it returns. -/
def arrayPreallocate (kmalloc : Nat → Option Nat) (s : PtrArray) (num : Nat) :
    Option (Nat × PtrArray) :=
  if num > s.max then do
    -- an `unsigned` has come back to 0 and been through every power of two in 64 rounds
    let newmax ← growMax num 64 s.max
    match kmalloc (newmax * 4 % 4294967296) with
    | none => some (enomem, s)
    | some newptr =>
      let mem := memcpy s.mem newptr s.v (s.num * 4 % 4294967296)
      some (0, { s with v := newptr, max := newmax, mem })
  else some (0, s)

def arraySetsize (kmalloc : Nat → Option Nat) (s : PtrArray) (num : Nat) :
    Option (Nat × PtrArray) := do
  let r ← arrayPreallocate kmalloc s num
  if r.1 ≠ 0 then some r else some (0, { r.2 with num })

/-- `array_add`, with what it stores to `index_ret`. -/
def arrayAdd (kmalloc : Nat → Option Nat) (s : PtrArray) (val : UInt32) :
    Option (Nat × Option Nat × PtrArray) := do
  let index := s.num
  let r ← arraySetsize kmalloc s ((index + 1) % 4294967296)
  if r.1 ≠ 0 then some (r.1, none, r.2) else some (0, some index, r.2.store index val)

def arrayGet (s : PtrArray) (index : Nat) : Option Nat :=
  if index < s.num then some (s.elem index) else none

def arraySet (s : PtrArray) (index : Nat) (val : UInt32) : Option PtrArray :=
  if index < s.num then some (s.store index val) else none

def arrayRemove (s : PtrArray) (index : Nat) : Option PtrArray :=
  if s.num ≤ s.max ∧ index < s.num then
    let numToMove := s.num - (index + 1)
    let mem := memmove s.mem (s.v + index * 4) (s.v + (index + 1) * 4)
      (numToMove * 4 % 4294967296)
    some { s with num := s.num - 1, mem }
  else none

/-- A call, or anything else that writes memory. -/
inductive ArrayOp where
  | setsize (num : Nat)
  | add (val : UInt32)
  | get (index : Nat)
  | set (index : Nat) (val : UInt32)
  | remove (index : Nat)
  | other (mem : Bytes)

/-- A call with `kmalloc`'s answer to each size, the error returned and the value handed back. -/
structure ArrayCall where
  op : ArrayOp
  kmalloc : Nat → Option Nat
  ret : Nat
  out : Option Nat

/-- The call. -/
def PtrArray.exec (s : PtrArray) (kmalloc : Nat → Option Nat) :
    ArrayOp → Option (Nat × Option Nat × PtrArray)
  | .setsize num => (arraySetsize kmalloc s num).map fun r => (r.1, none, r.2)
  | .add val => arrayAdd kmalloc s val
  | .get index => (arrayGet s index).map fun x => (0, some x, s)
  | .set index val => (arraySet s index val).map fun t => (0, none, t)
  | .remove index => (arrayRemove s index).map fun t => (0, none, t)
  | .other mem => some (0, none, { s with mem })

/-- What `kmalloc` gives is aligned and apart from the array's block. -/
def PtrArray.Fresh (s : PtrArray) (kmalloc : Nat → Option Nat) : Prop :=
  ∀ size p, kmalloc size = some p → p % 4 = 0 ∧ (p + size ≤ s.v ∨ s.v + 4 * s.max ≤ p)

/-- Sizes are below `2^29`, and nobody else writes to the array's block. -/
def PtrArray.Sized (s : PtrArray) : ArrayOp → Prop
  | .setsize num => num < 536870912
  | .add _ => s.num + 1 < 536870912
  | .other mem => ∀ a, s.v ≤ a → a < s.v + 4 * s.max → mem a = s.mem a
  | _ => True

/-- The assertions on the index. -/
def ArrayOp.InRange (num : Nat) : ArrayOp → Prop
  | .get index | .set index _ | .remove index => index < num
  | _ => True

/-- One call that returns. -/
def ArrayStep (s : PtrArray) (c : ArrayCall) (t : PtrArray) : Prop :=
  (s.Fresh c.kmalloc ∧ s.Sized c.op) ∧ s.exec c.kmalloc c.op = some (c.ret, c.out, t)

/-- What a call does to a list: the elements that growing adds are unspecified. -/
def ListStep (l : List Nat) (c : ArrayCall) (l' : List Nat) : Prop :=
  match c.op with
  | .setsize num => c.out = none ∧
      (c.ret = enomem ∧ (∃ size, c.kmalloc size = none) ∧ l' = l ∨
        c.ret = 0 ∧ l'.length = num ∧ ∀ i < min num l.length, l'[i]? = l[i]?)
  | .add val =>
      c.ret = enomem ∧ c.out = none ∧ (∃ size, c.kmalloc size = none) ∧ l' = l ∨
        c.ret = 0 ∧ c.out = some l.length ∧ l' = l ++ [val.toNat]
  | .get index => index < l.length ∧ c.ret = 0 ∧ c.out = l[index]? ∧ l' = l
  | .set index val => index < l.length ∧ c.ret = 0 ∧ c.out = none ∧ l' = l.set index val.toNat
  | .remove index => index < l.length ∧ c.ret = 0 ∧ c.out = none ∧ l' = l.eraseIdx index
  | .other _ => c.ret = 0 ∧ c.out = none ∧ l' = l

/-- The list in the array. -/
def PtrArray.list (s : PtrArray) : List Nat := (List.range s.num).map s.elem

/-- What every call keeps. -/
structure PtrArray.Inv (s : PtrArray) : Prop where
  num_le : s.num ≤ s.max
  max_lt : s.max < 1073741824
  aligned : s.v % 4 = 0

variable {s t : PtrArray} {kmalloc : Nat → Option Nat} {num index i : Nat} {val : UInt32}
  {l : List Nat}

namespace PtrArray

@[simp] theorem length_list : s.list.length = s.num := by simp [list]

theorem getElem?_list (h : i < s.num) : s.list[i]? = some (s.elem i) := by
  simp [PtrArray.list, h]

theorem list_eq (hlen : l.length = s.num)
    (h : ∀ i < s.num, l[i]? = some (s.elem i)) : s.list = l := by
  apply List.ext_getElem?
  intro i
  by_cases hi : i < s.num
  · rw [getElem?_list hi, h i hi]
  · rw [List.getElem?_eq_none (by simpa using hi), List.getElem?_eq_none (by omega)]

theorem elem_store : (s.store index val).elem index = val.toNat := by
  have hv := val.toNat_lt
  rw [elem, store, word_setWord_self, Nat.mod_eq_of_lt hv]

theorem elem_store_of_ne (h : i ≠ index) : (s.store index val).elem i = s.elem i :=
  word_setWord_of_ne fun he => h (Nat.add_left_cancel he)

theorem list_store (h : index < s.num) :
    (s.store index val).list = s.list.set index val.toNat := by
  refine list_eq (by simp [store]) fun i hi => ?_
  by_cases hne : index = i
  · subst hne
    rw [elem_store, List.getElem?_set_self (by simpa using h)]
  · rw [elem_store_of_ne (Ne.symm hne), List.getElem?_set_ne hne]
    exact getElem?_list hi

end PtrArray

/-- Below `2^29` the loop ends, without a wrap. -/
theorem growMax_eq_some (hnum : num < 536870912) {rounds newmax : Nat} (hpos : 0 < newmax)
    (hlt : newmax < 1073741824) (h : num ≤ newmax * 2 ^ rounds) :
    ∃ m, growMax num (rounds + 1) newmax = some m ∧ num ≤ m ∧ m < 1073741824 := by
  induction rounds generalizing newmax with
  | zero => exact ⟨newmax, if_neg (by omega), by omega, hlt⟩
  | succ rounds ih =>
    by_cases hgt : num > newmax
    · rw [growMax, if_pos hgt, if_pos (by omega), Nat.mod_eq_of_lt (by omega)]
      refine ih (by omega) (by omega) ?_
      rwa [Nat.mul_assoc, ← Nat.pow_succ']
    · exact ⟨newmax, if_neg hgt, by omega, hlt⟩

theorem growMax_from (hnum : num < 536870912) {max : Nat} (hmax : max < 1073741824) :
    ∃ m, growMax num 64 max = some m ∧ num ≤ m ∧ m < 1073741824 := by
  rcases Nat.eq_zero_or_pos max with rfl | hpos
  · by_cases hgt : num > 0
    · rw [growMax, if_pos hgt, if_neg (by omega)]
      exact growMax_eq_some hnum (by omega) (by omega) (by omega)
    · exact ⟨0, if_neg hgt, by omega, hmax⟩
  · exact growMax_eq_some hnum hpos hmax (by omega)

/-- There is room for `num` elements after `array_preallocate`, and those there are the same. -/
theorem arrayPreallocate_spec (h : s.Inv) (hf : s.Fresh kmalloc) (hnum : num < 536870912) :
    (arrayPreallocate kmalloc s num = some (enomem, s) ∧ ∃ size, kmalloc size = none) ∨
      ∃ t, arrayPreallocate kmalloc s num = some (0, t) ∧ t.Inv ∧ num ≤ t.max ∧
        t.num = s.num ∧ ∀ i < s.num, t.elem i = s.elem i := by
  have hle := h.num_le
  have hlt := h.max_lt
  by_cases hgt : num > s.max
  · obtain ⟨m, hm, hnm, hm30⟩ := growMax_from hnum hlt
    unfold arrayPreallocate
    rw [if_pos hgt, hm, Option.bind_eq_bind, Option.bind_some, Nat.mod_eq_of_lt (by omega),
      Nat.mod_eq_of_lt (by omega)]
    cases hk : kmalloc (m * 4) with
    | none => exact .inl ⟨rfl, _, hk⟩
    | some p =>
      obtain ⟨hp, hapart⟩ := hf _ p hk
      refine .inr ⟨_, rfl, ⟨by simp only; omega, hm30, hp⟩, hnm, rfl, fun i hi => ?_⟩
      -- the new block may be on either side of the old one
      have hcopy : memcpy s.mem p s.v (s.num * 4) = blit s.mem p s.mem s.v (s.num * 4) :=
        memcpy_eq_blit (by omega)
      rw [elem, hcopy]
      exact word_blit_inside hp h.aligned hi
  · exact .inr ⟨s, if_neg hgt, h, by omega, rfl, fun _ _ => rfl⟩

theorem arraySetsize_spec (h : s.Inv) (hf : s.Fresh kmalloc) (hnum : num < 536870912) :
    (arraySetsize kmalloc s num = some (enomem, s) ∧ ∃ size, kmalloc size = none) ∨
      ∃ t, arraySetsize kmalloc s num = some (0, t) ∧ t.Inv ∧ t.num = num ∧
        ∀ i < s.num, t.elem i = s.elem i := by
  unfold arraySetsize
  rcases arrayPreallocate_spec h hf hnum with ⟨hp, hk⟩ | ⟨t, hp, ht, hroom, -, hsame⟩
  · rw [hp]
    exact .inl ⟨rfl, hk⟩
  · rw [hp]
    exact .inr ⟨{ t with num }, rfl, { ht with num_le := hroom }, rfl, hsame⟩

theorem arrayAdd_spec (h : s.Inv) (hf : s.Fresh kmalloc) (hnum : s.num + 1 < 536870912) :
    (arrayAdd kmalloc s val = some (enomem, none, s) ∧ ∃ size, kmalloc size = none) ∨
      ∃ t, arrayAdd kmalloc s val = some (0, some s.num, t) ∧ t.Inv ∧
        t.list = s.list ++ [val.toNat] := by
  simp only [arrayAdd, Nat.mod_eq_of_lt (show s.num + 1 < 4294967296 by omega)]
  rcases arraySetsize_spec h hf hnum with ⟨hs, hk⟩ | ⟨t, hs, ht, hn, hsame⟩
  · rw [hs]
    exact .inl ⟨rfl, hk⟩
  · rw [hs]
    refine .inr ⟨t.store s.num val, rfl, { ht with }, ?_⟩
    have hnum' : (t.store s.num val).num = s.num + 1 := hn
    refine list_eq (by simp [hnum']) fun i hi => ?_
    rcases Nat.lt_succ_iff_lt_or_eq.mp (hnum' ▸ hi) with hi | rfl
    · rw [elem_store_of_ne (Nat.ne_of_lt hi), hsame i hi,
        List.getElem?_append_left (by simpa using hi), getElem?_list hi]
    · rw [elem_store, List.getElem?_append_right (by simp)]
      simp

theorem arrayRemove_spec (h : s.Inv) (hi : index < s.num) :
    ∃ t, arrayRemove s index = some t ∧ t.Inv ∧ t.list = s.list.eraseIdx index := by
  have hle := h.num_le
  have hlt := h.max_lt
  have hal := h.aligned
  refine ⟨_, if_pos ⟨hle, hi⟩, ⟨by simp only; omega, hlt, hal⟩, ?_⟩
  refine list_eq ?_ fun i hi' => ?_
  · rw [List.length_eraseIdx_of_lt (by simpa using hi), length_list]
  · simp only at hi'
    rw [elem, memmove_eq_blit, Nat.mod_eq_of_lt (by omega), List.getElem?_eraseIdx]
    split
    · next hlo =>
      -- before the gap nothing is written
      rw [getElem?_list (by omega)]
      exact congrArg some (word_congr fun k hk => (blit_outside (by omega)).symm)
    · next hhi =>
      obtain ⟨j, rfl⟩ := Nat.exists_eq_add_of_le (Nat.not_lt.mp hhi)
      have hmoved := word_blit_inside (b := s.mem) (c := s.mem) (d := s.v + index * 4)
        (t := s.v + (index + 1) * 4) (i := j) (n := s.num - (index + 1)) (by omega) (by omega)
        (by omega)
      rw [getElem?_list (by omega), elem,
        show s.v / 4 + (index + j) = (s.v + index * 4) / 4 + j by omega, hmoved]
      congr 2
      omega

/-- **One call**: in range it returns and does to the list what it says, out of range it stops. -/
theorem PtrArray.exec_spec {op : ArrayOp} (h : s.Inv) (hf : s.Fresh kmalloc) (hs : s.Sized op) :
    (¬ op.InRange s.num ∧ s.exec kmalloc op = none) ∨
      op.InRange s.num ∧ ∃ ret out t, s.exec kmalloc op = some (ret, out, t) ∧ t.Inv ∧
        ListStep s.list ⟨op, kmalloc, ret, out⟩ t.list := by
  cases op with
  | setsize num =>
    refine .inr ⟨trivial, ?_⟩
    rcases arraySetsize_spec h hf hs with ⟨he, hk⟩ | ⟨t, he, ht, hn, hsame⟩
    · exact ⟨enomem, none, s, by rw [exec, he]; rfl, h, rfl, .inl ⟨rfl, hk, rfl⟩⟩
    · refine ⟨0, none, t, by rw [exec, he]; rfl, ht, rfl, .inr ⟨rfl, by simp [hn], ?_⟩⟩
      intro i hi
      rw [length_list, Nat.lt_min] at hi
      rw [getElem?_list (hn ▸ hi.1), getElem?_list hi.2, hsame i hi.2]
  | add val =>
    refine .inr ⟨trivial, ?_⟩
    rcases arrayAdd_spec h hf hs with ⟨he, hk⟩ | ⟨t, he, ht, hl⟩
    · exact ⟨enomem, none, s, he, h, .inl ⟨rfl, rfl, hk, rfl⟩⟩
    · exact ⟨0, _, t, he, ht, .inr ⟨rfl, by rw [length_list], hl⟩⟩
  | get index =>
    by_cases hi : index < s.num
    · refine .inr ⟨hi, 0, s.elem index, s, by rw [exec, arrayGet, if_pos hi]; rfl, h, ?_⟩
      exact ⟨by simpa using hi, rfl, (getElem?_list hi).symm, rfl⟩
    · exact .inl ⟨hi, by rw [exec, arrayGet, if_neg hi]; rfl⟩
  | set index val =>
    by_cases hi : index < s.num
    · refine .inr ⟨hi, 0, none, s.store index val, by rw [exec, arraySet, if_pos hi]; rfl,
        { h with }, ?_⟩
      exact ⟨by simpa using hi, rfl, rfl, list_store hi⟩
    · exact .inl ⟨hi, by rw [exec, arraySet, if_neg hi]; rfl⟩
  | remove index =>
    by_cases hi : index < s.num
    · obtain ⟨t, he, ht, hl⟩ := arrayRemove_spec h hi
      refine .inr ⟨hi, 0, none, t, by rw [exec, he]; rfl, ht, ?_⟩
      exact ⟨by simpa using hi, rfl, rfl, hl⟩
    · exact .inl ⟨hi, by rw [exec, arrayRemove, if_neg fun hc => hi hc.2]; rfl⟩
  | other mem =>
    refine .inr ⟨trivial, 0, none, _, rfl, { h with }, rfl, rfl, ?_⟩
    have hle := h.num_le
    have hal := h.aligned
    refine list_eq (by simp) fun i hi => ?_
    simp only at hi
    rw [getElem?_list hi]
    exact congrArg some (word_congr fun k hk => (hs k (by omega) (by omega)).symm)

/-- **Resizable arrays refine lists.** -/
theorem arrays_refine_lists {mem : Bytes} {cs : List ArrayCall}
    (h : Run ArrayStep (arrayInit mem) cs s) :
    Run ListStep [] cs s.list ∧ s.num ≤ s.max ∧
      ∀ c : ArrayCall, s.Fresh c.kmalloc → s.Sized c.op →
        (s.exec c.kmalloc c.op = none ↔ ¬ c.op.InRange s.num) := by
  have hrun : s.Inv ∧ Run ListStep [] cs s.list := by
    refine h.history (R := fun cs s => s.Inv ∧ Run ListStep [] cs s.list)
      ⟨⟨Nat.le_refl 0, Nat.zero_lt_succ _, rfl⟩, .nil⟩ ?_
    rintro cs s c t ⟨hi, hl⟩ ⟨⟨hf, hs⟩, he⟩
    rcases exec_spec hi hf hs with ⟨-, hn⟩ | ⟨-, ret, out, t', he', ht, hstep⟩
    · rw [hn] at he
      cases he
    · rw [he'] at he
      cases he
      exact ⟨ht, hl.snoc hstep⟩
  refine ⟨hrun.2, hrun.1.num_le, fun c hf hs => ?_⟩
  rcases exec_spec hrun.1 hf hs with ⟨hout, hn⟩ | ⟨hin, ret, out, t, he, -⟩
  · exact ⟨fun _ => hout, fun _ => hn⟩
  · rw [he]
    exact iff_of_false (Option.some_ne_none _) (not_not_intro hin)

/-- An `array_add` without memory, then one that gets a block. -/
theorem arrays_refine_lists_two : ∃ s : PtrArray, s.num = 1 ∧ Run ListStep []
    [⟨.add 7, fun _ => none, enomem, none⟩, ⟨.add 7, fun _ => some 4096, 0, some 0⟩] s.list := by
  have hs : (arrayInit zeros).Sized (.add 7) := show 0 + 1 < 536870912 by decide
  have hf : (arrayInit zeros).Fresh fun _ => some 4096 := by
    rintro size p ⟨⟩
    exact ⟨rfl, .inr (Nat.zero_le 4096)⟩
  have hfail : ArrayStep (arrayInit zeros) ⟨.add 7, fun _ => none, enomem, none⟩ _ :=
    ⟨⟨by rintro size p ⟨⟩, hs⟩, rfl⟩
  have hadd : ArrayStep (arrayInit zeros) ⟨.add 7, fun _ => some 4096, 0, some 0⟩ _ :=
    ⟨⟨hf, hs⟩, rfl⟩
  exact ⟨_, rfl, (arrays_refine_lists ((Run.nil.snoc hfail).snoc hadd)).1⟩

end OsPaging.Thread
