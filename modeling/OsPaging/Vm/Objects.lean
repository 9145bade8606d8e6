import Mathlib.Data.List.Flatten
import OsPaging.Lib.Chain
import OsPaging.Lib.Run
import OsPaging.Vm.Regions

/-!
# The heap objects of an address space

The objects that the VM code gets from `kmalloc`, with the pointers between them: the
`struct addrspace`, its `pt_t`, the sentinel `nil` of the page table, a `ptentry_t` for each page
and a `struct region` for each region. The fields of a structure are maps from its address; the
entries form a cycle through the sentinel (`pt.c`), the regions a list that ends in `NULL`.

* `asCreate` (`vm.c:427-437`) with `pt_init` (`pt.c:5-14`);
* `asDefineRegion` (`vm.c:482-525`): the walk to the last region, and the new one after it;
* `ptAdd` (`pt.c:35-55`), the one place where `vm_fault` allocates;
* `asDestroy` (`vm.c:439-462`) with `pt_destroy` (`pt.c:57-75`): the loop over the regions, the loop
  that unlinks the entry after the sentinel until there is none, and the `kfree` of the page table
  and of the address space.

`kmalloc` returns what an event says, `0` for `NULL`; a block it returns is not in use. A `kfree`
of a block that is not in use has no result, so `as_destroy` has a result only if it frees nothing
twice. `spaces` and `freed` are a record: the address spaces in use, and every block given to
`kfree`.

`pt_destroy` does not free the sentinel, so each `as_destroy` leaves one block behind
(`heap_balance_iff`).
-/

namespace OsPaging.Vm

open OsPaging.Lib
open Function (update update_self update_of_ne update_apply)

variable {as vaddr sz : Nat}

/-! ## The objects and the functions on them -/

structure Objs where
  live : List Nat
  /-- `region -> next` and `ptentry -> next`. -/
  next : Nat → Nat
  region : Nat → Region
  entry : Nat → PtEntry
  nil : Nat → Nat
  npages : Nat → Nat
  pt : Nat → Nat
  startRegion : Nat → Nat
  spaces : List Nat
  freed : List Nat

namespace Objs

/-- `kfree` of a block that is in use. -/
def kfree (h : Objs) (p : Nat) : Option Objs :=
  if p ∈ h.live then some { h with live := h.live.erase p, freed := h.freed ++ [p] } else none

/-- The objects that `as_create` and `pt_init` set up. -/
def withSpace (h : Objs) (as pt nil : Nat) : Objs :=
  { h with
    live := nil :: pt :: as :: h.live
    nil := update h.nil pt nil
    next := update h.next nil nil
    npages := update h.npages pt 0
    pt := update h.pt as pt
    startRegion := update h.startRegion as 0
    spaces := as :: h.spaces }

/-- `as_create` and `pt_init`, with the results of their three `kmalloc` calls. Without memory for
the page table `pt_init` panics; without memory for the sentinel it writes through `NULL`. -/
def asCreate (h : Objs) (as pt nil : Nat) : Option Objs :=
  if as = 0 then some h
  else if pt = 0 ∨ nil = 0 then none
  else some (h.withSpace as pt nil)

/-- The first region of a list. -/
def firstRegion (h : Objs) (as vaddr sz r : Nat) : Objs :=
  { h with
    live := r :: h.live
    startRegion := update h.startRegion as r
    region := update h.region r (newRegion vaddr sz)
    next := update h.next r 0 }

/-- A region after the last one, `curr`. -/
def nextRegion (h : Objs) (curr vaddr sz r : Nat) : Objs :=
  { h with
    live := r :: h.live
    region := update h.region r (newRegion vaddr sz)
    next := update (update h.next curr r) r 0 }

/-- `as_define_region`, with the result of its `kmalloc`: `ENOMEM` leaves the list as it is. -/
def asDefineRegion (h : Objs) (as vaddr sz r : Nat) : Option Objs :=
  if h.startRegion as = 0 then
    if r = 0 then some h else some (h.firstRegion as vaddr sz r)
  else
    match lastNode h.next 0 (h.live.length + 1) (h.startRegion as) with
    | none => none
    | some curr =>
      if r = 0 then some { h with next := update h.next curr 0 }
      else some (h.nextRegion curr vaddr sz r)

/-- The new entry at the head of the list. -/
def withEntry (h : Objs) (pt paddr vaddr new : Nat) : Objs :=
  { h with
    live := new :: h.live
    entry := update h.entry new ⟨pageFrame vaddr, paddr / pageSize, false, 0⟩
    next := update (update h.next new (h.next (h.nil pt))) (h.nil pt) new
    npages := update h.npages pt (h.npages pt + 1) }

/-- `pt_add`, with the result of its `kmalloc`, which is asserted not to be `NULL`. -/
def ptAdd (h : Objs) (pt paddr vaddr new : Nat) : Option Objs :=
  if new = 0 then none else some (h.withEntry pt paddr vaddr new)

/-- The loop of `as_destroy` over the regions, from `curr`. -/
def freeRegions : Nat → Objs → Nat → Option Objs
  | 0, _, _ => none
  | n + 1, h, curr =>
    if curr = 0 then some h
    else
      match h.kfree curr with
      | none => none
      | some h' => freeRegions n h' (h.next curr)

/-- The loop of `pt_destroy`: `p` is the sentinel in every round. -/
def freeEntries : Nat → Objs → Nat → Option Objs
  | 0, _, _ => none
  | n + 1, h, nil =>
    let q := h.next nil
    if q = nil then some h
    else
      match { h with next := update h.next nil (h.next q) }.kfree q with
      | none => none
      | some h => freeEntries n h nil

def ptDestroy (h : Objs) (pt : Nat) : Option Objs :=
  match freeEntries (h.live.length + 1) h (h.nil pt) with
  | none => none
  | some h => h.kfree pt

def asDestroy (h : Objs) (as : Nat) : Option Objs :=
  if as = 0 ∨ h.pt as = 0 ∨ h.startRegion as = 0 then none
  else
    match freeRegions (h.live.length + 1) h (h.startRegion as) with
    | none => none
    | some h =>
      match h.ptDestroy (h.pt as) with
      | none => none
      | some h => (h.kfree as).map fun h => { h with spaces := h.spaces.erase as }

/-! ## Histories -/

inductive Event
  /-- `as_create`, with the results of `kmalloc`. -/
  | asCreate (as pt nil : Nat)
  /-- `as_define_region`, with the result of `kmalloc`. -/
  | asDefineRegion (as vaddr sz r : Nat)
  /-- A `vm_fault` that calls `pt_add`, with the result of `kmalloc`. -/
  | ptAdd (as paddr vaddr new : Nat)
  /-- A `vm_fault` that writes the entry at `q`: of a page it brings in, or of a page that is
  swapped out. -/
  | ptWrite (q : Nat) (e : PtEntry)
  /-- `as_destroy`. -/
  | asDestroy (as : Nat)
deriving DecidableEq, Repr

/-- The blocks that `kmalloc` returns. -/
def Event.blocks : Event → List Nat
  | .asCreate as pt nil => [as, pt, nil].filter (· ≠ 0)
  | .asDefineRegion _ _ _ r => [r].filter (· ≠ 0)
  | .ptAdd _ _ _ new => [new].filter (· ≠ 0)
  | _ => []

/-- The address space that a call is for. -/
def Event.space : Event → Option Nat
  | .asDefineRegion as _ _ _ => some as
  | .ptAdd as _ _ _ => some as
  | .asDestroy as => some as
  | _ => none

/-- `kmalloc` returns blocks that are not in use, and a call is for an address space in use. -/
structure Admits (h : Objs) (e : Event) : Prop where
  nodup : e.blocks.Nodup
  fresh : ∀ p ∈ e.blocks, p ∉ h.live
  space : ∀ as ∈ e.space, as ∈ h.spaces

instance (h : Objs) (e : Event) : Decidable (Admits h e) :=
  decidable_of_iff (e.blocks.Nodup ∧ (∀ p ∈ e.blocks, p ∉ h.live) ∧ ∀ as ∈ e.space, as ∈ h.spaces)
    ⟨fun h => ⟨h.1, h.2.1, h.2.2⟩, fun h => ⟨h.nodup, h.fresh, h.space⟩⟩

def exec (h : Objs) : Event → Option Objs
  | .asCreate as pt nil => h.asCreate as pt nil
  | .asDefineRegion as vaddr sz r => h.asDefineRegion as vaddr sz r
  | .ptAdd as paddr vaddr new => h.ptAdd (h.pt as) paddr vaddr new
  | .ptWrite q e => some { h with entry := update h.entry q e }
  | .asDestroy as => h.asDestroy as

def Step (h : Objs) (e : Event) (h' : Objs) : Prop := Admits h e ∧ h.exec e = some h'

/-- Before the first address space. -/
structure Fresh (h : Objs) : Prop where
  live : h.live = []
  spaces : h.spaces = []

/-! ## The shape of the heap -/

variable {h h' : Objs} {R E : Nat → List Nat} {lost : List Nat} {a b p : Nat}

/-- The objects of the address space `a`, with the regions `R a` and the entries `E a`. -/
def objects (h : Objs) (R E : Nat → List Nat) (a : Nat) : List Nat :=
  a :: h.pt a :: h.nil (h.pt a) :: (R a ++ E a)

/-- The regions and the entries of `a` are linked up. -/
structure Wired (h : Objs) (R E : Nat → List Nat) (a : Nat) : Prop where
  regions : Chained h.next 0 (h.startRegion a) (R a)
  entries : Chained h.next (h.nil (h.pt a)) (h.next (h.nil (h.pt a))) (E a)

/-- The blocks in use are the objects of the address spaces in use, each once, and `lost`. -/
structure Shape (h : Objs) (R E : Nat → List Nat) (lost : List Nat) : Prop where
  nonzero : 0 ∉ h.live
  nodup : h.live.Nodup
  live : h.live.Perm (lost ++ h.spaces.flatMap (objects h R E))
  wired : ∀ a ∈ h.spaces, Wired h R E a

/-- What does not write the objects of `a` leaves it as it was. -/
theorem Wired.frame {R' E' : Nat → List Nat} (hw : Wired h R E a) (hR : R' a = R a)
    (hE : E' a = E a) (hpt : h'.pt a = h.pt a) (hnil : h'.nil (h.pt a) = h.nil (h.pt a))
    (hstart : h'.startRegion a = h.startRegion a)
    (hnext : ∀ p ∈ objects h R E a, h'.next p = h.next p) :
    Wired h' R' E' a ∧ objects h' R' E' a = objects h R E a := by
  have hsent : h'.next (h.nil (h.pt a)) = h.next (h.nil (h.pt a)) := hnext _ (by simp [objects])
  refine ⟨⟨?_, ?_⟩, by simp only [objects, hpt, hnil, hR, hE]⟩
  · rw [hR, hstart]
    exact hw.regions.congr fun p hp => hnext p (by simp [objects, hp])
  · rw [hE, hpt, hnil, hsent]
    exact hw.entries.congr fun p hp => hnext p (by simp [objects, hp])

namespace Shape

section

variable (hs : Shape h R E lost) (ha : a ∈ h.spaces)
include hs ha

theorem live_of_object (hp : p ∈ objects h R E a) : p ∈ h.live :=
  hs.live.mem_iff.mpr (List.mem_append_right _ (List.mem_flatMap.mpr ⟨a, ha, hp⟩))

theorem split :
    h.live.Perm (objects h R E a ++ (lost ++ (h.spaces.erase a).flatMap (objects h R E))) := by
  refine hs.live.trans ?_
  refine (((List.perm_cons_erase ha).flatMap_right (objects h R E)).append_left lost).trans ?_
  grind

theorem nodup_split :
    (objects h R E a ++ (lost ++ (h.spaces.erase a).flatMap (objects h R E))).Nodup :=
  (hs.split ha).nodup_iff.mp hs.nodup

theorem nodup_objects : (objects h R E a).Nodup :=
  (hs.nodup_split ha).of_append_left

/-- Two address spaces share no object. -/
theorem apart (hb : b ∈ h.spaces) (hab : b ≠ a) (hp : p ∈ objects h R E b) :
    p ∉ objects h R E a := by
  intro hpa
  have hrest : p ∈ (h.spaces.erase a).flatMap (objects h R E) :=
    List.mem_flatMap.mpr ⟨b, (List.mem_erase_of_ne hab).mpr hb, hp⟩
  exact (List.nodup_append.mp (hs.nodup_split ha)).2.2 p hpa p (List.mem_append_right _ hrest) rfl

theorem notMem_erase : a ∉ h.spaces.erase a := by
  intro hmem
  have hself : a ∈ objects h R E a := by simp [objects]
  have hin : a ∈ (h.spaces.erase a).flatMap (objects h R E) :=
    List.mem_flatMap.mpr ⟨a, hmem, hself⟩
  exact (List.nodup_append.mp (hs.nodup_split ha)).2.2 a hself a (List.mem_append_right _ hin) rfl

theorem nonzero_object (hp : p ∈ objects h R E a) : p ≠ 0 := by
  rintro rfl
  exact hs.nonzero (hs.live_of_object ha hp)

/-- The regions and the entries of an address space are fewer than the blocks in use. -/
theorem length_lt : (R a).length < h.live.length ∧ (E a).length < h.live.length := by
  have hlen := (hs.split ha).length_eq
  simp only [objects, List.length_append, List.length_cons] at hlen
  omega

theorem grow {R' E' : Nat → List Nat} {x : Nat} (hx : x ≠ 0) (hnew : x ∉ h.live)
    (hlive : h'.live = x :: h.live) (hsp : h'.spaces = h.spaces)
    (hobj : (objects h' R' E' a).Perm (x :: objects h R E a)) (hwire : Wired h' R' E' a)
    (hrest : ∀ b ∈ h.spaces, b ≠ a → Wired h' R' E' b ∧ objects h' R' E' b = objects h R E b) :
    Shape h' R' E' lost where
  nonzero := by
    rw [hlive, List.mem_cons, not_or]
    exact ⟨hx.symm, hs.nonzero⟩
  nodup := by
    rw [hlive]
    exact List.nodup_cons.mpr ⟨hnew, hs.nodup⟩
  live := by
    have hmap : (h.spaces.erase a).flatMap (objects h' R' E') =
        (h.spaces.erase a).flatMap (objects h R E) := by
      refine List.flatMap_congr fun b hb => (hrest b (List.mem_of_mem_erase hb) ?_).2
      rintro rfl
      exact hs.notMem_erase ha hb
    rw [hlive, hsp]
    have hsplit : (h.spaces.flatMap (objects h' R' E')).Perm
        (objects h' R' E' a ++ (h.spaces.erase a).flatMap (objects h R E)) := by
      rw [← hmap, ← List.flatMap_cons]
      exact (List.perm_cons_erase ha).flatMap_right _
    refine ((hs.split ha).cons x).trans ((hobj.symm.append_right _).trans ?_)
    grind
  wired := by
    grind

end

variable (hs : Shape h R E lost)
include hs

/-- `as_create`: a new address space, without regions and entries. -/
theorem withSpace {pt nil : Nat} (hnz : ∀ p ∈ [as, pt, nil], p ≠ 0) (hnd : [as, pt, nil].Nodup)
    (hfresh : ∀ p ∈ [as, pt, nil], p ∉ h.live) :
    Shape (h.withSpace as pt nil) (update R as []) (update E as []) lost := by
  have hne : ∀ p ∈ [as, pt, nil], ∀ x ∈ h.live, x ≠ p := fun p hp x hx he =>
    hfresh p hp (he ▸ hx)
  have hself : ∀ b ∈ h.spaces, b ≠ as := fun b hb =>
    hne as (by simp) b (hs.live_of_object hb (by simp [objects]))
  -- the objects of the others are not written
  have hrest : ∀ b ∈ h.spaces,
      Wired (h.withSpace as pt nil) (update R as []) (update E as []) b ∧
        objects (h.withSpace as pt nil) (update R as []) (update E as []) b =
          objects h R E b := by
    intro b hb
    refine (hs.wired b hb).frame (update_of_ne (hself b hb) _ _) (update_of_ne (hself b hb) _ _)
      (update_of_ne (hself b hb) _ _) ?_ (update_of_ne (hself b hb) _ _) fun p hp => ?_
    · exact update_of_ne (hne pt (by simp) _ (hs.live_of_object hb (by simp [objects]))) _ _
    · exact update_of_ne (hne nil (by simp) p (hs.live_of_object hb hp)) _ _
  have hnew : objects (h.withSpace as pt nil) (update R as []) (update E as []) as =
      [as, pt, nil] := by
    simp [objects, Objs.withSpace]
  have hmap : (h.withSpace as pt nil).spaces.flatMap
      (objects (h.withSpace as pt nil) (update R as []) (update E as [])) =
        [as, pt, nil] ++ h.spaces.flatMap (objects h R E) := by
    rw [← hnew]
    refine (List.flatMap_cons ..).trans (congrArg _ ?_)
    exact List.flatMap_congr fun b hb => (hrest b hb).2
  have hperm : ([nil, pt, as] ++ h.live).Perm ([as, pt, nil] ++ h.live) :=
    (List.reverse_perm [as, pt, nil]).append_right h.live
  refine ⟨?_, ?_, ?_, fun b hb => ?_⟩
  · rw [show (h.withSpace as pt nil).live = [nil, pt, as] ++ h.live from rfl, hperm.mem_iff,
      List.mem_append, not_or]
    exact ⟨fun h0 => hnz 0 h0 rfl, hs.nonzero⟩
  · rw [show (h.withSpace as pt nil).live = [nil, pt, as] ++ h.live from rfl, hperm.nodup_iff]
    exact List.nodup_append.mpr ⟨hnd, hs.nodup, fun p hp x hx he => hfresh p hp (he ▸ hx)⟩
  · rw [hmap]
    exact hperm.trans ((hs.live.append_left _).trans (List.perm_append_comm_assoc _ _ _))
  · rcases List.mem_cons.mp hb with rfl | hb
    · refine ⟨?_, ?_⟩
      · simp [Objs.withSpace]
      · simp [Objs.withSpace]
    · exact (hrest b hb).1

/-- The write to the list of regions reaches no other object. -/
theorem define {r : Nat} (ha : as ∈ h.spaces) (hr : r ≠ 0) (hnew : r ∉ h.live)
    (hx : h.asDefineRegion as vaddr sz r = some h') :
    Shape h' (update R as (R as ++ [r])) E lost := by
  have hlive := fun p (hp : p ∈ objects h R E as) => hs.live_of_object ha hp
  have hne : ∀ x ∈ h.live, x ≠ r := fun x hx he => hnew (he ▸ hx)
  have hw := hs.wired as ha
  -- both branches append to the list and write only the link of its last region
  obtain ⟨hregions, hl, hsp, hpt, hnil, hstart, hnext⟩ :
      Chained h'.next 0 (h'.startRegion as) (R as ++ [r]) ∧ h'.live = r :: h.live ∧
        h'.spaces = h.spaces ∧ h'.pt = h.pt ∧ h'.nil = h.nil ∧
        (∀ b, b ≠ as → h'.startRegion b = h.startRegion b) ∧
        ∀ x, x ∉ R as → x ≠ r → h'.next x = h.next x := by
    unfold Objs.asDefineRegion at hx
    by_cases h0 : h.startRegion as = 0
    · rw [if_pos h0, if_neg hr] at hx
      cases hx
      have hnone : R as = [] := by
        have := hw.regions
        rw [h0] at this
        exact this.unique rfl
      refine ⟨?_, rfl, rfl, rfl, rfl, fun b hb => update_of_ne hb _ _,
        fun x _ hxr => update_of_ne hxr _ _⟩
      rw [hnone]
      simp [firstRegion, chained_cons, hr]
    · rw [if_neg h0] at hx
      obtain ⟨xs, x, hxs⟩ : ∃ xs x, R as = xs ++ [x] := by
        cases hR : R as using List.reverseRecOn with
        | nil =>
          have := hw.regions
          rw [hR] at this
          exact absurd this h0
        | append_singleton xs x => exact ⟨xs, x, rfl⟩
      have hchain := hw.regions
      rw [hxs] at hchain
      have hlen := (hs.length_lt ha).1
      rw [hxs, List.length_append, List.length_singleton] at hlen
      rw [lastNode_eq hchain (by omega)] at hx
      simp only [if_neg hr] at hx
      cases hx
      refine ⟨?_, rfl, rfl, rfl, rfl, fun _ _ => rfl, fun y hy hyr => ?_⟩
      · rw [hxs]
        refine hchain.concat hr fun hmem => hnew (hlive r ?_)
        rw [← hxs] at hmem
        simp [objects, hmem]
      · have hyx : y ≠ x := fun he => hy (by simp [hxs, he])
        exact (update_of_ne hyr _ _).trans (update_of_ne hyx _ _)
  have hnd := hs.nodup_objects ha
  have hout : ∀ x ∈ h.nil (h.pt as) :: E as, x ∉ R as ∧ x ≠ r := by
    intro x hx
    refine ⟨fun hxR => ?_, hne x (hlive x ?_)⟩
    · simp only [objects, List.nodup_cons, List.nodup_append, List.mem_append, not_or] at hnd
      grind
    · rcases List.mem_cons.mp hx with rfl | hxE
      · simp [objects]
      · simp [objects, hxE]
  refine hs.grow ha hr hnew hl hsp ?_ ⟨?_, ?_⟩ fun b hb hba => ?_
  · simp only [objects, hpt, hnil, update_self, List.append_assoc]
    grind
  · rw [update_self]
    exact hregions
  · rw [hpt, hnil, hnext _ (hout _ (by simp)).1 (hout _ (by simp)).2]
    refine hw.entries.congr fun x hx => ?_
    grind
  · refine (hs.wired b hb).frame (update_of_ne hba _ _) rfl (by rw [hpt]) (by rw [hnil])
      (hstart b hba) fun x hx => hnext x (fun hxR => ?_) (hne x (hs.live_of_object hb hx))
    exact hs.apart ha hb hba hx (by simp [objects, hxR])

/-- Without memory `as_define_region` changes nothing. -/
theorem define_fails (ha : as ∈ h.spaces) (hx : h.asDefineRegion as vaddr sz 0 = some h') :
    h' = h := by
  have hw := hs.wired as ha
  unfold Objs.asDefineRegion at hx
  by_cases h0 : h.startRegion as = 0
  · grind
  · rw [if_neg h0] at hx
    cases hR : R as using List.reverseRecOn with
    | nil =>
      have := hw.regions
      rw [hR] at this
      exact absurd this h0
    | append_singleton xs x =>
      have hchain := hw.regions
      have hlen := (hs.length_lt ha).1
      rw [hR] at hchain hlen
      rw [List.length_append, List.length_singleton] at hlen
      rw [lastNode_eq hchain (by omega)] at hx
      simp only [if_true] at hx
      cases hx
      -- the link it writes is `NULL` already
      have hend : h.next x = 0 := hchain.drop.2.2
      rw [← hend, Function.update_eq_self]

/-- `pt_add`: the new entry comes after the sentinel. -/
theorem withEntry {paddr new : Nat} (ha : as ∈ h.spaces) (hz : new ≠ 0) (hnew : new ∉ h.live) :
    Shape (h.withEntry (h.pt as) paddr vaddr new) R (update E as (new :: E as)) lost := by
  have hne : ∀ x ∈ h.live, x ≠ new := fun x hx he => hnew (he ▸ hx)
  have hsent : h.nil (h.pt as) ∈ objects h R E as := by simp [objects]
  have hw := hs.wired as ha
  have hnd := hs.nodup_objects ha
  -- only the links of the sentinel and of the new entry are written
  have hnext : ∀ x ∈ h.live, x ≠ h.nil (h.pt as) →
      (h.withEntry (h.pt as) paddr vaddr new).next x = h.next x := fun x hx hxn =>
    (update_of_ne hxn _ _).trans (update_of_ne (hne x hx) _ _)
  have hout : ∀ x ∈ R as ++ E as, x ≠ h.nil (h.pt as) := by
    rintro x hx rfl
    simp only [objects, List.nodup_cons] at hnd
    exact hnd.2.2.1 hx
  have hin : ∀ x ∈ R as ++ E as, x ∈ h.live := fun x hx =>
    hs.live_of_object ha (by simpa [objects] using Or.inr (Or.inr (Or.inr (List.mem_append.mp hx))))
  refine hs.grow ha hz hnew rfl rfl ?_ ⟨?_, ?_⟩ fun b hb hba => ?_
  · simp only [objects, Objs.withEntry, update_self]
    grind
  · exact hw.regions.congr fun x hx =>
      hnext x (hin x (List.mem_append_left _ hx)) (hout x (List.mem_append_left _ hx))
  · have hsn : new ≠ h.nil (h.pt as) := fun he => hnew (he ▸ hs.live_of_object ha hsent)
    have h1 : (h.withEntry (h.pt as) paddr vaddr new).next (h.nil (h.pt as)) = new :=
      update_self _ _ _
    have h2 : (h.withEntry (h.pt as) paddr vaddr new).next new = h.next (h.nil (h.pt as)) :=
      (update_of_ne hsn _ _).trans (update_self _ _ _)
    rw [update_self]
    refine ⟨h1, hsn, ?_⟩
    rw [h2]
    exact hw.entries.congr fun x hx =>
      hnext x (hin x (List.mem_append_right _ hx)) (hout x (List.mem_append_right _ hx))
  · refine (hs.wired b hb).frame rfl (update_of_ne hba _ _) rfl rfl rfl fun x hx => ?_
    refine hnext x (hs.live_of_object hb hx) ?_
    rintro rfl
    exact hs.apart ha hb hba hx hsent

end Shape

/-! ## Destroying -/

theorem kfree_eq {rest : List Nat} (hp : h.live.Perm (p :: rest)) :
    ∃ L, h.kfree p = some { h with live := L, freed := h.freed ++ [p] } ∧ L.Perm rest := by
  have hmem : p ∈ h.live := hp.mem_iff.mpr List.mem_cons_self
  refine ⟨h.live.erase p, by rw [kfree, if_pos hmem], ?_⟩
  have := hp.erase p
  rwa [List.erase_cons_head] at this

/-- The loop over the regions frees them one after another. -/
theorem freeRegions_eq (rest : List Nat) : ∀ {xs : List Nat} {n : Nat} {h : Objs} {p : Nat},
    Chained h.next 0 p xs → h.live.Perm (xs ++ rest) → xs.length < n →
      ∃ L, freeRegions n h p = some { h with live := L, freed := h.freed ++ xs } ∧ L.Perm rest
  | _, 0, _, _, _, _, hn => absurd hn (by omega)
  | [], n + 1, h, p, hc, hp, _ => by
    refine ⟨h.live, ?_, hp⟩
    rw [freeRegions, if_pos (chained_nil.mp hc), List.append_nil]
  | x :: xs, n + 1, h, p, hc, hp, hn => by
    obtain ⟨rfl, hz, hc⟩ := hc
    obtain ⟨L, hk, hL⟩ := kfree_eq hp
    rw [freeRegions, if_neg hz, hk]
    obtain ⟨L', hf, hL'⟩ := freeRegions_eq rest (n := n)
      (h := { h with live := L, freed := h.freed ++ [p] }) hc hL (by simpa using hn)
    refine ⟨L', ?_, hL'⟩
    simp only [hf, List.append_assoc, List.singleton_append]

/-- The loop of `pt_destroy` frees the entries, front to back; of the links it writes only the
sentinel's. -/
theorem freeEntries_eq (rest : List Nat) {nil : Nat} : ∀ {xs : List Nat} {n : Nat} {h : Objs},
    Chained h.next nil (h.next nil) xs → h.live.Perm (xs ++ rest) → xs.length < n →
      ∃ L next, freeEntries n h nil =
          some { h with live := L, next := next, freed := h.freed ++ xs } ∧
        L.Perm rest ∧ ∀ x, x ≠ nil → next x = h.next x
  | _, 0, _, _, _, hn => absurd hn (by omega)
  | [], n + 1, h, hc, hp, _ => by
    refine ⟨h.live, h.next, ?_, hp, fun _ _ => rfl⟩
    simp only [freeEntries, chained_nil.mp hc, if_true, List.append_nil]
  | x :: xs, n + 1, h, hc, hp, hn => by
    obtain ⟨hx, hz, hc⟩ := hc
    have hne : ∀ y ∈ xs, y ≠ nil := fun y hy => hc.ne_null hy
    -- the rest of the chain does not go through the link that changes
    have hc' : Chained (update h.next nil (h.next x)) nil
        (update h.next nil (h.next x) nil) xs := by
      rw [update_self]
      exact hc.congr fun y hy => update_of_ne (hne y hy) _ _
    obtain ⟨L, hk, hL⟩ := kfree_eq (h := { h with next := update h.next nil (h.next x) }) hp
    obtain ⟨L', next', hf, hL', hout⟩ := freeEntries_eq rest (n := n)
      (h := { h with live := L, next := update h.next nil (h.next x), freed := h.freed ++ [x] })
      hc' hL (by simpa using hn)
    refine ⟨L', next', ?_, hL', fun y hy => (hout y hy).trans (update_of_ne hy _ _)⟩
    simp only [freeEntries, hx, if_neg hz, hk, hf, List.append_assoc, List.singleton_append]

/-- The blocks that `as_destroy` frees, in its order. -/
def freedOf (h : Objs) (R E : Nat → List Nat) (as : Nat) : List Nat :=
  R as ++ (E as ++ [h.pt as, as])

theorem objects_perm (h : Objs) (R E : Nat → List Nat) (as : Nat) :
    (objects h R E as).Perm (h.nil (h.pt as) :: freedOf h R E as) := by
  have hrev : ([as, h.pt as, h.nil (h.pt as)] ++ (R as ++ E as)).Perm
      ([h.nil (h.pt as), h.pt as, as] ++ (R as ++ E as)) :=
    (List.reverse_perm [h.nil (h.pt as), h.pt as, as]).append_right _
  refine hrev.trans (List.Perm.cons _ ?_)
  rw [freedOf, ← List.append_assoc]
  exact List.perm_append_comm

/-- **What `as_destroy` does**: it frees the regions, the entries, the page table and the address
space, each once, and leaves the sentinel in use. -/
theorem Shape.asDestroy (hs : Shape h R E lost) (ha : as ∈ h.spaces)
    (hstart : h.startRegion as ≠ 0) :
    ∃ h', h.asDestroy as = some h' ∧
      h'.freed = h.freed ++ freedOf h R E as ∧
      Shape h' R E (h.nil (h.pt as) :: lost) := by
  have hw := hs.wired as ha
  have hz : as ≠ 0 := hs.nonzero_object ha (by simp [objects])
  have hptz : h.pt as ≠ 0 := hs.nonzero_object ha (by simp [objects])
  generalize hX : lost ++ (h.spaces.erase as).flatMap (objects h R E) = X
  have hsplit := hs.split ha
  rw [hX] at hsplit
  -- the order in which the blocks are freed, and what is left
  have horder : h.live.Perm (R as ++ (E as ++ (h.pt as :: as :: h.nil (h.pt as) :: X))) := by
    refine hsplit.trans (((objects_perm h R E as).append_right X).trans ?_)
    have hmid : (freedOf h R E as ++ h.nil (h.pt as) :: X).Perm
        (h.nil (h.pt as) :: (freedOf h R E as ++ X)) := List.perm_middle
    simpa [freedOf] using hmid.symm
  have hlen := horder.length_eq
  simp only [List.length_append, List.length_cons] at hlen
  obtain ⟨L₁, hf₁, hL₁⟩ := freeRegions_eq _ (n := h.live.length + 1) hw.regions horder (by omega)
  have hlen₁ := hL₁.length_eq
  simp only [List.length_append, List.length_cons] at hlen₁
  obtain ⟨L₂, next', hf₂, hL₂, hnext⟩ := freeEntries_eq _ (n := L₁.length + 1)
    (h := { h with live := L₁, freed := h.freed ++ R as }) hw.entries hL₁ (by omega)
  obtain ⟨L₃, hf₃, hL₃⟩ := kfree_eq (p := h.pt as)
    (h := { h with live := L₂, next := next', freed := h.freed ++ R as ++ E as }) hL₂
  obtain ⟨L₄, hf₄, hL₄⟩ := kfree_eq (p := as)
    (h := { h with live := L₃, next := next', freed := h.freed ++ R as ++ E as ++ [h.pt as] }) hL₃
  refine ⟨{ h with
    live := L₄, next := next', freed := h.freed ++ R as ++ E as ++ [h.pt as] ++ [as]
    spaces := h.spaces.erase as }, ?_, by simp [freedOf], ?_, ?_, ?_, fun b hb => ?_⟩
  · unfold Objs.asDestroy
    rw [if_neg (by simp [hz, hptz, hstart]), hf₁]
    simp only [ptDestroy, hf₂, hf₃, hf₄, Option.map_some]
  · intro h0
    refine hs.nonzero (hsplit.mem_iff.mpr ?_)
    grind
  · have hnd := horder.nodup_iff.mp hs.nodup
    grind
  · exact hL₄.trans (by rw [← hX]; exact List.Perm.refl _)
  · have hba : b ≠ as := by
      rintro rfl
      exact hs.notMem_erase ha hb
    have hbs := List.mem_of_mem_erase hb
    have hkeep : ∀ x ∈ objects h R E b, next' x = h.next x := by
      intro x hx
      refine hnext x ?_
      rintro rfl
      exact hs.apart ha hbs hba hx (by simp [objects])
    exact And.left ((hs.wired b hbs).frame rfl rfl rfl rfl rfl hkeep)

/-! ## Every history -/

/-- `p` is an object of the address space `as`: the address space, its page table, the sentinel,
a region or an entry. -/
def Object (h : Objs) (as p : Nat) : Prop :=
  p = as ∨ p = h.pt as ∨ p = h.nil (h.pt as) ∨
    (∃ rs, Chained h.next 0 (h.startRegion as) rs ∧ p ∈ rs) ∨
    ∃ es, Chained h.next (h.nil (h.pt as)) (h.next (h.nil (h.pt as))) es ∧ p ∈ es

/-- No block of an address space that was destroyed is in use. -/
def Balanced (h : Objs) : Prop := ∀ p ∈ h.live, ∃ as ∈ h.spaces, h.Object as p

theorem Wired.object_iff (hw : Wired h R E a) : h.Object a p ↔ p ∈ objects h R E a := by
  have hr : (∃ rs, Chained h.next 0 (h.startRegion a) rs ∧ p ∈ rs) ↔ p ∈ R a :=
    ⟨fun ⟨rs, hc, hp⟩ => hw.regions.unique hc ▸ hp, fun hp => ⟨_, hw.regions, hp⟩⟩
  have he : (∃ es, Chained h.next (h.nil (h.pt a)) (h.next (h.nil (h.pt a))) es ∧ p ∈ es) ↔
      p ∈ E a :=
    ⟨fun ⟨es, hc, hp⟩ => hw.entries.unique hc ▸ hp, fun hp => ⟨_, hw.entries, hp⟩⟩
  simp only [Object, objects, hr, he, List.mem_cons, List.mem_append]

/-- The destroyed address spaces are exactly what keeps the heap from being balanced. -/
theorem Shape.balanced_iff (hs : Shape h R E lost) : h.Balanced ↔ lost = [] := by
  constructor
  · intro hb
    by_contra hne
    obtain ⟨p, hp⟩ := List.exists_mem_of_ne_nil _ hne
    obtain ⟨as, has, hobj⟩ := hb p (hs.live.mem_iff.mpr (List.mem_append_left _ hp))
    rw [(hs.wired as has).object_iff] at hobj
    exact (List.nodup_append.mp (hs.nodup_split has)).2.2 p hobj p
      (List.mem_append_left _ hp) rfl
  · rintro rfl p hp
    obtain ⟨as, has, hobj⟩ := List.mem_flatMap.mp (hs.live.mem_iff.mp hp)
    exact ⟨as, has, (hs.wired as has).object_iff.mpr hobj⟩

/-- An `as_destroy`. -/
def Event.isDestroy : Event → Bool
  | .asDestroy _ => true
  | _ => false

/-- **One call**: only `as_destroy` leaves a block behind. -/
theorem Shape.step {e : Event} (hs : Shape h R E lost) (hstep : Step h e h') :
    ∃ R' E' lost', Shape h' R' E' lost' ∧
      lost'.length = lost.length + if e.isDestroy then 1 else 0 := by
  obtain ⟨hadm, hx⟩ := hstep
  cases e with
  | asCreate as pt nil =>
    simp only [exec, Objs.asCreate] at hx
    split_ifs at hx with h0 h1
    · exact ⟨R, E, lost, Option.some.inj hx ▸ hs, rfl⟩
    · rw [not_or] at h1
      have hblocks : Event.blocks (.asCreate as pt nil) = [as, pt, nil] := by
        simp [Event.blocks, h0, h1.1, h1.2]
      refine ⟨_, _, lost, Option.some.inj hx ▸ hs.withSpace ?_ (hblocks ▸ hadm.nodup)
        (hblocks ▸ hadm.fresh), rfl⟩
      simp [h0, h1.1, h1.2]
  | asDefineRegion as vaddr sz r =>
    have ha := hadm.space as rfl
    by_cases hr : r = 0
    · subst hr
      exact ⟨R, E, lost, hs.define_fails ha hx ▸ hs, rfl⟩
    · have hnew := hadm.fresh r (by simp [Event.blocks, hr])
      exact ⟨_, _, lost, hs.define ha hr hnew hx, rfl⟩
  | ptAdd as paddr vaddr new =>
    have ha := hadm.space as rfl
    simp only [exec, Objs.ptAdd] at hx
    split_ifs at hx with hz
    have hnew := hadm.fresh new (by simp [Event.blocks, hz])
    exact ⟨_, _, lost, Option.some.inj hx ▸ hs.withEntry ha hz hnew, rfl⟩
  | ptWrite q e =>
    cases hx
    exact ⟨R, E, lost, ⟨hs.nonzero, hs.nodup, hs.live,
      fun a ha => ⟨(hs.wired a ha).regions, (hs.wired a ha).entries⟩⟩, rfl⟩
  | asDestroy as =>
    have ha := hadm.space as rfl
    have hstart : h.startRegion as ≠ 0 := by
      intro h0
      simp [exec, Objs.asDestroy, h0] at hx
    obtain ⟨h₁, hd, -, hs₁⟩ := hs.asDestroy ha hstart
    obtain rfl := Option.some.inj (hd.symm.trans hx)
    exact ⟨R, E, _, hs₁, rfl⟩

theorem Shape.of_fresh (h0 : Fresh h) : Shape h (fun _ => []) (fun _ => []) [] := by
  refine ⟨by simp [h0.live], by simp [h0.live], ?_, by simp [h0.spaces]⟩
  rw [h0.live, h0.spaces]
  exact List.Perm.refl _

/-- The shape after a history, with one lost block for each `as_destroy` in it. -/
theorem Shape.run {h₀ : Objs} {es : List Event} (h0 : Fresh h₀) (hr : Run Step h₀ es h) :
    ∃ R E lost, Shape h R E lost ∧ lost.length = es.countP Event.isDestroy := by
  refine hr.history (R := fun es h => ∃ R E lost, Shape h R E lost ∧
    lost.length = es.countP Event.isDestroy) ⟨_, _, _, .of_fresh h0, rfl⟩ ?_
  rintro es h e h' ⟨R, E, lost, hs, hlen⟩ hstep
  obtain ⟨R', E', lost', hs', hlen'⟩ := hs.step hstep
  grind

end Objs

/-- **The heap balance of address spaces**: after any history, the blocks in use are those of the
address spaces in use exactly if the history has no `as_destroy`. Whenever `as_destroy` is called,
it frees every object of the address space but the sentinel once, and nothing else. -/
theorem heap_balance_iff {h₀ h : Objs} {es : List Objs.Event} (h0 : h₀.Fresh)
    (hr : Run Objs.Step h₀ es h) :
    (h.Balanced ↔ ∀ as, Objs.Event.asDestroy as ∉ es) ∧
      ∀ as ∈ h.spaces, h.startRegion as ≠ 0 → ∃ h' freed, h.asDestroy as = some h' ∧
        h'.freed = h.freed ++ freed ∧ freed.Nodup ∧
        (∀ p, p ∈ freed ↔ h.Object as p ∧ p ≠ h.nil (h.pt as)) ∧ h.nil (h.pt as) ∈ h'.live := by
  obtain ⟨R, E, lost, hs, hlen⟩ := Objs.Shape.run h0 hr
  refine ⟨?_, fun as ha hstart => ?_⟩
  · rw [hs.balanced_iff, ← List.length_eq_zero_iff, hlen, List.countP_eq_zero]
    constructor
    · intro hall as hmem
      exact hall _ hmem rfl
    · intro hnone e he
      cases e with
      | asDestroy as => exact absurd he (hnone as)
      | _ => exact Bool.false_ne_true
  · obtain ⟨h', hd, hfreed, hs'⟩ := hs.asDestroy ha hstart
    have hperm := Objs.objects_perm h R E as
    obtain ⟨hnil, hnd⟩ := List.nodup_cons.mp (hperm.nodup_iff.mp (hs.nodup_objects ha))
    refine ⟨h', _, hd, hfreed, hnd, fun p => ?_,
      hs'.live.mem_iff.mpr (List.mem_append_left _ List.mem_cons_self)⟩
    rw [(hs.wired as ha).object_iff, hperm.mem_iff, List.mem_cons]
    grind

namespace Objs

/-- No block is in use. -/
def empty : Objs :=
  ⟨[], fun _ => 0, fun _ => ⟨0, 0, 0⟩, fun _ => ⟨0, 0, false, 0⟩, fun _ => 0, fun _ => 0,
    fun _ => 0, fun _ => 0, [], []⟩

theorem fresh_empty : empty.Fresh := ⟨rfl, rfl⟩

theorem exists_run {es : List Event} {p : Objs → Bool}
    (hp : (es.foldlM (fun h e => if Admits h e then h.exec e else none) empty).any p = true) :
    ∃ h, Run Step empty es h ∧ p h = true :=
  Run.exists_of_allowed hp

end Objs

/-- A process with two regions and one page, and what `as_destroy` leaves of it. -/
theorem heap_balance_two_regions : ∃ h, Run Objs.Step Objs.empty [.asCreate 1 2 3,
      .asDefineRegion 1 0x400000 0x1000 4, .asDefineRegion 1 0x500000 0x1000 5,
      .ptAdd 1 0x5000 0x400000 6] h ∧
    h.Balanced ∧ ∃ h', h.asDestroy 1 = some h' ∧ 3 ∈ h'.live := by
  refine Run.exists_imp (Q := fun h => 1 ∈ h.spaces ∧ h.startRegion 1 ≠ 0 ∧ h.nil (h.pt 1) = 3)
    (Objs.exists_run (by decide)) ?_
  rintro h hr ⟨hmem, hstart, hnil⟩
  obtain ⟨hbal, hdestroy⟩ := heap_balance_iff Objs.fresh_empty hr
  grind

/-- A process with one region and one page is destroyed: the sentinel, block 3, is left. -/
theorem sentinel_not_freed : ∃ h, Objs.empty.Fresh ∧
    Run Objs.Step Objs.empty [.asCreate 1 2 3, .asDefineRegion 1 0x400000 0x1000 4,
      .ptAdd 1 0x5000 0x400000 5, .asDestroy 1] h ∧
    h.spaces = [] ∧ h.live = [3] ∧ ¬ h.Balanced := by
  refine exists_and_left.mpr ⟨Objs.fresh_empty, ?_⟩
  refine Run.exists_imp (Q := fun h => h.spaces = [] ∧ h.live = [3])
    (Objs.exists_run (by decide)) ?_
  rintro h - ⟨hsp, hlive⟩
  refine ⟨hsp, hlive, fun hb => ?_⟩
  obtain ⟨as, has, -⟩ := hb 3 (by simp [hlive])
  simp [hsp] at has

end OsPaging.Vm
