import OsPaging.Fs.SemfsObjects

/-!
# The tables of the semaphore file system

The four parts of the invariant of `Fs.SemfsLifetimes` that are about the tables: the semaphores
by number (`SemTable`), the directory (`DirTable`), the vnodes (`VnodeTable`) and their reference
counts (`VnodeRefs`). Each is about the fields it needs and no others, with what the calls in
progress have changed of it as a parameter, and has one lemma for each change the code makes.
-/

namespace OsPaging.Fs

open OsPaging.Lib

variable {N : Type}

open Function (update update_apply)

variable {slot : Nat → Option Nat} {destroyed linked hasvnode : Nat → Bool} {created : Nat}
  {k x : Nat}

/-- The table of semaphores has each semaphore once, and none that was destroyed. -/
structure SemTable (slot : Nat → Option Nat) (destroyed : Nat → Bool) (created : Nat) : Prop where
  created : ∀ {k x}, slot k = some x → x < created
  live : ∀ {k x}, slot k = some x → destroyed x = false
  inj : ∀ {k k' x}, slot k = some x → slot k' = some x → k = k'

theorem eq_some_of_update_none {k j x : Nat} (h : update slot k none j = some x) :
    j ≠ k ∧ slot j = some x := by
  grind

section

variable (h : SemTable slot destroyed created)
include h

theorem SemTable.clear (k : Nat) : SemTable (update slot k none) destroyed created := by
  obtain ⟨hcreated, hlives, hinj⟩ := h
  constructor <;> grind

theorem SemTable.insert (hx : x < created) (hlive : destroyed x = false)
    (hno : ∀ k, slot k ≠ some x) (k : Nat) :
    SemTable (update slot k (some x)) destroyed created := by
  obtain ⟨hcreated, hlives, hinj⟩ := h
  constructor <;> grind

theorem SemTable.destroy (hno : ∀ k, slot k ≠ some x) :
    SemTable slot (update destroyed x true) created := by
  obtain ⟨hcreated, hlives, hinj⟩ := h
  constructor <;> grind

theorem SemTable.create : SemTable slot (update destroyed created false) (created + 1) := by
  obtain ⟨hcreated, hlives, hinj⟩ := h
  constructor <;> grind

end

/-- The directory: each entry has the number of a linked semaphore, but for the one a call works
on, two have different numbers, and each linked semaphore has an entry. -/
structure DirTable (dent : Nat → Option (N × Nat)) (slot : Nat → Option Nat)
    (linked : Nat → Bool) (index : Option Nat) : Prop where
  named : ∀ {i n k}, dent i = some (n, k) →
    index = some i ∨ ∃ x, slot k = some x ∧ linked x = true
  inj : ∀ {i j n n' k}, dent i = some (n, k) → dent j = some (n', k) → i = j
  entry : ∀ {x}, linked x = true → ∃ i n k, dent i = some (n, k) ∧ slot k = some x

namespace DirTable

variable {dent : Nat → Option (N × Nat)} {index : Option Nat} {i : Nat} {n : N}

theorem clear (h : DirTable dent slot linked index)
    (hk : ∀ x, slot k = some x → linked x = false) :
    DirTable dent (update slot k none) linked index := by
  obtain ⟨hnamed, hinj, hentry⟩ := h
  constructor <;> grind

theorem insert (h : DirTable dent slot linked index) (hk : slot k = none) (x : Nat) :
    DirTable dent (update slot k (some x)) linked index := by
  obtain ⟨hnamed, hinj, hentry⟩ := h
  constructor <;> grind

theorem put (h : DirTable dent slot linked none) (hi : dent i = none) (n : N)
    (hk : ∀ x, slot k = some x → linked x = false) :
    DirTable (update dent i (some (n, k))) slot linked (some i) := by
  obtain ⟨hnamed, hinj, hentry⟩ := h
  refine ⟨by grind, by grind, fun hl => ?_⟩
  obtain ⟨j, m, k', hj, hx⟩ := hentry hl
  exact ⟨j, m, k', by grind, hx⟩

theorem drop (h : DirTable dent slot linked (some i)) (hi : dent i = some (n, k))
    (hk : ∀ x, slot k = some x → linked x = false) :
    DirTable (update dent i none) slot linked none := by
  obtain ⟨hnamed, hinj, hentry⟩ := h
  refine ⟨by grind, by grind, fun hl => ?_⟩
  obtain ⟨j, m, k', hj, hx⟩ := hentry hl
  -- the entry of a linked semaphore is not the one that goes
  exact ⟨j, m, k', by grind, hx⟩

theorem link (h : DirTable dent slot linked (some i)) (hi : dent i = some (n, k))
    (hk : slot k = some x) : DirTable dent slot (update linked x true) none := by
  obtain ⟨hnamed, hinj, hentry⟩ := h
  constructor <;> grind

theorem unlink (h : DirTable dent slot linked none) (ht : SemTable slot destroyed created)
    (hi : dent i = some (n, k)) (hk : slot k = some x) :
    DirTable dent slot (update linked x false) (some i) := by
  obtain ⟨hnamed, hinj, hentry⟩ := h
  obtain ⟨hcreated, -, hsem⟩ := ht
  constructor <;> grind

theorem create (h : DirTable dent slot linked index) (ht : SemTable slot destroyed created) :
    DirTable dent slot (update linked created false) index := by
  obtain ⟨hnamed, hinj, hentry⟩ := h
  obtain ⟨hcreated, -, hsem⟩ := ht
  constructor <;> grind

end DirTable

/-- The table of vnodes: one for each number, of a semaphore that has its flag set; and each flag is
for a vnode in the table, or for the one that `semfs_reclaim` has just taken out. -/
structure VnodeTable (vnodes : List Nat) (semnum : Nat → Nat) (made : Nat)
    (slot : Nat → Option Nat) (hasvnode : Nat → Bool) (taken : Option (Nat × Nat)) : Prop where
  nodup : vnodes.Nodup
  lt_made : ∀ {v}, v ∈ vnodes → v < made
  inTable : ∀ {v}, v ∈ vnodes → semnum v ≠ semfsRootdir →
    ∃ x, slot (semnum v) = some x ∧ hasvnode x = true
  inj : ∀ {v w}, v ∈ vnodes → w ∈ vnodes → semnum v = semnum w → v = w
  flag : ∀ {x}, hasvnode x = true → ∃ k, slot k = some x ∧
    ((∃ v ∈ vnodes, semnum v = k) ∨ taken = some (x, k))

namespace VnodeTable

variable {vnodes : List Nat} {semnum : Nat → Nat} {made v : Nat} {taken : Option (Nat × Nat)}

section

variable (h : VnodeTable vnodes semnum made slot hasvnode taken)
include h

theorem clear (hk : ∀ x, slot k = some x → hasvnode x = false) :
    VnodeTable vnodes semnum made (update slot k none) hasvnode taken := by
  obtain ⟨hnodup, hmade, hin, hinj, hf⟩ := h
  constructor <;> grind

theorem insert (hk : slot k = none) (x : Nat) :
    VnodeTable vnodes semnum made (update slot k (some x)) hasvnode taken := by
  obtain ⟨hnodup, hmade, hin, hinj, hf⟩ := h
  constructor <;> grind

theorem create (ht : SemTable slot destroyed created) :
    VnodeTable vnodes semnum made slot (update hasvnode created false) taken := by
  obtain ⟨hnodup, hmade, hin, hinj, hf⟩ := h
  obtain ⟨hcreated, -, hsem⟩ := ht
  constructor <;> grind

end

/-- A new vnode, for the root or for a semaphore whose flag is set now. -/
theorem add (h : VnodeTable vnodes semnum made slot hasvnode none) {flag : Nat → Bool}
    (hno : ∀ v ∈ vnodes, semnum v ≠ k)
    (hkeep : ∀ y, hasvnode y = true → flag y = true)
    (hnew : k ≠ semfsRootdir → ∃ x, slot k = some x ∧ flag x = true)
    (hflag : ∀ y, flag y = true → hasvnode y = true ∨ slot k = some y) :
    VnodeTable (vnodes ++ [made]) (update semnum made k) (made + 1) slot flag none := by
  obtain ⟨hnodup, hmade, hin, hinj, hf⟩ := h
  have hcases : ∀ {w}, w ∈ vnodes ++ [made] ↔ w ∈ vnodes ∨ w = made := by simp
  refine ⟨by grind [List.nodup_append], by grind, by grind, by grind, fun {y} hy => ?_⟩
  rcases hflag y hy with hy | hk
  · grind
  · exact ⟨k, hk, .inl ⟨made, by simp⟩⟩

/-- A vnode leaves the table; if it is not the root's, the flag of its semaphore is still set. -/
theorem drop (h : VnodeTable vnodes semnum made slot hasvnode none) (hv : v ∈ vnodes)
    (htaken : ∀ x, slot (semnum v) = some x → hasvnode x = true → taken = some (x, semnum v)) :
    VnodeTable (vnodes.erase v) semnum made slot hasvnode taken := by
  obtain ⟨hnodup, hmade, hin, hinj, hf⟩ := h
  constructor <;> grind

theorem not_mem_erase (h : VnodeTable vnodes semnum made slot hasvnode taken) (hv : v ∈ vnodes) :
    ∀ w ∈ vnodes.erase v, semnum w ≠ semnum v := by
  intro w hw he
  obtain rfl := h.inj (List.mem_of_mem_erase hw) hv he
  exact h.nodup.not_mem_erase hw

theorem unflag (h : VnodeTable vnodes semnum made slot hasvnode (some (x, k)))
    (ht : SemTable slot destroyed created) (hk : slot k = some x)
    (hno : ∀ v ∈ vnodes, semnum v ≠ k) :
    VnodeTable vnodes semnum made slot (update hasvnode x false) none := by
  obtain ⟨hnodup, hmade, hin, hinj, hf⟩ := h
  obtain ⟨hcreated, -, hsem⟩ := ht
  constructor <;> grind

end VnodeTable

/-- The reference counts: `dirRef` and `tableRef` are the references that the calls in progress
have. Nobody has a reference to a vnode that is not in the table. -/
structure VnodeRefs (vnodes : List Nat) (refcount held pending : Nat → Nat)
    (dirRef tableRef : Option Nat) : Prop where
  count : ∀ {v}, v ∈ vnodes → refcount v = held v + pending v +
    (if dirRef = some v then 1 else 0) + (if tableRef = some v then 1 else 0)
  noRefs : ∀ {v}, v ∉ vnodes → held v = 0 ∧ pending v = 0 ∧ dirRef ≠ some v ∧ tableRef ≠ some v

namespace VnodeRefs

variable {vnodes : List Nat} {refcount held pending : Nat → Nat} {dirRef tableRef : Option Nat}
  {v : Nat}

theorem mem (h : VnodeRefs vnodes refcount held pending dirRef tableRef)
    (hv : held v ≠ 0 ∨ pending v ≠ 0 ∨ dirRef = some v ∨ tableRef = some v) : v ∈ vnodes := by
  by_contra hno
  grind [h.noRefs hno]

theorem swap (h : VnodeRefs vnodes refcount held pending dirRef tableRef) :
    VnodeRefs vnodes refcount held pending tableRef dirRef := by
  obtain ⟨hcount, hno⟩ := h
  constructor <;> grind

/-- `semfs_getvnode` gets a reference to a vnode it has found. -/
theorem find (h : VnodeRefs vnodes refcount held pending dirRef none) (hv : v ∈ vnodes) :
    VnodeRefs vnodes (update refcount v (refcount v + 1)) held pending dirRef (some v) := by
  obtain ⟨hcount, hno⟩ := h
  constructor <;> grind

theorem give (h : VnodeRefs vnodes refcount held pending dirRef (some v)) :
    VnodeRefs vnodes refcount (update held v (held v + 1)) pending dirRef none := by
  obtain ⟨hcount, hno⟩ := h
  constructor <;> grind

/-- `semfs_reclaim` starts on the reference it was passed. -/
theorem reclaim (h : VnodeRefs vnodes refcount held pending dirRef none) (hp : pending v ≠ 0) :
    VnodeRefs vnodes refcount held (update pending v (pending v - 1)) dirRef (some v) := by
  obtain ⟨hcount, hno⟩ := h
  constructor <;> grind

theorem consume (h : VnodeRefs vnodes refcount held pending dirRef (some v)) :
    VnodeRefs vnodes (update refcount v (refcount v - 1)) held pending dirRef none := by
  obtain ⟨hcount, hno⟩ := h
  constructor <;> grind

section

variable (h : VnodeRefs vnodes refcount held pending dirRef tableRef) (hh : held v ≠ 0)
include h hh

theorem incref :
    VnodeRefs vnodes (update refcount v (refcount v + 1)) (update held v (held v + 1)) pending
      dirRef tableRef := by
  obtain ⟨hcount, hno⟩ := h
  constructor <;> grind

/-- `VOP_DECREF`, of a reference that is not the last one. -/
theorem decref :
    VnodeRefs vnodes (update refcount v (refcount v - 1)) (update held v (held v - 1)) pending
      dirRef tableRef := by
  obtain ⟨hcount, hno⟩ := h
  constructor <;> grind

theorem defer :
    VnodeRefs vnodes refcount (update held v (held v - 1)) (update pending v (pending v + 1))
      dirRef tableRef := by
  obtain ⟨hcount, hno⟩ := h
  constructor <;> grind

end

/-- The new vnode has one reference, and it is the caller's. -/
theorem add (h : VnodeRefs vnodes refcount held pending dirRef none) (hv : v ∉ vnodes) :
    VnodeRefs (vnodes ++ [v]) (update refcount v 1) held pending dirRef (some v) := by
  obtain ⟨hcount, hno⟩ := h
  constructor <;> grind

/-- The vnode whose last reference `semfs_reclaim` has leaves the table. -/
theorem drop (h : VnodeRefs vnodes refcount held pending dirRef (some v)) (hn : vnodes.Nodup)
    (hv : refcount v ≤ 1) :
    VnodeRefs (vnodes.erase v) refcount held pending dirRef none := by
  obtain ⟨hcount, hno⟩ := h
  constructor <;> grind

end VnodeRefs

end OsPaging.Fs
