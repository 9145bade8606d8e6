import Mathlib.Logic.Function.Basic
import OsPaging.Lib.Run

/-!
# Flat memory

The memory a program expects to have: a store sets a cell, and a load of a cell returns what the
cell holds. A cell that `none` is in has no value to promise, and a load of it returns anything.
Steps that are not accesses do nothing.

A system refines flat memory when each of its runs is a run of flat memory over the accesses it
makes (`Run.sim`); `Flat.load_last` then says what a load returns in terms of the accesses alone.
-/

namespace OsPaging.Lib

universe u v

/-- The accesses of a program, and steps that are none. -/
inductive MemOp (α : Type u) (β : Type v)
  | load (a : α) (v : β)
  | store (a : α) (v : β)
  | silent

namespace Flat

variable {α : Type u} {β : Type v} [DecidableEq α] {m m₀ : α → Option β} {ops : List (MemOp α β)}
  {a : α} {v w : β}

/-- What an access leaves in memory. -/
def write (m : α → Option β) : MemOp α β → α → Option β
  | .store a v => Function.update m a (some v)
  | _ => m

/-- One access: a load of a cell with a value returns it. -/
def Step (m : α → Option β) (op : MemOp α β) (m' : α → Option β) : Prop :=
  m' = write m op ∧ ∀ a v w, op = .load a v → m a = some w → v = w

/-- The value last stored at each cell. -/
def lastStore (ops : List (MemOp α β)) : α → Option β := ops.foldl write fun _ => none

theorem run_eq (h : Run Step m₀ ops m) : m = ops.foldl write m₀ := by
  refine h.history (R := fun ops m => m = ops.foldl write m₀) rfl ?_
  rintro ops m op m' rfl ⟨rfl, -⟩
  rw [List.foldl_append]
  rfl

/-- **A load returns the value last stored.** -/
theorem load_last (h : Run Step (fun _ => none) (ops ++ [.load a v]) m)
    (hw : lastStore ops a = some w) : v = w := by
  obtain ⟨m₁, hr, -, hl⟩ := h.last
  refine hl a v w rfl ?_
  rw [run_eq hr]
  exact hw

end Flat

end OsPaging.Lib
