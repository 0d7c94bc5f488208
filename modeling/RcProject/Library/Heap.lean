import RcProject.Library.Result
import Mathlib.Logic.Function.Basic

namespace rc_project.heap

/-- The heap blocks of one type. A block that is not allocated holds nothing, and from
`brk` on none was ever handed out. -/
structure Heap (ν : Type) where
  blocks : Nat → Option ν
  brk : Nat
  free_above : ∀ address, brk ≤ address → blocks address = none

namespace Heap

variable {ν : Type}

/-- A heap of which nothing was handed out. -/
def empty : Heap ν where
  blocks _ := none
  brk := 0
  free_above _ _ := rfl

variable (heap : Heap ν)

theorem free_above_set (address : Nat) (block : Option ν) (other : Nat)
    (hother : max heap.brk (address + 1) ≤ other) :
    Function.update heap.blocks address block other = none := by
  rw [Function.update_of_ne (by omega)]
  exact heap.free_above other (by omega)

def set (address : Nat) (block : Option ν) : Heap ν where
  blocks := Function.update heap.blocks address block
  brk := max heap.brk (address + 1)
  free_above := heap.free_above_set address block

@[simp] theorem set_self (address : Nat) (block : Option ν) :
    (heap.set address block).blocks address = block := Function.update_self ..

theorem set_of_ne {address other : Nat} (hne : other ≠ address) (block : Option ν) :
    (heap.set address block).blocks other = heap.blocks other :=
  Function.update_of_ne hne ..

/-- The block that `malloc` picks: any one that is not allocated, also one that was
freed before. -/
def pick (hint : Nat) : Nat := if heap.blocks hint = none then hint else heap.brk

theorem pick_fresh (hint : Nat) : heap.blocks (heap.pick hint) = none := by
  unfold pick
  split
  · assumption
  · exact heap.free_above _ (Nat.le_refl _)

/-- A block that is allocated, and the heap in which it holds a value. -/
def malloc (hint : Nat) (value : ν) : Heap ν × Nat :=
  (heap.set (heap.pick hint) (some value), heap.pick hint)

/-- Reads through a pointer. -/
def load (pointer : Option Nat) : Result ν := do
  let address ← Result.deref pointer
  match heap.blocks address with
  | none => throw .out_of_bounds
  | some value => return value

/-- Writes through a pointer. -/
def store (pointer : Option Nat) (value : ν) : Result (Heap ν) := do
  let address ← Result.deref pointer
  match heap.blocks address with
  | none => throw .out_of_bounds
  | some _ => return heap.set address (some value)

/-- Gives a block back. The null pointer is ignored. -/
def free : Option Nat → Result (Heap ν)
  | none => return heap
  | some address =>
    match heap.blocks address with
    | none => throw .out_of_bounds
    | some _ => return heap.set address none

variable {heap} {address : Nat} {value : ν}

theorem load_of_some (hblock : heap.blocks address = some value) :
    heap.load (some address) = .ok value := by
  simp [load, hblock]

theorem store_of_some (hblock : heap.blocks address = some value) (new : ν) :
    heap.store (some address) new = .ok (heap.set address (some new)) := by
  simp [store, hblock]

theorem free_of_some (hblock : heap.blocks address = some value) :
    heap.free (some address) = .ok (heap.set address none) := by
  simp [free, hblock]

@[simp] theorem load_none : heap.load none = .error .null_dereference := rfl

/-- A read through a pointer to a block that was freed and not allocated again. -/
theorem load_of_none (hblock : heap.blocks address = none) :
    heap.load (some address) = .error .out_of_bounds := by
  simp [load, hblock]

/-- Every block that is allocated stays so, with what it holds. -/
def Keeps (heap heap' : Heap ν) : Prop :=
  ∀ address value, heap.blocks address = some value → heap'.blocks address = some value

theorem Keeps.refl (heap : Heap ν) : heap.Keeps heap := fun _ _ hblock => hblock

theorem Keeps.trans {heap' heap'' : Heap ν} (h : heap.Keeps heap') (h' : heap'.Keeps heap'') :
    heap.Keeps heap'' :=
  fun address value hblock => h' address value (h address value hblock)

/-- What is done to a block that was not allocated touches no block that was. -/
theorem Keeps.set {heap' : Heap ν} (h : heap.Keeps heap') (hfree : heap.blocks address = none)
    (block : Option ν) : heap.Keeps (heap'.set address block) := by
  intro other value hblock
  have hne : other ≠ address := by
    rintro rfl
    cases hfree.symm.trans hblock
  rw [Heap.set_of_ne _ hne, h other value hblock]

end Heap

end rc_project.heap
