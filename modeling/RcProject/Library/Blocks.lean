import Mathlib.Logic.Function.Basic
import Mathlib.Tactic.Common

namespace rc_project.blocks

/-- The blocks of one type that `malloc` hands out. What a block holds before
it is handed out is arbitrary, and no block is ever handed out twice. -/
structure Blocks (β : Type) where
  contents : Nat → β
  brk : Nat

variable {β : Type} (blocks : Blocks β)

/-- What the next block holds when it is handed out. -/
def Blocks.fresh : β := blocks.contents blocks.brk

/-- Fills the next block without keeping it. -/
def Blocks.scratch (value : β) : Blocks β :=
  { blocks with contents := Function.update blocks.contents blocks.brk value }

/-- Fills the next block and keeps it. -/
def Blocks.alloc (value : β) : Blocks β :=
  { contents := Function.update blocks.contents blocks.brk value, brk := blocks.brk + 1 }

/-- Writes to a block. -/
def Blocks.store (address : Nat) (value : β) : Blocks β :=
  { blocks with contents := Function.update blocks.contents address value }

variable {address : Nat} {value : β}

@[simp] theorem Blocks.scratch_brk : (blocks.scratch value).brk = blocks.brk := rfl

@[simp] theorem Blocks.alloc_brk : (blocks.alloc value).brk = blocks.brk + 1 := rfl

@[simp] theorem Blocks.store_brk : (blocks.store address value).brk = blocks.brk := rfl

@[simp] theorem Blocks.scratch_self : (blocks.scratch value).contents blocks.brk = value :=
  Function.update_self ..

@[simp] theorem Blocks.alloc_self : (blocks.alloc value).contents blocks.brk = value :=
  Function.update_self ..

@[simp] theorem Blocks.store_self : (blocks.store address value).contents address = value :=
  Function.update_self ..

/-- A block that was handed out before is not touched by the next one. -/
theorem Blocks.scratch_of_lt (hlt : address < blocks.brk) :
    (blocks.scratch value).contents address = blocks.contents address :=
  Function.update_of_ne (Nat.ne_of_lt hlt) ..

theorem Blocks.alloc_of_lt (hlt : address < blocks.brk) :
    (blocks.alloc value).contents address = blocks.contents address :=
  Function.update_of_ne (Nat.ne_of_lt hlt) ..

theorem Blocks.store_of_ne {other : Nat} (hne : other ≠ address) :
    (blocks.store address value).contents other = blocks.contents other :=
  Function.update_of_ne hne ..

end rc_project.blocks
