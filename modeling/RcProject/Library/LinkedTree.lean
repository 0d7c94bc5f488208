import RcProject.Library.Result
import Mathlib.Data.Tree.Basic
import Mathlib.Data.Set.Lattice
import Mathlib.Logic.Function.Basic
import Mathlib.Order.CompletePartialOrder

namespace rc_project.linked_tree

/-- How a block of memory is read as a binary tree node: two child pointers and
the value that the node carries. -/
structure Layout (ν β : Type) where
  left : ν → Option Nat
  right : ν → Option Nat
  value : ν → β

variable {ν β : Type} (layout : Layout ν β)

/-- The blocks at `footprint` form a binary tree that hangs from a pointer: no
block is shared between two places of the tree, so there is no cycle. -/
inductive Linked (memory : Nat → ν) : Option Nat → BinaryTree β → Set Nat → Prop
  | nil : Linked memory none .nil ∅
  | node {address : Nat} {left right : BinaryTree β} {leftPrint rightPrint : Set Nat}
      (hleft : Linked memory (layout.left (memory address)) left leftPrint)
      (hright : Linked memory (layout.right (memory address)) right rightPrint)
      (hnotLeft : address ∉ leftPrint) (hnotRight : address ∉ rightPrint)
      (hdisjoint : Disjoint leftPrint rightPrint) :
      Linked memory (some address) (.node (layout.value (memory address)) left right)
        (insert address (leftPrint ∪ rightPrint))

variable {layout} {memory memory' : Nat → ν}

theorem Linked.of_none {tree : BinaryTree β} {footprint : Set Nat}
    (hlinked : Linked layout memory none tree footprint) : tree = .nil ∧ footprint = ∅ := by
  cases hlinked
  exact ⟨rfl, rfl⟩

theorem Linked.pointer_none {pointer : Option Nat} {footprint : Set Nat}
    (hlinked : Linked layout memory pointer .nil footprint) : pointer = none := by
  cases hlinked
  rfl

theorem Linked.pointer_some {pointer : Option Nat} {value : β} {left right : BinaryTree β}
    {footprint : Set Nat} (hlinked : Linked layout memory pointer (.node value left right) footprint) :
    ∃ address, pointer = some address := by
  cases hlinked
  exact ⟨_, rfl⟩

theorem Linked.ne_none_iff {pointer : Option Nat} {tree : BinaryTree β} {footprint : Set Nat}
    (hlinked : Linked layout memory pointer tree footprint) :
    pointer ≠ none ↔ tree.numNodes ≠ 0 := by
  cases hlinked <;> simp

/-- A pointer leads to at most one tree. -/
theorem Linked.tree_unique {pointer : Option Nat} {tree tree' : BinaryTree β}
    {footprint footprint' : Set Nat} (hlinked : Linked layout memory pointer tree footprint)
    (hlinked' : Linked layout memory pointer tree' footprint') : tree = tree' := by
  induction hlinked generalizing tree' footprint' with
  | nil => exact hlinked'.of_none.1.symm
  | node _ _ _ _ _ ihLeft ihRight =>
    cases hlinked' with
    | node hleft hright _ _ _ => rw [ihLeft hleft, ihRight hright]

/-- The frame rule: a tree only depends on the blocks of its footprint. -/
theorem Linked.frame {pointer : Option Nat} {tree : BinaryTree β} {footprint : Set Nat}
    (hlinked : Linked layout memory pointer tree footprint)
    (hsame : ∀ address ∈ footprint, memory' address = memory address) :
    Linked layout memory' pointer tree footprint := by
  induction hlinked with
  | nil => exact .nil
  | @node address left right leftPrint rightPrint _ _ hnotLeft hnotRight hdisjoint ihLeft ihRight =>
    have hroot : memory' address = memory address := hsame address (by simp)
    rw [← hroot]
    refine .node ?_ ?_ hnotLeft hnotRight hdisjoint
    · rw [hroot]
      exact ihLeft fun a ha => hsame a (by simp [ha])
    · rw [hroot]
      exact ihRight fun a ha => hsame a (by simp [ha])

/-- A write outside the footprint leaves the tree alone. -/
theorem Linked.update {pointer : Option Nat} {tree : BinaryTree β} {footprint : Set Nat}
    (hlinked : Linked layout memory pointer tree footprint) {address : Nat} (value : ν)
    (hnot : address ∉ footprint) :
    Linked layout (Function.update memory address value) pointer tree footprint :=
  hlinked.frame fun _ hmem => Function.update_of_ne (ne_of_mem_of_not_mem hmem hnot) value memory

/-- The write rule: storing a node over two linked subtrees that its block is
not part of. -/
theorem Linked.write {address : Nat} {node : ν} {left right : BinaryTree β}
    {leftPrint rightPrint : Set Nat} (hleft : Linked layout memory (layout.left node) left leftPrint)
    (hright : Linked layout memory (layout.right node) right rightPrint)
    (hnotLeft : address ∉ leftPrint) (hnotRight : address ∉ rightPrint)
    (hdisjoint : Disjoint leftPrint rightPrint) :
    Linked layout (Function.update memory address node) (some address)
      (.node (layout.value node) left right) (insert address (leftPrint ∪ rightPrint)) := by
  have hread : Function.update memory address node address = node := Function.update_self ..
  have hleft' := hleft.update node hnotLeft
  have hright' := hright.update node hnotRight
  generalize Function.update memory address node = written at hread hleft' hright' ⊢
  subst hread
  exact .node hleft' hright' hnotLeft hnotRight hdisjoint

end rc_project.linked_tree
