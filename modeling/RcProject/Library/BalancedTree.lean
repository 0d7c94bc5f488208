import Mathlib.Algebra.Group.Nat.Defs
import Mathlib.Data.Tree.Basic
import Mathlib.Tactic.Common

namespace rc_project.balanced_tree

variable {β : Type}

/-- At every node the heights of the two subtrees differ by at most one. -/
def HeightBalanced : BinaryTree β → Prop
  | .nil => True
  | .node _ left right => left.height ≤ right.height + 1 ∧ right.height ≤ left.height + 1 ∧
      HeightBalanced left ∧ HeightBalanced right

/-- The number of nodes of a balanced tree is exponential in half of its height. -/
theorem HeightBalanced.two_pow_le {tree : BinaryTree β} (hbalanced : HeightBalanced tree) :
    2 ^ (tree.height / 2) ≤ tree.numNodes + 1 := by
  induction tree with
  | nil => simp
  | node value left right ihLeft ihRight =>
    obtain ⟨hleft, hright, hbalancedLeft, hbalancedRight⟩ := hbalanced
    have hnodesLeft := ihLeft hbalancedLeft
    have hnodesRight := ihRight hbalancedRight
    simp only [BinaryTree.height, BinaryTree.numNodes]
    by_cases hlow : max left.height right.height = 0
    · simp [hlow]
    · have hhalf : (max left.height right.height + 1) / 2 =
          (max left.height right.height - 1) / 2 + 1 := by
        omega
      -- both subtrees have at least the height of the lower one
      have hpowLeft : 2 ^ ((max left.height right.height - 1) / 2) ≤ 2 ^ (left.height / 2) := by
        apply Nat.pow_le_pow_right (by decide)
        omega
      have hpowRight : 2 ^ ((max left.height right.height - 1) / 2) ≤ 2 ^ (right.height / 2) := by
        apply Nat.pow_le_pow_right (by decide)
        omega
      rw [hhalf, Nat.pow_succ]
      omega

end rc_project.balanced_tree
