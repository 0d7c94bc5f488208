import RcProject.AvlTree.Shape

open rc_project.linked_tree rc_project.search_tree

namespace rc_project.avl_tree

variable {α : Type} {m m' : Nodes α}

/-- The condition of the height expression is never zero, so the expression is
always the height of the left child. -/
theorem height_expr_eq (l r : Int) : height_expr l r = l := by
  unfold height_expr
  split <;> [rfl; split at * <;> omega]

theorem get_height_linked {pointer : Option Nat} {tree : BinaryTree (Cell α)}
    {footprint : Set Nat} (hlinked : Linked layout m pointer tree footprint) :
    get_height m pointer = rootHeight tree := by
  cases hlinked <;> rfl

/-- A height that is zero or one. -/
def LowHeight (m : Nodes α) (pointer : Option Nat) : Prop :=
  get_height m pointer = 0 ∨ get_height m pointer = 1

theorem lowHeight_of_low {pointer : Option Nat} {tree : BinaryTree (Cell α)}
    {footprint : Set Nat} (hlinked : Linked layout m pointer tree footprint) (hlow : Low tree) :
    LowHeight m pointer := by
  rw [LowHeight, get_height_linked hlinked]
  exact hlow.rootHeight

/-- Updating the height of a node keeps every height below it at zero or one,
the node's own height included. -/
theorem lowHeight_set_height {current : Nat} {pointer : Option Nat}
    (hleft : LowHeight m (m current).left) (hpointer : LowHeight m pointer) :
    LowHeight (set_height m current current) pointer := by
  cases pointer with
  | none => exact Or.inl rfl
  | some node =>
    by_cases hsame : node = current
    · subst hsame
      simpa [LowHeight, get_height, set_height, height_expr_eq] using hleft
    · simpa [LowHeight, get_height, set_height, Function.update_of_ne hsame] using hpointer

/-- Between children of height zero and one no node is ever out of balance. -/
theorem balance_bounds {current : Nat} (hleft : LowHeight m (m current).left)
    (hright : LowHeight m (m current).right) :
    -1 ≤ get_balance (set_height m current current) (some current) ∧
      get_balance (set_height m current current) (some current) ≤ 1 := by
  have hl := lowHeight_set_height hleft hleft
  have hr := lowHeight_set_height hleft hright
  have hchildren : (set_height m current current current).left = (m current).left ∧
      (set_height m current current current).right = (m current).right := by simp [set_height]
  unfold LowHeight at hl hr
  rw [get_balance, hchildren.1, hchildren.2]
  omega

/-- The rebalancing part of an insertion only updates the height. -/
theorem add_rebalance_eq (data_cmp : α → α → Int) {new_node current_node : Nat}
    (hleft : LowHeight m (m current_node).left) (hright : LowHeight m (m current_node).right) :
    add_rebalance data_cmp m new_node current_node =
      .ok (set_height m current_node current_node, some current_node) := by
  obtain ⟨hlo, hhi⟩ := balance_bounds hleft hright
  simp only [add_rebalance]
  rw [if_neg (by omega), if_neg (by omega)]
  rfl

/-- The rebalancing part of a removal only updates the height. -/
theorem remove_rebalance_eq {current : Nat} (hleft : LowHeight m (m current).left)
    (hright : LowHeight m (m current).right) :
    remove_rebalance m current = .ok (set_height m current current, some current) := by
  obtain ⟨hlo, hhi⟩ := balance_bounds hleft hright
  simp only [remove_rebalance]
  rw [if_neg (by omega), if_neg (by omega)]
  rfl

section Relink

variable {current : Nat} {pointer : Option Nat} {cell : Cell α}
  {child left right : BinaryTree (Cell α)} {childPrint leftPrint rightPrint : Set Nat}

theorem set_left_linked (hchild : Linked layout m pointer child childPrint)
    (hright : Linked layout m (m current).right right rightPrint)
    (hnotChild : current ∉ childPrint) (hnotRight : current ∉ rightPrint)
    (hdisjoint : Disjoint childPrint rightPrint) :
    Linked layout (set_left m current pointer) (some current)
      (.node ((m current).height, (m current).data) child right)
      (Insert.insert current (childPrint ∪ rightPrint)) :=
  Linked.write hchild hright hnotChild hnotRight hdisjoint

theorem set_right_linked (hleft : Linked layout m (m current).left left leftPrint)
    (hchild : Linked layout m pointer child childPrint)
    (hnotLeft : current ∉ leftPrint) (hnotChild : current ∉ childPrint)
    (hdisjoint : Disjoint leftPrint childPrint) :
    Linked layout (set_right m current pointer) (some current)
      (.node ((m current).height, (m current).data) left child)
      (Insert.insert current (leftPrint ∪ childPrint)) :=
  Linked.write hleft hchild hnotLeft hnotChild hdisjoint

/-- Updating the height of a node stores the height of its left child in it. -/
theorem set_height_linked {footprint : Set Nat}
    (hlinked : Linked layout m (some current) (.node cell left right) footprint) :
    Linked layout (set_height m current current) (some current)
      (.node (rootHeight left, cell.2) left right) footprint := by
  cases hlinked with
  | node hleft hright hnotLeft hnotRight hdisjoint =>
    have hheight : height_expr (get_height m (m current).left) (get_height m (m current).right) =
        rootHeight left := by
      rw [height_expr_eq, ← layout_left, get_height_linked hleft]
    rw [set_height, hheight]
    exact Linked.write hleft hright hnotLeft hnotRight hdisjoint

/-- The rebalancing part of an insertion at a node of a tree with low heights
only updates the height. -/
theorem add_rebalance_linked {data_cmp : α → α → Int} {new_node : Nat} {footprint : Set Nat}
    (hlinked : Linked layout m (some current) (.node cell left right) footprint)
    (hleft : Low left) (hright : Low right) :
    add_rebalance data_cmp m new_node current = .ok (set_height m current current, some current) := by
  cases hlinked with
  | node hl hr _ _ _ =>
    exact add_rebalance_eq data_cmp (lowHeight_of_low hl hleft) (lowHeight_of_low hr hright)

/-- The rebalancing part of a removal at a node of a tree with low heights only
updates the height. -/
theorem remove_rebalance_linked {footprint : Set Nat}
    (hlinked : Linked layout m (some current) (.node cell left right) footprint)
    (hleft : Low left) (hright : Low right) :
    remove_rebalance m current = .ok (set_height m current current, some current) := by
  cases hlinked with
  | node hl hr _ _ _ =>
    exact remove_rebalance_eq (lowHeight_of_low hl hleft) (lowHeight_of_low hr hright)

end Relink

end rc_project.avl_tree
