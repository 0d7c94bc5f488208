import RcProject.AvlTree.Defs
import RcProject.Library.LinkedTree
import RcProject.Library.SearchTree

open rc_project.linked_tree rc_project.search_tree

namespace rc_project.avl_tree

variable {α : Type}

/-- What a node of the tree carries: the stored height and the element. -/
abbrev Cell (α : Type) := Int × α

/-- How `avl_node_t` is read as a binary tree node. -/
def layout : Layout (avl_node_t α) (Cell α) where
  left := avl_node_t.left
  right := avl_node_t.right
  value node := (node.height, node.data)

@[simp] theorem layout_left (node : avl_node_t α) : layout.left node = node.left := rfl

@[simp] theorem layout_right (node : avl_node_t α) : layout.right node = node.right := rfl

@[simp] theorem layout_value (node : avl_node_t α) :
    layout.value node = (node.height, node.data) := rfl

/-- The elements from left to right. -/
def elements (tree : BinaryTree (Cell α)) : List α := (inorder tree).map Prod.snd

@[simp] theorem elements_nil : elements (.nil : BinaryTree (Cell α)) = [] := rfl

@[simp] theorem elements_node (cell : Cell α) (left right : BinaryTree (Cell α)) :
    elements (.node cell left right) = elements left ++ cell.2 :: elements right := by
  simp [elements]

/-- The height stored at the root, zero for the empty tree. -/
def rootHeight : BinaryTree (Cell α) → Int
  | .nil => 0
  | .node cell _ _ => cell.1

/-- Every stored height is zero or one, as the height expression of the source
only ever copies the height of a left child. -/
def Low : BinaryTree (Cell α) → Prop
  | .nil => True
  | .node cell left right => (cell.1 = 0 ∨ cell.1 = 1) ∧ Low left ∧ Low right

theorem Low.rootHeight {tree : BinaryTree (Cell α)} (hlow : Low tree) :
    rootHeight tree = 0 ∨ rootHeight tree = 1 := by
  cases tree with
  | nil => exact Or.inl rfl
  | node cell left right => exact hlow.1

section Operations

variable (data_cmp : α → α → Int)

/-- Insertion at the leaf where the descent ends. Each node on the path takes
over the height of its left child. -/
def insert (data : α) : BinaryTree (Cell α) → BinaryTree (Cell α)
  | .nil => .node (1, data) .nil .nil
  | .node cell left right =>
    if data_cmp data cell.2 < 0 then
      .node (rootHeight (insert data left), cell.2) (insert data left) right
    else if data_cmp data cell.2 > 0 then
      .node (rootHeight left, cell.2) left (insert data right)
    else
      .node cell left right

/-- Joins the subtrees of a node that is to go away. A node with two children
stays where it is. -/
def splice (data : α) : BinaryTree (Cell α) → BinaryTree (Cell α) → BinaryTree (Cell α)
  | .nil, .nil => .nil
  | .nil, .node cell left right => .node (rootHeight left, cell.2) left right
  | .node cell left right, .nil => .node (rootHeight left, cell.2) left right
  | left, right => .node (rootHeight left, data) left right

/-- Removal at the node where the descent ends. -/
def erase (data : α) : BinaryTree (Cell α) → BinaryTree (Cell α)
  | .nil => .nil
  | .node cell left right =>
    if data_cmp data cell.2 < 0 then
      .node (rootHeight (erase data left), cell.2) (erase data left) right
    else if data_cmp data cell.2 > 0 then
      .node (rootHeight left, cell.2) left (erase data right)
    else
      splice cell.2 left right

/-- The comparison of a key against the element of a node. -/
def against (data : α) (cell : Cell α) : Int := data_cmp data cell.2

variable {data_cmp} {data : α}

section Descent

variable {cell : Cell α} {left right : BinaryTree (Cell α)}

theorem insert_of_neg (hneg : data_cmp data cell.2 < 0) :
    insert data_cmp data (.node cell left right) =
      .node (rootHeight (insert data_cmp data left), cell.2) (insert data_cmp data left) right := by
  rw [insert, if_pos hneg]

theorem insert_of_pos (hpos : 0 < data_cmp data cell.2) :
    insert data_cmp data (.node cell left right) =
      .node (rootHeight left, cell.2) left (insert data_cmp data right) := by
  rw [insert, if_neg (by omega), if_pos hpos]

theorem insert_of_zero (hzero : data_cmp data cell.2 = 0) :
    insert data_cmp data (.node cell left right) = .node cell left right := by
  rw [insert, if_neg (by omega), if_neg (by omega)]

theorem erase_of_neg (hneg : data_cmp data cell.2 < 0) :
    erase data_cmp data (.node cell left right) =
      .node (rootHeight (erase data_cmp data left), cell.2) (erase data_cmp data left) right := by
  rw [erase, if_pos hneg]

theorem erase_of_pos (hpos : 0 < data_cmp data cell.2) :
    erase data_cmp data (.node cell left right) =
      .node (rootHeight left, cell.2) left (erase data_cmp data right) := by
  rw [erase, if_neg (by omega), if_pos hpos]

theorem erase_of_zero (hzero : data_cmp data cell.2 = 0) :
    erase data_cmp data (.node cell left right) = splice cell.2 left right := by
  rw [erase, if_neg (by omega), if_neg (by omega)]

end Descent

theorem low_insert {tree : BinaryTree (Cell α)} (hlow : Low tree) :
    Low (insert data_cmp data tree) := by
  induction tree with
  | nil => simp [insert, Low]
  | node cell left right ihLeft ihRight =>
    obtain ⟨hroot, hleft, hright⟩ := hlow
    rcases lt_trichotomy (data_cmp data cell.2) 0 with hneg | hzero | hpos
    · rw [insert_of_neg hneg]
      exact ⟨(ihLeft hleft).rootHeight, ihLeft hleft, hright⟩
    · rw [insert_of_zero hzero]
      exact ⟨hroot, hleft, hright⟩
    · rw [insert_of_pos hpos]
      exact ⟨hleft.rootHeight, hleft, ihRight hright⟩

theorem low_splice {left right : BinaryTree (Cell α)} (hleft : Low left) (hright : Low right) :
    Low (splice data left right) := by
  cases left with
  | nil =>
    cases right with
    | nil => trivial
    | node cell l r => exact ⟨hright.2.1.rootHeight, hright.2⟩
  | node cell l r =>
    cases right with
    | nil => exact ⟨hleft.2.1.rootHeight, hleft.2⟩
    | node _ _ _ => exact ⟨hleft.rootHeight, hleft, hright⟩

theorem low_erase {tree : BinaryTree (Cell α)} (hlow : Low tree) :
    Low (erase data_cmp data tree) := by
  induction tree with
  | nil => trivial
  | node cell left right ihLeft ihRight =>
    obtain ⟨hroot, hleft, hright⟩ := hlow
    rcases lt_trichotomy (data_cmp data cell.2) 0 with hneg | hzero | hpos
    · rw [erase_of_neg hneg]
      exact ⟨(ihLeft hleft).rootHeight, ihLeft hleft, hright⟩
    · rw [erase_of_zero hzero]
      exact low_splice hleft hright
    · rw [erase_of_pos hpos]
      exact ⟨hleft.rootHeight, hleft, ihRight hright⟩

theorem height_insert_le (tree : BinaryTree (Cell α)) :
    (insert data_cmp data tree).height ≤ tree.height + 1 := by
  induction tree with
  | nil => simp [insert]
  | node cell left right ihLeft ihRight =>
    rcases lt_trichotomy (data_cmp data cell.2) 0 with hneg | hzero | hpos
    · simp only [insert_of_neg hneg, BinaryTree.height]
      omega
    · simp [insert_of_zero hzero]
    · simp only [insert_of_pos hpos, BinaryTree.height]
      omega

theorem height_splice_le (left right : BinaryTree (Cell α)) :
    (splice data left right).height ≤ max left.height right.height + 1 := by
  cases left <;> cases right <;> simp [splice]

theorem height_erase_le (tree : BinaryTree (Cell α)) :
    (erase data_cmp data tree).height ≤ tree.height := by
  induction tree with
  | nil => simp [erase]
  | node cell left right ihLeft ihRight =>
    rcases lt_trichotomy (data_cmp data cell.2) 0 with hneg | hzero | hpos
    · simp only [erase_of_neg hneg, BinaryTree.height]
      omega
    · rw [erase_of_zero hzero]
      exact height_splice_le left right
    · simp only [erase_of_pos hpos, BinaryTree.height]
      omega

/-- The descent finds an element exactly when the search of the tree does. -/
theorem consistent_against {tree : BinaryTree (Cell α)}
    (hcons : Consistent (data_cmp data) (elements tree)) :
    Consistent (against data_cmp data) (inorder tree) :=
  List.pairwise_map.mp hcons

/-- An insertion only compares the new element with those of the tree. -/
theorem insert_congr {data_cmp' : α → α → Int} {tree : BinaryTree (Cell α)}
    (hsame : ∀ a ∈ elements tree, data_cmp data a = data_cmp' data a) :
    insert data_cmp data tree = insert data_cmp' data tree := by
  induction tree with
  | nil => rfl
  | node cell left right ihLeft ihRight =>
    have hleft := ihLeft fun a ha => hsame a (by simp [ha])
    have hright := ihRight fun a ha => hsame a (by simp [ha])
    rw [insert, insert, hsame cell.2 (by simp), hleft, hright]

/-- So does a removal. -/
theorem erase_congr {data_cmp' : α → α → Int} {tree : BinaryTree (Cell α)}
    (hsame : ∀ a ∈ elements tree, data_cmp data a = data_cmp' data a) :
    erase data_cmp data tree = erase data_cmp' data tree := by
  induction tree with
  | nil => rfl
  | node cell left right ihLeft ihRight =>
    have hleft := ihLeft fun a ha => hsame a (by simp [ha])
    have hright := ihRight fun a ha => hsame a (by simp [ha])
    rw [erase, erase, hsame cell.2 (by simp), hleft, hright]

/-- Insertion puts exactly the new element between the elements that compare as
smaller and those that compare as larger. -/
theorem elements_insert {tree : BinaryTree (Cell α)}
    (hcons : Consistent (data_cmp data) (elements tree))
    (hnone : find (against data_cmp data) tree = none) :
    ∃ before after, elements tree = before ++ after ∧
      elements (insert data_cmp data tree) = before ++ data :: after ∧
      (∀ a ∈ before, 0 < data_cmp data a) ∧ ∀ a ∈ after, data_cmp data a < 0 := by
  induction tree with
  | nil => exact ⟨[], [], rfl, rfl, by simp, by simp⟩
  | node cell left right ihLeft ihRight =>
    rw [elements_node] at hcons
    obtain ⟨hleft, hcons, hcross⟩ := List.pairwise_append.mp hcons
    obtain ⟨hafter, hright⟩ := List.pairwise_cons.mp hcons
    rcases lt_trichotomy (against data_cmp data cell) 0 with hneg | hzero | hpos
    · obtain ⟨before, after, hsplit, hnew, hgt, hlt⟩ := ihLeft hleft (find_of_neg hneg ▸ hnone)
      refine ⟨before, after ++ cell.2 :: elements right, by simp [hsplit],
        by simp [insert_of_neg hneg, hnew], hgt, ?_⟩
      intro a ha
      rcases List.mem_append.mp ha with ha | ha
      · exact hlt a ha
      · rcases List.mem_cons.mp ha with rfl | ha
        · exact hneg
        · exact hafter a ha hneg.le
    · simp [find_of_zero hzero] at hnone
    · obtain ⟨before, after, hsplit, hnew, hgt, hlt⟩ := ihRight hright (find_of_pos hpos ▸ hnone)
      refine ⟨elements left ++ cell.2 :: before, after, by simp [hsplit],
        by simp [insert_of_pos hpos, hnew], ?_, hlt⟩
      intro a ha
      rcases List.mem_append.mp ha with ha | ha
      · by_contra hnot
        have := hcross a ha cell.2 (by simp) (by omega)
        exact lt_asymm this hpos
      · rcases List.mem_cons.mp ha with rfl | ha
        · exact hpos
        · exact hgt a ha

theorem elements_splice (left right : BinaryTree (Cell α)) :
    elements (splice data left right) =
      if left.numNodes ≠ 0 ∧ right.numNodes ≠ 0 then elements left ++ data :: elements right
      else elements left ++ elements right := by
  cases left <;> cases right <;> simp [splice]

/-- Removal takes out the element that the descent finds, unless its node has
two children: then it takes out nothing. -/
theorem elements_erase {tree : BinaryTree (Cell α)} {cell : Cell α}
    (hfind : find (against data_cmp data) tree = some cell) :
    ∃ before after, elements tree = before ++ cell.2 :: after ∧
      elements (erase data_cmp data tree) =
        if bothChildren (against data_cmp data) tree then elements tree else before ++ after := by
  induction tree with
  | nil => simp [find] at hfind
  | node root left right ihLeft ihRight =>
    rcases lt_trichotomy (against data_cmp data root) 0 with hneg | hzero | hpos
    · obtain ⟨before, after, hsplit, hrest⟩ := ihLeft (find_of_neg hneg ▸ hfind)
      refine ⟨before, after ++ root.2 :: elements right, by simp [hsplit], ?_⟩
      rw [erase_of_neg hneg, bothChildren_of_neg hneg, elements_node, hrest]
      split <;> simp
    · obtain rfl : root = cell := by simpa [find_of_zero hzero] using hfind
      refine ⟨elements left, elements right, by simp, ?_⟩
      rw [erase_of_zero hzero, bothChildren_of_zero hzero, elements_splice]
      simp
    · obtain ⟨before, after, hsplit, hrest⟩ := ihRight (find_of_pos hpos ▸ hfind)
      refine ⟨elements left ++ root.2 :: before, after, by simp [hsplit], ?_⟩
      rw [erase_of_pos hpos, bothChildren_of_pos hpos, elements_node, hrest]
      split <;> simp

end Operations

end rc_project.avl_tree
