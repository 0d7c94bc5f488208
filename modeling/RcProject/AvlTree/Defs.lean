import RcProject.Library.Result
import Mathlib.Logic.Function.Basic

namespace rc_project.avl_tree

/-- `struct avl_node`. A pointer is a block number, `none` is `NULL`. -/
structure avl_node_t (α : Type) where
  height : Int
  data : α
  left : Option Nat
  right : Option Nat
  deriving DecidableEq, Repr

/-- The node blocks of one tree. Blocks at or above the tree's `brk` have not
been handed out by `malloc` yet, what they hold is arbitrary. -/
abbrev Nodes (α : Type) := Nat → avl_node_t α

/-- `struct avl_tree`, together with the node blocks that hang from it. The
comparison function is passed along beside it. -/
structure avl_tree_t (α : Type) where
  size : Nat
  root : Option Nat
  fd : Int
  nodes : Nodes α
  brk : Nat

def AVL_OK : Int := 0
def AVL_DUPLICATED_KEY : Int := -1
def AVL_KEY_NOT_FOUND : Int := -2

/-- What an operation does outside the tree, in the order in which it does it. -/
inductive Effect (α : Type)
  | write (fd : Int) (data : α)
  | ftruncate (fd : Int)
  | free (data : α)
  deriving DecidableEq, Repr

variable {α : Type}

def new_avl_tree (fd : Int) (blocks : Nodes α) : avl_tree_t α :=
  { size := 0, root := none, fd := fd, nodes := blocks, brk := 0 }

/-- The block that `malloc` returns for the copy of `data` is known by `data`
itself: with `free_data` the original is gone, and without it the caller
overwrites it. -/
def new_avl_node (tree : avl_tree_t α) (data : α) (free_data : Bool) :
    avl_tree_t α × Nat × List (Effect α) :=
  let node : avl_node_t α := { height := 1, data := data, left := none, right := none }
  ({ tree with nodes := Function.update tree.nodes tree.brk node, brk := tree.brk + 1 }, tree.brk,
    if free_data then [.free data] else [])

section Rotations

variable (m : Nodes α)

def get_height : Option Nat → Int
  | none => 0
  | some node => (m node).height

def get_balance : Option Nat → Int
  | none => 0
  | some node => get_height m (m node).left - get_height m (m node).right

/-- The expression `1 + (l > r) ? l : r`. In C the sum is the condition. -/
def height_expr (l r : Int) : Int :=
  if 1 + (if l > r then 1 else 0) ≠ (0 : Int) then l else r

def set_left (node : Nat) (left : Option Nat) : Nodes α :=
  Function.update m node { m node with left := left }

def set_right (node : Nat) (right : Option Nat) : Nodes α :=
  Function.update m node { m node with right := right }

/-- `dest->height = 1 + (get_height(node->left) > get_height(node->right)) ? …`. -/
def set_height (dest node : Nat) : Nodes α :=
  Function.update m dest
    { m dest with height := height_expr (get_height m (m node).left) (get_height m (m node).right) }

def right_rotation (node : Option Nat) : Result (Nodes α × Option Nat) := do
  let node ← Result.deref node
  let child ← Result.deref (m node).left
  let save := (m child).right
  let m := set_right m child (some node)
  let m := set_left m node save
  let m := set_height m node node
  -- the new height of the child is computed from the heights below `save`
  let save ← Result.deref save
  let m := set_height m child save
  return (m, some child)

def left_rotation (node : Option Nat) : Result (Nodes α × Option Nat) := do
  let node ← Result.deref node
  let child ← Result.deref (m node).right
  let save := (m child).left
  let m := set_left m child (some node)
  let m := set_right m node save
  let m := set_height m node node
  let save ← Result.deref save
  let m := set_height m child save
  return (m, some child)

end Rotations

section Operations

variable (data_cmp : α → α → Int)

/-- The part of `private_avl_add` that follows the recursive call. -/
def add_rebalance (m : Nodes α) (new_node current_node : Nat) :
    Result (Nodes α × Option Nat) := do
  let m := set_height m current_node current_node
  let balance := get_balance m (some current_node)
  if balance > 1 then
    let left ← Result.deref (m current_node).left
    let res := data_cmp (m new_node).data (m left).data
    if res > 0 then
      -- the source rotates `current_node` here, not its left child
      let (m, rotated) ← left_rotation m (some current_node)
      right_rotation (set_left m current_node rotated) (some current_node)
    else
      right_rotation m (some current_node)
  else if balance < -1 then
    let right ← Result.deref (m current_node).right
    let res := data_cmp (m new_node).data (m right).data
    if res < 0 then
      let (m, rotated) ← right_rotation m (some current_node)
      left_rotation (set_right m current_node rotated) (some current_node)
    else
      left_rotation m (some current_node)
  else
    return (m, some current_node)

/-- The first argument bounds the depth of the recursion. -/
def private_avl_add : Nat → Nodes α → Nat → Option Nat → Result (Nodes α × Option Nat)
  | _, m, new_node, none => return (m, some new_node)
  | 0, _, _, some _ => throw .recursion
  | fuel + 1, m, new_node, some current_node => do
    let res := data_cmp (m new_node).data (m current_node).data
    if res < 0 then
      let (m, left) ← private_avl_add fuel m new_node (m current_node).left
      add_rebalance data_cmp (set_left m current_node left) new_node current_node
    else if res > 0 then
      let (m, right) ← private_avl_add fuel m new_node (m current_node).right
      add_rebalance data_cmp (set_right m current_node right) new_node current_node
    else
      return (m, some current_node)

/-- The part of `private_avl_remove` that follows the removal. -/
def remove_rebalance (m : Nodes α) (current : Nat) : Result (Nodes α × Option Nat) := do
  let m := set_height m current current
  let balance := get_balance m (some current)
  if balance > 1 then
    if get_balance m (m current).left < 0 then
      let (m, rotated) ← left_rotation m (m current).left
      right_rotation (set_left m current rotated) (some current)
    else
      right_rotation m (some current)
  else if balance < -1 then
    if get_balance m (m current).right > 0 then
      let (m, rotated) ← right_rotation m (m current).right
      left_rotation (set_right m current rotated) (some current)
    else
      left_rotation m (some current)
  else
    return (m, some current)

def private_avl_remove : Nat → Nodes α → Option Nat → α → Result (Nodes α × Option Nat)
  | _, m, none, _ => return (m, none)
  | 0, _, some _, _ => throw .recursion
  | fuel + 1, m, some current, data => do
    let res := data_cmp data (m current).data
    if res < 0 then
      let (m, left) ← private_avl_remove fuel m (m current).left data
      remove_rebalance (set_left m current left) current
    else if res > 0 then
      let (m, right) ← private_avl_remove fuel m (m current).right data
      remove_rebalance (set_right m current right) current
    else if (m current).left = none ∨ (m current).right = none then
      match if (m current).left ≠ none then (m current).left else (m current).right with
      | none => return (m, none)
      -- `*current = *temp`, the freed block is not used again
      | some temp => remove_rebalance (Function.update m current (m temp)) current
    else
      remove_rebalance m current

def private_avl_get : Nat → Nodes α → Option Nat → α → Result (Option Nat)
  | _, _, none, _ => return none
  | 0, _, some _, _ => throw .recursion
  | fuel + 1, m, some current, data =>
    let res := data_cmp data (m current).data
    if res < 0 then private_avl_get fuel m (m current).left data
    else if res > 0 then private_avl_get fuel m (m current).right data
    else return some current

/-- The traversal that `private_avl_rewrite`, `private_avl_print` and
`private_avl_print_client` share: an action on every element, left to right. -/
def visit {ε : Type} (action : α → ε) : Nat → Nodes α → Option Nat → Result (List ε)
  | _, _, none => return []
  | 0, _, some _ => throw .recursion
  | fuel + 1, m, some current => do
    let before ← visit action fuel m (m current).left
    let after ← visit action fuel m (m current).right
    return before ++ action (m current).data :: after

def private_avl_rewrite (tree : avl_tree_t α) (current : Option Nat) : Result (List (Effect α)) :=
  visit (.write tree.fd) tree.brk tree.nodes current

def private_avl_print_client {ε : Type} (tree : avl_tree_t α) (node : Option Nat)
    (send_to_client : α → ε) : Result (List ε) :=
  visit send_to_client tree.brk tree.nodes node

def avl_print_client {ε : Type} (tree : avl_tree_t α) (send_to_client : α → ε) :
    Result (List ε) :=
  private_avl_print_client tree tree.root send_to_client

def avl_add (tree : avl_tree_t α) (data : α) (free_data write_data : Bool) :
    Result (Int × avl_tree_t α × List (Effect α)) := do
  let found ← private_avl_get data_cmp tree.brk tree.nodes tree.root data
  if found ≠ none then
    return (AVL_DUPLICATED_KEY, tree, [])
  let written := if write_data then [Effect.write tree.fd data] else []
  let (tree, node, freed) := new_avl_node tree data free_data
  let (nodes, root) ← private_avl_add data_cmp tree.brk tree.nodes node tree.root
  return (AVL_OK, { tree with nodes := nodes, root := root, size := tree.size + 1 },
    written ++ freed)

/-- The size field is left as it is. -/
def avl_remove (tree : avl_tree_t α) (data : α) (free_data write_data : Bool) :
    Result (Int × avl_tree_t α × List (Effect α)) := do
  let found ← private_avl_get data_cmp tree.brk tree.nodes tree.root data
  if found = none then
    return (AVL_KEY_NOT_FOUND, tree, [])
  let (nodes, root) ← private_avl_remove data_cmp tree.brk tree.nodes tree.root data
  let tree := { tree with nodes := nodes, root := root }
  let freed := if free_data then [Effect.free data] else []
  if write_data then
    let rewritten ← private_avl_rewrite tree tree.root
    return (AVL_OK, tree, freed ++ Effect.ftruncate tree.fd :: rewritten)
  return (AVL_OK, tree, freed)

def avl_get (tree : avl_tree_t α) (data : α) : Result (Option α) := do
  let node ← private_avl_get data_cmp tree.brk tree.nodes tree.root data
  return node.map fun node => (tree.nodes node).data

end Operations

end rc_project.avl_tree
