import RcProject.AvlTree.Defs
import RcProject.Library.Heap

open rc_project.heap
open rc_project.avl_tree (avl_node_t height_expr Effect AVL_OK AVL_DUPLICATED_KEY AVL_KEY_NOT_FOUND)

namespace rc_project.avl_heap

/-- The nodes of all trees. The data of a node is a block as well. -/
abbrev Nodes := Heap (avl_node_t Nat)

/-- The heap as far as the trees use it: their nodes, and the blocks that data is in. -/
structure Memory (α : Type) where
  nodes : Nodes
  data : Heap α

/-- `struct avl_tree`. The comparison function is passed along beside it. -/
structure avl_tree_t where
  size : Nat
  root : Option Nat
  fd : Int
  deriving DecidableEq, Repr

/-- What a caller passes as `data`: the address of a variable of its own, or of a block
that it has from `malloc`. -/
inductive Pointer (α : Type)
  | stack (value : α)
  | heap (address : Nat)

variable {α : Type}

def Memory.load (m : Memory α) : Pointer α → Result α
  | .stack value => return value
  | .heap address => m.data.load (some address)

/-- Only what is from `malloc` may be freed. -/
def Memory.free (m : Memory α) : Pointer α → Result (Memory α)
  | .stack _ => throw .out_of_bounds
  | .heap address => do
    let data ← m.data.free (some address)
    return { m with data }

def new_avl_tree (fd : Int) : avl_tree_t :=
  { size := 0, root := none, fd := fd }

/-- The hints are for the two calls of `malloc`. -/
def new_avl_node (m : Memory α) (data : Pointer α) (free_data : Bool) (node_hint data_hint : Nat) :
    Result (Memory α × Nat) := do
  let value ← m.load data
  let (copies, copy) := m.data.malloc data_hint value
  let (nodes, node) :=
    m.nodes.malloc node_hint { height := 1, data := copy, left := none, right := none }
  let m : Memory α := { nodes, data := copies }
  if free_data then
    let m ← m.free data
    return (m, node)
  else
    return (m, node)

section Rotations

variable (nodes : Nodes)

def get_height : Option Nat → Result Int
  | none => return 0
  | some node => do
    let block ← nodes.load (some node)
    return block.height

def get_balance : Option Nat → Result Int
  | none => return 0
  | some node => do
    let block ← nodes.load (some node)
    let left ← get_height nodes block.left
    let right ← get_height nodes block.right
    return left - right

def set_left (node left : Option Nat) : Result Nodes := do
  let block ← nodes.load node
  nodes.store node { block with left }

def set_right (node right : Option Nat) : Result Nodes := do
  let block ← nodes.load node
  nodes.store node { block with right }

/-- `dest->height = 1 + (get_height(node->left) > get_height(node->right)) ? …`. -/
def set_height (dest node : Option Nat) : Result Nodes := do
  let block ← nodes.load node
  let left ← get_height nodes block.left
  let right ← get_height nodes block.right
  let target ← nodes.load dest
  nodes.store dest { target with height := height_expr left right }

def right_rotation (node : Option Nat) : Result (Nodes × Option Nat) := do
  let block ← nodes.load node
  let child := block.left
  let below ← nodes.load child
  let save := below.right
  let nodes ← set_right nodes child node
  let nodes ← set_left nodes node save
  let nodes ← set_height nodes node node
  -- the new height of the child is computed from the heights below `save`
  let nodes ← set_height nodes child save
  return (nodes, child)

def left_rotation (node : Option Nat) : Result (Nodes × Option Nat) := do
  let block ← nodes.load node
  let child := block.right
  let below ← nodes.load child
  let save := below.left
  let nodes ← set_left nodes child node
  let nodes ← set_right nodes node save
  let nodes ← set_height nodes node node
  let nodes ← set_height nodes child save
  return (nodes, child)

end Rotations

section Operations

variable (data_cmp : α → α → Int) (data : Heap α)

/-- `tree->data_cmp(new_node->data, node->data)`. -/
def cmp_nodes (nodes : Nodes) (new_node node : Option Nat) : Result Int := do
  let block ← nodes.load new_node
  let value ← data.load (some block.data)
  let other ← nodes.load node
  let value' ← data.load (some other.data)
  return data_cmp value value'

/-- The part of `private_avl_add` that follows the recursive call. -/
def add_rebalance (nodes : Nodes) (new_node current_node : Option Nat) :
    Result (Nodes × Option Nat) := do
  let nodes ← set_height nodes current_node current_node
  let balance ← get_balance nodes current_node
  if balance > 1 then
    let current ← nodes.load current_node
    let res ← cmp_nodes data_cmp data nodes new_node current.left
    if res > 0 then
      -- the source rotates `current_node` here, not its left child
      let (nodes, rotated) ← left_rotation nodes current_node
      let nodes ← set_left nodes current_node rotated
      right_rotation nodes current_node
    else
      right_rotation nodes current_node
  else if balance < -1 then
    let current ← nodes.load current_node
    let res ← cmp_nodes data_cmp data nodes new_node current.right
    if res < 0 then
      let (nodes, rotated) ← right_rotation nodes current_node
      let nodes ← set_right nodes current_node rotated
      left_rotation nodes current_node
    else
      left_rotation nodes current_node
  else
    return (nodes, current_node)

/-- The first argument bounds the depth of the recursion. -/
def private_avl_add : Nat → Nodes → Nat → Option Nat → Result (Nodes × Option Nat)
  | _, nodes, new_node, none => return (nodes, some new_node)
  | 0, _, _, some _ => throw .recursion
  | fuel + 1, nodes, new_node, some current_node => do
    let res ← cmp_nodes data_cmp data nodes (some new_node) (some current_node)
    let current ← nodes.load (some current_node)
    if res < 0 then
      let (nodes, left) ← private_avl_add fuel nodes new_node current.left
      let nodes ← set_left nodes (some current_node) left
      add_rebalance data_cmp data nodes (some new_node) (some current_node)
    else if res > 0 then
      let (nodes, right) ← private_avl_add fuel nodes new_node current.right
      let nodes ← set_right nodes (some current_node) right
      add_rebalance data_cmp data nodes (some new_node) (some current_node)
    else
      return (nodes, some current_node)

/-- The part of `private_avl_remove` that follows the removal. -/
def remove_rebalance (nodes : Nodes) (current : Option Nat) : Result (Nodes × Option Nat) := do
  let nodes ← set_height nodes current current
  let balance ← get_balance nodes current
  if balance > 1 then
    let block ← nodes.load current
    let balance ← get_balance nodes block.left
    if balance < 0 then
      let (nodes, rotated) ← left_rotation nodes block.left
      let nodes ← set_left nodes current rotated
      right_rotation nodes current
    else
      right_rotation nodes current
  else if balance < -1 then
    let block ← nodes.load current
    let balance ← get_balance nodes block.right
    if balance > 0 then
      let (nodes, rotated) ← right_rotation nodes block.right
      let nodes ← set_right nodes current rotated
      left_rotation nodes current
    else
      left_rotation nodes current
  else
    return (nodes, current)

/-- `value` is what `data` points to: nothing is written to it in the meantime. -/
def private_avl_remove : Nat → Nodes → Option Nat → α → Result (Nodes × Option Nat)
  | _, nodes, none, _ => return (nodes, none)
  | 0, _, some _, _ => throw .recursion
  | fuel + 1, nodes, some current, value => do
    let block ← nodes.load (some current)
    let value' ← data.load (some block.data)
    let res := data_cmp value value'
    if res < 0 then
      let (nodes, left) ← private_avl_remove fuel nodes block.left value
      let nodes ← set_left nodes (some current) left
      remove_rebalance nodes (some current)
    else if res > 0 then
      let (nodes, right) ← private_avl_remove fuel nodes block.right value
      let nodes ← set_right nodes (some current) right
      remove_rebalance nodes (some current)
    else if block.left = none ∨ block.right = none then
      let temp := if block.left ≠ none then block.left else block.right
      if temp = none then
        let nodes ← nodes.free (some current)
        return (nodes, none)
      else
        let child ← nodes.load temp
        let nodes ← nodes.store (some current) child
        let nodes ← nodes.free temp
        remove_rebalance nodes (some current)
    else
      remove_rebalance nodes (some current)

def private_avl_get : Nat → Nodes → Option Nat → α → Result (Option Nat)
  | _, _, none, _ => return none
  | 0, _, some _, _ => throw .recursion
  | fuel + 1, nodes, some current, value => do
    let block ← nodes.load (some current)
    let value' ← data.load (some block.data)
    let res := data_cmp value value'
    if res < 0 then private_avl_get fuel nodes block.left value
    else if res > 0 then private_avl_get fuel nodes block.right value
    else return some current

/-- The traversal that `private_avl_rewrite` and `private_avl_print_client` share. -/
def visit {ε : Type} (action : α → ε) : Nat → Nodes → Option Nat → Result (List ε)
  | _, _, none => return []
  | 0, _, some _ => throw .recursion
  | fuel + 1, nodes, some current => do
    let block ← nodes.load (some current)
    let before ← visit action fuel nodes block.left
    let value ← data.load (some block.data)
    let after ← visit action fuel nodes block.right
    return before ++ action value :: after

end Operations

section Calls

variable (data_cmp : α → α → Int)

def avl_add (m : Memory α) (tree : avl_tree_t) (data : Pointer α) (free_data write_data : Bool)
    (node_hint data_hint : Nat) : Result (Int × Memory α × avl_tree_t × List (Effect α)) := do
  let value ← m.load data
  let found ← private_avl_get data_cmp m.data tree.size m.nodes tree.root value
  if found ≠ none then
    return (AVL_DUPLICATED_KEY, m, tree, [])
  else
    let written := if write_data then [Effect.write tree.fd value] else []
    let (m, node) ← new_avl_node m data free_data node_hint data_hint
    let (nodes, root) ← private_avl_add data_cmp m.data tree.size m.nodes node tree.root
    return (AVL_OK, { m with nodes }, { tree with root, size := tree.size + 1 }, written)

/-- The size field is left as it is. -/
def avl_remove (m : Memory α) (tree : avl_tree_t) (data : Pointer α) (free_data write_data : Bool) :
    Result (Int × Memory α × avl_tree_t × List (Effect α)) := do
  let value ← m.load data
  let found ← private_avl_get data_cmp m.data tree.size m.nodes tree.root value
  if found = none then
    return (AVL_KEY_NOT_FOUND, m, tree, [])
  else
    let (nodes, root) ← private_avl_remove data_cmp m.data tree.size m.nodes tree.root value
    let m : Memory α := { m with nodes }
    let tree := { tree with root }
    let m ← if free_data then m.free data else pure m
    if write_data then
      let rewritten ← visit m.data (Effect.write tree.fd) tree.size m.nodes tree.root
      return (AVL_OK, m, tree, Effect.ftruncate tree.fd :: rewritten)
    else
      return (AVL_OK, m, tree, [])

/-- The data that is found is handed out as a pointer to its block. -/
def avl_get (m : Memory α) (tree : avl_tree_t) (data : Pointer α) : Result (Option Nat) := do
  let value ← m.load data
  let node ← private_avl_get data_cmp m.data tree.size m.nodes tree.root value
  match node with
  | none => return none
  | some node =>
    let block ← m.nodes.load (some node)
    return some block.data

end Calls

end rc_project.avl_heap
