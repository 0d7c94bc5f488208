import RcProject.Library.Heap
import Mathlib.Data.Finset.Basic

open rc_project.heap

namespace rc_project.queue

/-- `struct queue_node`. A pointer is a block number, `none` is `NULL`. -/
structure queue_node_t where
  data : Nat
  next : Option Nat
  deriving DecidableEq, Repr

/-- `struct queue`. -/
structure queue_t where
  size : Nat
  start : Option Nat
  end_node : Option Nat
  deriving DecidableEq, Repr

/-- The heap as far as the queue uses it: its nodes, and the blocks that their data is
copied to. -/
structure Memory (δ : Type) where
  nodes : Heap queue_node_t
  payloads : Heap δ

variable {δ : Type}

def new_queue : queue_t :=
  { size := 0, start := none, end_node := none }

/-- The hints are for the two calls of `malloc`. -/
def new_queue_node (m : Memory δ) (data : δ) (node_hint data_hint : Nat) : Memory δ × Nat :=
  let (payloads, copy) := m.payloads.malloc data_hint data
  let (nodes, node) := m.nodes.malloc node_hint { data := copy, next := none }
  ({ nodes, payloads }, node)

def queue_push (m : Memory δ) (queue : queue_t) (node : Nat) : Result (Memory δ × queue_t) := do
  if queue.end_node = none then
    return (m, { size := queue.size + 1, start := some node, end_node := some node })
  else
    let last ← m.nodes.load queue.end_node
    let nodes ← m.nodes.store queue.end_node { last with next := some node }
    return ({ m with nodes }, { queue with end_node := some node, size := queue.size + 1 })

def queue_peek (queue : queue_t) : Option Nat := queue.start

def queue_pop (m : Memory δ) (queue : queue_t) : Result (Memory δ × queue_t) := do
  if queue.start = none then
    return (m, queue)
  let first ← m.nodes.load queue.start
  let nodes ← m.nodes.free queue.start
  let queue := { queue with start := first.next }
  let queue := if queue.start = none then { queue with end_node := none } else queue
  return ({ m with nodes }, { queue with size := queue.size - 1 })

/-- The loop of `remove_queue` from the index `i` on. The first argument bounds the number
of its iterations. -/
def remove_queue_loop : Nat → Nat → Memory δ → queue_t → Result (Memory δ × queue_t)
  | fuel, i, m, queue => do
    if i < queue.size then
      match fuel with
      | 0 => throw .recursion
      | fuel + 1 =>
        let (m, queue) ← queue_pop m queue
        remove_queue_loop fuel (i + 1) m queue
    else
      return (m, queue)

/-- The header is gone behind the loop, and what is left is the memory. -/
def remove_queue (m : Memory δ) (queue : queue_t) : Result (Memory δ) := do
  let (m, _) ← remove_queue_loop queue.size 0 m queue
  return m

end rc_project.queue
