import RcProject.Queue.Defs
import RcProject.Library.Transition

open rc_project.heap rc_project.queue rc_project.transition

namespace rc_project.thread_pool

/-- `struct thread_job`. A function and its argument are known by their addresses, `none` is
`NULL`. -/
structure thread_job_t where
  job : Option Nat
  arg : Option Nat
  deriving DecidableEq, Repr

/-- `struct thread_pool`. The queue, the mutex and the condition variable are there once
`work` is. -/
structure thread_pool_t where
  size : Nat
  active : Nat
  work : Option queue_t
  deriving DecidableEq, Repr

/-- Where a worker is in `thread_job`: before the test of the loop, in `pthread_cond_wait`,
behind the unlock with the pointer that it peeked, or behind the loop. -/
inductive Stage
  | testing
  | waiting
  | woken (thread_job : Option Nat)
  | returned
  deriving DecidableEq, Repr

structure Worker where
  arg : Option Nat
  stage : Stage
  deriving DecidableEq, Repr

/-- A word of memory that is used as a pointer, by what it points at. -/
inductive Word
  | null
  | function (address : Nat)
  | object (address : Nat)
  | node (address : Nat)
  | copy (address : Nat)
  deriving DecidableEq, Repr

/-- The two words of a job. -/
def thread_job_t.words (thread_job : thread_job_t) : Word × Word :=
  (thread_job.job.elim .null .function, thread_job.arg.elim .null .object)

/-- The two words of a queue node, which is what the pointer of `queue_peek` leads to. -/
def node_words (node : queue_node_t) : Word × Word :=
  (.copy node.data, node.next.elim .null .node)

/-- The threads of a pool, the block of the pool, and what `pthread_create` hands to each
thread. -/
structure Process where
  memory : Memory thread_job_t
  pools : Heap thread_pool_t
  pool : Nat
  argument : Option Nat
  workers : List Worker

/-- The orders of the program and the turns of its threads. -/
inductive Event
  | create
  | add (thread_job : thread_job_t) (node_hint data_hint : Nat)
  | worker (i : Nat)
  | deactivate
  | release
  deriving DecidableEq, Repr

/-- What can be seen of an event. -/
inductive Output
  | silent
  | added (node : Nat)
  | took (thread_job : Option Nat)
  | invoked (job arg : Word)
  deriving DecidableEq, Repr

inductive Phase
  | creating
  | available
  | removed
  deriving DecidableEq, Repr

/-- How far the life of the pool is. -/
def Process.phase (s : Process) : Phase :=
  match s.pools.blocks s.pool with
  | none => .removed
  | some pool => if pool.work = none then .creating else .available

/-- A field that is read before it was written to. -/
def initialised : Option queue_t → Result queue_t
  | none => throw .out_of_bounds
  | some work => return work

/-- `new_thread_pool` up to its loop. The last argument of `pthread_create` is `NULL`. -/
def new_thread_pool (memory : Memory thread_job_t) (pools : Heap thread_pool_t) (hint size : Nat) :
    Process :=
  let (pools, pool) := pools.malloc hint { size, active := 1, work := none }
  { memory, pools, pool, argument := none, workers := [] }

/-- The next iteration of the loop of `new_thread_pool`, or what follows the loop. -/
def new_thread_pool_next (s : Process) : Result (Process × Output) := do
  let pool ← s.pools.load (some s.pool)
  if s.workers.length < pool.size then
    let worker : Worker := { arg := s.argument, stage := .testing }
    return ({ s with workers := s.workers ++ [worker] }, .silent)
  else
    let pools ← s.pools.store (some s.pool) { pool with work := some new_queue }
    return ({ s with pools }, .silent)

def add_thread_job (s : Process) (thread_job : thread_job_t) (node_hint data_hint : Nat) :
    Result (Process × Output) := do
  let (memory, node) := new_queue_node s.memory thread_job node_hint data_hint
  let pool ← s.pools.load (some s.pool)
  let work ← initialised pool.work
  let (memory, work) ← queue_push memory work node
  let pools ← s.pools.store (some s.pool) { pool with work := some work }
  return ({ s with memory, pools }, .added node)

/-- The turn of one thread in `thread_job`. -/
def thread_job (s : Process) (i : Nat) (worker : Worker) : Result (Process × Output) :=
  match worker.stage with
  | .testing => do
    let pool ← s.pools.load worker.arg
    if pool.active = 1 then
      -- the lock and the wait need a mutex and a condition variable
      let _ ← initialised pool.work
      return ({ s with workers := s.workers.set i { worker with stage := .waiting } }, .silent)
    else
      return ({ s with workers := s.workers.set i { worker with stage := .returned } }, .silent)
  | .waiting => do
    -- woken up, by whatever, the thread holds the mutex again up to the unlock
    let pool ← s.pools.load worker.arg
    let work ← initialised pool.work
    let thread_job := queue_peek work
    let (memory, work) ← queue_pop s.memory work
    let pools ← s.pools.store worker.arg { pool with work := some work }
    let workers := s.workers.set i { worker with stage := .woken thread_job }
    return ({ s with memory, pools, workers }, .took thread_job)
  | .woken thread_job => do
    let node ← s.memory.nodes.load thread_job
    let (job, arg) := node_words node
    let workers := s.workers.set i { worker with stage := .testing }
    return ({ s with workers }, if job = .null then .silent else .invoked job arg)
  | .returned => return (s, .silent)

/-- `remove_thread_pool` up to its second loop. A thread may wake up without a signal, so
that a signal is no event of its own. -/
def remove_thread_pool (s : Process) : Result (Process × Output) := do
  let pool ← s.pools.load (some s.pool)
  let pools ← s.pools.store (some s.pool) { pool with active := 0 }
  return ({ s with pools }, .silent)

/-- What follows the second loop of `remove_thread_pool`. -/
def remove_thread_pool_end (s : Process) : Result (Process × Output) := do
  let pool ← s.pools.load (some s.pool)
  let work ← initialised pool.work
  let memory ← remove_queue s.memory work
  let pools ← s.pools.free (some s.pool)
  return ({ s with memory, pools }, .silent)

/-- The pool is inactive and all threads have returned, so that `pthread_join` does. -/
def Process.joined (s : Process) : Bool :=
  (s.pools.blocks s.pool).any (fun pool => pool.active ≠ 1) ∧
    s.workers.all fun worker => worker.stage = .returned

/-- An event whose time has not come, or is over, changes nothing. -/
def pool_step : Machine Process Event Output
  | s, .create => if s.phase = .creating then new_thread_pool_next s else return (s, .silent)
  | s, .add thread_job node_hint data_hint =>
    if s.phase = .available then add_thread_job s thread_job node_hint data_hint
    else return (s, .silent)
  | s, .worker i =>
    match s.workers[i]? with
    | none => return (s, .silent)
    | some worker => thread_job s i worker
  | s, .deactivate =>
    if s.phase = .available then remove_thread_pool s else return (s, .silent)
  | s, .release =>
    if s.phase = .available ∧ s.joined then remove_thread_pool_end s else return (s, .silent)

end rc_project.thread_pool
