import RcProject.ThreadPool.Defs
import RcProject.Queue.Removal
import RcProject.Library.Fifo

open rc_project.fifo rc_project.heap rc_project.queue rc_project.transition

namespace rc_project.thread_pool

/-- The nodes that entered the queue, in order. -/
def Output.nodes_added : Output → List Nat
  | .added node => [node]
  | _ => []

/-- The nodes that workers took out of the queue, in order. -/
def Output.nodes_taken : Output → List Nat
  | .took thread_job => thread_job.toList
  | _ => []

/-- The turns of a worker that must not happen: it was not started with the pool, the pool is
not complete yet, or it comes back from its wait and reads a job. -/
inductive Harmful (s : Process) : Event → Prop
  | foreign (i : Nat) (worker : Worker) (hworker : s.workers[i]? = some worker)
    (hstage : worker.stage ≠ .returned) (harg : worker.arg ≠ some s.pool) : Harmful s (.worker i)
  | early (i : Nat) (worker : Worker) (hworker : s.workers[i]? = some worker)
    (hstage : worker.stage ≠ .returned) (hphase : s.phase = .creating) : Harmful s (.worker i)
  | reading (i : Nat) (worker : Worker) (hworker : s.workers[i]? = some worker)
    (thread_job : Option Nat) (hstage : worker.stage = .woken thread_job) : Harmful s (.worker i)

theorem Harmful.exists_worker {s : Process} {event : Event} (hharmful : Harmful s event) :
    ∃ i worker, event = .worker i ∧ s.workers[i]? = some worker := by
  cases hharmful with
  | foreign i worker hworker => exact ⟨i, worker, rfl, hworker⟩
  | early i worker hworker => exact ⟨i, worker, rfl, hworker⟩
  | reading i worker hworker => exact ⟨i, worker, rfl, hworker⟩

/-- What the queue of the pool holds is a FIFO list, as long as the pool is there, and behind
it no thread is left. -/
structure Consistent (fifo : Fifo Nat) (s : Process) : Prop where
  removed : s.pools.blocks s.pool = none → ∀ worker ∈ s.workers, worker.stage = .returned
  creating : ∀ pool, s.pools.blocks s.pool = some pool → pool.work = none →
    pool.active = 1 ∧ fifo = .empty
  holds : ∀ pool work, s.pools.blocks s.pool = some pool → pool.work = some work →
    Holds s.memory work fifo.items

theorem new_thread_pool_block (memory : Memory thread_job_t) (pools : Heap thread_pool_t)
    (hint size : Nat) : (new_thread_pool memory pools hint size).pools.blocks
      (new_thread_pool memory pools hint size).pool = some { size, active := 1, work := none } :=
  Heap.set_self ..

theorem new_thread_pool_consistent (memory : Memory thread_job_t) (pools : Heap thread_pool_t)
    (hint size : Nat) : Consistent .empty (new_thread_pool memory pools hint size) := by
  have hblock := new_thread_pool_block memory pools hint size
  constructor
  · intro hnone
    cases hblock.symm.trans hnone
  · intro pool hpool _
    obtain rfl := Option.some.inj (hblock.symm.trans hpool)
    exact ⟨rfl, rfl⟩
  · intro pool work hpool hwork
    obtain rfl := Option.some.inj (hblock.symm.trans hpool)
    cases hwork

section Phases

variable {s : Process}

theorem Process.phase_creating_iff : s.phase = .creating ↔
    ∃ pool, s.pools.blocks s.pool = some pool ∧ pool.work = none := by
  unfold Process.phase
  cases s.pools.blocks s.pool with
  | none => simp
  | some pool => by_cases hwork : pool.work = none <;> simp [hwork]

theorem Process.phase_available_iff : s.phase = .available ↔
    ∃ pool work, s.pools.blocks s.pool = some pool ∧ pool.work = some work := by
  unfold Process.phase
  cases s.pools.blocks s.pool with
  | none => simp
  | some pool =>
    cases hwork : pool.work with
    | none => simp [hwork]
    | some work => simp [hwork]

end Phases

section Steps

variable {fifo : Fifo Nat} {s : Process} {pool : thread_pool_t} {work : queue_t}

/-- Where the pool is complete, only its queue matters. -/
theorem Consistent.of_some {s' : Process} (hblock : s'.pools.blocks s'.pool = some pool)
    (hwork : pool.work = some work) (hholds : Holds s'.memory work fifo.items) :
    Consistent fifo s' := by
  constructor
  · intro hnone
    cases hblock.symm.trans hnone
  · intro pool' hpool hnone
    obtain rfl := Option.some.inj (hblock.symm.trans hpool)
    cases hwork.symm.trans hnone
  · intro pool' work' hpool hwork'
    obtain rfl := Option.some.inj (hblock.symm.trans hpool)
    obtain rfl := Option.some.inj (hwork.symm.trans hwork')
    exact hholds

/-- What an event does, if it goes well. -/
def Proceeds (fifo : Fifo Nat) (s : Process) (event : Event) : Prop :=
  ∃ s' output fifo', pool_step s event = .ok (s', output) ∧ Consistent fifo' s' ∧
    fifo'.entered = fifo.entered ++ output.nodes_added ∧
    fifo'.gone = fifo.gone ++ output.nodes_taken ∧ ∀ job arg, output ≠ .invoked job arg

/-- An event that does nothing, and one that does nothing to the queue. -/
theorem Proceeds.silent {event : Event} {s' : Process} (hstep : pool_step s event = .ok (s', .silent))
    (hconsistent : Consistent fifo s') : Proceeds fifo s event :=
  ⟨s', .silent, fifo, hstep, hconsistent, by simp [Output.nodes_added],
    by simp [Output.nodes_taken], by simp⟩

theorem Consistent.create (hconsistent : Consistent fifo s) : Proceeds fifo s .create := by
  by_cases hphase : s.phase = .creating
  · obtain ⟨pool, hblock, hwork⟩ := Process.phase_creating_iff.mp hphase
    obtain ⟨hactive, hempty⟩ := hconsistent.creating pool hblock hwork
    by_cases hlt : s.workers.length < pool.size
    · have hstep : pool_step s .create = .ok ({ s with
          workers := s.workers ++ [{ arg := s.argument, stage := .testing }] }, .silent) := by
        simp [pool_step, hphase, new_thread_pool_next, Heap.load_of_some hblock, hlt]
      refine .silent hstep ⟨fun hnone => ?_, hconsistent.creating, hconsistent.holds⟩
      cases hblock.symm.trans hnone
    · have hstep : pool_step s .create = .ok ({ s with
          pools := s.pools.set s.pool (some { pool with work := some new_queue }) }, .silent) := by
        simp [pool_step, hphase, new_thread_pool_next, Heap.load_of_some hblock, hlt,
          Heap.store_of_some hblock]
      refine .silent hstep (.of_some (Heap.set_self ..) rfl ?_)
      rw [hempty]
      exact new_queue_holds s.memory
  · exact .silent (by simp [pool_step, hphase]) hconsistent

theorem Consistent.add (hconsistent : Consistent fifo s) (thread_job : thread_job_t)
    (node_hint data_hint : Nat) : Proceeds fifo s (.add thread_job node_hint data_hint) := by
  by_cases hphase : s.phase = .available
  · obtain ⟨pool, work, hblock, hwork⟩ := Process.phase_available_iff.mp hphase
    have hholds := hconsistent.holds pool work hblock hwork
    obtain ⟨memory, node, copy, hnew, hfree, -, hnodes, -⟩ :=
      new_queue_node_spec s.memory thread_job node_hint data_hint
    have hfresh : node ∉ fifo.items := fun hmem => hholds.segment.live hmem hfree
    have hholds₁ : Holds memory work fifo.items := by
      refine hholds.frame fun other hmem => ?_
      rw [hnodes, Heap.set_of_ne _ (ne_of_mem_of_not_mem hmem hfresh)]
    have hnode : memory.nodes.blocks node = some { data := copy, next := none } := by
      rw [hnodes, Heap.set_self]
    obtain ⟨memory', work', hpush, hholds', -⟩ := queue_push_holds hholds₁ hnode rfl hfresh
    refine ⟨{ s with
      memory := memory', pools := s.pools.set s.pool (some { pool with work := some work' }) },
      .added node, fifo.push node, ?_, ?_, rfl, by simp [Output.nodes_taken], by simp⟩
    · simp [pool_step, hphase, add_thread_job, hnew, Heap.load_of_some hblock, hwork, initialised,
        hpush, Heap.store_of_some hblock]
    · rw [← Fifo.items_push] at hholds'
      exact .of_some (Heap.set_self ..) rfl hholds'
  · exact .silent (by simp [pool_step, hphase]) hconsistent

theorem Consistent.deactivate (hconsistent : Consistent fifo s) :
    Proceeds fifo s .deactivate := by
  by_cases hphase : s.phase = .available
  · obtain ⟨pool, work, hblock, hwork⟩ := Process.phase_available_iff.mp hphase
    have hstep : pool_step s .deactivate = .ok ({ s with
        pools := s.pools.set s.pool (some { pool with active := 0 }) }, .silent) := by
      simp [pool_step, hphase, remove_thread_pool, Heap.load_of_some hblock,
        Heap.store_of_some hblock]
    exact .silent hstep
      (.of_some (Heap.set_self ..) hwork (hconsistent.holds pool work hblock hwork))
  · exact .silent (by simp [pool_step, hphase]) hconsistent

theorem Consistent.release (hconsistent : Consistent fifo s) : Proceeds fifo s .release := by
  by_cases hready : s.phase = .available ∧ s.joined
  · obtain ⟨pool, work, hblock, hwork⟩ := Process.phase_available_iff.mp hready.1
    obtain ⟨memory, -, -, hremove, -⟩ :=
      remove_queue_holds (hconsistent.holds pool work hblock hwork)
    have hstep : pool_step s .release = .ok ({ s with
        memory, pools := s.pools.set s.pool none }, .silent) := by
      simp [pool_step, hready.1, hready.2, remove_thread_pool_end, Heap.load_of_some hblock, hwork,
        initialised, hremove, Heap.free_of_some hblock]
    have hjoined := hready.2
    simp only [Process.joined, List.all_eq_true, decide_eq_true_eq] at hjoined
    refine .silent hstep ⟨fun _ => hjoined.2, fun pool' hpool => ?_, fun pool' work' hpool => ?_⟩
    · cases (Heap.set_self ..).symm.trans hpool
    · cases (Heap.set_self ..).symm.trans hpool
  · exact .silent (by simp [pool_step, hready]) hconsistent

/-- A worker of the pool tests the loop condition, or wakes up and takes the oldest node. -/
theorem Consistent.worker (hconsistent : Consistent fifo s) {i : Nat}
    (hharmless : ¬ Harmful s (.worker i)) : Proceeds fifo s (.worker i) := by
  cases hworker : s.workers[i]? with
  | none => exact .silent (by simp [pool_step, hworker]) hconsistent
  | some worker =>
    by_cases hreturned : worker.stage = .returned
    · exact .silent (by simp [pool_step, hworker, thread_job, hreturned]) hconsistent
    -- only a worker of a complete pool is left
    have harg : worker.arg = some s.pool := by
      by_contra hforeign
      exact hharmless (.foreign i worker hworker hreturned hforeign)
    obtain ⟨pool, hblock⟩ : ∃ pool, s.pools.blocks s.pool = some pool := by
      refine Option.ne_none_iff_exists'.mp fun hnone => hreturned ?_
      exact hconsistent.removed hnone worker (List.mem_of_getElem? hworker)
    obtain ⟨work, hwork⟩ : ∃ work, pool.work = some work := by
      refine Option.ne_none_iff_exists'.mp fun hnone => ?_
      exact hharmless (.early i worker hworker hreturned
        (Process.phase_creating_iff.mpr ⟨pool, hblock, hnone⟩))
    have hholds := hconsistent.holds pool work hblock hwork
    cases hstage : worker.stage with
    | testing =>
      by_cases hactive : pool.active = 1
      · have hstep : pool_step s (.worker i) = .ok ({ s with
            workers := s.workers.set i { worker with stage := .waiting } }, .silent) := by
          simp [pool_step, hworker, thread_job, hstage, harg, Heap.load_of_some hblock, hactive,
            hwork, initialised]
        exact .silent hstep (.of_some hblock hwork hholds)
      · have hstep : pool_step s (.worker i) = .ok ({ s with
            workers := s.workers.set i { worker with stage := .returned } }, .silent) := by
          simp [pool_step, hworker, thread_job, hstage, harg, Heap.load_of_some hblock, hactive]
        exact .silent hstep (.of_some hblock hwork hholds)
    | waiting =>
      obtain ⟨memory, work', hpop, hholds', -⟩ := queue_pop_holds hholds
      refine ⟨{ s with
        memory, pools := s.pools.set s.pool (some { pool with work := some work' })
        workers := s.workers.set i { worker with stage := .woken (queue_peek work) } },
        .took (queue_peek work), fifo.pop, ?_, ?_, ?_, ?_, by simp⟩
      · simp [pool_step, hworker, thread_job, hstage, harg, Heap.load_of_some hblock, hwork,
          initialised, hpop, Heap.store_of_some hblock]
      · rw [← Fifo.items_pop] at hholds'
        exact .of_some (Heap.set_self ..) rfl hholds'
      · simp [Output.nodes_added]
      · rw [Fifo.gone_pop, queue_peek_eq hholds]
        rfl
    | woken thread_job => exact absurd (.reading i worker hworker thread_job hstage) hharmless
    | returned => exact absurd hstage hreturned

theorem Consistent.step (hconsistent : Consistent fifo s) {event : Event}
    (hharmless : ¬ Harmful s event) : Proceeds fifo s event := by
  cases event with
  | create => exact hconsistent.create
  | add thread_job node_hint data_hint => exact hconsistent.add thread_job node_hint data_hint
  | worker i => exact hconsistent.worker hharmless
  | deactivate => exact hconsistent.deactivate
  | release => exact hconsistent.release

end Steps

end rc_project.thread_pool
