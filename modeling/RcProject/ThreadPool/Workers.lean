import RcProject.ThreadPool.Turns

open rc_project.fifo rc_project.heap rc_project.queue rc_project.transition

namespace rc_project.thread_pool

/-- What a pool is meant to do in a run: no thread follows a null pointer or one to a freed
block, each works on the pool that created it, and what it invokes was added before. The jobs
are taken in the order in which they were added, each at most once, and a worker that was
woken on an empty queue invokes nothing. -/
structure Sound (start : Process) (events : List Event) : Prop where
  runs : ∃ last outputs, run pool_step start events = .ok (last, outputs) ∧
    outputs.flatMap Output.nodes_taken <+: outputs.flatMap Output.nodes_added
  own_pool : ∀ past i rest s worker, events = past ++ .worker i :: rest →
    Reaches pool_step start past s → s.workers[i]? = some worker → worker.stage ≠ .returned →
      worker.arg = some s.pool
  own_jobs : ∀ past i rest s s' job arg, events = past ++ .worker i :: rest →
    Reaches pool_step start past s → pool_step s (.worker i) = .ok (s', .invoked job arg) →
      ∃ thread_job node_hint data_hint, .add thread_job node_hint data_hint ∈ past ∧
        (job, arg) = thread_job.words
  idle : ∀ past i rest s s' worker output, events = past ++ .worker i :: rest →
    Reaches pool_step start past s → s.workers[i]? = some worker → worker.stage = .woken none →
      pool_step s (.worker i) = .ok (s', output) → output = .silent

/-- The function that a worker finds behind the pointer of a queue node is no function of a
job. -/
theorem node_words_ne_words (node : queue_node_t) (thread_job : thread_job_t) :
    node_words node ≠ thread_job.words := by
  intro heq
  have hjob : Word.copy node.data = thread_job.job.elim .null .function := congrArg Prod.fst heq
  cases hfunction : thread_job.job <;> simp [hfunction] at hjob

/-- Nothing happens to the workers, nor to the size of the pool. -/
structure SameWorkers (s s' : Process) : Prop where
  argument : s'.argument = s.argument
  workers : s'.workers = s.workers
  size : ∀ pool', s'.pools.blocks s'.pool = some pool' →
    ∃ pool, s.pools.blocks s.pool = some pool ∧ pool'.size = pool.size

section Workers

variable {s s' : Process} {output : Output}

theorem SameWorkers.refl (s : Process) : SameWorkers s s :=
  ⟨rfl, rfl, fun pool hpool => ⟨pool, hpool, rfl⟩⟩

theorem SameWorkers.of_eq {output' : Output}
    (hstep : (.ok (s, output') : Result (Process × Output)) = .ok (s', output)) :
    SameWorkers s s' := by
  cases hstep
  exact .refl s

theorem SameWorkers.store {pool pool' : thread_pool_t} {pools : Heap thread_pool_t}
    (hblock : s.pools.blocks s.pool = some pool)
    (hstore : s.pools.store (some s.pool) pool' = .ok pools) (hsize : pool'.size = pool.size)
    (memory : Memory thread_job_t) : SameWorkers s { s with memory, pools } := by
  rw [Heap.store_of_some hblock, Except.ok.injEq] at hstore
  refine ⟨rfl, rfl, fun pool'' hpool => ⟨pool, hblock, ?_⟩⟩
  rw [← hstore, Heap.set_self, Option.some.injEq] at hpool
  rw [← hpool, hsize]

/-- An iteration of the loop of `new_thread_pool` creates a worker, up to the size. -/
theorem workers_of_create (hstep : pool_step s .create = .ok (s', output)) :
    SameWorkers s s' ∨ ∃ pool, s.pools.blocks s.pool = some pool ∧
      s.workers.length < pool.size ∧
        s' = { s with workers := s.workers ++ [{ arg := s.argument, stage := .testing }] } := by
  by_cases hphase : s.phase = .creating
  · obtain ⟨pool, hblock, -⟩ := Process.phase_creating_iff.mp hphase
    by_cases hlt : s.workers.length < pool.size
    · simp only [pool_step, hphase, if_true, new_thread_pool_next, Heap.load_of_some hblock,
        Result.ok_bind, hlt, Result.pure_eq_ok, Except.ok.injEq, Prod.mk.injEq] at hstep
      exact Or.inr ⟨pool, hblock, hlt, hstep.1.symm⟩
    · simp only [pool_step, hphase, if_true, new_thread_pool_next, Heap.load_of_some hblock,
        Result.ok_bind, hlt, if_false, Result.bind_eq_ok_iff, Result.pure_eq_ok, Except.ok.injEq,
        Prod.mk.injEq] at hstep
      obtain ⟨pools, hstore, rfl, -⟩ := hstep
      exact Or.inl (.store hblock hstore rfl s.memory)
  · rw [pool_step, if_neg hphase] at hstep
    exact Or.inl (.of_eq hstep)

theorem workers_of_add {job : thread_job_t} {node_hint data_hint : Nat}
    (hstep : pool_step s (.add job node_hint data_hint) = .ok (s', output)) : SameWorkers s s' := by
  by_cases hphase : s.phase = .available
  · obtain ⟨pool, work, hblock, hwork⟩ := Process.phase_available_iff.mp hphase
    simp only [pool_step, hphase, if_true, add_thread_job, Heap.load_of_some hblock, hwork,
      initialised, Result.ok_bind, Result.bind_eq_ok_iff, Result.pure_eq_ok, Except.ok.injEq,
      Prod.mk.injEq] at hstep
    obtain ⟨pushed, -, pools, hstore, rfl, -⟩ := hstep
    exact .store hblock hstore rfl pushed.1
  · rw [pool_step, if_neg hphase] at hstep
    exact .of_eq hstep

theorem workers_of_deactivate (hstep : pool_step s .deactivate = .ok (s', output)) :
    SameWorkers s s' := by
  by_cases hphase : s.phase = .available
  · obtain ⟨pool, work, hblock, hwork⟩ := Process.phase_available_iff.mp hphase
    simp only [pool_step, hphase, if_true, remove_thread_pool, Heap.load_of_some hblock,
      Result.ok_bind, Result.bind_eq_ok_iff, Result.pure_eq_ok, Except.ok.injEq,
      Prod.mk.injEq] at hstep
    obtain ⟨pools, hstore, rfl, -⟩ := hstep
    exact .store hblock hstore rfl s.memory
  · rw [pool_step, if_neg hphase] at hstep
    exact .of_eq hstep

theorem workers_of_release (hstep : pool_step s .release = .ok (s', output)) :
    SameWorkers s s' := by
  by_cases hready : s.phase = .available ∧ s.joined
  · obtain ⟨pool, work, hblock, hwork⟩ := Process.phase_available_iff.mp hready.1
    simp only [pool_step, if_pos hready, remove_thread_pool_end, Heap.load_of_some hblock, hwork,
      initialised, Heap.free_of_some hblock, Result.ok_bind, Result.bind_eq_ok_iff,
      Result.pure_eq_ok, Except.ok.injEq, Prod.mk.injEq] at hstep
    obtain ⟨memory, -, rfl, -⟩ := hstep
    refine ⟨rfl, rfl, fun pool' hpool => ?_⟩
    cases (Heap.set_self ..).symm.trans hpool
  · rw [pool_step, if_neg hready] at hstep
    exact .of_eq hstep

/-- Where the worker of an event does not exist, the event creates at most one. -/
theorem workers_of_step {event : Event} (hstep : pool_step s event = .ok (s', output))
    (hno : ∀ i, event = .worker i → s.workers[i]? = none) :
    SameWorkers s s' ∨ ∃ pool, s.pools.blocks s.pool = some pool ∧
      s.workers.length < pool.size ∧
        s' = { s with workers := s.workers ++ [{ arg := s.argument, stage := .testing }] } := by
  cases event with
  | create => exact workers_of_create hstep
  | add thread_job node_hint data_hint => exact Or.inl (workers_of_add hstep)
  | worker i =>
    simp only [pool_step, hno i rfl] at hstep
    exact Or.inl (.of_eq hstep)
  | deactivate => exact Or.inl (workers_of_deactivate hstep)
  | release => exact Or.inl (workers_of_release hstep)

end Workers

section Runs

variable {fifo : Fifo Nat} {start s : Process} {events past rest : List Event} {event : Event}

theorem Sound.step_ok (hsound : Sound start events) (heq : events = past ++ event :: rest)
    (hreach : Reaches pool_step start past s) : ∃ s' output, pool_step s event = .ok (s', output) := by
  obtain ⟨last, outputs, hrun, -⟩ := hsound.runs
  cases hstep : pool_step s event with
  | ok result => exact ⟨result.1, result.2, rfl⟩
  | error e =>
    have hfails : run pool_step start events = .error e :=
      run_eq_error_iff.mpr ⟨past, event, rest, s, heq, hreach, hstep⟩
    cases hrun.symm.trans hfails

/-- In a sound run no worker comes to read a job: its pointer is null, or leads to a block
that is free, or to one that holds a node again. -/
theorem Sound.not_reading (hsound : Sound start events) {i : Nat} {worker : Worker}
    (heq : events = past ++ .worker i :: rest) (hreach : Reaches pool_step start past s)
    (hworker : s.workers[i]? = some worker) {pointer : Option Nat} :
    worker.stage ≠ .woken pointer := by
  intro hstage
  obtain ⟨s', output, hstep⟩ := hsound.step_ok heq hreach
  have hturn := hstep
  simp only [pool_step, hworker, thread_job, hstage] at hturn
  cases pointer with
  | none => simp at hturn
  | some address =>
    cases hblock : s.memory.nodes.blocks address with
    | none => simp [Heap.load_of_none hblock] at hturn
    | some node =>
      have houtput : .invoked (node_words node).1 (node_words node).2 = output := by
        simp only [Heap.load_of_some hblock, Result.ok_bind, Result.pure_eq_ok, Except.ok.injEq,
          Prod.mk.injEq] at hturn
        simpa [node_words] using hturn.2
      rw [← houtput] at hstep
      obtain ⟨job, -, -, -, hwords⟩ := hsound.own_jobs past i rest s s' _ _ heq hreach hstep
      exact node_words_ne_words node job hwords

theorem Sound.not_harmful (hsound : Sound start events) (heq : events = past ++ event :: rest)
    (hreach : Reaches pool_step start past s) (hconsistent : Consistent fifo s) :
    ¬ Harmful s event := by
  intro hharmful
  cases hharmful with
  | foreign i worker hworker hstage harg =>
    exact harg (hsound.own_pool past i rest s worker heq hreach hworker hstage)
  | early i worker hworker hstage hphase =>
    have harg := hsound.own_pool past i rest s worker heq hreach hworker hstage
    obtain ⟨pool, hblock, hwork⟩ := Process.phase_creating_iff.mp hphase
    obtain ⟨hactive, -⟩ := hconsistent.creating pool hblock hwork
    obtain ⟨s', output, hstep⟩ := hsound.step_ok heq hreach
    cases hcase : worker.stage with
    | testing =>
      simp [pool_step, hworker, thread_job, hcase, harg, Heap.load_of_some hblock,
        hactive, hwork, initialised] at hstep
    | waiting =>
      simp [pool_step, hworker, thread_job, hcase, harg, Heap.load_of_some hblock,
        hwork, initialised] at hstep
    | woken thread_job => exact hsound.not_reading heq hreach hworker hcase
    | returned => exact hstage hcase
  | reading i worker hworker thread_job hstage =>
    exact hsound.not_reading heq hreach hworker hstage

theorem Sound.consistent (hsound : Sound start events) (hstart : Consistent .empty start)
    (heq : events = past ++ rest) (hreach : Reaches pool_step start past s) :
    ∃ fifo, Consistent fifo s := by
  induction past using List.reverseRecOn generalizing s rest with
  | nil =>
    rw [reaches_nil_iff.mp hreach]
    exact ⟨.empty, hstart⟩
  | append_singleton past event ih =>
    rw [List.append_assoc] at heq
    obtain ⟨s₀, output, hreach₀, hstep⟩ := reaches_snoc_iff.mp hreach
    obtain ⟨fifo, hconsistent⟩ := ih heq hreach₀
    obtain ⟨s', output', fifo', hstep', hconsistent', -⟩ :=
      hconsistent.step (hsound.not_harmful heq hreach₀ hconsistent)
    rw [hstep, Except.ok.injEq, Prod.mk.injEq] at hstep'
    exact ⟨fifo', hstep'.1 ▸ hconsistent'⟩

/-- As long as no event of a run is harmful, the jobs that workers take are the first ones
that were added. -/
theorem run_consistent (hstart : Consistent .empty start)
    (hharmless : ∀ past event rest s, events = past ++ event :: rest →
      Reaches pool_step start past s → ¬ Harmful s event)
    (heq : events = past ++ rest) {outputs : List Output}
    (hrun : run pool_step start past = .ok (s, outputs)) :
    ∃ fifo, Consistent fifo s ∧ fifo.entered = outputs.flatMap Output.nodes_added ∧
      fifo.gone = outputs.flatMap Output.nodes_taken := by
  refine run_history_when (fun _ outputs s => ∃ fifo, Consistent fifo s ∧
    fifo.entered = outputs.flatMap Output.nodes_added ∧
    fifo.gone = outputs.flatMap Output.nodes_taken) (fun s event => ¬ Harmful s event)
    hharmless ⟨.empty, hstart, rfl, rfl⟩ ?_ heq hrun
  rintro past before s event s' output - ⟨fifo, hconsistent, hentered, hgone⟩ hmeets hstep
  obtain ⟨s'', output', fifo', hstep', hconsistent', hentered', hgone', -⟩ :=
    hconsistent.step hmeets
  rw [hstep, Except.ok.injEq, Prod.mk.injEq] at hstep'
  obtain ⟨rfl, rfl⟩ := hstep'
  refine ⟨fifo', hconsistent', ?_, ?_⟩
  · rw [hentered', hentered, List.flatMap_append, List.flatMap_singleton]
  · rw [hgone', hgone, List.flatMap_append, List.flatMap_singleton]

/-- Whatever the threads are started with, a run is sound exactly if it has no harmful turn of
a worker. In particular no worker ever gets as far as to run a job. -/
theorem sound_iff (hstart : Consistent .empty start) :
    Sound start events ↔ ∀ past event rest s, events = past ++ event :: rest →
      Reaches pool_step start past s → ¬ Harmful s event := by
  constructor
  · intro hsound past event rest s heq hreach
    obtain ⟨fifo, hconsistent⟩ := hsound.consistent hstart heq hreach
    exact hsound.not_harmful heq hreach hconsistent
  · intro hharmless
    have hproceeds {past : List Event} {event : Event} {rest : List Event} {s : Process}
        (heq : events = past ++ event :: rest) (hreach : Reaches pool_step start past s) :
        ∃ s' output, pool_step s event = .ok (s', output) ∧ ∀ job arg, output ≠ .invoked job arg := by
      obtain ⟨outputs, hrun⟩ := hreach
      obtain ⟨fifo, hconsistent, -⟩ := run_consistent hstart hharmless heq hrun
      obtain ⟨s', output, -, hstep, -, -, -, hsilent⟩ :=
        hconsistent.step (hharmless past event rest s heq ⟨outputs, hrun⟩)
      exact ⟨s', output, hstep, hsilent⟩
    constructor
    · cases hrun : run pool_step start events with
      | error e =>
        obtain ⟨past, event, rest, s, heq, hreach, hfails⟩ := run_eq_error_iff.mp hrun
        obtain ⟨s', output, hstep, -⟩ := hproceeds heq hreach
        cases hfails.symm.trans hstep
      | ok result =>
        obtain ⟨fifo, -, hentered, hgone⟩ :=
          run_consistent hstart hharmless (List.append_nil events).symm hrun
        refine ⟨result.1, result.2, rfl, ?_⟩
        rw [← hentered, ← hgone]
        exact List.take_prefix fifo.left fifo.entered
    · intro past i rest s worker heq hreach hworker hstage
      by_contra harg
      exact hharmless past _ rest s heq hreach (.foreign i worker hworker hstage harg)
    · intro past i rest s s' job arg heq hreach hstep
      obtain ⟨s'', output, hstep', hsilent⟩ := hproceeds heq hreach
      rw [hstep, Except.ok.injEq, Prod.mk.injEq] at hstep'
      exact absurd hstep'.2.symm (hsilent job arg)
    · intro past i rest s s' worker output heq hreach hworker hstage _
      exact absurd (.reading i worker hworker none hstage) (hharmless past _ rest s heq hreach)

end Runs

section NullArgument

variable {memory : Memory thread_job_t} {pools : Heap thread_pool_t} {hint size : Nat}
  {s s' : Process} {event : Event} {output : Output}

/-- The threads of a pool of which none had a turn yet: all were started with `NULL`. -/
structure NotRun (size : Nat) (s : Process) : Prop where
  argument : s.argument = none
  workers : ∀ worker ∈ s.workers, worker.arg = none ∧ worker.stage = .testing
  length_le : s.workers.length ≤ size
  size_eq : ∀ pool, s.pools.blocks s.pool = some pool → pool.size = size

theorem new_thread_pool_notRun (memory : Memory thread_job_t) (pools : Heap thread_pool_t)
    (hint size : Nat) : NotRun size (new_thread_pool memory pools hint size) where
  argument := rfl
  workers _ hmem := by cases hmem
  length_le := Nat.zero_le size
  size_eq pool hpool := by
    rw [new_thread_pool_block, Option.some.injEq] at hpool
    rw [← hpool]

theorem NotRun.step (hnotRun : NotRun size s) (hstep : pool_step s event = .ok (s', output))
    (hno : ∀ i, event = .worker i → s.workers[i]? = none) : NotRun size s' := by
  obtain hsame | ⟨pool, hblock, hlt, rfl⟩ := workers_of_step hstep hno
  · constructor
    · rw [hsame.argument, hnotRun.argument]
    · rw [hsame.workers]
      exact hnotRun.workers
    · rw [hsame.workers]
      exact hnotRun.length_le
    · intro pool' hpool
      obtain ⟨pool, hblock, hsize⟩ := hsame.size pool' hpool
      rw [hsize, hnotRun.size_eq pool hblock]
  · refine ⟨hnotRun.argument, ?_, ?_, hnotRun.size_eq⟩
    · intro worker hmem
      obtain hmem | hmem := List.mem_append.mp hmem
      · exact hnotRun.workers worker hmem
      · rw [List.mem_singleton.mp hmem]
        exact ⟨hnotRun.argument, rfl⟩
    · rw [hnotRun.size_eq pool hblock] at hlt
      rw [List.length_append, List.length_singleton]
      omega

/-- The first turn of a thread that was started with `NULL` is harmful. -/
theorem NotRun.harmful_iff (hnotRun : NotRun size s) :
    Harmful s event ↔ ∃ i worker, event = .worker i ∧ s.workers[i]? = some worker := by
  refine ⟨Harmful.exists_worker, fun hturn => ?_⟩
  obtain ⟨i, worker, rfl, hworker⟩ := hturn
  obtain ⟨harg, hstage⟩ := hnotRun.workers worker (List.mem_of_getElem? hworker)
  exact .foreign i worker hworker (by simp [hstage]) (by simp [harg])

/-- No thread gets a turn in a sound run. -/
theorem sound_iff_of_notRun {start : Process} {events : List Event}
    (hstart : Consistent .empty start) (hnotRun : NotRun size start) :
    Sound start events ↔ ∀ past i rest s, events = past ++ .worker i :: rest →
      Reaches pool_step start past s → s.workers[i]? = none := by
  rw [sound_iff hstart]
  constructor
  · intro hharmless past i rest s heq hreach
    have hnotRun' : NotRun size s := by
      refine hreach.history_when (fun _ => NotRun size) (fun s event => ¬ Harmful s event) hharmless
        hnotRun ?_ heq
      intro past s event s' output _ hnotRun hmeets hstep
      refine hnotRun.step hstep fun i hevent => ?_
      by_contra hsome
      obtain ⟨worker, hworker⟩ := Option.ne_none_iff_exists'.mp hsome
      exact hmeets (hnotRun.harmful_iff.mpr ⟨i, worker, hevent, hworker⟩)
    by_contra hsome
    obtain ⟨worker, hworker⟩ := Option.ne_none_iff_exists'.mp hsome
    exact hharmless past _ rest s heq hreach (hnotRun'.harmful_iff.mpr ⟨i, worker, rfl, hworker⟩)
  · intro hnone past event rest s heq hreach hharmful
    obtain ⟨i, worker, rfl, hworker⟩ := hharmful.exists_worker
    cases (hnone past i rest s heq hreach).symm.trans hworker

/-- Of a pool of size zero no thread ever gets a turn. -/
theorem workers_of_size_zero {start : Process} {events : List Event} (hnotRun : NotRun 0 start)
    (hreach : Reaches pool_step start events s) : s.workers = [] := by
  have hnotRun' : NotRun 0 s := by
    refine hreach.invariant (NotRun 0) hnotRun fun s event s' output hnotRun hstep => ?_
    refine hnotRun.step hstep fun i _ => ?_
    rw [List.length_eq_zero_iff.mp (Nat.le_zero.mp hnotRun.length_le)]
    rfl
  exact List.length_eq_zero_iff.mp (Nat.le_zero.mp hnotRun'.length_le)

/-- The threads of a pool are started with a null pointer in place of the pool. So a run of it
is sound exactly if no thread gets a turn in it, and all runs are exactly if the pool has no
threads. -/
theorem thread_pool_sound_iff (memory : Memory thread_job_t) (pools : Heap thread_pool_t)
    (hint size : Nat) :
    (∀ events, Sound (new_thread_pool memory pools hint size) events ↔
      ∀ past i rest s, events = past ++ .worker i :: rest →
        Reaches pool_step (new_thread_pool memory pools hint size) past s →
          s.workers[i]? = none) ∧
      ((∀ events, Sound (new_thread_pool memory pools hint size) events) ↔ size = 0) := by
  have hstart := new_thread_pool_consistent memory pools hint size
  have hnotRun := new_thread_pool_notRun memory pools hint size
  refine ⟨fun events => sound_iff_of_notRun hstart hnotRun, ?_, ?_⟩
  · intro hsound
    by_contra hsize
    have hblock := new_thread_pool_block memory pools hint size
    have hphase := Process.phase_creating_iff.mpr ⟨_, hblock, rfl⟩
    have hlt : (new_thread_pool memory pools hint size).workers.length < size :=
      Nat.pos_of_ne_zero hsize
    have hcreate : pool_step (new_thread_pool memory pools hint size) .create =
        .ok ({ new_thread_pool memory pools hint size with
          workers := [{ arg := none, stage := .testing }] }, .silent) := by
      rw [pool_step, if_pos hphase, new_thread_pool_next, Heap.load_of_some hblock, Result.ok_bind,
        if_pos hlt]
      rfl
    have hreach := (Reaches.refl pool_step (new_thread_pool memory pools hint size)).snoc hcreate
    have hnone := (sound_iff_of_notRun hstart hnotRun).mp
      (hsound [.create, .worker 0]) [.create] 0 [] _ rfl hreach
    cases hnone
  · rintro rfl events
    rw [sound_iff_of_notRun hstart hnotRun]
    intro past i rest s _ hreach
    rw [workers_of_size_zero hnotRun hreach]
    rfl

/-- The only thread of a pool of size one reads `active` through the null pointer. -/
theorem first_turn_crashes :
    run pool_step (new_thread_pool { nodes := .empty, payloads := .empty } .empty 0 1)
        [.create, .worker 0] = .error .null_dereference ∧
      ¬ Sound (new_thread_pool { nodes := .empty, payloads := .empty } .empty 0 1)
        [.create, .worker 0] := by
  have hcrash : run pool_step (new_thread_pool { nodes := .empty, payloads := .empty } .empty 0 1)
      [.create, .worker 0] = .error .null_dereference := rfl
  refine ⟨hcrash, fun hsound => ?_⟩
  obtain ⟨last, outputs, hrun, -⟩ := hsound.runs
  cases hcrash.symm.trans hrun

end NullArgument

end rc_project.thread_pool
