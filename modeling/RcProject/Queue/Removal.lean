import RcProject.Queue.Calls

open rc_project.heap rc_project.list_segment rc_project.transition

namespace rc_project.queue

variable {δ : Type}

/-- Every iteration of the loop takes one node away and brings the index one closer to the
size, so that the loop ends half way. -/
theorem remove_queue_loop_holds {fuel i : Nat} {m : Memory δ} {queue : queue_t} {items : List Nat}
    (hholds : Holds m queue items) (hfuel : items.length - i ≤ fuel) :
    ∃ m' queue', remove_queue_loop fuel i m queue = .ok (m', queue') ∧
      Holds m' queue' (items.drop ((items.length - i + 1) / 2)) := by
  induction fuel generalizing i m queue items with
  | zero =>
    have hstop : ¬ i < queue.size := by
      rw [hholds.size_eq]
      omega
    have hnone : (items.length - i + 1) / 2 = 0 := by omega
    refine ⟨m, queue, by simp [remove_queue_loop, hstop], ?_⟩
    rwa [hnone]
  | succ fuel ih =>
    by_cases hlt : i < queue.size
    · obtain ⟨m₁, queue₁, hpop, hholds₁, -⟩ := queue_pop_holds hholds
      rw [hholds.size_eq] at hlt
      have hlength : items.tail.length = items.length - 1 := List.length_tail
      have hone : (items.length - i + 1) / 2 = (items.length - 1 - (i + 1) + 1) / 2 + 1 := by omega
      obtain ⟨m', queue', hloop, hholds'⟩ := ih (i := i + 1) hholds₁ (by omega)
      refine ⟨m', queue', by simp [remove_queue_loop, hholds.size_eq, hlt, hpop, hloop], ?_⟩
      rw [hlength, List.drop_tail] at hholds'
      rwa [hone]
    · refine ⟨m, queue, by simp [remove_queue_loop, hlt], ?_⟩
      rw [hholds.size_eq] at hlt
      have hnone : (items.length - i + 1) / 2 = 0 := by omega
      rwa [hnone]

/-- The loop of `remove_queue` ends on every queue, with the second half of its nodes still
linked to the header and allocated. -/
theorem remove_queue_holds {m : Memory δ} {queue : queue_t} {items : List Nat}
    (hholds : Holds m queue items) :
    ∃ m' queue', remove_queue_loop queue.size 0 m queue = .ok (m', queue') ∧
      remove_queue m queue = .ok m' ∧ Holds m' queue' (items.drop ((items.length + 1) / 2)) := by
  obtain ⟨m', queue', hloop, hholds'⟩ :=
    remove_queue_loop_holds (i := 0) hholds (Nat.le_of_eq hholds.size_eq.symm)
  exact ⟨m', queue', hloop, by simp [remove_queue, hloop], hholds'⟩

/-- For every queue that calls lead to, the loop of `remove_queue` ends, and it leaves the
start null and the size zero exactly if the queue held at most one node. Else the second half
of the nodes stays linked and allocated. -/
theorem remove_queue_empties_iff (m : Memory δ) (calls : List (Call δ)) :
    ∃ s replies nodes m' queue', run call (start m) calls = .ok (s, replies) ∧
      Segment queue_node_t.next s.memory.nodes s.header.start nodes none ∧
      remove_queue_loop s.header.size 0 s.memory s.header = .ok (m', queue') ∧
      ((queue'.start = none ∧ queue'.size = 0) ↔ nodes.length ≤ 1) ∧
      remove_queue s.memory s.header = .ok m' ∧
      queue'.size = nodes.length / 2 ∧
      Segment queue_node_t.next m'.nodes queue'.start (nodes.drop ((nodes.length + 1) / 2)) none ∧
      ∀ address ∈ nodes.drop ((nodes.length + 1) / 2), m'.nodes.blocks address ≠ none := by
  obtain ⟨s, replies, hrun, hrefines, -⟩ := run_refines m calls
  have hholds := hrefines.holds
  obtain ⟨m', queue', hloop, hremove, hholds'⟩ := remove_queue_holds hholds
  have hsize : queue'.size = (replay calls replies).nodes.length / 2 := by
    rw [hholds'.size_eq, List.length_drop]
    omega
  refine ⟨s, replies, _, m', queue', hrun, hholds.segment, hloop, ?_, hremove, hsize,
    hholds'.segment, fun _ => hholds'.segment.live⟩
  constructor
  · rintro ⟨-, hzero⟩
    omega
  · intro hle
    have hzero : queue'.size = 0 := by omega
    refine ⟨?_, hzero⟩
    rw [hholds'.size_eq, List.length_eq_zero_iff] at hzero
    rw [hholds'.segment.first_eq, hzero]
    rfl

/-- Two nodes that were pushed behind each other. -/
def pushed_twice : List (Call Nat) :=
  [.new_queue_node 7 0 0, .queue_push 0, .new_queue_node 8 1 1, .queue_push 1]

/-- The loop takes one of them away and leaves the other one. -/
theorem remove_queue_leaves :
    ∃ s replies m' queue', run call (start { nodes := .empty, payloads := .empty }) pushed_twice =
        .ok (s, replies) ∧
      remove_queue_loop s.header.size 0 s.memory s.header = .ok (m', queue') ∧
      queue'.start = some 1 ∧ queue'.size = 1 := by
  obtain ⟨s, replies, hrun, hrefines, -⟩ :=
    run_refines { nodes := .empty, payloads := .empty } pushed_twice
  obtain ⟨m', queue', hloop, -⟩ := remove_queue_holds hrefines.holds
  have hleft : ((run call (start { nodes := .empty, payloads := .empty }) pushed_twice).bind
      fun result => remove_queue_loop result.1.header.size 0 result.1.memory result.1.header).map
      (fun result => result.2) = .ok { size := 1, start := some 1, end_node := some 1 } := by decide
  rw [hrun] at hleft
  have hqueue : queue' = { size := 1, start := some 1, end_node := some 1 } := by
    simpa [Except.bind, hloop, Except.map] using hleft
  exact ⟨s, replies, m', queue', hrun, hloop, by rw [hqueue], by rw [hqueue]⟩

end rc_project.queue
