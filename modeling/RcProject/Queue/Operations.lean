import RcProject.Queue.Defs
import RcProject.Library.ListSegment

open rc_project.heap rc_project.list_segment

namespace rc_project.queue

variable {δ : Type} {m : Memory δ} {queue : queue_t} {items : List Nat}

/-- The blocks that are passed from the start on are these nodes, and the two other fields
of the header agree with them. -/
structure Holds (m : Memory δ) (queue : queue_t) (items : List Nat) : Prop where
  segment : Segment queue_node_t.next m.nodes queue.start items none
  size_eq : queue.size = items.length
  end_eq : queue.end_node = items.getLast?

theorem new_queue_holds (m : Memory δ) : Holds m new_queue [] where
  segment := rfl
  size_eq := rfl
  end_eq := rfl

/-- The end is null exactly if the start is. -/
theorem Holds.end_none_iff (hholds : Holds m queue items) :
    queue.end_node = none ↔ queue.start = none := by
  rw [hholds.end_eq, hholds.segment.first_eq, List.getLast?_eq_none_iff, List.head?_eq_none_iff]

theorem queue_peek_eq (hholds : Holds m queue items) : queue_peek queue = items.head? :=
  hholds.segment.first_eq

/-- The nodes depend on no other block. -/
theorem Holds.frame {m' : Memory δ} (hholds : Holds m queue items)
    (hsame : ∀ address ∈ items, m'.nodes.blocks address = m.nodes.blocks address) :
    Holds m' queue items where
  segment := hholds.segment.frame hsame
  size_eq := hholds.size_eq
  end_eq := hholds.end_eq

/-- A block that holds a node, whose data pointer leads to the data. -/
def Carries (m : Memory δ) (address : Nat) (data : δ) : Prop :=
  ∃ copy, (m.nodes.blocks address).map queue_node_t.data = some copy ∧
    m.payloads.blocks copy = some data

theorem Carries.congr {m' : Memory δ} {address : Nat} {data : δ} (hcarries : Carries m address data)
    (hnode : (m'.nodes.blocks address).map queue_node_t.data =
      (m.nodes.blocks address).map queue_node_t.data)
    (hpayloads : ∀ copy, m.payloads.blocks copy ≠ none →
      m'.payloads.blocks copy = m.payloads.blocks copy) : Carries m' address data := by
  obtain ⟨copy, hcopy, hdata⟩ := hcarries
  refine ⟨copy, hnode.trans hcopy, ?_⟩
  rw [hpayloads copy (by rw [hdata]; exact Option.some_ne_none data), hdata]

/-- A new node takes two blocks that are not allocated, and touches no other one. -/
theorem new_queue_node_spec (m : Memory δ) (data : δ) (node_hint data_hint : Nat) :
    ∃ m' address copy, new_queue_node m data node_hint data_hint = (m', address) ∧
      m.nodes.blocks address = none ∧ m.payloads.blocks copy = none ∧
      m'.nodes = m.nodes.set address (some { data := copy, next := none }) ∧
      m'.payloads = m.payloads.set copy (some data) :=
  ⟨_, _, _, rfl, m.nodes.pick_fresh node_hint, m.payloads.pick_fresh data_hint, rfl, rfl⟩

/-- A push appends the node. Of the nodes that are there, only the last one is written to,
and that in its pointer to the next one. -/
theorem queue_push_holds (hholds : Holds m queue items) {address : Nat} {node : queue_node_t}
    (hblock : m.nodes.blocks address = some node) (hnext : node.next = none)
    (hfresh : address ∉ items) :
    ∃ m' queue', queue_push m queue address = .ok (m', queue') ∧
      Holds m' queue' (items ++ [address]) ∧ m'.payloads = m.payloads ∧
      (∀ other, (m'.nodes.blocks other).map queue_node_t.data =
        (m.nodes.blocks other).map queue_node_t.data) ∧
      ∀ other, other ∉ items → m'.nodes.blocks other = m.nodes.blocks other := by
  obtain ⟨hsegment, hsize, hend⟩ := hholds
  obtain rfl | ⟨front, last, rfl⟩ := List.eq_nil_or_concat items
  · have hnone : queue.end_node = none := hend
    refine ⟨m, { size := queue.size + 1, start := some address, end_node := some address },
      by simp [queue_push, hnone], ⟨?_, ?_, rfl⟩, rfl, fun _ => rfl, fun _ _ => rfl⟩
    · exact ⟨rfl, node, hblock, hnext⟩
    · rw [hsize]
      rfl
  · rw [List.concat_eq_append] at *
    have hsome : queue.end_node = some last := by rw [hend, List.getLast?_concat]
    obtain ⟨node', hlast⟩ := Option.ne_none_iff_exists'.mp
      (hsegment.live (List.mem_append_right front (List.mem_singleton_self last)))
    refine ⟨{ m with nodes := m.nodes.set last (some { node' with next := some address }) },
      { queue with end_node := some address, size := queue.size + 1 }, ?_, ⟨?_, ?_, ?_⟩, rfl, ?_, ?_⟩
    · simp [queue_push, hsome, Heap.load_of_some hlast, Heap.store_of_some hlast]
    · exact hsegment.link rfl hblock hnext hfresh
    · simp [hsize]
    · rw [List.getLast?_concat]
    · intro other
      by_cases hother : other = last
      · simp [hother, hlast]
      · simp [Heap.set_of_ne _ hother]
    · intro other hother
      refine Heap.set_of_ne _ ?_ _
      rintro rfl
      exact hother (by simp)

/-- A pop frees the first node and leaves all other blocks as they are. -/
theorem queue_pop_holds (hholds : Holds m queue items) :
    ∃ m' queue', queue_pop m queue = .ok (m', queue') ∧ Holds m' queue' items.tail ∧
      m'.payloads = m.payloads ∧
      (∀ address, m'.nodes.blocks address =
        if items.head? = some address then none else m.nodes.blocks address) ∧
      (items = [] → m' = m ∧ queue' = queue) := by
  cases items with
  | nil =>
    have hstart : queue.start = none := hholds.segment
    exact ⟨m, queue, by simp [queue_pop, hstart], hholds, rfl, fun _ => rfl, fun _ => ⟨rfl, rfl⟩⟩
  | cons first rest =>
    obtain ⟨hsegment, hsize, hend⟩ := hholds
    have hnot := (List.nodup_cons.mp hsegment.nodup).1
    obtain ⟨hstart, node, hblock, hrest⟩ := hsegment
    refine ⟨{ m with nodes := m.nodes.set first none },
      { size := queue.size - 1, start := node.next,
        end_node := if node.next = none then none else queue.end_node }, ?_, ⟨?_, ?_, ?_⟩, rfl, ?_,
      fun hnil => by cases hnil⟩
    · simp only [queue_pop, hstart, reduceCtorEq, if_false, Heap.load_of_some hblock,
        Heap.free_of_some hblock, Result.ok_bind, Result.pure_eq_ok]
      split <;> rfl
    · exact hrest.set hnot none
    · simp [hsize]
    · simp only [hrest.first_eq, hend]
      cases rest <;> simp
    · intro address
      by_cases haddress : address = first
      · simp [haddress]
      · rw [if_neg (by simpa using Ne.symm haddress)]
        exact Heap.set_of_ne _ haddress none

end rc_project.queue
