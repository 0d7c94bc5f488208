import RcProject.Queue.Operations
import RcProject.Library.Fifo
import RcProject.Library.Ledger
import RcProject.Library.Transition

open rc_project.fifo rc_project.heap rc_project.ledger rc_project.list_segment
open rc_project.transition

namespace rc_project.queue

variable {δ : Type}

/-- A program that uses a queue: its memory, the header, and the nodes that it has created
and not pushed yet. -/
structure State (δ : Type) where
  memory : Memory δ
  header : queue_t
  held : Finset Nat

inductive Call (δ : Type)
  | new_queue_node (data : δ) (node_hint data_hint : Nat)
  | queue_push (node : Nat)
  | queue_pop
  | queue_peek
  deriving DecidableEq, Repr

/-- What a call hands back, and the node that it links in or frees. -/
inductive Reply
  | node (address : Nat)
  | pushed (address : Nat)
  | popped (address : Option Nat)
  | pointer (address : Option Nat)
  | nothing
  deriving DecidableEq, Repr

def Reply.nodes_pushed : Reply → List Nat
  | .pushed address => [address]
  | _ => []

def Reply.nodes_popped : Reply → List Nat
  | .popped address => address.toList
  | _ => []

/-- A node is pushed only if the program holds it, that is, if it comes fresh from
`new_queue_node`. -/
def call : Machine (State δ) (Call δ) Reply
  | s, .new_queue_node data node_hint data_hint =>
    let (memory, address) := new_queue_node s.memory data node_hint data_hint
    return ({ s with memory, held := insert address s.held }, .node address)
  | s, .queue_push node => do
    if node ∈ s.held then
      let (memory, header) ← queue_push s.memory s.header node
      return ({ memory, header, held := s.held.erase node }, .pushed node)
    else
      return (s, .nothing)
  | s, .queue_pop => do
    let (memory, header) ← queue_pop s.memory s.header
    return ({ s with memory, header }, .popped s.header.start)
  | s, .queue_peek => return (s, .pointer (queue_peek s.header))

def start (m : Memory δ) : State δ :=
  { memory := m, header := new_queue, held := ∅ }

/-- What the queue is meant to be: a FIFO list of nodes with their data, beside the nodes
that are not pushed yet. -/
structure Abstract (δ : Type) where
  held : Nat → Option δ
  fifo : Fifo (Nat × δ)

/-- What a call does to the FIFO list, given the node that `malloc` picked. -/
def Abstract.after (a : Abstract δ) : Call δ → Reply → Abstract δ
  | .new_queue_node data _ _, .node address =>
    { a with held := Function.update a.held address (some data) }
  | .queue_push node, _ =>
    match a.held node with
    | none => a
    | some data =>
      { held := Function.update a.held node none, fifo := a.fifo.push (node, data) }
  | .queue_pop, _ => { a with fifo := a.fifo.pop }
  | _, _ => a

def replay (calls : List (Call δ)) (replies : List Reply) : Abstract δ :=
  (calls.zip replies).foldl (fun a event => a.after event.1 event.2)
    { held := fun _ => none, fifo := .empty }

theorem replay_snoc {calls : List (Call δ)} {replies : List Reply}
    (hlength : calls.length = replies.length) (input : Call δ) (reply : Reply) :
    replay (calls ++ [input]) (replies ++ [reply]) = (replay calls replies).after input reply := by
  simp [replay, List.zip_append hlength]

/-- The nodes of the list from the oldest on. -/
def Abstract.nodes (a : Abstract δ) : List Nat := a.fifo.items.map Prod.fst

/-- The memory and the header are those of a FIFO list, for a program that started in the
memory `m`. Every node that was allocated since then is in one place: in hand, or reachable
from the start. -/
structure Refines (m : Memory δ) (s : State δ) (a : Abstract δ) : Prop where
  holds : Holds s.memory s.header a.nodes
  carries : ∀ item ∈ a.fifo.items, Carries s.memory item.1 item.2
  held_iff : ∀ address, address ∈ s.held ↔ a.held address ≠ none
  held_node : ∀ address data, a.held address = some data → ∃ copy,
    s.memory.nodes.blocks address = some { data := copy, next := none } ∧
      s.memory.payloads.blocks copy = some data
  ledger : Ledger m.nodes s.memory.nodes s.held a.nodes

theorem start_refines (m : Memory δ) : Refines m (start m) (replay [] []) where
  holds := new_queue_holds m
  carries _ hitem := by cases hitem
  held_iff address := by simp [start, replay]
  held_node _ _ hheld := by cases hheld
  ledger := .refl m.nodes

section Steps

variable {m : Memory δ} {s : State δ} {a : Abstract δ}

theorem Refines.new_queue_node (hrefines : Refines m s a) (data : δ) (node_hint data_hint : Nat) :
    ∃ s' reply, call s (.new_queue_node data node_hint data_hint) = .ok (s', reply) ∧
      Refines m s' (a.after (.new_queue_node data node_hint data_hint) reply) := by
  obtain ⟨memory, address, copy, hnew, hfree, hcopy, hnodes, hpayloads⟩ :=
    new_queue_node_spec s.memory data node_hint data_hint
  refine ⟨{ s with memory, held := insert address s.held }, .node address,
    by simp [call, hnew], ?_⟩
  obtain ⟨-, -, hitems⟩ := hrefines.ledger.free hfree
  have hother {other : Nat} (hne : other ≠ address) :
      memory.nodes.blocks other = s.memory.nodes.blocks other := by
    rw [hnodes, Heap.set_of_ne _ hne]
  have hstored {other : Nat} (hlive : s.memory.payloads.blocks other ≠ none) :
      memory.payloads.blocks other = s.memory.payloads.blocks other := by
    rw [hpayloads, Heap.set_of_ne]
    rintro rfl
    exact hlive hcopy
  constructor
  · refine hrefines.holds.frame fun other hmem => hother ?_
    exact ne_of_mem_of_not_mem hmem hitems
  · intro item hitem
    refine (hrefines.carries item hitem).congr ?_ fun _ hlive => hstored hlive
    rw [hother (ne_of_mem_of_not_mem (List.mem_map_of_mem hitem) hitems)]
  · intro other
    by_cases hne : other = address
    · simp [Abstract.after, hne]
    · simp [Abstract.after, hne, hrefines.held_iff other]
  · intro other stored hsome
    by_cases hne : other = address
    · subst hne
      obtain rfl : data = stored := by simpa [Abstract.after] using hsome
      exact ⟨copy, by rw [hnodes, Heap.set_self], by rw [hpayloads, Heap.set_self]⟩
    · have hsome : a.held other = some stored := by simpa [Abstract.after, hne] using hsome
      obtain ⟨copy', hnode, hdata⟩ := hrefines.held_node other stored hsome
      exact ⟨copy', (hother hne).trans hnode,
        (hstored (by rw [hdata]; exact Option.some_ne_none _)).trans hdata⟩
  · rw [hnodes]
    exact hrefines.ledger.malloc hfree _

theorem Refines.queue_push (hrefines : Refines m s a) (node : Nat) :
    ∃ s' reply, call s (.queue_push node) = .ok (s', reply) ∧
      Refines m s' (a.after (.queue_push node) reply) := by
  by_cases hheld : node ∈ s.held
  · obtain ⟨data, hdata⟩ := Option.ne_none_iff_exists'.mp ((hrefines.held_iff node).mp hheld)
    obtain ⟨copy, hblock, hstored⟩ := hrefines.held_node node data hdata
    obtain ⟨memory, header, hpush, hholds, hpayloads, hfields, hothers⟩ :=
      queue_push_holds hrefines.holds hblock rfl (hrefines.ledger.apart node hheld)
    refine ⟨{ memory, header, held := s.held.erase node }, .pushed node,
      by simp [call, hheld, hpush], ?_⟩
    have hafter : a.after (.queue_push node) (.pushed node) =
        { held := Function.update a.held node none, fifo := a.fifo.push (node, data) } := by
      simp [Abstract.after, hdata]
    have hnodes : (a.after (.queue_push node) (.pushed node)).nodes = a.nodes ++ [node] := by
      simp [hafter, Abstract.nodes]
    have hlive (address : Nat) : memory.nodes.blocks address ≠ none ↔
        s.memory.nodes.blocks address ≠ none := by
      simpa using not_congr (congrArg (fun node => node = none) (hfields address)).to_iff
    have hkeep {address : Nat} {data : δ} (hcarries : Carries s.memory address data) :
        Carries memory address data :=
      hcarries.congr (hfields address) fun _ _ => by rw [hpayloads]
    constructor
    · rwa [hnodes]
    · intro item hitem
      rw [hafter, Fifo.items_push, List.mem_append, List.mem_singleton] at hitem
      obtain hitem | rfl := hitem
      · exact hkeep (hrefines.carries item hitem)
      · exact hkeep ⟨copy, by rw [hblock]; rfl, hstored⟩
    · intro address
      by_cases hne : address = node
      · simp [hafter, hne]
      · simp [hafter, hne, hrefines.held_iff address]
    · intro address data' hsome
      have hne : address ≠ node := by
        rintro rfl
        simp [hafter] at hsome
      have hsome : a.held address = some data' := by simpa [hafter, hne] using hsome
      obtain ⟨copy', hblock', hstored'⟩ := hrefines.held_node address data' hsome
      have hnot : address ∉ a.nodes :=
        hrefines.ledger.apart address ((hrefines.held_iff address).mpr (by simp [hsome]))
      exact ⟨copy', (hothers address hnot).trans hblock', by rw [hpayloads, hstored']⟩
    · rw [hnodes]
      exact hrefines.ledger.link hheld hlive hothers
  · have hnone : a.held node = none := by
      by_contra hsome
      exact hheld ((hrefines.held_iff node).mpr hsome)
    refine ⟨s, .nothing, by simp [call, hheld], ?_⟩
    simpa [Abstract.after, hnone] using hrefines

theorem Refines.queue_pop (hrefines : Refines m s a) :
    ∃ s' reply, call s .queue_pop = .ok (s', reply) ∧
      Refines m s' (a.after .queue_pop reply) := by
  obtain ⟨memory, header, hpop, hholds, hpayloads, hblocks, -⟩ := queue_pop_holds hrefines.holds
  refine ⟨{ s with memory, header }, .popped s.header.start, by simp [call, hpop], ?_⟩
  have hnodes : (a.after .queue_pop (.popped s.header.start)).nodes = a.nodes.tail := by
    simp [Abstract.after, Abstract.nodes]
  have hnodup := hrefines.holds.segment.nodup
  have hother {address : Nat} (hne : a.nodes.head? ≠ some address) :
      memory.nodes.blocks address = s.memory.nodes.blocks address := by
    rw [hblocks, if_neg hne]
  constructor
  · rwa [hnodes]
  · intro item hitem
    have hitem : item ∈ a.fifo.items.tail := by simpa [Abstract.after] using hitem
    have hmem : item.1 ∈ a.nodes.tail := by
      rw [Abstract.nodes, List.map_tail.symm]
      exact List.mem_map_of_mem hitem
    refine (hrefines.carries item (List.mem_of_mem_tail hitem)).congr ?_ fun _ _ => by rw [hpayloads]
    rw [hother fun hhead => notMem_tail hnodup hhead hmem]
  · exact hrefines.held_iff
  · intro address data hsome
    have hsome : a.held address = some data := hsome
    obtain ⟨copy, hblock, hstored⟩ := hrefines.held_node address data hsome
    have hnot : address ∉ a.nodes :=
      hrefines.ledger.apart address ((hrefines.held_iff address).mpr (by simp [hsome]))
    have hhead : a.nodes.head? ≠ some address := fun hhead => hnot (List.mem_of_mem_head? hhead)
    exact ⟨copy, (hother hhead).trans hblock, by rw [hpayloads, hstored]⟩
  · rw [hnodes]
    exact hrefines.ledger.unlink hnodup hblocks

/-- Every call goes through and does to the FIFO list what it does there. -/
theorem Refines.step (hrefines : Refines m s a) (input : Call δ) :
    ∃ s' reply, call s input = .ok (s', reply) ∧ Refines m s' (a.after input reply) := by
  cases input with
  | new_queue_node data node_hint data_hint =>
    exact hrefines.new_queue_node data node_hint data_hint
  | queue_push node => exact hrefines.queue_push node
  | queue_pop => exact hrefines.queue_pop
  | queue_peek => exact ⟨s, _, rfl, hrefines⟩

/-- What a call links in enters the FIFO list, and what it frees leaves it. -/
theorem Refines.logged (hrefines : Refines m s a) {input : Call δ} {s' : State δ} {reply : Reply}
    (hcall : call s input = .ok (s', reply)) :
    (a.after input reply).fifo.entered.map Prod.fst =
        a.fifo.entered.map Prod.fst ++ reply.nodes_pushed ∧
      (a.after input reply).fifo.gone.map Prod.fst =
        a.fifo.gone.map Prod.fst ++ reply.nodes_popped := by
  cases input with
  | new_queue_node data node_hint data_hint =>
    simp only [call, Result.pure_eq_ok, Except.ok.injEq, Prod.mk.injEq] at hcall
    obtain ⟨-, rfl⟩ := hcall
    simp [Abstract.after, Reply.nodes_pushed, Reply.nodes_popped]
  | queue_push node =>
    by_cases hheld : node ∈ s.held
    · obtain ⟨data, hdata⟩ := Option.ne_none_iff_exists'.mp ((hrefines.held_iff node).mp hheld)
      simp only [call, if_pos hheld, Result.bind_eq_ok_iff, Result.pure_eq_ok, Except.ok.injEq,
        Prod.mk.injEq] at hcall
      obtain ⟨pushed, -, -, rfl⟩ := hcall
      simp [Abstract.after, hdata, Reply.nodes_pushed, Reply.nodes_popped]
    · have hnone : a.held node = none := by
        by_contra hsome
        exact hheld ((hrefines.held_iff node).mpr hsome)
      simp only [call, if_neg hheld, Result.pure_eq_ok, Except.ok.injEq, Prod.mk.injEq] at hcall
      obtain ⟨-, rfl⟩ := hcall
      simp [Abstract.after, hnone, Reply.nodes_pushed, Reply.nodes_popped]
  | queue_pop =>
    simp only [call, Result.bind_eq_ok_iff, Result.pure_eq_ok, Except.ok.injEq,
      Prod.mk.injEq] at hcall
    obtain ⟨popped, -, -, rfl⟩ := hcall
    have hstart : s.header.start = a.fifo.items.head?.map Prod.fst := by
      rw [hrefines.holds.segment.first_eq, Abstract.nodes, List.head?_map]
    have hfreed : a.fifo.items.head?.toList.map Prod.fst = s.header.start.toList := by
      rw [hstart]
      cases a.fifo.items.head? <;> rfl
    simp [Abstract.after, Reply.nodes_pushed, Reply.nodes_popped, hfreed]
  | queue_peek =>
    simp only [call, Result.pure_eq_ok, Except.ok.injEq, Prod.mk.injEq] at hcall
    obtain ⟨-, rfl⟩ := hcall
    simp [Abstract.after, Reply.nodes_pushed, Reply.nodes_popped]

end Steps

/-- What entered the list and what left it are the nodes that the calls linked in and freed. -/
def Abstract.Logs (a : Abstract δ) (replies : List Reply) : Prop :=
  a.fifo.entered.map Prod.fst = replies.flatMap Reply.nodes_pushed ∧
    a.fifo.gone.map Prod.fst = replies.flatMap Reply.nodes_popped

/-- The nodes that were pushed are those that were popped, in the same order, and behind them
those of the list. -/
theorem Abstract.Logs.pushed_eq {a : Abstract δ} {replies : List Reply} (hlogs : a.Logs replies) :
    replies.flatMap Reply.nodes_pushed = replies.flatMap Reply.nodes_popped ++ a.nodes := by
  rw [← hlogs.1, ← hlogs.2, Abstract.nodes, ← List.map_append, Fifo.gone_append_items]

theorem run_refines (m : Memory δ) (calls : List (Call δ)) :
    ∃ s replies, run call (start m) calls = .ok (s, replies) ∧
      Refines m s (replay calls replies) ∧ (replay calls replies).Logs replies := by
  obtain ⟨s, replies, hrun, -⟩ := run_total (fun s => ∃ a, Refines m s a) ⟨_, start_refines m⟩
    (fun s input ⟨a, hrefines⟩ => by
      obtain ⟨s', reply, hcall, hrefines'⟩ := hrefines.step input
      exact ⟨s', reply, hcall, _, hrefines'⟩) calls
  refine ⟨s, replies, hrun, ?_⟩
  refine (run_history (fun calls replies s => calls.length = replies.length ∧
    Refines m s (replay calls replies) ∧ (replay calls replies).Logs replies)
    ⟨rfl, start_refines m, rfl, rfl⟩ ?_ hrun).2
  rintro past before s input s' reply - ⟨hlength, hrefines, hentered, hgone⟩ hcall
  obtain ⟨s'', reply', hcall', hrefines'⟩ := hrefines.step input
  rw [hcall, Except.ok.injEq, Prod.mk.injEq] at hcall'
  obtain ⟨rfl, rfl⟩ := hcall'
  obtain ⟨hentered', hgone'⟩ := hrefines.logged hcall
  refine ⟨by simp [hlength], ?_, ?_, ?_⟩
  · rwa [replay_snoc hlength]
  · rw [replay_snoc hlength, hentered', hentered, List.flatMap_append, List.flatMap_singleton]
  · rw [replay_snoc hlength, hgone', hgone, List.flatMap_append, List.flatMap_singleton]

/-- From a new queue on, every sequence of calls goes through and the linked nodes are the
FIFO list that the calls describe: what was pushed is what was popped, in the same order, and
then the nodes that are linked. A peek returns the oldest of them, or null exactly if there is
none, the end is the last one and null exactly if the start is, and none is passed twice. On an
empty list a pop changes nothing, on any other it frees just the oldest node. -/
theorem queue_refines_fifo (m : Memory δ) (calls : List (Call δ)) :
    ∃ s replies nodes, run call (start m) calls = .ok (s, replies) ∧
      nodes = (replay calls replies).nodes ∧ Refines m s (replay calls replies) ∧
      replies.flatMap Reply.nodes_pushed = replies.flatMap Reply.nodes_popped ++ nodes ∧
      nodes.Nodup ∧ s.header.size = nodes.length ∧
      queue_peek s.header = nodes.head? ∧ (queue_peek s.header = none ↔ nodes = []) ∧
      s.header.end_node = nodes.getLast? ∧
      (s.header.end_node = none ↔ s.header.start = none) ∧
      (nodes = [] → queue_pop s.memory s.header = .ok (s.memory, s.header)) ∧
      ∃ m' header', queue_pop s.memory s.header = .ok (m', header') ∧
        Segment queue_node_t.next m'.nodes header'.start nodes.tail none ∧
        ∀ address, m'.nodes.blocks address =
          if nodes.head? = some address then none else s.memory.nodes.blocks address := by
  obtain ⟨s, replies, hrun, hrefines, hlogs⟩ := run_refines m calls
  have hholds := hrefines.holds
  obtain ⟨m', header', hpop, hholds', -, hblocks, hempty⟩ := queue_pop_holds hholds
  refine ⟨s, replies, _, hrun, rfl, hrefines, hlogs.pushed_eq, hholds.segment.nodup,
    hholds.size_eq, queue_peek_eq hholds, ?_, hholds.end_eq, hholds.end_none_iff, ?_, m', header', hpop,
    hholds'.segment, hblocks⟩
  · rw [queue_peek_eq hholds, List.head?_eq_none_iff]
  · intro hnil
    obtain ⟨rfl, rfl⟩ := hempty hnil
    exact hpop

end rc_project.queue
