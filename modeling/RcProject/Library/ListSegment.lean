import RcProject.Library.Heap
import Mathlib.Data.List.Basic

open rc_project.heap

namespace rc_project.list_segment

variable {ν : Type} (next : ν → Option Nat)

/-- The allocated blocks that are passed on the way from one pointer to another, where
every block holds the pointer to the one behind it. -/
def Segment (heap : Heap ν) : Option Nat → List Nat → Option Nat → Prop
  | first, [], last => first = last
  | first, address :: rest, last => first = some address ∧
      ∃ node, heap.blocks address = some node ∧ Segment heap (next node) rest last

variable {next} {heap heap' : Heap ν} {first last : Option Nat} {nodes nodes' : List Nat}

@[simp] theorem segment_nil_iff : Segment next heap first [] last ↔ first = last := Iff.rfl

@[simp] theorem segment_cons_iff {address : Nat} :
    Segment next heap first (address :: nodes) last ↔ first = some address ∧
      ∃ node, heap.blocks address = some node ∧ Segment next heap (next node) nodes last :=
  Iff.rfl

/-- Two segments behind each other are one. -/
theorem segment_append_iff : Segment next heap first (nodes ++ nodes') last ↔
    ∃ middle, Segment next heap first nodes middle ∧ Segment next heap middle nodes' last := by
  induction nodes generalizing first with
  | nil => simp
  | cons address rest ih =>
    simp only [List.cons_append, segment_cons_iff, ih]
    constructor
    · rintro ⟨hfirst, node, hblock, middle, hrest, hlast⟩
      exact ⟨middle, ⟨hfirst, node, hblock, hrest⟩, hlast⟩
    · rintro ⟨middle, ⟨hfirst, node, hblock, hrest⟩, hlast⟩
      exact ⟨hfirst, node, hblock, middle, hrest, hlast⟩

/-- The frame rule: a segment only depends on its blocks. -/
theorem Segment.frame (hsegment : Segment next heap first nodes last)
    (hsame : ∀ address ∈ nodes, heap'.blocks address = heap.blocks address) :
    Segment next heap' first nodes last := by
  induction nodes generalizing first with
  | nil => exact hsegment
  | cons address rest ih =>
    obtain ⟨hfirst, node, hblock, hrest⟩ := hsegment
    refine ⟨hfirst, node, (hsame address (by simp)).trans hblock, ih hrest ?_⟩
    intro other hother
    exact hsame other (List.mem_cons_of_mem address hother)

/-- A write to a block outside of a segment leaves it alone. -/
theorem Segment.set (hsegment : Segment next heap first nodes last) {address : Nat}
    (hnot : address ∉ nodes) (block : Option ν) :
    Segment next (heap.set address block) first nodes last := by
  refine hsegment.frame fun other hother => heap.set_of_ne ?_ block
  rintro rfl
  exact hnot hother

theorem Segment.live (hsegment : Segment next heap first nodes last) {address : Nat}
    (hmem : address ∈ nodes) : heap.blocks address ≠ none := by
  induction nodes generalizing first with
  | nil => cases hmem
  | cons head rest ih =>
    obtain ⟨-, node, hblock, hrest⟩ := hsegment
    obtain rfl | hmem := List.mem_cons.mp hmem
    · rw [hblock]
      exact Option.some_ne_none node
    · exact ih hrest hmem

section Ended

variable (hsegment : Segment next heap first nodes none)
include hsegment

theorem Segment.first_eq : first = nodes.head? := by
  cases nodes with
  | nil => exact hsegment
  | cons address rest => exact hsegment.1

/-- From one pointer at most one list of blocks leads to the null pointer. -/
theorem Segment.unique (hsegment' : Segment next heap first nodes' none) : nodes = nodes' := by
  induction nodes generalizing first nodes' with
  | nil =>
    cases nodes' with
    | nil => rfl
    | cons address rest =>
      obtain ⟨hfirst, -⟩ := hsegment'
      cases (show first = none from hsegment).symm.trans hfirst
  | cons address rest ih =>
    obtain ⟨rfl, node, hblock, hrest⟩ := hsegment
    cases nodes' with
    | nil => cases hsegment'
    | cons address' rest' =>
      obtain ⟨heq, node', hblock', hrest'⟩ := hsegment'
      obtain rfl : address = address' := Option.some.inj heq
      obtain rfl : node = node' := Option.some.inj (hblock.symm.trans hblock')
      rw [ih hrest hrest']

/-- A list of blocks that ends passes no block twice. -/
theorem Segment.nodup : nodes.Nodup := by
  induction nodes generalizing first with
  | nil => exact List.nodup_nil
  | cons address rest ih =>
    obtain ⟨rfl, node, hblock, hrest⟩ := hsegment
    refine List.nodup_cons.mpr ⟨fun hmem => ?_, ih hrest⟩
    -- behind its second visit a block is followed by what follows it already
    obtain ⟨before, after, rfl⟩ := List.append_of_mem hmem
    obtain ⟨middle, -, hagain⟩ := segment_append_iff.mp hrest
    obtain ⟨rfl, node', hblock', hafter⟩ := hagain
    obtain rfl : node = node' := Option.some.inj (hblock.symm.trans hblock')
    have hlength := congrArg List.length (hrest.unique hafter)
    simp only [List.length_append, List.length_cons] at hlength
    omega

end Ended

/-- The rule of insertion at the end: the last block is made to point at one that the
segment does not pass and that points at none. -/
theorem Segment.link {front : List Nat} {address new : Nat} {link node : ν}
    (hsegment : Segment next heap first (front ++ [address]) none)
    (hlink : next link = some new) (hnew : heap.blocks new = some node)
    (hend : next node = none) (hnot : new ∉ front ++ [address]) :
    Segment next (heap.set address (some link)) first (front ++ [address] ++ [new]) none := by
  have hnodup := hsegment.nodup
  obtain ⟨middle, hfront, rfl, -⟩ := segment_append_iff.mp hsegment
  have hnotFront : address ∉ front := fun hmem =>
    (List.nodup_append.mp hnodup).2.2 address hmem address (by simp) rfl
  have hne : new ≠ address := by
    rintro rfl
    exact hnot (by simp)
  rw [List.append_assoc, segment_append_iff]
  refine ⟨some address, hfront.set hnotFront _, rfl, link, heap.set_self address _, ?_⟩
  exact ⟨hlink, node, (heap.set_of_ne hne _).trans hnew, hend⟩

end rc_project.list_segment
