import RcProject.Library.Heap
import Mathlib.Data.Finset.Basic

open rc_project.heap

namespace rc_project.ledger

variable {ν : Type}

/-- Every block that is allocated beyond those of `base` is in one place: in hand, or linked
into a list. The blocks of `base` are untouched. -/
structure Ledger (base heap : Heap ν) (held : Finset Nat) (linked : List Nat) : Prop where
  apart : ∀ address ∈ held, address ∉ linked
  allocated : ∀ address, heap.blocks address ≠ none ↔
    base.blocks address ≠ none ∨ address ∈ held ∨ address ∈ linked
  kept : ∀ address, base.blocks address ≠ none →
    address ∉ held ∧ address ∉ linked ∧ heap.blocks address = base.blocks address

variable {base heap heap' : Heap ν} {held : Finset Nat} {linked : List Nat} {address : Nat}

theorem Ledger.refl (base : Heap ν) : Ledger base base ∅ [] where
  apart address hmem := by cases hmem
  allocated address := by simp
  kept address _ := by simp

/-- A block that is not allocated is in neither place. -/
theorem Ledger.free (hledger : Ledger base heap held linked) (hfree : heap.blocks address = none) :
    base.blocks address = none ∧ address ∉ held ∧ address ∉ linked := by
  have hnot := mt (hledger.allocated address).mpr (not_not.mpr hfree)
  rw [not_or, not_or, not_not] at hnot
  exact hnot

/-- A new block is in hand. -/
theorem Ledger.malloc (hledger : Ledger base heap held linked) (hfree : heap.blocks address = none)
    (block : ν) : Ledger base (heap.set address (some block)) (insert address held) linked := by
  obtain ⟨hbase, -, hlinked⟩ := hledger.free hfree
  constructor
  · intro other hmem
    obtain rfl | hmem := Finset.mem_insert.mp hmem
    · exact hlinked
    · exact hledger.apart other hmem
  · intro other
    by_cases hne : other = address
    · simp [hne]
    · rw [Heap.set_of_ne _ hne, hledger.allocated other, Finset.mem_insert, or_iff_right hne]
  · intro other hlive
    have hne : other ≠ address := by
      intro heq
      exact hlive (heq ▸ hbase)
    obtain ⟨hnotHeld, hnotLinked, hsame⟩ := hledger.kept other hlive
    exact ⟨by simp [hne, hnotHeld], hnotLinked, (Heap.set_of_ne _ hne _).trans hsame⟩

/-- A block in hand is linked in at the end, while blocks of the list may be written to. -/
theorem Ledger.link (hledger : Ledger base heap held linked) (hheld : address ∈ held)
    (hlive : ∀ other, heap'.blocks other ≠ none ↔ heap.blocks other ≠ none)
    (hothers : ∀ other, other ∉ linked → heap'.blocks other = heap.blocks other) :
    Ledger base heap' (held.erase address) (linked ++ [address]) := by
  constructor
  · intro other hmem
    obtain ⟨hne, hmem⟩ := Finset.mem_erase.mp hmem
    simp [hne, hledger.apart other hmem]
  · intro other
    rw [hlive, hledger.allocated]
    by_cases hne : other = address
    · simp [hne, hheld]
    · simp [hne]
  · intro other hbase
    obtain ⟨hnotHeld, hnotLinked, hsame⟩ := hledger.kept other hbase
    have hne : other ≠ address := by
      intro heq
      exact hnotHeld (heq ▸ hheld)
    exact ⟨by simp [hnotHeld], by simp [hnotLinked, hne], (hothers other hnotLinked).trans hsame⟩

/-- A block in hand is given back. -/
theorem Ledger.give_back (hledger : Ledger base heap held linked) (hheld : address ∈ held) :
    Ledger base (heap.set address none) (held.erase address) linked := by
  constructor
  · intro other hmem
    exact hledger.apart other (Finset.mem_of_mem_erase hmem)
  · intro other
    by_cases hne : other = address
    · have hbase : base.blocks address = none :=
        not_not.mp fun hlive => (hledger.kept address hlive).1 hheld
      simp [hne, hbase, hledger.apart address hheld]
    · rw [Heap.set_of_ne _ hne, hledger.allocated other, Finset.mem_erase, and_iff_right hne]
  · intro other hbase
    obtain ⟨hnotHeld, hnotLinked, hsame⟩ := hledger.kept other hbase
    have hne : other ≠ address := by
      intro heq
      exact hnotHeld (heq ▸ hheld)
    exact ⟨fun hmem => hnotHeld (Finset.mem_of_mem_erase hmem), hnotLinked,
      (Heap.set_of_ne _ hne none).trans hsame⟩

/-- Of the blocks in hand some are kept, and may be written to, and the others are given
back. -/
theorem Ledger.rebuild {held' : Finset Nat} (hledger : Ledger base heap held linked)
    (hsub : held' ⊆ held) (hlive : ∀ address ∈ held', heap'.blocks address ≠ none)
    (hothers : ∀ address, address ∉ held' → heap'.blocks address =
      if address ∈ held then none else heap.blocks address) : Ledger base heap' held' linked := by
  constructor
  · intro address hmem
    exact hledger.apart address (hsub hmem)
  · intro address
    by_cases hmem : address ∈ held'
    · simp [hmem, hlive address hmem]
    rw [hothers address hmem]
    by_cases hheld : address ∈ held
    · have hbase : base.blocks address = none :=
        not_not.mp fun hlive => (hledger.kept address hlive).1 hheld
      simp [hheld, hmem, hbase, hledger.apart address hheld]
    · simp [hheld, hmem, hledger.allocated address]
  · intro address hbase
    obtain ⟨hnotHeld, hnotLinked, hsame⟩ := hledger.kept address hbase
    have hnot : address ∉ held' := fun hmem => hnotHeld (hsub hmem)
    exact ⟨hnot, hnotLinked, by rw [hothers address hnot, if_neg hnotHeld, hsame]⟩

theorem mem_tail_iff (hne : linked.head? ≠ some address) :
    address ∈ linked.tail ↔ address ∈ linked := by
  refine ⟨List.mem_of_mem_tail, fun hmem => ?_⟩
  cases linked with
  | nil => cases hmem
  | cons first rest =>
    refine (List.mem_cons.mp hmem).resolve_left fun heq => hne ?_
    rw [heq]
    rfl

theorem notMem_tail (hnodup : linked.Nodup) (hhead : linked.head? = some address) :
    address ∉ linked.tail := by
  rw [List.eq_cons_of_mem_head? hhead] at hnodup
  exact (List.nodup_cons.mp hnodup).1

/-- The first block of the list is unlinked and given back. -/
theorem Ledger.unlink (hledger : Ledger base heap held linked) (hnodup : linked.Nodup)
    (hblocks : ∀ address, heap'.blocks address =
      if linked.head? = some address then none else heap.blocks address) :
    Ledger base heap' held linked.tail := by
  constructor
  · intro other hmem hlinked
    exact hledger.apart other hmem (List.mem_of_mem_tail hlinked)
  · intro other
    rw [hblocks]
    by_cases hhead : linked.head? = some other
    · have hmem : other ∈ linked := List.mem_of_mem_head? hhead
      have hbase : ¬ base.blocks other ≠ none := fun hlive => (hledger.kept other hlive).2.1 hmem
      have hheld : other ∉ held := fun hheld => hledger.apart other hheld hmem
      simp [hhead, hheld, not_not.mp hbase, notMem_tail hnodup hhead]
    · rw [if_neg hhead, hledger.allocated other, mem_tail_iff hhead]
  · intro other hbase
    obtain ⟨hnotHeld, hnotLinked, hsame⟩ := hledger.kept other hbase
    have hhead : linked.head? ≠ some other := fun hhead =>
      hnotLinked (List.mem_of_mem_head? hhead)
    refine ⟨hnotHeld, fun hmem => hnotLinked (List.mem_of_mem_tail hmem), ?_⟩
    rw [hblocks, if_neg hhead, hsame]

end rc_project.ledger
