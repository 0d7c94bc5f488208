import RcProject.Library.Ledger
import Mathlib.Data.Finset.Card
import Mathlib.Data.Tree.Basic

open rc_project.heap rc_project.ledger

namespace rc_project.heap_tree

/-- How a block is read as a node of a binary tree: two pointers to children, and what the
node carries. -/
structure Layout (ν β : Type) where
  left : ν → Option Nat
  right : ν → Option Nat
  Carries : ν → β → Prop

variable {ν β : Type} (layout : Layout ν β)

/-- The allocated blocks of `footprint` form a binary tree that hangs from a pointer: no
block is in two places of it. -/
inductive Hangs (heap : Heap ν) : Option Nat → BinaryTree β → Finset Nat → Prop
  | nil : Hangs heap none .nil ∅
  | node {address : Nat} {node : ν} {value : β} {left right : BinaryTree β}
      {leftPrint rightPrint : Finset Nat} (hblock : heap.blocks address = some node)
      (hvalue : layout.Carries node value) (hleft : Hangs heap (layout.left node) left leftPrint)
      (hright : Hangs heap (layout.right node) right rightPrint)
      (hnotLeft : address ∉ leftPrint) (hnotRight : address ∉ rightPrint)
      (hdisjoint : Disjoint leftPrint rightPrint) :
      Hangs heap (some address) (.node value left right) (insert address (leftPrint ∪ rightPrint))

variable {layout} {heap heap' : Heap ν} {pointer : Option Nat} {tree left right : BinaryTree β}
  {value : β} {footprint : Finset Nat}

theorem Hangs.pointer_none (h : Hangs layout heap pointer .nil footprint) : pointer = none := by
  cases h
  rfl

theorem Hangs.print_nil (h : Hangs layout heap pointer .nil footprint) : footprint = ∅ := by
  cases h
  rfl

theorem Hangs.pointer_some (h : Hangs layout heap pointer (.node value left right) footprint) :
    ∃ address, pointer = some address := by
  cases h
  exact ⟨_, rfl⟩

/-- Every block of a tree is allocated. -/
theorem Hangs.live (h : Hangs layout heap pointer tree footprint) :
    ∀ address ∈ footprint, heap.blocks address ≠ none := by
  induction h with
  | nil => exact fun _ hmem => absurd hmem (Finset.notMem_empty _)
  | node hblock _ _ _ _ _ _ ihLeft ihRight =>
    intro other hmem
    obtain rfl | hmem := Finset.mem_insert.mp hmem
    · rw [hblock]
      exact Option.some_ne_none _
    · exact (Finset.mem_union.mp hmem).elim (ihLeft other) (ihRight other)

/-- A tree has as many blocks as nodes. -/
theorem Hangs.card_eq (h : Hangs layout heap pointer tree footprint) :
    footprint.card = tree.numNodes := by
  induction h with
  | nil => rfl
  | node _ _ _ _ hnotLeft hnotRight hdisjoint ihLeft ihRight =>
    rw [Finset.card_insert_of_notMem (by simp [hnotLeft, hnotRight]),
      Finset.card_union_of_disjoint hdisjoint, ihLeft, ihRight]
    rfl

/-- The frame rule: a tree depends only on its blocks, and on what makes a node carry its
value. -/
theorem Hangs.frame {layout' : Layout ν β} (h : Hangs layout heap pointer tree footprint)
    (hleft : layout'.left = layout.left) (hright : layout'.right = layout.right)
    (hcarries : ∀ node value, layout.Carries node value → layout'.Carries node value)
    (hsame : ∀ address ∈ footprint, heap'.blocks address = heap.blocks address) :
    Hangs layout' heap' pointer tree footprint := by
  induction h with
  | nil => exact .nil
  | node hblock hvalue _ _ hnotLeft hnotRight hdisjoint ihLeft ihRight =>
    refine .node ((hsame _ (by simp)).trans hblock) (hcarries _ _ hvalue) ?_ ?_ hnotLeft hnotRight
      hdisjoint
    · rw [hleft]
      exact ihLeft fun other hmem => hsame other (by simp [hmem])
    · rw [hright]
      exact ihRight fun other hmem => hsame other (by simp [hmem])

theorem Hangs.congr (h : Hangs layout heap pointer tree footprint)
    (hsame : ∀ address ∈ footprint, heap'.blocks address = heap.blocks address) :
    Hangs layout heap' pointer tree footprint :=
  h.frame rfl rfl (fun _ _ hvalue => hvalue) hsame

/-- A write to a block outside of a tree leaves it alone. -/
theorem Hangs.set (h : Hangs layout heap pointer tree footprint) {address : Nat}
    (hnot : address ∉ footprint) (block : Option ν) :
    Hangs layout (heap.set address block) pointer tree footprint :=
  h.congr fun _ hmem => heap.set_of_ne (ne_of_mem_of_not_mem hmem hnot) block

/-- The write rule: a node over two trees that its block is not part of. -/
theorem Hangs.write {address : Nat} {node : ν} {leftPrint rightPrint : Finset Nat}
    (hvalue : layout.Carries node value) (hleft : Hangs layout heap (layout.left node) left leftPrint)
    (hright : Hangs layout heap (layout.right node) right rightPrint)
    (hnotLeft : address ∉ leftPrint) (hnotRight : address ∉ rightPrint)
    (hdisjoint : Disjoint leftPrint rightPrint) :
    Hangs layout (heap.set address (some node)) (some address) (.node value left right)
      (insert address (leftPrint ∪ rightPrint)) :=
  .node (heap.set_self address _) hvalue (hleft.set hnotLeft _) (hright.set hnotRight _) hnotLeft
    hnotRight hdisjoint

variable (layout) in
/-- The blocks of a tree, and a new one, now hold another tree. What it does not use of the
old blocks is freed, and no other block is written to. -/
def Rebuilt (heap : Heap ν) (footprint extra : Finset Nat) (heap' : Heap ν) (pointer : Option Nat)
    (tree : BinaryTree β) : Prop :=
  ∃ footprint', Hangs layout heap' pointer tree footprint' ∧ footprint' ⊆ footprint ∪ extra ∧
    ∀ address, address ∉ footprint' → heap'.blocks address =
      if address ∈ footprint then none else heap.blocks address

variable {extra leftPrint rightPrint : Finset Nat} {address : Nat} {node node' : ν}
  {child : BinaryTree β}

/-- A tree that is left as it is. -/
theorem Hangs.rebuilt (h : Hangs layout heap pointer tree footprint) (extra : Finset Nat) :
    Rebuilt layout heap footprint extra heap pointer tree :=
  ⟨footprint, h, Finset.subset_union_left, fun _ hnot => (if_neg hnot).symm⟩

/-- A tree that is gone with its only block. -/
theorem rebuilt_nil (heap : Heap ν) (address : Nat) :
    Rebuilt layout heap {address} ∅ (heap.set address none) none .nil := by
  refine ⟨∅, .nil, Finset.empty_subset _, fun other _ => ?_⟩
  by_cases hne : other = address
  · simp [hne]
  · simp [hne, Heap.set_of_ne]

/-- A node whose left child was rebuilt. -/
theorem Rebuilt.node_left (hchild : Rebuilt layout heap leftPrint extra heap' pointer child)
    (hright : Hangs layout heap (layout.right node) right rightPrint)
    (hnotLeft : address ∉ leftPrint) (hnotRight : address ∉ rightPrint)
    (hdisjoint : Disjoint leftPrint rightPrint)
    (hextra : Disjoint extra (insert address (leftPrint ∪ rightPrint)))
    (hnode : layout.left node' = pointer ∧ layout.right node' = layout.right node)
    (hvalue : layout.Carries node' value) :
    heap'.blocks address = heap.blocks address ∧
      Rebuilt layout heap (insert address (leftPrint ∪ rightPrint)) extra
        (heap'.set address (some node')) (some address) (.node value child right) := by
  obtain ⟨childPrint, hhangs, hsub, hothers⟩ := hchild
  rw [Finset.disjoint_insert_right, Finset.disjoint_union_right] at hextra
  obtain ⟨hnotExtra, -, hextraRight⟩ := hextra
  have hnotChild : address ∉ childPrint := fun hmem =>
    (Finset.mem_union.mp (hsub hmem)).elim hnotLeft hnotExtra
  have hdisjoint' : Disjoint childPrint rightPrint :=
    Finset.disjoint_of_subset_left hsub (Finset.disjoint_union_left.mpr ⟨hdisjoint, hextraRight⟩)
  have hright' : Hangs layout heap' (layout.right node') right rightPrint := by
    rw [hnode.2]
    refine hright.congr fun other hmem => ?_
    rw [hothers other (Finset.disjoint_right.mp hdisjoint' hmem),
      if_neg (Finset.disjoint_right.mp hdisjoint hmem)]
  refine ⟨by rw [hothers address hnotChild, if_neg hnotLeft], _,
    .write hvalue (hnode.1 ▸ hhangs) hright' hnotChild hnotRight hdisjoint', ?_, ?_⟩
  · intro other hmem
    obtain rfl | hmem := Finset.mem_insert.mp hmem
    · simp
    · obtain hmem | hmem := Finset.mem_union.mp hmem
      · have hmem' := Finset.mem_union.mp (hsub hmem)
        simp only [Finset.mem_union, Finset.mem_insert]
        tauto
      · simp [hmem]
  · intro other hnot
    simp only [Finset.mem_insert, Finset.mem_union, not_or] at hnot ⊢
    rw [Heap.set_of_ne _ hnot.1, hothers other hnot.2.1]
    simp [hnot.1, hnot.2.2]

/-- A node whose right child was rebuilt. -/
theorem Rebuilt.node_right (hchild : Rebuilt layout heap rightPrint extra heap' pointer child)
    (hleft : Hangs layout heap (layout.left node) left leftPrint)
    (hnotLeft : address ∉ leftPrint) (hnotRight : address ∉ rightPrint)
    (hdisjoint : Disjoint leftPrint rightPrint)
    (hextra : Disjoint extra (insert address (leftPrint ∪ rightPrint)))
    (hnode : layout.left node' = layout.left node ∧ layout.right node' = pointer)
    (hvalue : layout.Carries node' value) :
    heap'.blocks address = heap.blocks address ∧
      Rebuilt layout heap (insert address (leftPrint ∪ rightPrint)) extra
        (heap'.set address (some node')) (some address) (.node value left child) := by
  obtain ⟨childPrint, hhangs, hsub, hothers⟩ := hchild
  rw [Finset.disjoint_insert_right, Finset.disjoint_union_right] at hextra
  obtain ⟨hnotExtra, hextraLeft, -⟩ := hextra
  have hnotChild : address ∉ childPrint := fun hmem =>
    (Finset.mem_union.mp (hsub hmem)).elim hnotRight hnotExtra
  have hdisjoint' : Disjoint leftPrint childPrint :=
    Finset.disjoint_of_subset_right hsub
      (Finset.disjoint_union_right.mpr ⟨hdisjoint, hextraLeft.symm⟩)
  have hleft' : Hangs layout heap' (layout.left node') left leftPrint := by
    rw [hnode.1]
    refine hleft.congr fun other hmem => ?_
    rw [hothers other (Finset.disjoint_left.mp hdisjoint' hmem),
      if_neg (Finset.disjoint_left.mp hdisjoint hmem)]
  refine ⟨by rw [hothers address hnotChild, if_neg hnotRight], _,
    .write hvalue hleft' (hnode.2 ▸ hhangs) hnotLeft hnotChild hdisjoint', ?_, ?_⟩
  · intro other hmem
    obtain rfl | hmem := Finset.mem_insert.mp hmem
    · simp
    · obtain hmem | hmem := Finset.mem_union.mp hmem
      · simp [hmem]
      · have hmem' := Finset.mem_union.mp (hsub hmem)
        simp only [Finset.mem_union, Finset.mem_insert]
        tauto
  · intro other hnot
    simp only [Finset.mem_insert, Finset.mem_union, not_or] at hnot ⊢
    rw [Heap.set_of_ne _ hnot.1, hothers other hnot.2.2]
    simp [hnot.1, hnot.2.1]

/-- A write to the root of a rebuilt tree that keeps its children. -/
theorem Rebuilt.root {value' : β} (h : Rebuilt layout heap footprint extra heap' (some address)
      (.node value left right))
    (hblock : heap'.blocks address = some node)
    (hnode : layout.left node' = layout.left node ∧ layout.right node' = layout.right node)
    (hvalue : layout.Carries node' value') :
    Rebuilt layout heap footprint extra (heap'.set address (some node')) (some address)
      (.node value' left right) := by
  obtain ⟨footprint', hhangs, hsub, hothers⟩ := h
  cases hhangs with
  | node hblock' _ hleft hright hnotLeft hnotRight hdisjoint =>
    rw [hblock, Option.some.injEq] at hblock'
    subst hblock'
    rw [← hnode.1] at hleft
    rw [← hnode.2] at hright
    refine ⟨_, .write hvalue hleft hright hnotLeft hnotRight hdisjoint, hsub, fun other hnot => ?_⟩
    have hne : other ≠ address := fun heq => hnot (heq ▸ Finset.mem_insert_self ..)
    rw [Heap.set_of_ne _ hne, hothers other hnot]

/-- A block that takes over the node of its only child, whose block is freed. -/
theorem Hangs.hoist {temp : Nat} (h : Hangs layout heap (some temp) (.node value left right) footprint)
    (hblock : heap.blocks temp = some node) (hnot : address ∉ footprint) :
    Rebuilt layout heap (insert address footprint) ∅
      ((heap.set address (some node)).set temp none) (some address) (.node value left right) := by
  cases h with
  | @node _ _ _ _ _ leftPrint rightPrint hblock' hvalue hleft hright hnotLeft hnotRight hdisjoint =>
    rw [hblock, Option.some.injEq] at hblock'
    subst hblock'
    simp only [Finset.mem_insert, Finset.mem_union, not_or] at hnot
    obtain ⟨hne, hnotLeft', hnotRight'⟩ := hnot
    have hwritten := Hangs.write hvalue hleft hright hnotLeft' hnotRight' hdisjoint
    refine ⟨_, hwritten.set ?_ none, ?_, fun other hnot => ?_⟩
    · simp [Ne.symm hne, hnotLeft, hnotRight]
    · intro other hmem
      simp only [Finset.mem_insert, Finset.mem_union] at hmem ⊢
      tauto
    · simp only [Finset.mem_insert, Finset.mem_union, not_or] at hnot ⊢
      by_cases htemp : other = temp
      · simp [htemp]
      · rw [Heap.set_of_ne _ htemp, Heap.set_of_ne _ hnot.1]
        simp [hnot.1, hnot.2.1, hnot.2.2, htemp]

end rc_project.heap_tree
