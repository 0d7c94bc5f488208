import RcProject.AvlTree.HeapDefs
import RcProject.AvlTree.Represents
import RcProject.Library.HeapTree

open rc_project.heap rc_project.heap_tree rc_project.search_tree
open rc_project.avl_tree (avl_node_t Cell Low elements erase insert splice rootHeight against
  height_expr_eq low_insert low_erase insert_of_neg insert_of_zero insert_of_pos erase_of_neg
  erase_of_zero erase_of_pos)

namespace rc_project.avl_heap

variable {α : Type} {data : Heap α} {nodes : Nodes} {pointer : Option Nat} {current : Nat}
  {block : avl_node_t Nat} {cell : Cell α} {tree left right : BinaryTree (Cell α)}
  {footprint : Finset Nat}

/-- How a node is read: its value is in the block that its data points to. -/
def layout (data : Heap α) : Layout (avl_node_t Nat) (Cell α) where
  left := avl_node_t.left
  right := avl_node_t.right
  Carries node cell := node.height = cell.1 ∧ data.blocks node.data = some cell.2

theorem get_height_eq (h : Hangs (layout data) nodes pointer tree footprint) :
    get_height nodes pointer = .ok (rootHeight tree) := by
  cases h with
  | nil => rfl
  | node hblock hvalue =>
    simp only [get_height, Heap.load_of_some hblock, Result.ok_bind, Result.pure_eq_ok, hvalue.1]
    rfl

theorem set_left_eq (hblock : nodes.blocks current = some block) (left : Option Nat) :
    set_left nodes (some current) left = .ok (nodes.set current (some { block with left })) := by
  simp [set_left, Heap.load_of_some hblock, Heap.store_of_some hblock]

theorem set_right_eq (hblock : nodes.blocks current = some block) (right : Option Nat) :
    set_right nodes (some current) right = .ok (nodes.set current (some { block with right })) := by
  simp [set_right, Heap.load_of_some hblock, Heap.store_of_some hblock]

/-- The new height of a node is that of its left child. -/
theorem set_height_eq (h : Hangs (layout data) nodes (some current) (.node cell left right) footprint)
    (hblock : nodes.blocks current = some block) :
    set_height nodes (some current) (some current) =
      .ok (nodes.set current (some { block with height := rootHeight left })) := by
  cases h with
  | node hblock' _ hleft hright =>
    rw [hblock, Option.some.injEq] at hblock'
    subst hblock'
    have hl : get_height nodes block.left = .ok (rootHeight left) := get_height_eq hleft
    have hr : get_height nodes block.right = .ok (rootHeight right) := get_height_eq hright
    simp only [set_height, Heap.load_of_some hblock, hl, hr, Result.ok_bind, height_expr_eq,
      Heap.store_of_some hblock]

theorem get_balance_eq
    (h : Hangs (layout data) nodes (some current) (.node cell left right) footprint) :
    get_balance nodes (some current) = .ok (rootHeight left - rootHeight right) := by
  cases h with
  | @node _ block _ _ _ _ _ hblock _ hleft hright =>
    have hl : get_height nodes block.left = .ok (rootHeight left) := get_height_eq hleft
    have hr : get_height nodes block.right = .ok (rootHeight right) := get_height_eq hright
    simp only [get_balance, Heap.load_of_some hblock, hl, hr, Result.ok_bind, Result.pure_eq_ok]

/-- A node is never found out of balance, so what follows an insertion or a removal in a
child only stores the new height. -/
theorem rebalance_eq {start : Nodes} {extra : Finset Nat}
    (h : Rebuilt (layout data) start footprint extra nodes (some current) (.node cell left right))
    (hleft : Low left) (hright : Low right) :
    ∃ nodes', (∀ (data_cmp : α → α → Int) (new_node : Option Nat),
        add_rebalance data_cmp data nodes new_node (some current) = .ok (nodes', some current)) ∧
      remove_rebalance nodes (some current) = .ok (nodes', some current) ∧
      Rebuilt (layout data) start footprint extra nodes' (some current)
        (.node (rootHeight left, cell.2) left right) := by
  obtain ⟨footprint', hhangs, -⟩ := id h
  obtain ⟨block, hblock, hvalue⟩ : ∃ block, nodes.blocks current = some block ∧
      (layout data).Carries block cell := by
    cases hhangs with
    | node hblock hvalue => exact ⟨_, hblock, hvalue⟩
  let stored : avl_node_t Nat := { block with height := rootHeight left }
  have hcarries : (layout data).Carries stored (rootHeight left, cell.2) := ⟨rfl, hvalue.2⟩
  have hkeeps : (layout data).left stored = (layout data).left block ∧
      (layout data).right stored = (layout data).right block := ⟨rfl, rfl⟩
  have hstored := h.root hblock hkeeps hcarries
  obtain ⟨_, hhangs', -⟩ := id hstored
  have hheight : set_height nodes (some current) (some current) =
      .ok (nodes.set current (some stored)) := set_height_eq hhangs hblock
  have hbalance := get_balance_eq hhangs'
  have hl := hleft.rootHeight
  have hr := hright.rootHeight
  have hlow : ¬ rootHeight left - rootHeight right > 1 := by omega
  have hhigh : ¬ rootHeight left - rootHeight right < -1 := by omega
  refine ⟨_, fun data_cmp new_node => ?_, ?_, hstored⟩
  · simp only [add_rebalance, hheight, hbalance, Result.ok_bind, if_neg hlow,
      if_neg hhigh, Result.pure_eq_ok]
  · simp only [remove_rebalance, hheight, hbalance, Result.ok_bind, if_neg hlow,
      if_neg hhigh, Result.pure_eq_ok]

section Recursion

variable (data_cmp : α → α → Int)

/-- The recursive search finds the node at which the descent ends. -/
theorem private_avl_get_eq {fuel : Nat} (h : Hangs (layout data) nodes pointer tree footprint)
    (hfuel : tree.height ≤ fuel) (value : α) :
    ∃ found, private_avl_get data_cmp data fuel nodes pointer value = .ok found ∧
      (found = none → find (against data_cmp value) tree = none) ∧
      ∀ node, found = some node → ∃ block cell, nodes.blocks node = some block ∧
        (layout data).Carries block cell ∧ find (against data_cmp value) tree = some cell := by
  induction tree generalizing fuel pointer footprint with
  | nil =>
    obtain rfl := h.pointer_none
    exact ⟨none, by cases fuel <;> rfl, fun _ => rfl, fun _ hnone => by cases hnone⟩
  | node cell left right ihLeft ihRight =>
    cases h with
    | @node current block _ _ _ _ _ hblock hvalue hleft hright _ _ _ =>
      obtain ⟨fuel, rfl⟩ : ∃ n, fuel = n + 1 := ⟨fuel - 1, by simp at hfuel; omega⟩
      simp only [BinaryTree.height] at hfuel
      have hfuelLeft : left.height ≤ fuel := by omega
      have hfuelRight : right.height ≤ fuel := by omega
      simp only [private_avl_get, Heap.load_of_some hblock, Heap.load_of_some hvalue.2,
        Result.ok_bind]
      rcases lt_trichotomy (data_cmp value cell.2) 0 with hneg | hzero | hpos
      · rw [if_pos hneg, find_of_neg]
        · exact ihLeft hleft hfuelLeft
        · exact hneg
      · rw [if_neg (by omega), if_neg (by omega), find_of_zero]
        · refine ⟨some current, rfl, fun hnone => absurd hnone (Option.some_ne_none _), ?_⟩
          rintro _ ⟨⟩
          exact ⟨block, cell, hblock, hvalue, rfl⟩
        · exact hzero
      · rw [if_neg (by omega), if_pos hpos, find_of_pos]
        · exact ihRight hright hfuelRight
        · exact hpos

/-- The traversals read the elements from left to right. -/
theorem visit_eq {ε : Type} (action : α → ε) {fuel : Nat}
    (h : Hangs (layout data) nodes pointer tree footprint) (hfuel : tree.height ≤ fuel) :
    visit data action fuel nodes pointer = .ok ((elements tree).map action) := by
  induction tree generalizing fuel pointer footprint with
  | nil =>
    obtain rfl := h.pointer_none
    cases fuel <;> rfl
  | node cell left right ihLeft ihRight =>
    cases h with
    | @node _ block _ _ _ _ _ hblock hvalue hleft hright _ _ _ =>
      obtain ⟨fuel, rfl⟩ : ∃ n, fuel = n + 1 := ⟨fuel - 1, by simp at hfuel; omega⟩
      simp only [BinaryTree.height] at hfuel
      have hbefore : visit data action fuel nodes block.left = .ok ((elements left).map action) :=
        ihLeft hleft (by omega)
      have hafter : visit data action fuel nodes block.right = .ok ((elements right).map action) :=
        ihRight hright (by omega)
      simp only [visit, Heap.load_of_some hblock, Heap.load_of_some hvalue.2, hbefore, hafter,
        Result.ok_bind, Result.pure_eq_ok]
      simp

/-- The recursive insertion builds the inserted tree of the old blocks and the new one. -/
theorem private_avl_add_eq {fuel new_node copy : Nat} {value : α}
    (h : Hangs (layout data) nodes pointer tree footprint) (hlow : Low tree)
    (hfuel : tree.height ≤ fuel) (hfresh : new_node ∉ footprint)
    (hnode : nodes.blocks new_node = some { height := 1, data := copy, left := none, right := none })
    (hcopy : data.blocks copy = some value) :
    ∃ nodes' pointer', private_avl_add data_cmp data fuel nodes new_node pointer =
        .ok (nodes', pointer') ∧
      Rebuilt (layout data) nodes footprint {new_node} nodes' pointer'
        (insert data_cmp value tree) := by
  induction tree generalizing fuel pointer footprint with
  | nil =>
    cases h
    have hempty : Hangs (layout data) nodes none (.nil : BinaryTree (Cell α)) ∅ := .nil
    refine ⟨nodes, some new_node, by cases fuel <;> rfl, Insert.insert new_node (∅ ∪ ∅),
      .node hnode ⟨rfl, hcopy⟩ hempty hempty (Finset.notMem_empty _) (Finset.notMem_empty _)
        (Finset.disjoint_empty_left _), by simp, fun _ _ => by simp⟩
  | node cell left right ihLeft ihRight =>
    cases h with
    | @node current block _ _ _ leftPrint rightPrint hblock hvalue hleft hright hnotLeft hnotRight
        hdisjoint =>
      obtain ⟨fuel, rfl⟩ : ∃ n, fuel = n + 1 := ⟨fuel - 1, by simp at hfuel; omega⟩
      obtain ⟨-, hlowLeft, hlowRight⟩ := hlow
      simp only [BinaryTree.height] at hfuel
      have hfuelLeft : left.height ≤ fuel := by omega
      have hfuelRight : right.height ≤ fuel := by omega
      have hextra := Finset.disjoint_singleton_left.mpr hfresh
      simp only [Finset.mem_insert, Finset.mem_union, not_or] at hfresh
      obtain ⟨hne, hfreshLeft, hfreshRight⟩ := hfresh
      have hcmp : cmp_nodes data_cmp data nodes (some new_node) (some current) =
          .ok (data_cmp value cell.2) := by
        simp [cmp_nodes, Heap.load_of_some hnode, Heap.load_of_some hcopy, Heap.load_of_some hblock,
          Heap.load_of_some hvalue.2]
      simp only [private_avl_add, hcmp, Heap.load_of_some hblock, Result.ok_bind]
      rcases lt_trichotomy (data_cmp value cell.2) 0 with hneg | hzero | hpos
      · obtain ⟨nodes₁, child, hadd, hchild⟩ := ihLeft hleft hlowLeft hfuelLeft hfreshLeft
        let linked : avl_node_t Nat := { block with left := child }
        have hcarries : (layout data).Carries linked cell := hvalue
        have hlinks : (layout data).left linked = child ∧
            (layout data).right linked = (layout data).right block := ⟨rfl, rfl⟩
        obtain ⟨hsame, hlinked⟩ := hchild.node_left hright hnotLeft hnotRight hdisjoint hextra
          hlinks hcarries
        obtain ⟨nodes₂, hrebalance, -, hnode₂⟩ := rebalance_eq hlinked (low_insert hlowLeft) hlowRight
        have hadd' : private_avl_add data_cmp data fuel nodes new_node block.left =
          .ok (nodes₁, child) := hadd
        rw [if_pos hneg, insert_of_neg hneg, hadd', Result.ok_bind]
        simp only [set_left_eq (hsame.trans hblock), Result.ok_bind]
        exact ⟨nodes₂, some current, hrebalance data_cmp _, hnode₂⟩
      · rw [if_neg (by omega), if_neg (by omega), insert_of_zero hzero]
        exact ⟨nodes, some current, rfl, Hangs.rebuilt (.node hblock hvalue hleft hright hnotLeft
          hnotRight hdisjoint) _⟩
      · obtain ⟨nodes₁, child, hadd, hchild⟩ := ihRight hright hlowRight hfuelRight hfreshRight
        let linked : avl_node_t Nat := { block with right := child }
        have hcarries : (layout data).Carries linked cell := hvalue
        have hlinks : (layout data).left linked = (layout data).left block ∧
            (layout data).right linked = child := ⟨rfl, rfl⟩
        obtain ⟨hsame, hlinked⟩ := hchild.node_right hleft hnotLeft hnotRight hdisjoint hextra
          hlinks hcarries
        obtain ⟨nodes₂, hrebalance, -, hnode₂⟩ := rebalance_eq hlinked hlowLeft (low_insert hlowRight)
        have hadd' : private_avl_add data_cmp data fuel nodes new_node block.right =
          .ok (nodes₁, child) := hadd
        rw [if_neg (by omega), if_pos hpos, insert_of_pos hpos, hadd', Result.ok_bind]
        simp only [set_right_eq (hsame.trans hblock), Result.ok_bind]
        exact ⟨nodes₂, some current, hrebalance data_cmp _, hnode₂⟩

/-- `*current = *temp` and `free(temp)`: a node takes over its only child. -/
theorem take_over {temp : Nat} (hblock : nodes.blocks current = some block)
    (hchild : Hangs (layout data) nodes (some temp) (.node cell left right) footprint)
    (hnot : current ∉ footprint) (hlowLeft : Low left) (hlowRight : Low right) :
    ∃ nodes', (do
        let child ← nodes.load (some temp)
        let nodes ← nodes.store (some current) child
        let nodes ← nodes.free (some temp)
        remove_rebalance nodes (some current)) = .ok (nodes', some current) ∧
      Rebuilt (layout data) nodes (Insert.insert current footprint) ∅ nodes' (some current)
        (.node (rootHeight left, cell.2) left right) := by
  obtain ⟨child, hload⟩ : ∃ child, nodes.blocks temp = some child := by
    cases hchild with
    | node hblock' => exact ⟨_, hblock'⟩
  have hne : temp ≠ current := by
    rintro rfl
    cases hchild with
    | node => exact hnot (Finset.mem_insert_self ..)
  have hstored : (nodes.set current (some child)).blocks temp = some child := by
    rw [Heap.set_of_ne _ hne, hload]
  obtain ⟨nodes', -, hrebalance, hrebuilt⟩ :=
    rebalance_eq (hchild.hoist hload hnot) hlowLeft hlowRight
  refine ⟨nodes', ?_, hrebuilt⟩
  simp only [Heap.load_of_some hload, Heap.store_of_some hblock, Heap.free_of_some hstored,
    Result.ok_bind, hrebalance]

/-- The removal at the node that holds the key. A node without one of its children is
freed, or takes over its child, whose block is freed. -/
theorem private_avl_remove_found {data' : Heap α} {fuel : Nat} {value : α}
    {leftPrint rightPrint : Finset Nat} (hkeeps : data.Keeps data')
    (hblock : nodes.blocks current = some block) (hvalue : (layout data).Carries block cell)
    (hleft : Hangs (layout data) nodes block.left left leftPrint)
    (hright : Hangs (layout data) nodes block.right right rightPrint)
    (hlowLeft : Low left) (hlowRight : Low right) (hnotLeft : current ∉ leftPrint)
    (hnotRight : current ∉ rightPrint) (hdisjoint : Disjoint leftPrint rightPrint)
    (hzero : data_cmp value cell.2 = 0) :
    ∃ nodes' pointer', private_avl_remove data_cmp data' (fuel + 1) nodes (some current) value =
        .ok (nodes', pointer') ∧
      Rebuilt (layout data) nodes (Insert.insert current (leftPrint ∪ rightPrint)) ∅ nodes' pointer'
        (splice cell.2 left right) := by
  have hneg : ¬ data_cmp value cell.2 < 0 := by omega
  have hpos : ¬ data_cmp value cell.2 > 0 := by omega
  simp only [private_avl_remove, Heap.load_of_some hblock, Heap.load_of_some (hkeeps _ _ hvalue.2),
    Result.ok_bind, if_neg hneg, if_neg hpos]
  cases left with
  | nil =>
    have hnull : block.left = none := hleft.pointer_none
    rw [hleft.print_nil, Finset.empty_union]
    cases right with
    | nil =>
      have hnull' : block.right = none := hright.pointer_none
      rw [hright.print_nil]
      exact ⟨_, none, by simp [hnull, hnull', Heap.free_of_some hblock], rebuilt_nil nodes current⟩
    | node cell' l r =>
      obtain ⟨temp, htemp⟩ := hright.pointer_some
      have htemp' : block.right = some temp := htemp
      rw [htemp] at hright
      obtain ⟨nodes', htake, hnode⟩ := take_over hblock hright hnotRight hlowRight.2.1 hlowRight.2.2
      refine ⟨nodes', some current, ?_, hnode⟩
      simpa [hnull, htemp'] using htake
  | node cell' l r =>
    obtain ⟨temp, htemp⟩ := hleft.pointer_some
    have htemp' : block.left = some temp := htemp
    cases right with
    | nil =>
      have hnull : block.right = none := hright.pointer_none
      rw [hright.print_nil, Finset.union_empty]
      rw [htemp] at hleft
      obtain ⟨nodes', htake, hnode⟩ := take_over hblock hleft hnotLeft hlowLeft.2.1 hlowLeft.2.2
      refine ⟨nodes', some current, ?_, hnode⟩
      simpa [hnull, htemp'] using htake
    | node cell'' l' r' =>
      obtain ⟨temp', hright'⟩ := hright.pointer_some
      have hright'' : block.right = some temp' := hright'
      have hnode := Hangs.rebuilt (.node hblock hvalue hleft hright hnotLeft hnotRight hdisjoint) ∅
      obtain ⟨nodes', -, hrebalance, hnode'⟩ := rebalance_eq hnode hlowLeft hlowRight
      exact ⟨nodes', some current, by simp [htemp', hright'', hrebalance], hnode'⟩

/-- The recursive removal builds the erased tree of the old blocks, and frees the one that
is left over. Beside the data of the tree, other data may be allocated. -/
theorem private_avl_remove_eq {data' : Heap α} {fuel : Nat} (hkeeps : data.Keeps data')
    (h : Hangs (layout data) nodes pointer tree footprint) (hlow : Low tree)
    (hfuel : tree.height ≤ fuel) (value : α) :
    ∃ nodes' pointer', private_avl_remove data_cmp data' fuel nodes pointer value =
        .ok (nodes', pointer') ∧
      Rebuilt (layout data) nodes footprint ∅ nodes' pointer' (erase data_cmp value tree) := by
  induction tree generalizing fuel pointer footprint with
  | nil =>
    obtain rfl := h.pointer_none
    exact ⟨nodes, none, by cases fuel <;> rfl, h.rebuilt ∅⟩
  | node cell left right ihLeft ihRight =>
    cases h with
    | @node current block _ _ _ leftPrint rightPrint hblock hvalue hleft hright hnotLeft hnotRight
        hdisjoint =>
      obtain ⟨fuel, rfl⟩ : ∃ n, fuel = n + 1 := ⟨fuel - 1, by simp at hfuel; omega⟩
      obtain ⟨-, hlowLeft, hlowRight⟩ := hlow
      simp only [BinaryTree.height] at hfuel
      have hfuelLeft : left.height ≤ fuel := by omega
      have hfuelRight : right.height ≤ fuel := by omega
      have hextra := Finset.disjoint_empty_left (Insert.insert current (leftPrint ∪ rightPrint))
      rcases lt_trichotomy (data_cmp value cell.2) 0 with hneg | hzero | hpos
      · obtain ⟨nodes₁, child, hremove, hchild⟩ := ihLeft hleft hlowLeft hfuelLeft
        let linked : avl_node_t Nat := { block with left := child }
        have hcarries : (layout data).Carries linked cell := hvalue
        have hlinks : (layout data).left linked = child ∧
            (layout data).right linked = (layout data).right block := ⟨rfl, rfl⟩
        obtain ⟨hsame, hlinked⟩ := hchild.node_left hright hnotLeft hnotRight hdisjoint hextra
          hlinks hcarries
        obtain ⟨nodes₂, -, hrebalance, hnode₂⟩ := rebalance_eq hlinked (low_erase hlowLeft) hlowRight
        have hremove' : private_avl_remove data_cmp data' fuel nodes block.left value =
          .ok (nodes₁, child) := hremove
        refine ⟨nodes₂, some current, ?_, by rwa [erase_of_neg hneg]⟩
        simp only [private_avl_remove, Heap.load_of_some hblock, Heap.load_of_some (hkeeps _ _ hvalue.2),
          Result.ok_bind, if_pos hneg, hremove', set_left_eq (hsame.trans hblock)]
        exact hrebalance
      · rw [erase_of_zero hzero]
        exact private_avl_remove_found data_cmp hkeeps hblock hvalue hleft hright hlowLeft
          hlowRight hnotLeft hnotRight hdisjoint hzero
      · obtain ⟨nodes₁, child, hremove, hchild⟩ := ihRight hright hlowRight hfuelRight
        let linked : avl_node_t Nat := { block with right := child }
        have hcarries : (layout data).Carries linked cell := hvalue
        have hlinks : (layout data).left linked = (layout data).left block ∧
            (layout data).right linked = child := ⟨rfl, rfl⟩
        obtain ⟨hsame, hlinked⟩ := hchild.node_right hleft hnotLeft hnotRight hdisjoint hextra
          hlinks hcarries
        obtain ⟨nodes₂, -, hrebalance, hnode₂⟩ := rebalance_eq hlinked hlowLeft (low_erase hlowRight)
        have hremove' : private_avl_remove data_cmp data' fuel nodes block.right value =
          .ok (nodes₁, child) := hremove
        refine ⟨nodes₂, some current, ?_, by rwa [erase_of_pos hpos]⟩
        have hneg : ¬ data_cmp value cell.2 < 0 := by omega
        simp only [private_avl_remove, Heap.load_of_some hblock, Heap.load_of_some (hkeeps _ _ hvalue.2),
          Result.ok_bind, if_neg hneg, if_pos hpos, hremove', set_right_eq (hsame.trans hblock)]
        exact hrebalance

end Recursion

end rc_project.avl_heap
