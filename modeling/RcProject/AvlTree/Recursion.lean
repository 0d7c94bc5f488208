import RcProject.AvlTree.Represents

open rc_project.linked_tree rc_project.search_tree

namespace rc_project.avl_tree

variable {α : Type} (data_cmp : α → α → Int)

/-- The recursive search finds the node at which the descent through the
represented tree ends. -/
theorem private_avl_get_spec {fuel : Nat} {m : Nodes α} {pointer : Option Nat}
    {tree : BinaryTree (Cell α)} {footprint : Set Nat}
    (hlinked : Linked layout m pointer tree footprint) (hfuel : tree.height ≤ fuel) (data : α) :
    ∃ found, private_avl_get data_cmp fuel m pointer data = .ok found ∧
      found.map (fun node => ((m node).height, (m node).data)) =
        find (against data_cmp data) tree := by
  induction tree generalizing fuel pointer footprint with
  | nil =>
    obtain rfl := hlinked.pointer_none
    exact ⟨none, by cases fuel <;> rfl, rfl⟩
  | node cell left right ihLeft ihRight =>
    cases hlinked with
    | @node current _ _ _ _ hleft hright _ _ _ =>
      obtain ⟨fuel, rfl⟩ : ∃ n, fuel = n + 1 := ⟨fuel - 1, by simp at hfuel; omega⟩
      simp only [BinaryTree.height] at hfuel
      have hfuelLeft : left.height ≤ fuel := by omega
      have hfuelRight : right.height ≤ fuel := by omega
      simp only [private_avl_get]
      rcases lt_trichotomy (data_cmp data (m current).data) 0 with hneg | hzero | hpos
      · rw [if_pos hneg, find_of_neg]
        · exact ihLeft hleft hfuelLeft
        · exact hneg
      · rw [if_neg (by omega), if_neg (by omega), find_of_zero]
        · exact ⟨some current, rfl, rfl⟩
        · exact hzero
      · rw [if_neg (by omega), if_pos hpos, find_of_pos]
        · exact ihRight hright hfuelRight
        · exact hpos

/-- The node that the recursive search returns has the children that the
descent sees. -/
theorem private_avl_get_children {fuel : Nat} {m : Nodes α} {pointer : Option Nat}
    {tree : BinaryTree (Cell α)} {footprint : Set Nat}
    (hlinked : Linked layout m pointer tree footprint) {data : α} {node : Nat}
    (hget : private_avl_get data_cmp fuel m pointer data = .ok (some node)) :
    bothChildren (against data_cmp data) tree = true ↔
      (m node).left ≠ none ∧ (m node).right ≠ none := by
  induction tree generalizing fuel pointer footprint with
  | nil =>
    obtain rfl := hlinked.pointer_none
    cases fuel <;> simp [private_avl_get] at hget
  | node cell left right ihLeft ihRight =>
    cases hlinked with
    | @node current _ _ _ _ hleft hright _ _ _ =>
      cases fuel with
      | zero => simp [private_avl_get] at hget
      | succ fuel =>
        simp only [private_avl_get] at hget
        rcases lt_trichotomy (data_cmp data (m current).data) 0 with hneg | hzero | hpos
        · rw [bothChildren_of_neg]
          · rw [if_pos hneg] at hget
            exact ihLeft hleft hget
          · exact hneg
        · obtain rfl : current = node := by simpa [hzero] using hget
          rw [bothChildren_of_zero]
          · rw [← layout_left, ← layout_right, hleft.ne_none_iff, hright.ne_none_iff]
            simp
          · exact hzero
        · rw [bothChildren_of_pos]
          · rw [if_neg (by omega), if_pos hpos] at hget
            exact ihRight hright hget
          · exact hpos

/-- The traversals visit the elements from left to right. -/
theorem visit_spec {ε : Type} (action : α → ε) {fuel : Nat} {m : Nodes α} {pointer : Option Nat}
    {tree : BinaryTree (Cell α)} {footprint : Set Nat}
    (hlinked : Linked layout m pointer tree footprint) (hfuel : tree.height ≤ fuel) :
    visit action fuel m pointer = .ok ((elements tree).map action) := by
  induction tree generalizing fuel pointer footprint with
  | nil =>
    obtain rfl := hlinked.pointer_none
    cases fuel <;> rfl
  | node cell left right ihLeft ihRight =>
    cases hlinked with
    | node hleft hright _ _ _ =>
      obtain ⟨fuel, rfl⟩ : ∃ n, fuel = n + 1 := ⟨fuel - 1, by simp at hfuel; omega⟩
      simp only [BinaryTree.height] at hfuel
      have hfuelLeft : left.height ≤ fuel := by omega
      have hfuelRight : right.height ≤ fuel := by omega
      rw [visit, ← layout_left, ← layout_right, ihLeft hleft hfuelLeft, ihRight hright hfuelRight]
      simp

/-- What a recursive call leaves behind: the blocks of its subtree, and some
extra ones it was given, now hold the new subtree, and no other block changed. -/
def Rewritten (m : Nodes α) (footprint extra : Set Nat) (m' : Nodes α) (pointer : Option Nat)
    (tree : BinaryTree (Cell α)) : Prop :=
  ∃ footprint', Linked layout m' pointer tree footprint' ∧ footprint' ⊆ footprint ∪ extra ∧
    ∀ a, a ∉ footprint → m' a = m a

section Rewritten

variable {m m' : Nodes α} {footprint extra leftPrint rightPrint : Set Nat}
  {current : Nat} {pointer : Option Nat} {cell : Cell α} {child left right : BinaryTree (Cell α)}

/-- A rewritten left subtree is hung below the node it came from. -/
theorem Rewritten.set_left (hchild : Rewritten m leftPrint extra m' pointer child)
    (hright : Linked layout m (m current).right right rightPrint)
    (hnotLeft : current ∉ leftPrint) (hnotRight : current ∉ rightPrint)
    (hdisjoint : Disjoint leftPrint rightPrint)
    (hextra : Disjoint extra (Insert.insert current (leftPrint ∪ rightPrint))) :
    Rewritten m (Insert.insert current (leftPrint ∪ rightPrint)) extra
      (set_left m' current pointer) (some current)
      (.node ((m current).height, (m current).data) child right) := by
  obtain ⟨childPrint, hlinked, hsub, hframe⟩ := hchild
  have hcurrent : m' current = m current := hframe current hnotLeft
  have hnotExtra : current ∉ extra := Set.disjoint_right.mp hextra (by simp)
  have hnotChild : current ∉ childPrint := fun h => (hsub h).elim hnotLeft hnotExtra
  have hdisjoint' : Disjoint childPrint rightPrint := by
    refine Set.disjoint_left.mpr fun a ha hr => ?_
    rcases hsub ha with h | h
    · exact Set.disjoint_left.mp hdisjoint h hr
    · exact Set.disjoint_left.mp hextra h (by simp [hr])
  have hright' : Linked layout m' (m' current).right right rightPrint :=
    hcurrent ▸ hright.frame fun a ha => hframe a (Set.disjoint_right.mp hdisjoint ha)
  refine ⟨_, hcurrent ▸ set_left_linked hlinked hright' hnotChild hnotRight hdisjoint', ?_, ?_⟩
  · rintro a (rfl | ha | ha)
    · simp
    · rcases hsub ha with h | h <;> simp [h]
    · simp [ha]
  · intro a ha
    simp only [Set.mem_insert_iff, Set.mem_union, not_or] at ha
    rw [avl_tree.set_left, Function.update_of_ne ha.1, hframe a ha.2.1]

/-- A rewritten right subtree is hung below the node it came from. -/
theorem Rewritten.set_right (hchild : Rewritten m rightPrint extra m' pointer child)
    (hleft : Linked layout m (m current).left left leftPrint)
    (hnotLeft : current ∉ leftPrint) (hnotRight : current ∉ rightPrint)
    (hdisjoint : Disjoint leftPrint rightPrint)
    (hextra : Disjoint extra (Insert.insert current (leftPrint ∪ rightPrint))) :
    Rewritten m (Insert.insert current (leftPrint ∪ rightPrint)) extra
      (set_right m' current pointer) (some current)
      (.node ((m current).height, (m current).data) left child) := by
  obtain ⟨childPrint, hlinked, hsub, hframe⟩ := hchild
  have hcurrent : m' current = m current := hframe current hnotRight
  have hnotExtra : current ∉ extra := Set.disjoint_right.mp hextra (by simp)
  have hnotChild : current ∉ childPrint := fun h => (hsub h).elim hnotRight hnotExtra
  have hdisjoint' : Disjoint leftPrint childPrint := by
    refine Set.disjoint_right.mpr fun a ha hl => ?_
    rcases hsub ha with h | h
    · exact Set.disjoint_left.mp hdisjoint hl h
    · exact Set.disjoint_left.mp hextra h (by simp [hl])
  have hleft' : Linked layout m' (m' current).left left leftPrint :=
    hcurrent ▸ hleft.frame fun a ha => hframe a (Set.disjoint_left.mp hdisjoint ha)
  refine ⟨_, hcurrent ▸ set_right_linked hleft' hlinked hnotLeft hnotChild hdisjoint', ?_, ?_⟩
  · rintro a (rfl | ha | ha)
    · simp
    · simp [ha]
    · rcases hsub ha with h | h <;> simp [h]
  · intro a ha
    simp only [Set.mem_insert_iff, Set.mem_union, not_or] at ha
    rw [avl_tree.set_right, Function.update_of_ne ha.1, hframe a ha.2.2]

/-- The last part of an insertion at a node whose subtrees are in place. -/
theorem Rewritten.add_rebalance (new_node : Nat)
    (hnode : Rewritten m footprint extra m' (some current) (.node cell left right))
    (hmem : current ∈ footprint) (hleft : Low left) (hright : Low right) :
    ∃ m'', avl_tree.add_rebalance data_cmp m' new_node current = .ok (m'', some current) ∧
      Rewritten m footprint extra m'' (some current) (.node (rootHeight left, cell.2) left right) := by
  obtain ⟨footprint', hlinked, hsub, hframe⟩ := hnode
  refine ⟨set_height m' current current, ?_, footprint', set_height_linked hlinked, hsub, ?_⟩
  · exact add_rebalance_linked hlinked hleft hright
  · intro a ha
    rw [set_height, Function.update_of_ne (ne_of_mem_of_not_mem hmem ha).symm, hframe a ha]

/-- The last part of a removal at a node whose subtrees are in place. -/
theorem Rewritten.remove_rebalance
    (hnode : Rewritten m footprint extra m' (some current) (.node cell left right))
    (hmem : current ∈ footprint) (hleft : Low left) (hright : Low right) :
    ∃ m'', avl_tree.remove_rebalance m' current = .ok (m'', some current) ∧
      Rewritten m footprint extra m'' (some current) (.node (rootHeight left, cell.2) left right) := by
  obtain ⟨footprint', hlinked, hsub, hframe⟩ := hnode
  refine ⟨set_height m' current current, ?_, footprint', set_height_linked hlinked, hsub, ?_⟩
  · exact remove_rebalance_linked hlinked hleft hright
  · intro a ha
    rw [set_height, Function.update_of_ne (ne_of_mem_of_not_mem hmem ha).symm, hframe a ha]

end Rewritten

/-- The recursive insertion builds the inserted tree out of the old blocks and
the new one, and writes to no other block. -/
theorem private_avl_add_spec {fuel : Nat} {m : Nodes α} {pointer : Option Nat} {new_node : Nat}
    {tree : BinaryTree (Cell α)} {footprint : Set Nat} {data : α}
    (hlinked : Linked layout m pointer tree footprint) (hlow : Low tree)
    (hfuel : tree.height ≤ fuel) (hfresh : new_node ∉ footprint)
    (hnode : m new_node = { height := 1, data := data, left := none, right := none }) :
    ∃ m' pointer', private_avl_add data_cmp fuel m new_node pointer = .ok (m', pointer') ∧
      Rewritten m footprint {new_node} m' pointer' (insert data_cmp data tree) := by
  induction tree generalizing fuel pointer footprint with
  | nil =>
    obtain rfl := hlinked.pointer_none
    refine ⟨m, some new_node, by cases fuel <;> rfl, ?_⟩
    have hempty : Linked layout m none (.nil : BinaryTree (Cell α)) ∅ := .nil
    have hleaf : Linked layout (Function.update m new_node (m new_node)) (some new_node)
        (.node (layout.value (m new_node)) .nil .nil) (Insert.insert new_node (∅ ∪ ∅)) :=
      Linked.write (by rwa [hnode]) (by rwa [hnode]) (Set.notMem_empty _) (Set.notMem_empty _)
        (Set.disjoint_empty _)
    rw [Function.update_eq_self, hnode] at hleaf
    exact ⟨_, hleaf, by simp, fun _ _ => rfl⟩
  | node cell left right ihLeft ihRight =>
    cases hlinked with
    | @node current _ _ leftPrint rightPrint hleft hright hnotLeft hnotRight hdisjoint =>
      obtain ⟨fuel, rfl⟩ : ∃ n, fuel = n + 1 := ⟨fuel - 1, by simp at hfuel; omega⟩
      obtain ⟨-, hlowLeft, hlowRight⟩ := hlow
      simp only [BinaryTree.height] at hfuel
      have hfuelLeft : left.height ≤ fuel := by omega
      have hfuelRight : right.height ≤ fuel := by omega
      have hextra := Set.disjoint_singleton_left.mpr hfresh
      simp only [Set.mem_insert_iff, Set.mem_union, not_or] at hfresh
      obtain ⟨hne, hfreshLeft, hfreshRight⟩ := hfresh
      simp only [private_avl_add, hnode]
      rcases lt_trichotomy (data_cmp data (m current).data) 0 with hneg | hzero | hpos
      · obtain ⟨m₁, child, hadd, hchild⟩ := ihLeft hleft hlowLeft hfuelLeft hfreshLeft
        obtain ⟨m₂, hrebalance, hnode₂⟩ := Rewritten.add_rebalance data_cmp new_node
          (hchild.set_left hright hnotLeft hnotRight hdisjoint hextra) (by simp)
          (low_insert hlowLeft) hlowRight
        rw [layout_left] at hadd
        rw [if_pos hneg, insert_of_neg hneg, hadd]
        exact ⟨m₂, some current, hrebalance, hnode₂⟩
      · rw [if_neg (by omega), if_neg (by omega), insert_of_zero hzero]
        exact ⟨m, some current, rfl, _, .node hleft hright hnotLeft hnotRight hdisjoint,
          Set.subset_union_left, fun _ _ => rfl⟩
      · obtain ⟨m₁, child, hadd, hchild⟩ := ihRight hright hlowRight hfuelRight hfreshRight
        obtain ⟨m₂, hrebalance, hnode₂⟩ := Rewritten.add_rebalance data_cmp new_node
          (hchild.set_right hleft hnotLeft hnotRight hdisjoint hextra) (by simp)
          hlowLeft (low_insert hlowRight)
        rw [layout_right] at hadd
        rw [if_neg (by omega), if_pos hpos, insert_of_pos hpos, hadd]
        exact ⟨m₂, some current, hrebalance, hnode₂⟩

/-- `*current = *temp`: a block takes over the contents of the block of its only
child. -/
theorem Rewritten.overwrite {m : Nodes α} {current temp : Nat} {cell : Cell α}
    {left right : BinaryTree (Cell α)} {childPrint footprint : Set Nat}
    (hchild : Linked layout m (some temp) (.node cell left right) childPrint)
    (hnotChild : current ∉ childPrint) (hsub : childPrint ⊆ footprint) :
    Rewritten m (Insert.insert current footprint) ∅ (Function.update m current (m temp))
      (some current) (.node cell left right) := by
  cases hchild with
  | node hleft hright hnotLeft hnotRight hdisjoint =>
    simp only [Set.mem_insert_iff, Set.mem_union, not_or] at hnotChild
    refine ⟨_, Linked.write hleft hright hnotChild.2.1 hnotChild.2.2 hdisjoint, ?_, ?_⟩
    · rintro a (rfl | ha)
      · simp
      · simp [hsub (Set.mem_insert_of_mem _ ha)]
    · intro a ha
      exact Function.update_of_ne (fun h => ha (by simp [h])) _ _

/-- The branch of the removal at the node that holds the key. -/
theorem private_avl_remove_found {m : Nodes α} {current : Nat} {left right : BinaryTree (Cell α)}
    {leftPrint rightPrint : Set Nat} {data : α} {fuel : Nat}
    (hleft : Linked layout m (m current).left left leftPrint)
    (hright : Linked layout m (m current).right right rightPrint) (hlowLeft : Low left)
    (hlowRight : Low right) (hnotLeft : current ∉ leftPrint) (hnotRight : current ∉ rightPrint)
    (hdisjoint : Disjoint leftPrint rightPrint) (hzero : data_cmp data (m current).data = 0) :
    ∃ m' pointer', private_avl_remove data_cmp (fuel + 1) m (some current) data = .ok (m', pointer') ∧
      Rewritten m (Insert.insert current (leftPrint ∪ rightPrint)) ∅ m' pointer'
        (splice (m current).data left right) := by
  rw [private_avl_remove, if_neg (by omega), if_neg (by omega)]
  cases left with
  | nil =>
    rw [hleft.pointer_none, if_pos (Or.inl rfl), if_neg (by simp)]
    cases right with
    | nil =>
      rw [hright.pointer_none]
      exact ⟨m, none, rfl, ∅, .nil, by simp, fun _ _ => rfl⟩
    | node cell l r =>
      obtain ⟨temp, htemp⟩ := hright.pointer_some
      rw [htemp] at hright ⊢
      obtain ⟨m', hrebalance, hnode⟩ := Rewritten.remove_rebalance
        (Rewritten.overwrite hright hnotRight Set.subset_union_right) (by simp)
        hlowRight.2.1 hlowRight.2.2
      exact ⟨m', some current, hrebalance, hnode⟩
  | node cell l r =>
    obtain ⟨temp, htemp⟩ := hleft.pointer_some
    cases right with
    | nil =>
      rw [hright.pointer_none, if_pos (Or.inr rfl), htemp, if_pos (by simp)]
      rw [htemp] at hleft
      obtain ⟨m', hrebalance, hnode⟩ := Rewritten.remove_rebalance
        (Rewritten.overwrite hleft hnotLeft Set.subset_union_left) (by simp)
        hlowLeft.2.1 hlowLeft.2.2
      exact ⟨m', some current, hrebalance, hnode⟩
    | node cell' l' r' =>
      obtain ⟨temp', htemp'⟩ := hright.pointer_some
      rw [if_neg (by simp [htemp, htemp'])]
      have hnode : Rewritten m (Insert.insert current (leftPrint ∪ rightPrint)) ∅ m (some current)
          (.node (layout.value (m current)) (.node cell l r) (.node cell' l' r')) :=
        ⟨_, .node hleft hright hnotLeft hnotRight hdisjoint, by simp, fun _ _ => rfl⟩
      obtain ⟨m', hrebalance, hnode'⟩ := hnode.remove_rebalance (by simp) hlowLeft hlowRight
      exact ⟨m', some current, hrebalance, hnode'⟩

/-- The recursive removal builds the erased tree out of the old blocks, and
writes to no other block. -/
theorem private_avl_remove_spec {fuel : Nat} {m : Nodes α} {pointer : Option Nat}
    {tree : BinaryTree (Cell α)} {footprint : Set Nat}
    (hlinked : Linked layout m pointer tree footprint) (hlow : Low tree)
    (hfuel : tree.height ≤ fuel) (data : α) :
    ∃ m' pointer', private_avl_remove data_cmp fuel m pointer data = .ok (m', pointer') ∧
      Rewritten m footprint ∅ m' pointer' (erase data_cmp data tree) := by
  induction tree generalizing fuel pointer footprint with
  | nil =>
    obtain rfl := hlinked.pointer_none
    refine ⟨m, none, by cases fuel <;> rfl, footprint, hlinked, by simp, fun _ _ => rfl⟩
  | node cell left right ihLeft ihRight =>
    cases hlinked with
    | @node current _ _ leftPrint rightPrint hleft hright hnotLeft hnotRight hdisjoint =>
      obtain ⟨fuel, rfl⟩ : ∃ n, fuel = n + 1 := ⟨fuel - 1, by simp at hfuel; omega⟩
      obtain ⟨-, hlowLeft, hlowRight⟩ := hlow
      simp only [BinaryTree.height] at hfuel
      have hfuelLeft : left.height ≤ fuel := by omega
      have hfuelRight : right.height ≤ fuel := by omega
      have hextra := Set.empty_disjoint (Insert.insert current (leftPrint ∪ rightPrint))
      rcases lt_trichotomy (data_cmp data (m current).data) 0 with hneg | hzero | hpos
      · obtain ⟨m₁, child, hremove, hchild⟩ := ihLeft hleft hlowLeft hfuelLeft
        obtain ⟨m₂, hrebalance, hnode₂⟩ := Rewritten.remove_rebalance
          (hchild.set_left hright hnotLeft hnotRight hdisjoint hextra) (by simp)
          (low_erase hlowLeft) hlowRight
        rw [layout_left] at hremove
        rw [private_avl_remove, if_pos hneg, erase_of_neg hneg, hremove]
        exact ⟨m₂, some current, hrebalance, hnode₂⟩
      · rw [erase_of_zero hzero]
        exact private_avl_remove_found data_cmp hleft hright hlowLeft hlowRight hnotLeft hnotRight hdisjoint hzero
      · obtain ⟨m₁, child, hremove, hchild⟩ := ihRight hright hlowRight hfuelRight
        obtain ⟨m₂, hrebalance, hnode₂⟩ := Rewritten.remove_rebalance
          (hchild.set_right hleft hnotLeft hnotRight hdisjoint hextra) (by simp)
          hlowLeft (low_erase hlowRight)
        rw [layout_right] at hremove
        rw [private_avl_remove, if_neg (by omega), if_pos hpos, erase_of_pos hpos, hremove]
        exact ⟨m₂, some current, hrebalance, hnode₂⟩

end rc_project.avl_tree
