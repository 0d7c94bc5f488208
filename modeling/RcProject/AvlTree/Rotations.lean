import RcProject.AvlTree.Balance

open rc_project.linked_tree rc_project.search_tree rc_project.transition

namespace rc_project.avl_tree

variable {α : Type}

section Decisions

/-- The moments of an insertion at which it decides about rotations: the height of a
node on the path has just been updated behind the recursive call. -/
inductive AddDecides (data_cmp : α → α → Int) (new_node : Nat) :
    Nat → Nodes α → Option Nat → Nodes α → Nat → Prop
  | left {fuel : Nat} {m m₁ : Nodes α} {current : Nat} {child : Option Nat}
    (hneg : data_cmp (m new_node).data (m current).data < 0)
    (hadd : private_avl_add data_cmp fuel m new_node (m current).left = .ok (m₁, child)) :
    AddDecides data_cmp new_node (fuel + 1) m (some current)
      (set_height (set_left m₁ current child) current current) current
  | right {fuel : Nat} {m m₁ : Nodes α} {current : Nat} {child : Option Nat}
    (hpos : 0 < data_cmp (m new_node).data (m current).data)
    (hadd : private_avl_add data_cmp fuel m new_node (m current).right = .ok (m₁, child)) :
    AddDecides data_cmp new_node (fuel + 1) m (some current)
      (set_height (set_right m₁ current child) current current) current
  | below_left {fuel : Nat} {m m' : Nodes α} {current node : Nat}
    (hneg : data_cmp (m new_node).data (m current).data < 0)
    (hbelow : AddDecides data_cmp new_node fuel m (m current).left m' node) :
    AddDecides data_cmp new_node (fuel + 1) m (some current) m' node
  | below_right {fuel : Nat} {m m' : Nodes α} {current node : Nat}
    (hpos : 0 < data_cmp (m new_node).data (m current).data)
    (hbelow : AddDecides data_cmp new_node fuel m (m current).right m' node) :
    AddDecides data_cmp new_node (fuel + 1) m (some current) m' node

/-- The moments of a removal at which it decides about rotations. -/
inductive RemoveDecides (data_cmp : α → α → Int) (data : α) :
    Nat → Nodes α → Option Nat → Nodes α → Nat → Prop
  | left {fuel : Nat} {m m₁ : Nodes α} {current : Nat} {child : Option Nat}
    (hneg : data_cmp data (m current).data < 0)
    (hremove : private_avl_remove data_cmp fuel m (m current).left data = .ok (m₁, child)) :
    RemoveDecides data_cmp data (fuel + 1) m (some current)
      (set_height (set_left m₁ current child) current current) current
  | right {fuel : Nat} {m m₁ : Nodes α} {current : Nat} {child : Option Nat}
    (hpos : 0 < data_cmp data (m current).data)
    (hremove : private_avl_remove data_cmp fuel m (m current).right data = .ok (m₁, child)) :
    RemoveDecides data_cmp data (fuel + 1) m (some current)
      (set_height (set_right m₁ current child) current current) current
  | only_left {fuel : Nat} {m : Nodes α} {current temp : Nat}
    (hzero : data_cmp data (m current).data = 0) (hleft : (m current).left = some temp)
    (hright : (m current).right = none) :
    RemoveDecides data_cmp data (fuel + 1) m (some current)
      (set_height (Function.update m current (m temp)) current current) current
  | only_right {fuel : Nat} {m : Nodes α} {current temp : Nat}
    (hzero : data_cmp data (m current).data = 0) (hleft : (m current).left = none)
    (hright : (m current).right = some temp) :
    RemoveDecides data_cmp data (fuel + 1) m (some current)
      (set_height (Function.update m current (m temp)) current current) current
  | both {fuel : Nat} {m : Nodes α} {current : Nat}
    (hzero : data_cmp data (m current).data = 0) (hleft : (m current).left ≠ none)
    (hright : (m current).right ≠ none) :
    RemoveDecides data_cmp data (fuel + 1) m (some current) (set_height m current current) current
  | below_left {fuel : Nat} {m m' : Nodes α} {current node : Nat}
    (hneg : data_cmp data (m current).data < 0)
    (hbelow : RemoveDecides data_cmp data fuel m (m current).left m' node) :
    RemoveDecides data_cmp data (fuel + 1) m (some current) m' node
  | below_right {fuel : Nat} {m m' : Nodes α} {current node : Nat}
    (hpos : 0 < data_cmp data (m current).data)
    (hbelow : RemoveDecides data_cmp data fuel m (m current).right m' node) :
    RemoveDecides data_cmp data (fuel + 1) m (some current) m' node

/-- The moments of a call of the interface at which it decides about rotations. A call
that finds its key in the first case, or does not find it in the second, comes to none. -/
inductive Decides (data_cmp : α → α → Int) (T : avl_tree_t α) :
    Call α → Nodes α → Nat → Prop
  | add (data : α) (free_data write_data : Bool) {m : Nodes α} {node : Nat}
    (hget : private_avl_get data_cmp T.brk T.nodes T.root data = .ok none)
    (hadd : AddDecides data_cmp T.brk (T.brk + 1)
      (new_avl_node T data free_data).1.nodes T.root m node) :
    Decides data_cmp T (.add data free_data write_data) m node
  | remove (data : α) (free_data write_data : Bool) {m : Nodes α} {node found : Nat}
    (hget : private_avl_get data_cmp T.brk T.nodes T.root data = .ok (some found))
    (hremove : RemoveDecides data_cmp data T.brk T.nodes T.root m node) :
    Decides data_cmp T (.remove data free_data write_data) m node

/-- A node is in balance, as far as the heights go that are stored in its children: the
code behind the decision calls neither of the rotations. -/
def Settled (m : Nodes α) (node : Nat) : Prop :=
  -1 ≤ get_balance m (some node) ∧ get_balance m (some node) ≤ 1

section Settled

variable {data_cmp : α → α → Int} {m m' : Nodes α} {current node : Nat} {pointer : Option Nat}
  {footprint extra : Set Nat} {cell : Cell α} {left right : BinaryTree (Cell α)}

/-- A node over two subtrees of low heights is settled by the update of its height. -/
theorem Rewritten.settled
    (hnode : Rewritten m footprint extra m' (some current) (.node cell left right))
    (hleft : Low left) (hright : Low right) : Settled (set_height m' current current) current := by
  obtain ⟨footprint', hlinked, -, -⟩ := hnode
  cases hlinked with
  | node hl hr _ _ _ => exact balance_bounds (lowHeight_of_low hl hleft) (lowHeight_of_low hr hright)

/-- Every decision of an insertion is about a node that is settled. -/
theorem AddDecides.settled {fuel new_node : Nat} {m m' : Nodes α} {pointer : Option Nat} {node : Nat}
    (h : AddDecides data_cmp new_node fuel m pointer m' node) {tree : BinaryTree (Cell α)}
    {footprint : Set Nat} {data : α} (hlinked : Linked layout m pointer tree footprint)
    (hlow : Low tree) (hfuel : tree.height ≤ fuel) (hfresh : new_node ∉ footprint)
    (hnode : m new_node = { height := 1, data := data, left := none, right := none }) :
    Settled m' node := by
  induction h generalizing tree footprint with
  | @left fuel m m₁ current child hneg hadd =>
    cases hlinked with
    | @node _ left right leftPrint rightPrint hleft hright hnotLeft hnotRight hdisjoint =>
      simp only [BinaryTree.height] at hfuel
      have hextra := Set.disjoint_singleton_left.mpr hfresh
      have hfreshLeft : new_node ∉ leftPrint := fun h => hfresh (by simp [h])
      obtain ⟨m₂, child', hadd', hchild⟩ := private_avl_add_spec data_cmp hleft hlow.2.1
        (show left.height ≤ fuel by omega) hfreshLeft hnode
      obtain ⟨rfl, rfl⟩ : m₂ = m₁ ∧ child' = child := by
        simpa using hadd'.symm.trans hadd
      exact (hchild.set_left hright hnotLeft hnotRight hdisjoint hextra).settled
        (low_insert hlow.2.1) hlow.2.2
  | @right fuel m m₁ current child hpos hadd =>
    cases hlinked with
    | @node _ left right leftPrint rightPrint hleft hright hnotLeft hnotRight hdisjoint =>
      simp only [BinaryTree.height] at hfuel
      have hextra := Set.disjoint_singleton_left.mpr hfresh
      have hfreshRight : new_node ∉ rightPrint := fun h => hfresh (by simp [h])
      obtain ⟨m₂, child', hadd', hchild⟩ := private_avl_add_spec data_cmp hright hlow.2.2
        (show right.height ≤ fuel by omega) hfreshRight hnode
      obtain ⟨rfl, rfl⟩ : m₂ = m₁ ∧ child' = child := by
        simpa using hadd'.symm.trans hadd
      exact (hchild.set_right hleft hnotLeft hnotRight hdisjoint hextra).settled hlow.2.1
        (low_insert hlow.2.2)
  | @below_left fuel m m' current node hneg hbelow ih =>
    cases hlinked with
    | @node _ left right leftPrint rightPrint hleft hright hnotLeft hnotRight hdisjoint =>
      simp only [BinaryTree.height] at hfuel
      exact ih hleft hlow.2.1 (by omega) (fun h => hfresh (by simp [h])) hnode
  | @below_right fuel m m' current node hpos hbelow ih =>
    cases hlinked with
    | @node _ left right leftPrint rightPrint hleft hright hnotLeft hnotRight hdisjoint =>
      simp only [BinaryTree.height] at hfuel
      exact ih hright hlow.2.2 (by omega) (fun h => hfresh (by simp [h])) hnode

/-- Every decision of a removal is about a node that is settled, also the one about a node
that takes over the contents of its only child. -/
theorem RemoveDecides.settled {fuel : Nat} {m m' : Nodes α} {pointer : Option Nat} {node : Nat}
    {data : α} (h : RemoveDecides data_cmp data fuel m pointer m' node)
    {tree : BinaryTree (Cell α)} {footprint : Set Nat}
    (hlinked : Linked layout m pointer tree footprint) (hlow : Low tree)
    (hfuel : tree.height ≤ fuel) : Settled m' node := by
  induction h generalizing tree footprint with
  | @left fuel m m₁ current child hneg hremove =>
    cases hlinked with
    | @node _ left right leftPrint rightPrint hleft hright hnotLeft hnotRight hdisjoint =>
      simp only [BinaryTree.height] at hfuel
      obtain ⟨m₂, child', hremove', hchild⟩ := private_avl_remove_spec data_cmp hleft hlow.2.1
        (show left.height ≤ fuel by omega) data
      obtain ⟨rfl, rfl⟩ : m₂ = m₁ ∧ child' = child := by
        simpa using hremove'.symm.trans hremove
      exact (hchild.set_left hright hnotLeft hnotRight hdisjoint (Set.empty_disjoint _)).settled
        (low_erase hlow.2.1) hlow.2.2
  | @right fuel m m₁ current child hpos hremove =>
    cases hlinked with
    | @node _ left right leftPrint rightPrint hleft hright hnotLeft hnotRight hdisjoint =>
      simp only [BinaryTree.height] at hfuel
      obtain ⟨m₂, child', hremove', hchild⟩ := private_avl_remove_spec data_cmp hright hlow.2.2
        (show right.height ≤ fuel by omega) data
      obtain ⟨rfl, rfl⟩ : m₂ = m₁ ∧ child' = child := by
        simpa using hremove'.symm.trans hremove
      exact (hchild.set_right hleft hnotLeft hnotRight hdisjoint (Set.empty_disjoint _)).settled
        hlow.2.1 (low_erase hlow.2.2)
  | @only_left fuel m current temp hzero hleftSome hrightNone =>
    cases hlinked with
    | @node _ left right leftPrint rightPrint hleft hright hnotLeft hnotRight hdisjoint =>
      rw [layout_left, hleftSome] at hleft
      cases hchild : left with
      | nil =>
        subst hchild
        cases hleft.pointer_none
      | node cell l r =>
        subst hchild
        exact (Rewritten.overwrite hleft hnotLeft (Set.Subset.refl _)).settled hlow.2.1.2.1
          hlow.2.1.2.2
  | @only_right fuel m current temp hzero hleftNone hrightSome =>
    cases hlinked with
    | @node _ left right leftPrint rightPrint hleft hright hnotLeft hnotRight hdisjoint =>
      rw [layout_right, hrightSome] at hright
      cases hchild : right with
      | nil =>
        subst hchild
        cases hright.pointer_none
      | node cell l r =>
        subst hchild
        exact (Rewritten.overwrite hright hnotRight (Set.Subset.refl _)).settled hlow.2.2.2.1
          hlow.2.2.2.2
  | @both fuel m current hzero _ _ =>
    cases hlinked with
    | node hleft hright _ _ _ =>
      exact balance_bounds (lowHeight_of_low hleft hlow.2.1) (lowHeight_of_low hright hlow.2.2)
  | @below_left fuel m m' current node hneg hbelow ih =>
    cases hlinked with
    | node hleft hright _ _ _ =>
      simp only [BinaryTree.height] at hfuel
      exact ih hleft hlow.2.1 (by omega)
  | @below_right fuel m m' current node hpos hbelow ih =>
    cases hlinked with
    | node hleft hright _ _ _ =>
      simp only [BinaryTree.height] at hfuel
      exact ih hright hlow.2.2 (by omega)

/-- No call on a represented tree comes to a rotation. -/
theorem Represents.settled {T : avl_tree_t α} {tree : BinaryTree (Cell α)} (hrep : Represents T tree)
    {input : Call α} (h : Decides data_cmp T input m node) : Settled m node := by
  obtain ⟨footprint, hlinked, hbound⟩ := hrep.linked
  cases h with
  | add data free_data write_data hget hadd =>
    have hfresh : T.brk ∉ footprint := fun h => Nat.lt_irrefl _ (hbound _ h)
    exact hadd.settled (hlinked.update _ hfresh) hrep.low (Nat.le_succ_of_le hrep.bounded) hfresh
      (Function.update_self ..)
  | remove data free_data write_data hget hremove =>
    exact hremove.settled hlinked hrep.low hrep.bounded

end Settled

end Decisions

/-- Whatever the comparison functions are, every sequence of calls on a new tree runs
through, so that no step of it follows a null pointer, and leaves nodes that hang together
as a tree without cycles. Whenever a further call decides about rotations, the node is in
balance and neither of them is called. -/
theorem rotations_never_fail (fd : Int) (blocks : Nodes α)
    (calls : List ((α → α → Int) × Call α)) :
    ∃ T, Reaches call_by (new_avl_tree fd blocks) calls T ∧
      (∃ tree footprint, Linked layout T.nodes T.root tree footprint) ∧
      (∀ input, ∃ T' reply, call_by T input = .ok (T', reply)) ∧
      ∀ data_cmp input m node, Decides data_cmp T input m node → Settled m node := by
  obtain ⟨T, hreach⟩ := (run_isAvl_iff fd blocks calls).1
  obtain ⟨tree, hrep⟩ := reaches_represents hreach
  obtain ⟨footprint, hlinked, -⟩ := hrep.linked
  refine ⟨T, hreach, ⟨tree, footprint, hlinked⟩, ?_, fun _ _ _ _ hdecides => hrep.settled hdecides⟩
  intro input
  obtain ⟨T', reply, -, hcall, -⟩ := call_represents hrep input.1 input.2
  exact ⟨T', reply, hcall⟩

end rc_project.avl_tree
