import RcProject.AvlTree.Calls
import RcProject.Library.BalancedTree

open rc_project.balanced_tree rc_project.linked_tree rc_project.search_tree rc_project.transition

namespace rc_project.avl_tree

variable {α : Type}

/-- The stored height of every node is the height of the subtree that it is the
root of. -/
def HeightsExact : BinaryTree (Cell α) → Prop
  | .nil => True
  | .node cell left right =>
    cell.1 = (max left.height right.height + 1 : Nat) ∧ HeightsExact left ∧ HeightsExact right

/-- What an AVL tree is meant to be: balanced at every node, with the heights
that its nodes store, so that the recursion of a lookup is of logarithmic depth. -/
structure avl_tree_t.IsAvl (T : avl_tree_t α) : Prop where
  balanced : ∃ tree footprint, Linked layout T.nodes T.root tree footprint ∧
    HeightBalanced tree ∧ HeightsExact tree
  shallow : ∃ depth elements, avl_print_client T id = .ok elements ∧
    2 ^ (depth / 2) ≤ elements.length + 1 ∧
    ∀ data_cmp data, ∃ found, private_avl_get data_cmp depth T.nodes T.root data = .ok found

/-- Calls that bring their comparison function along, as it may read memory that
changes between them. -/
def call_by : Machine (avl_tree_t α) ((α → α → Int) × Call α) (Reply α) :=
  fun T input => call input.1 T input.2

/-- An addition of a new element to a tree that is not empty. -/
inductive Grows (data_cmp : α → α → Int) (T : avl_tree_t α) : Call α → Prop
  | intro (data : α) (free_data write_data : Bool) (hroot : T.root ≠ none)
    (hnew : avl_get data_cmp T data = .ok none) : Grows data_cmp T (.add data free_data write_data)

section Represented

variable {T : avl_tree_t α} {tree : BinaryTree (Cell α)}

theorem length_elements (tree : BinaryTree (Cell α)) : (elements tree).length = tree.numNodes := by
  induction tree with
  | nil => rfl
  | node cell left right ihLeft ihRight =>
    simp only [elements_node, List.length_append, List.length_cons, BinaryTree.numNodes, ihLeft,
      ihRight]
    omega

theorem Represents.eq_nil_iff (hrep : Represents T tree) : T.root = none ↔ tree = .nil := by
  obtain ⟨footprint, hlinked, -⟩ := hrep.linked
  constructor
  · intro hroot
    rw [hroot] at hlinked
    exact hlinked.of_none.1
  · rintro rfl
    exact hlinked.pointer_none

/-- Balance makes the lookups shallow. -/
theorem Represents.isAvl (hrep : Represents T tree) (hbalanced : HeightBalanced tree)
    (hexact : HeightsExact tree) : T.IsAvl := by
  obtain ⟨footprint, hlinked, -⟩ := hrep.linked
  refine ⟨⟨tree, footprint, hlinked, hbalanced, hexact⟩, tree.height, elements tree, ?_, ?_, ?_⟩
  · simpa using avl_print_client_stores ⟨tree, hrep, rfl⟩ id
  · rw [length_elements]
    exact hbalanced.two_pow_le
  · intro data_cmp data
    obtain ⟨found, hget, -⟩ := private_avl_get_spec data_cmp hlinked (Nat.le_refl _) data
    exact ⟨found, hget⟩

/-- The stored heights are zero or one, so they are not those of a tree with two
levels. -/
theorem numNodes_le_of_heightsExact (hlow : Low tree) (hexact : HeightsExact tree) :
    tree.numNodes ≤ 1 := by
  cases tree with
  | nil => exact Nat.zero_le _
  | node cell left right =>
    have hheight : (max left.height right.height + 1 : Nat) = 1 := by
      have hroot := hlow.1
      have hstored := hexact.1
      omega
    have hleft : left = .nil := by
      cases left with
      | nil => rfl
      | node _ _ _ =>
        simp only [BinaryTree.height] at hheight
        omega
    have hright : right = .nil := by
      cases right with
      | nil => rfl
      | node _ _ _ =>
        simp only [BinaryTree.height] at hheight
        omega
    rw [hleft, hright]
    exact Nat.le_refl _

theorem Represents.numNodes_le (hrep : Represents T tree) (havl : T.IsAvl) : tree.numNodes ≤ 1 := by
  obtain ⟨tree', footprint', hlinked', -, hexact⟩ := havl.balanced
  obtain ⟨footprint, hlinked, -⟩ := hrep.linked
  obtain rfl : tree' = tree := hlinked'.tree_unique hlinked
  exact numNodes_le_of_heightsExact hrep.low hexact

/-- What one call does to the represented tree. -/
inductive Reshaped (data_cmp : α → α → Int) (tree : BinaryTree (Cell α)) :
    Call α → BinaryTree (Cell α) → Prop
  | same (input : Call α)
    (hold : ∀ data free_data write_data, input = .add data free_data write_data →
      find (against data_cmp data) tree ≠ none) : Reshaped data_cmp tree input tree
  | inserted (data : α) (free_data write_data : Bool)
    (hnew : find (against data_cmp data) tree = none) :
    Reshaped data_cmp tree (.add data free_data write_data) (insert data_cmp data tree)
  | erased (data : α) (free_data write_data : Bool) (cell : Cell α)
    (hfind : find (against data_cmp data) tree = some cell) :
    Reshaped data_cmp tree (.remove data free_data write_data) (erase data_cmp data tree)

/-- Every call succeeds, whatever the comparison function is. -/
theorem call_represents (hrep : Represents T tree) (data_cmp : α → α → Int) (input : Call α) :
    ∃ T' reply tree', call data_cmp T input = .ok (T', reply) ∧ Represents T' tree' ∧
      Reshaped data_cmp tree input tree' := by
  cases input with
  | add data free_data write_data =>
    cases hfind : find (against data_cmp data) tree with
    | none =>
      obtain ⟨T', hadd, hrep', -⟩ := avl_add_represents hrep hfind free_data write_data
      exact ⟨T', _, _, by simp [call, hadd]; rfl, hrep', .inserted data _ _ hfind⟩
    | some cell =>
      have hadd := avl_add_duplicated hrep hfind free_data write_data
      refine ⟨T, _, tree, by simp [call, hadd]; rfl, hrep, .same _ ?_⟩
      rintro _ _ _ ⟨⟩
      rw [hfind]
      exact Option.some_ne_none cell
  | remove data free_data write_data =>
    cases hfind : find (against data_cmp data) tree with
    | none =>
      have hremove := avl_remove_not_found hrep hfind free_data write_data
      refine ⟨T, _, tree, by simp [call, hremove]; rfl, hrep, .same _ ?_⟩
      rintro _ _ _ ⟨⟩
    | some cell =>
      obtain ⟨T', hremove, hrep', -⟩ := avl_remove_represents hrep hfind free_data write_data
      exact ⟨T', _, _, by simp [call, hremove]; rfl, hrep', .erased data _ _ cell hfind⟩
  | get data =>
    have hget : avl_get data_cmp T data = _ := avl_get_represents hrep data
    refine ⟨T, _, tree, by simp [call, hget]; rfl, hrep, .same _ ?_⟩
    rintro _ _ _ ⟨⟩

theorem Represents.step {T' : avl_tree_t α} {reply : Reply α} {input : (α → α → Int) × Call α}
    (hrep : Represents T tree) (hcall : call_by T input = .ok (T', reply)) :
    ∃ tree', Represents T' tree' ∧ Reshaped input.1 tree input.2 tree' := by
  obtain ⟨T'', reply', tree', hcall', hrep', hreshaped⟩ := call_represents hrep input.1 input.2
  obtain ⟨rfl, rfl⟩ : T'' = T' ∧ reply' = reply := by simpa [call_by, hcall'] using hcall
  exact ⟨tree', hrep', hreshaped⟩

/-- A call grows a tree exactly if it inserts into one that holds something. -/
theorem Represents.grows_iff (hrep : Represents T tree) {data_cmp : α → α → Int} {input : Call α} :
    Grows data_cmp T input ↔ ∃ data free_data write_data,
      input = .add data free_data write_data ∧ tree ≠ .nil ∧
        find (against data_cmp data) tree = none := by
  have hget (data : α) : avl_get data_cmp T data = .ok none ↔
      find (against data_cmp data) tree = none := by
    rw [avl_get_represents hrep, Except.ok.injEq, Option.map_eq_none_iff]
  constructor
  · rintro ⟨data, free_data, write_data, hroot, hnew⟩
    exact ⟨data, free_data, write_data, rfl, mt hrep.eq_nil_iff.mpr hroot, (hget data).mp hnew⟩
  · rintro ⟨data, free_data, write_data, rfl, htree, hnew⟩
    exact .intro data free_data write_data (mt hrep.eq_nil_iff.mp htree) ((hget data).mpr hnew)

end Represented

section Runs

variable {T T' : avl_tree_t α} {tree : BinaryTree (Cell α)} {fd : Int} {blocks : Nodes α}

/-- The trees whose heights have not been touched: the empty one, and a leaf as
it was created. -/
def Untouched (tree : BinaryTree (Cell α)) : Prop :=
  tree = .nil ∨ ∃ data, tree = .node (1, data) .nil .nil

theorem Untouched.isAvl (hrep : Represents T tree) (huntouched : Untouched tree) : T.IsAvl := by
  apply hrep.isAvl
  · obtain rfl | ⟨data, rfl⟩ := huntouched <;> simp [HeightBalanced]
  · obtain rfl | ⟨data, rfl⟩ := huntouched <;> simp [HeightsExact]

theorem numNodes_insert {data_cmp : α → α → Int} {data : α}
    (hnew : find (against data_cmp data) tree = none) :
    (insert data_cmp data tree).numNodes = tree.numNodes + 1 := by
  induction tree with
  | nil => rfl
  | node cell left right ihLeft ihRight =>
    rcases lt_trichotomy (against data_cmp data cell) 0 with hneg | hzero | hpos
    · rw [insert_of_neg hneg]
      simp only [BinaryTree.numNodes, ihLeft (find_of_neg hneg ▸ hnew)]
      omega
    · simp [find_of_zero hzero] at hnew
    · rw [insert_of_pos hpos]
      simp only [BinaryTree.numNodes, ihRight (find_of_pos hpos ▸ hnew)]
      omega

/-- A call that does not grow the tree leaves it untouched. -/
theorem Untouched.step {data_cmp : α → α → Int} {input : Call α} {tree' : BinaryTree (Cell α)}
    (huntouched : Untouched tree) (hrep : Represents T tree)
    (hsmall : ¬ Grows data_cmp T input) (hreshaped : Reshaped data_cmp tree input tree') :
    Untouched tree' := by
  cases hreshaped with
  | same => exact huntouched
  | inserted data free_data write_data hnew =>
    have hnil : tree = .nil := by
      by_contra htree
      exact hsmall (hrep.grows_iff.mpr ⟨data, free_data, write_data, rfl, htree, hnew⟩)
    subst hnil
    exact Or.inr ⟨data, rfl⟩
  | erased data free_data write_data cell hfind =>
    obtain rfl | ⟨stored, rfl⟩ := huntouched
    · cases hfind
    · obtain ⟨hmem, hzero⟩ := find_sound hfind
      obtain rfl : cell = (1, stored) := by simpa using hmem
      left
      rw [erase_of_zero hzero]
      rfl

theorem reaches_represents {calls : List ((α → α → Int) × Call α)}
    (hreach : Reaches call_by (new_avl_tree fd blocks) calls T) : ∃ tree, Represents T tree :=
  hreach.invariant (fun T => ∃ tree, Represents T tree) ⟨.nil, new_avl_tree_represents fd blocks⟩
    fun _ _ _ _ ⟨_, hrep⟩ hcall => by
      obtain ⟨tree', hrep', -⟩ := hrep.step hcall
      exact ⟨tree', hrep'⟩

/-- Additions alone leave a tree untouched until it has two nodes. -/
theorem reaches_adds {calls : List ((α → α → Int) × Call α)}
    (hadds : ∀ input ∈ calls, ∃ data free_data write_data,
      input.2 = .add data free_data write_data)
    (hreach : Reaches call_by (new_avl_tree fd blocks) calls T) :
    ∃ tree, Represents T tree ∧ (Untouched tree ∨ 2 ≤ tree.numNodes) := by
  induction calls using List.reverseRecOn generalizing T with
  | nil =>
    rw [reaches_nil_iff.mp hreach]
    exact ⟨.nil, new_avl_tree_represents fd blocks, Or.inl (Or.inl rfl)⟩
  | append_singleton past input ih =>
    obtain ⟨T₀, reply, hreach₀, hcall⟩ := reaches_snoc_iff.mp hreach
    obtain ⟨tree, hrep, hcases⟩ :=
      ih (fun other hother => hadds other (List.mem_append_left _ hother)) hreach₀
    obtain ⟨tree', hrep', hreshaped⟩ := hrep.step hcall
    refine ⟨tree', hrep', ?_⟩
    obtain ⟨data, free_data, write_data, hinput⟩ := hadds input (by simp)
    rw [hinput] at hreshaped
    cases hreshaped with
    | same => exact hcases
    | inserted _ _ _ hnew =>
      by_cases hnil : tree = .nil
      · subst hnil
        exact Or.inl (Or.inr ⟨data, rfl⟩)
      · right
        rw [numNodes_insert hnew]
        cases tree with
        | nil => exact absurd rfl hnil
        | node _ _ _ =>
          simp only [BinaryTree.numNodes]
          omega

/-- A tree that was only added to is an AVL tree as long as it has one node. -/
theorem isAvl_of_adds_iff {calls : List ((α → α → Int) × Call α)}
    (hadds : ∀ input ∈ calls, ∃ data free_data write_data,
      input.2 = .add data free_data write_data)
    (hreach : Reaches call_by (new_avl_tree fd blocks) calls T) {es : List α}
    (hprint : avl_print_client T id = .ok es) : T.IsAvl ↔ es.length ≤ 1 := by
  obtain ⟨tree, hrep, hcases⟩ := reaches_adds hadds hreach
  have hprint' := avl_print_client_stores ⟨tree, hrep, rfl⟩ id
  rw [hprint, Except.ok.injEq, List.map_id] at hprint'
  rw [hprint', length_elements]
  constructor
  · exact hrep.numNodes_le
  · intro hle
    obtain huntouched | htwo := hcases
    · exact huntouched.isAvl hrep
    · omega

/-- Every sequence of calls runs through. In all states of the run the tree is an
AVL tree exactly if no call grows a tree that is not empty. -/
theorem run_isAvl_iff (fd : Int) (blocks : Nodes α) (calls : List ((α → α → Int) × Call α)) :
    (∃ T, Reaches call_by (new_avl_tree fd blocks) calls T) ∧
      ((∀ past T, past <+: calls → Reaches call_by (new_avl_tree fd blocks) past T → T.IsAvl) ↔
        ∀ past input T, past ++ [input] <+: calls →
          Reaches call_by (new_avl_tree fd blocks) past T → ¬ Grows input.1 T input.2) := by
  have htotal (calls : List ((α → α → Int) × Call α)) :
      ∃ T, Reaches call_by (new_avl_tree fd blocks) calls T := by
    have hnext (T : avl_tree_t α) (input : (α → α → Int) × Call α) (hrep : ∃ tree, Represents T tree) :
        ∃ T' reply, call_by T input = .ok (T', reply) ∧ ∃ tree, Represents T' tree := by
      obtain ⟨tree, hrep⟩ := hrep
      obtain ⟨T', reply, tree', hcall, hrep', -⟩ := call_represents hrep input.1 input.2
      exact ⟨T', reply, hcall, tree', hrep'⟩
    obtain ⟨T, replies, hrun, -⟩ := run_total (fun T => ∃ tree, Represents T tree)
      ⟨.nil, new_avl_tree_represents fd blocks⟩ hnext calls
    exact ⟨T, replies, hrun⟩
  refine ⟨htotal calls, ?_, ?_⟩
  · intro havl past input T hprefix hreach hgrows
    obtain ⟨T', hreach'⟩ := htotal (past ++ [input])
    obtain ⟨T₀, reply, hreach₀, hcall⟩ := reaches_snoc_iff.mp hreach'
    obtain rfl : T₀ = T := hreach₀.unique hreach
    obtain ⟨tree, hrep⟩ := reaches_represents hreach
    obtain ⟨data, free_data, write_data, hinput, htree, hnew⟩ := hrep.grows_iff.mp hgrows
    obtain ⟨tree', hrep', hreshaped⟩ := hrep.step hcall
    have hnodes : tree'.numNodes = tree.numNodes + 1 := by
      rw [hinput] at hreshaped
      cases hreshaped with
      | same _ hold => exact absurd hnew (hold data _ _ rfl)
      | inserted => exact numNodes_insert hnew
    have hpos : tree.numNodes ≠ 0 := by
      cases tree with
      | nil => exact absurd rfl htree
      | node _ _ _ => simp
    have hle := hrep'.numNodes_le (havl _ _ hprefix hreach')
    omega
  · intro hsmall past T hprefix hreach
    have huntouched : ∃ tree, Represents T tree ∧ Untouched tree := by
      induction past using List.reverseRecOn generalizing T with
      | nil =>
        rw [reaches_nil_iff.mp hreach]
        exact ⟨.nil, new_avl_tree_represents fd blocks, Or.inl rfl⟩
      | append_singleton past input ih =>
        obtain ⟨T₀, reply, hreach₀, hcall⟩ := reaches_snoc_iff.mp hreach
        obtain ⟨tree, hrep, huntouched⟩ :=
          ih T₀ ((List.prefix_append past [input]).trans hprefix) hreach₀
        obtain ⟨tree', hrep', hreshaped⟩ := hrep.step hcall
        exact ⟨tree', hrep', huntouched.step hrep (hsmall past input T₀ hprefix hreach₀) hreshaped⟩
    obtain ⟨tree, hrep, huntouched⟩ := huntouched
    exact huntouched.isAvl hrep

end Runs

end rc_project.avl_tree
