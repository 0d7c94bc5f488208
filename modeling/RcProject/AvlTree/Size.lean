import RcProject.AvlTree.Balance

open rc_project.linked_tree rc_project.search_tree rc_project.transition

namespace rc_project.avl_tree

variable {α : Type}

/-- The size field is the number of nodes that hang from the root. -/
def avl_tree_t.Counted (T : avl_tree_t α) : Prop :=
  ∃ tree footprint, Linked layout T.nodes T.root tree footprint ∧ tree.numNodes = T.size

/-- A removal that takes a node out of the tree: it finds its key in a node that
lacks a child. -/
inductive Unlinks (data_cmp : α → α → Int) (T : avl_tree_t α) : Call α → Prop
  | intro (data : α) (free_data write_data : Bool) {node : Nat}
    (hnode : private_avl_get data_cmp T.brk T.nodes T.root data = .ok (some node))
    (hchild : (T.nodes node).left = none ∨ (T.nodes node).right = none) :
    Unlinks data_cmp T (.remove data free_data write_data)

/-- An erasure takes out one node, or none where the node has both children. -/
theorem numNodes_erase {data_cmp : α → α → Int} {data : α} {tree : BinaryTree (Cell α)}
    {cell : Cell α} (hfind : find (against data_cmp data) tree = some cell) :
    tree.numNodes = (erase data_cmp data tree).numNodes +
      if bothChildren (against data_cmp data) tree then 0 else 1 := by
  obtain ⟨before, after, hsplit, herase⟩ := elements_erase hfind
  rw [← length_elements, ← length_elements, herase]
  split
  · rfl
  · simp only [hsplit, List.length_append, List.length_cons]
    omega

section Represented

variable {T T' : avl_tree_t α} {tree : BinaryTree (Cell α)} {data_cmp : α → α → Int}

theorem Represents.counted_iff (hrep : Represents T tree) : T.Counted ↔ tree.numNodes = T.size := by
  obtain ⟨footprint, hlinked, -⟩ := hrep.linked
  constructor
  · intro hcounted
    obtain ⟨tree', footprint', hlinked', hcount⟩ := hcounted
    obtain rfl : tree' = tree := hlinked'.tree_unique hlinked
    exact hcount
  · intro hcount
    exact ⟨tree, footprint, hlinked, hcount⟩

/-- A removal under a stored key takes a node out exactly if it is not the root of
two subtrees. -/
theorem Represents.unlinks_iff (hrep : Represents T tree) {data : α} {cell : Cell α}
    (hfind : find (against data_cmp data) tree = some cell) (free_data write_data : Bool) :
    Unlinks data_cmp T (.remove data free_data write_data) ↔
      ¬ bothChildren (against data_cmp data) tree = true := by
  obtain ⟨footprint, hlinked, -⟩ := hrep.linked
  obtain ⟨found, hget, hfound⟩ := private_avl_get_represents data_cmp hrep data
  obtain ⟨node, rfl⟩ : ∃ node, found = some node := by
    rw [hfind, Option.map_eq_some_iff] at hfound
    obtain ⟨node, hnode, -⟩ := hfound
    exact ⟨node, hnode⟩
  rw [private_avl_get_children data_cmp hlinked hget, not_and_or, not_not, not_not]
  constructor
  · intro hunlinks
    obtain ⟨_, _, _, hnode, hchild⟩ := hunlinks
    rw [hget, Except.ok.injEq, Option.some.injEq] at hnode
    rwa [hnode]
  · intro hchild
    exact .intro data free_data write_data hget hchild

/-- A call that is no removal takes no node out. -/
theorem not_unlinks_of_ne {input : Call α}
    (hne : ∀ data free_data write_data, input ≠ .remove data free_data write_data) :
    ¬ Unlinks data_cmp T input := by
  intro hunlinks
  obtain ⟨data, free_data, write_data, -, -⟩ := hunlinks
  exact hne data free_data write_data rfl

/-- A removal under an absent key takes no node out. -/
theorem Represents.not_unlinks (hrep : Represents T tree) {data : α}
    (hfind : find (against data_cmp data) tree = none) (free_data write_data : Bool) :
    ¬ Unlinks data_cmp T (.remove data free_data write_data) := by
  intro hunlinks
  obtain ⟨_, _, _, hnode, -⟩ := hunlinks
  obtain ⟨found, hget, hfound⟩ := private_avl_get_represents data_cmp hrep data
  rw [hget, Except.ok.injEq] at hnode
  rw [hnode, hfind] at hfound
  cases hfound

/-- The size field follows the number of nodes in every call but those that take a
node out. -/
theorem Represents.call_size (hrep : Represents T tree) {input : Call α} {reply : Reply α}
    (hcall : call data_cmp T input = .ok (T', reply)) :
    ∃ tree', Represents T' tree' ∧
      ((Unlinks data_cmp T input ∧ T'.size = T.size ∧ tree.numNodes = tree'.numNodes + 1) ∨
        (¬ Unlinks data_cmp T input ∧ T'.size + tree.numNodes = T.size + tree'.numNodes)) := by
  cases input with
  | add data free_data write_data =>
    cases hfind : find (against data_cmp data) tree with
    | none =>
      obtain ⟨T₁, hadd, hrep', -, hsize⟩ := avl_add_represents hrep hfind free_data write_data
      obtain ⟨rfl, -⟩ : T₁ = T' ∧ _ = reply := by simpa [call, hadd] using hcall
      have hnodes := numNodes_insert hfind
      exact ⟨_, hrep', Or.inr ⟨not_unlinks_of_ne (by simp), by omega⟩⟩
    | some cell =>
      have hadd := avl_add_duplicated hrep hfind free_data write_data
      obtain ⟨rfl, -⟩ : T = T' ∧ _ = reply := by simpa [call, hadd] using hcall
      exact ⟨tree, hrep, Or.inr ⟨not_unlinks_of_ne (by simp), rfl⟩⟩
  | remove data free_data write_data =>
    cases hfind : find (against data_cmp data) tree with
    | none =>
      have hremove := avl_remove_not_found hrep hfind free_data write_data
      obtain ⟨rfl, -⟩ : T = T' ∧ _ = reply := by simpa [call, hremove] using hcall
      exact ⟨tree, hrep, Or.inr ⟨hrep.not_unlinks hfind _ _, rfl⟩⟩
    | some cell =>
      obtain ⟨T₁, hremove, hrep', -, hsize⟩ := avl_remove_represents hrep hfind free_data write_data
      obtain ⟨rfl, -⟩ : T₁ = T' ∧ _ = reply := by simpa [call, hremove] using hcall
      refine ⟨_, hrep', ?_⟩
      have hnodes := numNodes_erase hfind
      rw [hrep.unlinks_iff hfind]
      by_cases hboth : bothChildren (against data_cmp data) tree = true
      · rw [if_pos hboth] at hnodes
        exact Or.inr ⟨not_not.mpr hboth, by omega⟩
      · rw [if_neg hboth] at hnodes
        exact Or.inl ⟨hboth, hsize, hnodes⟩
  | get data =>
    have hget : avl_get data_cmp T data = _ := avl_get_represents hrep data
    obtain ⟨rfl, -⟩ : T = T' ∧ _ = reply := by simpa [call, hget] using hcall
    exact ⟨tree, hrep, Or.inr ⟨not_unlinks_of_ne (by simp), rfl⟩⟩

end Represented

section Runs

variable {T : avl_tree_t α} {fd : Int} {blocks : Nodes α}
  {calls : List ((α → α → Int) × Call α)}

/-- No call of a sequence takes a node out of the tree that the calls before it
lead to. -/
def UnlinksNone (fd : Int) (blocks : Nodes α) (calls : List ((α → α → Int) × Call α)) : Prop :=
  ∀ past input T, past ++ [input] <+: calls →
    Reaches call_by (new_avl_tree fd blocks) past T → ¬ Unlinks input.1 T input.2

theorem UnlinksNone.of_prefix {past : List ((α → α → Int) × Call α)}
    (hnone : UnlinksNone fd blocks calls) (hbefore : past <+: calls) :
    UnlinksNone fd blocks past :=
  fun past' input T hbefore' => hnone past' input T (hbefore'.trans hbefore)

theorem unlinksNone_snoc_iff {input : (α → α → Int) × Call α}
    (hreach : Reaches call_by (new_avl_tree fd blocks) calls T) :
    UnlinksNone fd blocks (calls ++ [input]) ↔
      UnlinksNone fd blocks calls ∧ ¬ Unlinks input.1 T input.2 := by
  constructor
  · intro hnone
    exact ⟨hnone.of_prefix (List.prefix_append calls [input]),
      hnone calls input T (List.prefix_refl _) hreach⟩
  · rintro ⟨hnone, hlast⟩ past input' T' hbefore hreach'
    obtain heq | hbefore := List.prefix_concat_iff.mp hbefore
    · obtain ⟨rfl, heq⟩ := List.append_inj' heq rfl
      obtain rfl : input' = input := by simpa using heq
      obtain rfl : T' = T := hreach'.unique hreach
      exact hlast
    · exact hnone past input' T' hbefore hreach'

/-- The size field never falls behind the number of nodes. It is ahead of it from the
first removal on that takes a node out. -/
theorem reaches_size (hreach : Reaches call_by (new_avl_tree fd blocks) calls T) :
    ∃ tree, Represents T tree ∧ tree.numNodes ≤ T.size ∧
      (tree.numNodes = T.size ↔ UnlinksNone fd blocks calls) := by
  refine hreach.history (fun calls T => ∃ tree, Represents T tree ∧ tree.numNodes ≤ T.size ∧
    (tree.numNodes = T.size ↔ UnlinksNone fd blocks calls)) ?_ ?_
  · refine ⟨.nil, new_avl_tree_represents fd blocks, Nat.le_refl _, fun _ => ?_, fun _ => rfl⟩
    intro past input T hbefore
    simp at hbefore
  · rintro past T input T' reply hreach ⟨tree, hrep, hle, hiff⟩ hcall
    obtain ⟨tree', hrep', hcases⟩ := hrep.call_size hcall
    refine ⟨tree', hrep', ?_⟩
    rw [unlinksNone_snoc_iff hreach, ← hiff]
    obtain ⟨hunlinks, hsize, hnodes⟩ | ⟨hkeeps, hsize⟩ := hcases
    · refine ⟨by omega, fun heq => ?_, fun h => absurd hunlinks h.2⟩
      omega
    · refine ⟨by omega, fun heq => ⟨by omega, hkeeps⟩, fun h => ?_⟩
      have heq := h.1
      omega

/-- Every sequence of calls runs through. After each call of it the size field is the
number of nodes exactly if no call is a removal that takes a node out. -/
theorem size_counted_iff (fd : Int) (blocks : Nodes α) (calls : List ((α → α → Int) × Call α)) :
    (∃ T, Reaches call_by (new_avl_tree fd blocks) calls T) ∧
      ((∀ past T, past <+: calls → Reaches call_by (new_avl_tree fd blocks) past T → T.Counted) ↔
        UnlinksNone fd blocks calls) := by
  have htotal := (run_isAvl_iff fd blocks calls).1
  refine ⟨htotal, ?_, ?_⟩
  · intro hcounted
    obtain ⟨T, hreach⟩ := htotal
    obtain ⟨tree, hrep, -, hiff⟩ := reaches_size hreach
    exact hiff.mp (hrep.counted_iff.mp (hcounted calls T (List.prefix_refl calls) hreach))
  · intro hnone past T hbefore hreach
    obtain ⟨tree, hrep, -, hiff⟩ := reaches_size hreach
    exact hrep.counted_iff.mpr (hiff.mpr (hnone.of_prefix hbefore))

end Runs

/-- A tree to which 2 was added, and that was asked to remove it again, is empty and
has the size one. -/
theorem removed_still_counted :
    ∃ T, Reaches call_by (new_avl_tree 3 blank)
        [(difference, .add 2 false true), (difference, .remove 2 true true)] T ∧
      T.root = none ∧ T.size = 1 ∧ ¬ T.Counted := by
  have hroot : (run call_by (new_avl_tree 3 blank) [(difference, .add 2 false true),
      (difference, .remove 2 true true)]).map (fun result => (result.1.root, result.1.size)) =
      .ok (none, 1) := by decide
  obtain ⟨T, replies, hrun⟩ := (run_isAvl_iff 3 blank [(difference, .add 2 false true),
    (difference, .remove 2 true true)]).1
  rw [hrun] at hroot
  obtain ⟨hroot, hsize⟩ : T.root = none ∧ T.size = 1 := by simpa [Except.map] using hroot
  refine ⟨T, ⟨replies, hrun⟩, hroot, hsize, ?_⟩
  intro hcounted
  obtain ⟨tree, footprint, hlinked, hcount⟩ := hcounted
  rw [hroot] at hlinked
  rw [hlinked.of_none.1, hsize] at hcount
  cases hcount

end rc_project.avl_tree
