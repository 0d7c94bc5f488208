import RcProject.AvlTree.Recursion

open rc_project.linked_tree rc_project.search_tree

namespace rc_project.avl_tree

variable {α : Type}

/-- The nodes that hang from a tree form a given binary tree. Its heights are
low and every recursion over it stays within the number of nodes handed out. -/
structure Represents (T : avl_tree_t α) (tree : BinaryTree (Cell α)) : Prop where
  linked : ∃ footprint, Linked layout T.nodes T.root tree footprint ∧ ∀ a ∈ footprint, a < T.brk
  low : Low tree
  bounded : tree.height ≤ T.brk

theorem new_avl_tree_represents (fd : Int) (blocks : Nodes α) :
    Represents (new_avl_tree fd blocks) .nil where
  linked := ⟨∅, .nil, by simp⟩
  low := trivial
  bounded := Nat.le_refl _

section Trees

variable {data_cmp : α → α → Int} {T : avl_tree_t α} {tree : BinaryTree (Cell α)}

theorem private_avl_get_represents (data_cmp : α → α → Int) (hrep : Represents T tree) (data : α) :
    ∃ found, private_avl_get data_cmp T.brk T.nodes T.root data = .ok found ∧
      found.map (fun node => ((T.nodes node).height, (T.nodes node).data)) =
        find (against data_cmp data) tree := by
  obtain ⟨footprint, hlinked, -⟩ := hrep.linked
  exact private_avl_get_spec data_cmp hlinked hrep.bounded data

theorem visit_represents {ε : Type} (hrep : Represents T tree) (action : α → ε) :
    visit action T.brk T.nodes T.root = .ok ((elements tree).map action) := by
  obtain ⟨footprint, hlinked, -⟩ := hrep.linked
  exact visit_spec action hlinked hrep.bounded

theorem avl_get_represents (hrep : Represents T tree) (data : α) :
    avl_get data_cmp T data = .ok ((find (against data_cmp data) tree).map Prod.snd) := by
  obtain ⟨found, hget, hfound⟩ := private_avl_get_represents data_cmp hrep data
  simp [avl_get, hget, ← hfound, Option.map_map, Function.comp_def]

/-- An addition under a stored key changes nothing. -/
theorem avl_add_duplicated (hrep : Represents T tree) {data : α} {cell : Cell α}
    (hfind : find (against data_cmp data) tree = some cell) (free_data write_data : Bool) :
    avl_add data_cmp T data free_data write_data = .ok (AVL_DUPLICATED_KEY, T, []) := by
  obtain ⟨found, hget, hfound⟩ := private_avl_get_represents data_cmp hrep data
  have hsome : found ≠ none := by
    rintro rfl
    simp [hfind] at hfound
  simp [avl_add, hget, hsome]

/-- What a successful addition does outside the tree. -/
def addEffects (fd : Int) (data : α) (free_data write_data : Bool) : List (Effect α) :=
  (if write_data then [.write fd data] else []) ++ if free_data then [.free data] else []

/-- An addition under a new key inserts the element. -/
theorem avl_add_represents (hrep : Represents T tree) {data : α}
    (hfind : find (against data_cmp data) tree = none) (free_data write_data : Bool) :
    ∃ T', avl_add data_cmp T data free_data write_data =
        .ok (AVL_OK, T', addEffects T.fd data free_data write_data) ∧
      Represents T' (insert data_cmp data tree) ∧ T'.fd = T.fd ∧ T'.size = T.size + 1 := by
  obtain ⟨footprint, hlinked, hbound⟩ := hrep.linked
  obtain ⟨found, hget, hfound⟩ := private_avl_get_represents data_cmp hrep data
  obtain rfl : found = none := by simpa [hfind] using hfound
  have hfresh : T.brk ∉ footprint := fun h => Nat.lt_irrefl _ (hbound _ h)
  have hlinked' := hlinked.update { height := 1, data := data, left := none, right := none } hfresh
  have hfuel : tree.height ≤ T.brk + 1 := Nat.le_succ_of_le hrep.bounded
  obtain ⟨nodes, root, hadd, footprint', htree, hsub, -⟩ := private_avl_add_spec data_cmp hlinked'
    hrep.low hfuel hfresh (Function.update_self ..)
  refine ⟨{ size := T.size + 1, root := root, fd := T.fd, nodes := nodes, brk := T.brk + 1 },
    by simp [avl_add, hget, new_avl_node, hadd, addEffects],
    ⟨⟨footprint', htree, ?_⟩, low_insert hrep.low, ?_⟩, rfl, rfl⟩
  · intro a ha
    rcases hsub ha with h | rfl
    · exact Nat.lt_succ_of_lt (hbound a h)
    · exact Nat.lt_succ_self _
  · exact (height_insert_le tree).trans (Nat.succ_le_succ hrep.bounded)

/-- A removal under an absent key changes nothing. -/
theorem avl_remove_not_found (hrep : Represents T tree) {data : α}
    (hfind : find (against data_cmp data) tree = none) (free_data write_data : Bool) :
    avl_remove data_cmp T data free_data write_data = .ok (AVL_KEY_NOT_FOUND, T, []) := by
  obtain ⟨found, hget, hfound⟩ := private_avl_get_represents data_cmp hrep data
  obtain rfl : found = none := by simpa [hfind] using hfound
  simp [avl_remove, hget]

/-- What a removal that found its key does outside the tree: the elements that
remain are written again behind a truncation. -/
def removeEffects (fd : Int) (data : α) (remaining : List α) (free_data write_data : Bool) :
    List (Effect α) :=
  (if free_data then [.free data] else []) ++
    if write_data then .ftruncate fd :: remaining.map (.write fd) else []

/-- A removal under a stored key erases from the tree, and reports success
whatever that did. -/
theorem avl_remove_represents (hrep : Represents T tree) {data : α} {cell : Cell α}
    (hfind : find (against data_cmp data) tree = some cell) (free_data write_data : Bool) :
    ∃ T', avl_remove data_cmp T data free_data write_data =
        .ok (AVL_OK, T', removeEffects T.fd data (elements (erase data_cmp data tree))
          free_data write_data) ∧
      Represents T' (erase data_cmp data tree) ∧ T'.fd = T.fd ∧ T'.size = T.size := by
  obtain ⟨footprint, hlinked, hbound⟩ := hrep.linked
  obtain ⟨found, hget, hfound⟩ := private_avl_get_represents data_cmp hrep data
  have hsome : found ≠ none := by
    rintro rfl
    simp [hfind] at hfound
  obtain ⟨nodes, root, hremove, footprint', htree, hsub, -⟩ :=
    private_avl_remove_spec data_cmp hlinked hrep.low hrep.bounded data
  have hrep' : Represents { T with nodes := nodes, root := root } (erase data_cmp data tree) :=
    { linked := ⟨footprint', htree, fun a ha => hbound a ((hsub ha).resolve_right id)⟩
      low := low_erase hrep.low
      bounded := (height_erase_le tree).trans hrep.bounded }
  refine ⟨_, ?_, hrep', rfl, rfl⟩
  have hrewrite := visit_represents hrep' (Effect.write T.fd)
  cases write_data <;>
    simp [avl_remove, hget, hsome, hremove, private_avl_rewrite, hrewrite, removeEffects]

end Trees

/-- The tree holds exactly the given elements, in this order. -/
def Stores (T : avl_tree_t α) (es : List α) : Prop :=
  ∃ tree, Represents T tree ∧ elements tree = es

theorem new_avl_tree_stores (fd : Int) (blocks : Nodes α) : Stores (new_avl_tree fd blocks) [] :=
  ⟨.nil, new_avl_tree_represents fd blocks, rfl⟩

section Lists

variable {data_cmp : α → α → Int} {T : avl_tree_t α} {es : List α}

/-- A consistent key is found by the descent exactly when it is in the list. -/
theorem find_eq_find? {tree : BinaryTree (Cell α)} {data : α}
    (hcons : Consistent (data_cmp data) (elements tree)) :
    (find (against data_cmp data) tree).map Prod.snd =
      (elements tree).find? fun a => data_cmp data a = 0 := by
  ext a
  rw [hcons.find?_eq_some_iff, Option.map_eq_some_iff]
  constructor
  · rintro ⟨cell, hfind, rfl⟩
    obtain ⟨hmem, hzero⟩ := find_sound hfind
    exact ⟨List.mem_map_of_mem hmem, hzero⟩
  · rintro ⟨hmem, hzero⟩
    obtain ⟨cell, hcell, rfl⟩ := List.mem_map.mp hmem
    exact ⟨cell, find_complete (consistent_against hcons) hcell hzero, rfl⟩

theorem avl_get_stores (hstores : Stores T es) {data : α} (hcons : Consistent (data_cmp data) es) :
    avl_get data_cmp T data = .ok (es.find? fun a => data_cmp data a = 0) := by
  obtain ⟨tree, hrep, rfl⟩ := hstores
  rw [avl_get_represents hrep, find_eq_find? hcons]

/-- A key that compares equal to no element is not found, whatever way the
descent takes. -/
theorem avl_get_stores_none (hstores : Stores T es) {data : α}
    (hnone : ∀ a ∈ es, data_cmp data a ≠ 0) : avl_get data_cmp T data = .ok none := by
  obtain ⟨tree, hrep, rfl⟩ := hstores
  have hfind : find (against data_cmp data) tree = none :=
    find_eq_none_of_ne fun cell hcell => hnone cell.2 (List.mem_map_of_mem hcell)
  rw [avl_get_represents hrep, hfind, Option.map_none]

theorem avl_print_client_stores {ε : Type} (hstores : Stores T es) (send_to_client : α → ε) :
    avl_print_client T send_to_client = .ok (es.map send_to_client) := by
  obtain ⟨tree, hrep, rfl⟩ := hstores
  exact visit_represents hrep send_to_client

theorem private_avl_rewrite_stores (hstores : Stores T es) :
    private_avl_rewrite T T.root = .ok (es.map (.write T.fd)) := by
  obtain ⟨tree, hrep, rfl⟩ := hstores
  exact visit_represents hrep _

theorem avl_add_stores_duplicated (hstores : Stores T es) {data a : α}
    (hcons : Consistent (data_cmp data) es) (ha : a ∈ es) (hzero : data_cmp data a = 0)
    (free_data write_data : Bool) :
    avl_add data_cmp T data free_data write_data = .ok (AVL_DUPLICATED_KEY, T, []) := by
  obtain ⟨tree, hrep, rfl⟩ := hstores
  obtain ⟨cell, hcell, rfl⟩ := List.mem_map.mp ha
  exact avl_add_duplicated hrep (find_complete (consistent_against hcons) hcell hzero) _ _

theorem avl_add_stores (hstores : Stores T es) {data : α} (hcons : Consistent (data_cmp data) es)
    (hnew : ∀ a ∈ es, data_cmp data a ≠ 0) (free_data write_data : Bool) :
    ∃ T' before after, avl_add data_cmp T data free_data write_data =
        .ok (AVL_OK, T', addEffects T.fd data free_data write_data) ∧
      es = before ++ after ∧ Stores T' (before ++ data :: after) ∧
      (∀ a ∈ before, 0 < data_cmp data a) ∧ (∀ a ∈ after, data_cmp data a < 0) ∧
      T'.fd = T.fd := by
  obtain ⟨tree, hrep, rfl⟩ := hstores
  have hfind : find (against data_cmp data) tree = none :=
    find_eq_none_of_ne fun cell hcell => hnew cell.2 (List.mem_map_of_mem hcell)
  obtain ⟨T', hadd, hrep', hfd, -⟩ := avl_add_represents hrep hfind free_data write_data
  obtain ⟨before, after, hsplit, hinsert, hgt, hlt⟩ := elements_insert hcons hfind
  exact ⟨T', before, after, hadd, hsplit, ⟨_, hrep', hinsert⟩, hgt, hlt, hfd⟩

theorem avl_remove_stores_not_found (hstores : Stores T es) {data : α}
    (hnew : ∀ a ∈ es, data_cmp data a ≠ 0) (free_data write_data : Bool) :
    avl_remove data_cmp T data free_data write_data = .ok (AVL_KEY_NOT_FOUND, T, []) := by
  obtain ⟨tree, hrep, rfl⟩ := hstores
  exact avl_remove_not_found hrep
    (find_eq_none_of_ne fun cell hcell => hnew cell.2 (List.mem_map_of_mem hcell)) _ _

/-- A removal under a stored key either takes out the element it found or, when
that element's node has two children, nothing at all. -/
theorem avl_remove_stores (hstores : Stores T es) {data a : α}
    (hcons : Consistent (data_cmp data) es) (ha : a ∈ es) (hzero : data_cmp data a = 0)
    (free_data write_data : Bool) :
    ∃ T' before after es', es = before ++ a :: after ∧ (es' = es ∨ es' = before ++ after) ∧
      avl_remove data_cmp T data free_data write_data =
        .ok (AVL_OK, T', removeEffects T.fd data es' free_data write_data) ∧
      Stores T' es' ∧ T'.fd = T.fd := by
  obtain ⟨tree, hrep, rfl⟩ := hstores
  obtain ⟨cell, hcell, rfl⟩ := List.mem_map.mp ha
  have hfind : find (against data_cmp data) tree = some cell :=
    find_complete (consistent_against hcons) hcell hzero
  obtain ⟨T', hremove, hrep', hfd, -⟩ := avl_remove_represents hrep hfind free_data write_data
  obtain ⟨before, after, hsplit, herase⟩ := elements_erase hfind
  refine ⟨T', before, after, _, hsplit, ?_, hremove, ⟨_, hrep', rfl⟩, hfd⟩
  rw [herase]
  split
  · exact Or.inl rfl
  · exact Or.inr rfl

end Lists

end rc_project.avl_tree
