import RcProject.AvlTree.Operations
import RcProject.Library.Blocks

open rc_project.avl_tree rc_project.blocks rc_project.search_tree

namespace rc_project.server

variable {β : Type} {order : β → β → Int} {S : Set β} {blocks : Blocks β} {T : avl_tree_t Nat}
  {es : List Nat}

/-- A tree of addresses that is ordered by what the blocks at these addresses
hold. The order is lawful on the values that the tree may hold. -/
structure Index (order : β → β → Int) (S : Set β) (blocks : Blocks β) (T : avl_tree_t Nat)
    (es : List Nat) : Prop where
  lawful : LawfulOn order S
  stores : Stores T es
  increasing : Increasing (Function.onFun order blocks.contents) es
  allocated : ∀ a ∈ es, a < blocks.brk
  valid : ∀ a ∈ es, blocks.contents a ∈ S

theorem new_avl_tree_index (hlaw : LawfulOn order S) (blocks : Blocks β) (fd : Int)
    (nodes : Nodes Nat) : Index order S blocks (new_avl_tree fd nodes) [] where
  lawful := hlaw
  stores := new_avl_tree_stores fd nodes
  increasing := List.Pairwise.nil
  allocated := by simp
  valid := by simp

namespace Index

/-- An order of the values orders the blocks that hold them. -/
theorem lawful_contents (h : Index order S blocks T es) (contents : Nat → β) :
    LawfulOn (Function.onFun order contents) {a | contents a ∈ S} where
  neg_iff_pos _ ha _ hb := h.lawful.neg_iff_pos ha hb
  trans _ ha _ hb _ hc := h.lawful.trans ha hb hc

/-- Blocks may change as long as the order of the stored ones stays. -/
theorem congr {blocks' : Blocks β} (h : Index order S blocks T es)
    (hbrk : blocks.brk ≤ blocks'.brk)
    (horder : ∀ a ∈ es, ∀ b ∈ es, order (blocks'.contents a) (blocks'.contents b) =
      order (blocks.contents a) (blocks.contents b))
    (hvalid : ∀ a ∈ es, blocks'.contents a ∈ S) : Index order S blocks' T es where
  lawful := h.lawful
  stores := h.stores
  increasing := h.increasing.congr horder
  allocated a ha := (h.allocated a ha).trans_le hbrk
  valid := hvalid

/-- The next block does not disturb the stored ones. -/
theorem alloc (h : Index order S blocks T es) (value : β) :
    Index order S (blocks.alloc value) T es := by
  have hsame (a : Nat) (ha : a ∈ es) : (blocks.alloc value).contents a = blocks.contents a :=
    blocks.alloc_of_lt (h.allocated a ha)
  refine h.congr (Nat.le_succ _) ?_ ?_
  · intro a ha b hb
    rw [hsame a ha, hsame b hb]
  · intro a ha
    rw [hsame a ha]
    exact h.valid a ha

/-- The comparison of the next block with a stored one. -/
theorem onFun_scratch (h : Index order S blocks T es) (value : β) {a : Nat} (ha : a ∈ es) :
    Function.onFun order (blocks.scratch value).contents blocks.brk a =
      order value (blocks.contents a) := by
  simp only [Function.onFun, Blocks.scratch_self, blocks.scratch_of_lt (h.allocated a ha)]

theorem consistent_scratch (h : Index order S blocks T es) {value : β} (hvalue : value ∈ S) :
    Consistent (Function.onFun order (blocks.scratch value).contents blocks.brk) es :=
  (h.alloc value).increasing.consistent (h.lawful_contents (blocks.scratch value).contents)
    (fun a ha => (h.alloc value).valid a ha) (by simpa using hvalue)

/-- A lookup by a value finds the stored block whose value compares equal. The
value is one that the tree may hold, or compares equal to none. -/
theorem avl_get_spec (h : Index order S blocks T es) {value : β}
    (hvalue : value ∈ S ∨ ∀ a ∈ es, order value (blocks.contents a) ≠ 0) :
    ∃ found, avl_get (Function.onFun order (blocks.scratch value).contents) T blocks.brk =
        .ok found ∧
      ∀ a, found = some a ↔ a ∈ es ∧ order value (blocks.contents a) = 0 := by
  obtain hvalue | hnone := hvalue
  · have hcons := h.consistent_scratch hvalue
    refine ⟨_, avl_get_stores h.stores hcons, ?_⟩
    intro a
    rw [hcons.find?_eq_some_iff]
    constructor
    · rintro ⟨ha, hzero⟩
      exact ⟨ha, h.onFun_scratch value ha ▸ hzero⟩
    · rintro ⟨ha, hzero⟩
      exact ⟨ha, (h.onFun_scratch value ha).trans hzero⟩
  · refine ⟨none, avl_get_stores_none h.stores ?_, ?_⟩
    · intro a ha
      rw [h.onFun_scratch value ha]
      exact hnone a ha
    · intro a
      constructor
      · intro hfound
        cases hfound
      · rintro ⟨ha, hzero⟩
        exact absurd hzero (hnone a ha)

/-- An addition of a new value stores the next block. -/
theorem avl_add_spec (h : Index order S blocks T es) {value : β} (hvalue : value ∈ S)
    (hnew : ∀ a ∈ es, order value (blocks.contents a) ≠ 0) (free_data write_data : Bool) :
    ∃ T' before after, avl_add (Function.onFun order (blocks.alloc value).contents) T blocks.brk
        free_data write_data = .ok (AVL_OK, T', addEffects T.fd blocks.brk free_data write_data) ∧
      es = before ++ after ∧
      Index order S (blocks.alloc value) T' (before ++ blocks.brk :: after) := by
  have hnew' (a : Nat) (ha : a ∈ es) :
      Function.onFun order (blocks.scratch value).contents blocks.brk a ≠ 0 := by
    rw [h.onFun_scratch value ha]
    exact hnew a ha
  have hself : (blocks.alloc value).contents blocks.brk ∈ S := by simpa using hvalue
  obtain ⟨T', before, after, hadd, hsplit, hstores, hbefore, hafter, -⟩ :=
    avl_add_stores h.stores (h.consistent_scratch hvalue) hnew' free_data write_data
  have hbrk := h.alloc value
  subst hsplit
  refine ⟨T', before, after, hadd, rfl, h.lawful, hstores, ?_, ?_, ?_⟩
  · exact hbrk.increasing.insert_between (h.lawful_contents _) hself
      (fun a ha => hbrk.valid a (List.mem_append_left _ ha)) hbefore hafter
  · intro a ha
    obtain ha | rfl | ha : a ∈ before ∨ a = blocks.brk ∨ a ∈ after := by simpa using ha
    · exact hbrk.allocated a (List.mem_append_left _ ha)
    · exact Nat.lt_succ_self _
    · exact hbrk.allocated a (List.mem_append_right _ ha)
  · intro a ha
    obtain ha | rfl | ha : a ∈ before ∨ a = blocks.brk ∨ a ∈ after := by simpa using ha
    · exact hbrk.valid a (List.mem_append_left _ ha)
    · exact hself
    · exact hbrk.valid a (List.mem_append_right _ ha)

theorem avl_add_duplicated (h : Index order S blocks T es) {value : β} (hvalue : value ∈ S)
    {a : Nat} (ha : a ∈ es) (hzero : order value (blocks.contents a) = 0)
    (free_data write_data : Bool) :
    avl_add (Function.onFun order (blocks.alloc value).contents) T blocks.brk free_data write_data =
      .ok (AVL_DUPLICATED_KEY, T, []) :=
  avl_add_stores_duplicated h.stores (h.consistent_scratch hvalue) ha
    ((h.onFun_scratch value ha).trans hzero) free_data write_data

/-- A removal takes out the stored block or, where its node has two children,
nothing. -/
theorem avl_remove_spec (h : Index order S blocks T es) {value : β} (hvalue : value ∈ S)
    {a : Nat} (ha : a ∈ es) (hzero : order value (blocks.contents a) = 0)
    (free_data write_data : Bool) :
    ∃ T' before after es', es = before ++ a :: after ∧ (es' = es ∨ es' = before ++ after) ∧
      avl_remove (Function.onFun order (blocks.scratch value).contents) T blocks.brk
        free_data write_data =
          .ok (AVL_OK, T', removeEffects T.fd blocks.brk es' free_data write_data) ∧
      Index order S blocks T' es' := by
  obtain ⟨T', before, after, es', hsplit, hes', hremove, hstores, -⟩ :=
    avl_remove_stores h.stores (h.consistent_scratch hvalue) ha
      ((h.onFun_scratch value ha).trans hzero) free_data write_data
  have hsublist : List.Sublist es' es := by
    obtain rfl | rfl := hes'
    · exact List.Sublist.refl _
    · rw [hsplit]
      exact List.Sublist.append_left (List.sublist_cons_self a after) before
  exact ⟨T', before, after, es', hsplit, hes', hremove, h.lawful, hstores,
    List.Pairwise.sublist hsublist h.increasing, fun b hb => h.allocated b (hsublist.subset hb),
    fun b hb => h.valid b (hsublist.subset hb)⟩

theorem avl_remove_not_found (h : Index order S blocks T es) {value : β}
    (hnew : ∀ a ∈ es, order value (blocks.contents a) ≠ 0) (free_data write_data : Bool) :
    avl_remove (Function.onFun order (blocks.scratch value).contents) T blocks.brk
      free_data write_data = .ok (AVL_KEY_NOT_FOUND, T, []) := by
  refine avl_remove_stores_not_found h.stores ?_ free_data write_data
  intro a ha
  rw [h.onFun_scratch value ha]
  exact hnew a ha

/-- Two stored blocks that compare equal are one. -/
theorem eq_of_zero (h : Index order S blocks T es) {a b : Nat} (ha : a ∈ es) (hb : b ∈ es)
    (hzero : order (blocks.contents a) (blocks.contents b) = 0) : a = b :=
  h.increasing.eq_of_zero (h.lawful_contents blocks.contents) h.valid ha hb hzero

end Index

end rc_project.server
