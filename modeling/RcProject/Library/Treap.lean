import RcProject.Library.SearchTree

open rc_project.search_tree

namespace rc_project.treap

variable {β : Type} {R R' : β → β → Prop} {tree left right : BinaryTree β} {value found : β}
  {key : β → Int}

/-- Every value is related to all values below it, as each node of a heap is. -/
def HeapOrdered (R : β → β → Prop) : BinaryTree β → Prop
  | .nil => True
  | .node value left right => (∀ below ∈ inorder left ++ inorder right, R value below) ∧
      HeapOrdered R left ∧ HeapOrdered R right

theorem HeapOrdered.mono (h : HeapOrdered R tree)
    (hsub : ∀ a ∈ inorder tree, ∀ b ∈ inorder tree, R a b → R' a b) : HeapOrdered R' tree := by
  induction tree with
  | nil => trivial
  | node value left right ihLeft ihRight =>
    obtain ⟨hroot, hleft, hright⟩ := h
    refine ⟨fun below hmem => ?_, ?_, ?_⟩
    · have hbelow : below ∈ inorder (.node value left right) := by
        simp only [inorder_node, List.mem_append, List.mem_cons] at hmem ⊢
        tauto
      exact hsub value (by simp) below hbelow (hroot below hmem)
    · exact ihLeft hleft fun a ha b hb => hsub a (by simp [ha]) b (by simp [hb])
    · exact ihRight hright fun a ha b hb => hsub a (by simp [ha]) b (by simp [hb])

/-- The values in front of a key, from left to right. -/
def below (key : β → Int) (values : List β) : List β := values.filter fun value => 0 < key value

/-- The values behind a key. -/
def above (key : β → Int) (values : List β) : List β := values.filter fun value => key value < 0

section Neighbours

/-- Left of a value that a key is not in front of, the key is in front of none. -/
theorem pos_of_mem_left {values rest : List β} {y : β}
    (hcons : Consistent key (values ++ y :: rest)) (hy : 0 ≤ key y) : ∀ a ∈ values, 0 < key a := by
  intro a ha
  by_contra hnot
  have hneg := (List.pairwise_append.mp hcons).2.2 a ha y (by simp) (by omega)
  omega

theorem neg_of_mem_right {values rest : List β} {y : β}
    (hcons : Consistent key (values ++ y :: rest)) (hy : key y ≤ 0) : ∀ a ∈ rest, key a < 0 := by
  intro a ha
  have hrest := (List.pairwise_append.mp hcons).2.1
  exact (List.pairwise_cons.mp hrest).1 a ha hy

theorem below_of_pos {values : List β} (hpos : ∀ a ∈ values, 0 < key a) :
    below key values = values := by
  simpa [below, List.filter_eq_self] using hpos

theorem below_of_neg {values : List β} (hneg : ∀ a ∈ values, key a < 0) : below key values = [] := by
  rw [below, List.filter_eq_nil_iff]
  intro a ha
  have := hneg a ha
  simp
  omega

theorem above_of_neg {values : List β} (hneg : ∀ a ∈ values, key a < 0) :
    above key values = values := by
  simpa [above, List.filter_eq_self] using hneg

theorem above_of_pos {values : List β} (hpos : ∀ a ∈ values, 0 < key a) : above key values = [] := by
  rw [above, List.filter_eq_nil_iff]
  intro a ha
  have := hpos a ha
  simp
  omega

theorem inorder_ne_nil_iff : inorder tree ≠ [] ↔ tree.numNodes ≠ 0 := by
  cases tree <;> simp

/-- Where the last value is to be below another one, there is just to be a last value. -/
theorem exists_getLast_iff {values : List β} (hall : ∀ a ∈ values, R value a) :
    (∃ a, values.getLast? = some a ∧ R value a) ↔ values ≠ [] := by
  constructor
  · rintro ⟨a, hlast, -⟩ rfl
    cases hlast
  · intro hne
    exact ⟨_, List.getLast?_eq_some_getLast hne, hall _ (List.getLast_mem hne)⟩

theorem exists_head_iff {values : List β} (hall : ∀ a ∈ values, R value a) :
    (∃ a, values.head? = some a ∧ R value a) ↔ values ≠ [] := by
  constructor
  · rintro ⟨a, hhead, -⟩ rfl
    cases hhead
  · intro hne
    exact ⟨_, List.head?_eq_some_head hne, hall _ (List.head_mem hne)⟩

end Neighbours

/-- In a search tree that is heap ordered, a node has a child on a side exactly if its
neighbour on that side is to be below it. -/
theorem HeapOrdered.bothChildren_iff (h : HeapOrdered R tree)
    (hasymm : ∀ a b, R a b → ¬ R b a) (hcons : Consistent key (inorder tree))
    (hfind : find key tree = some found) :
    bothChildren key tree = true ↔
      (∃ a, (below key (inorder tree)).getLast? = some a ∧ R found a) ∧
        ∃ b, (above key (inorder tree)).head? = some b ∧ R found b := by
  induction tree with
  | nil => cases hfind
  | node value left right ihLeft ihRight =>
    obtain ⟨hroot, hleft, hright⟩ := h
    rw [inorder_node] at hcons ⊢
    obtain ⟨hconsLeft, hconsRest, -⟩ := List.pairwise_append.mp hcons
    have hconsRight := (List.pairwise_cons.mp hconsRest).2
    rw [below, above, List.filter_append, List.filter_append, List.filter_cons, List.filter_cons,
      ← below, ← below, ← above, ← above]
    rcases lt_trichotomy (key value) 0 with hneg | hzero | hpos
    · have hafter := neg_of_mem_right hcons (by omega)
      rw [find_of_neg hneg] at hfind
      rw [bothChildren_of_neg hneg, ihLeft hleft hconsLeft hfind, below_of_neg hafter,
        above_of_neg hafter]
      have hmem := (find_sound hfind).1
      have hnot : ¬ R found value := hasymm value found (hroot found (by simp [hmem]))
      simp only [hneg, decide_true, if_true, show ¬ 0 < key value by omega, decide_false,
        Bool.false_eq_true, if_false, List.append_nil]
      refine and_congr_right fun _ => ?_
      cases above key (inorder left) <;> simp [hnot]
    · have hbefore := pos_of_mem_left hcons (by omega)
      have hafter := neg_of_mem_right hcons (by omega)
      rw [find_of_zero hzero, Option.some.injEq] at hfind
      subst hfind
      rw [bothChildren_of_zero hzero, below_of_pos hbefore, below_of_neg hafter,
        above_of_pos hbefore, above_of_neg hafter]
      have hleftRoot : ∀ a ∈ inorder left, R value a := fun a ha => hroot a (by simp [ha])
      have hrightRoot : ∀ a ∈ inorder right, R value a := fun a ha => hroot a (by simp [ha])
      simp only [hzero, lt_irrefl, decide_false, Bool.false_eq_true, if_false, List.nil_append,
        List.append_nil]
      rw [exists_getLast_iff hleftRoot, exists_head_iff hrightRoot, inorder_ne_nil_iff,
        inorder_ne_nil_iff]
      simp
    · have hbefore := pos_of_mem_left hcons (by omega)
      rw [find_of_pos hpos] at hfind
      rw [bothChildren_of_pos hpos, ihRight hright hconsRight hfind, below_of_pos hbefore,
        above_of_pos hbefore]
      have hmem := (find_sound hfind).1
      have hnot : ¬ R found value := hasymm value found (hroot found (by simp [hmem]))
      simp only [hpos, decide_true, if_true, show ¬ key value < 0 by omega, decide_false,
        Bool.false_eq_true, if_false, List.nil_append]
      refine and_congr_left fun _ => ?_
      rw [List.getLast?_append, List.getLast?_cons]
      cases (below key (inorder right)).getLast? <;> simp [hnot]

end rc_project.treap
