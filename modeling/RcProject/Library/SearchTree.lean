import Mathlib.Data.Tree.Basic
import Mathlib.Data.Set.Defs
import Mathlib.Data.List.Pairwise
import Mathlib.Order.Defs.LinearOrder
import Mathlib.Data.Int.Order.Basic
import Mathlib.Tactic.Common

namespace rc_project.search_tree

variable {α β : Type}

/-- A three-way comparison function in the C convention (negative, zero or
positive) that orders the elements of a set: the two argument orders agree and
"not after" is transitive. Elements that compare as zero share a key, they need
not be equal. -/
structure LawfulOn (cmp : α → α → Int) (S : Set α) : Prop where
  neg_iff_pos : ∀ ⦃a⦄, a ∈ S → ∀ ⦃b⦄, b ∈ S → (cmp a b < 0 ↔ 0 < cmp b a)
  trans : ∀ ⦃a⦄, a ∈ S → ∀ ⦃b⦄, b ∈ S → ∀ ⦃c⦄, c ∈ S → cmp a b ≤ 0 → cmp b c ≤ 0 → cmp a c ≤ 0

namespace LawfulOn

variable {cmp : α → α → Int} {S : Set α} {a b c : α}

theorem self (hlaw : LawfulOn cmp S) (ha : a ∈ S) : cmp a a = 0 := by
  have := hlaw.neg_iff_pos ha ha
  omega

theorem zero_comm (hlaw : LawfulOn cmp S) (ha : a ∈ S) (hb : b ∈ S) :
    cmp a b = 0 ↔ cmp b a = 0 := by
  have hab := hlaw.neg_iff_pos ha hb
  have hba := hlaw.neg_iff_pos hb ha
  omega

theorem lt_of_le_of_lt (hlaw : LawfulOn cmp S) (ha : a ∈ S) (hb : b ∈ S) (hc : c ∈ S)
    (hab : cmp a b ≤ 0) (hbc : cmp b c < 0) : cmp a c < 0 := by
  by_contra hac
  have hca : cmp c a ≤ 0 := by
    have := hlaw.neg_iff_pos ha hc
    have := hlaw.neg_iff_pos hc ha
    omega
  have hcb := hlaw.trans hc ha hb hca hab
  have := hlaw.neg_iff_pos hb hc
  omega

/-- Two orders, one behind the other. -/
theorem lex {cmp' : α → α → Int} (hlaw : LawfulOn cmp S) (hlaw' : LawfulOn cmp' S) :
    LawfulOn (fun a b => if cmp a b ≠ 0 then cmp a b else cmp' a b) S where
  neg_iff_pos a ha b hb := by
    have hab := hlaw.neg_iff_pos ha hb
    have hba := hlaw.neg_iff_pos hb ha
    have hsecond := hlaw'.neg_iff_pos ha hb
    split <;> split <;> omega
  trans a ha b hb c hc := by
    have hac := hlaw.trans ha hb hc
    have hba := hlaw.trans hb hc ha
    have hcb := hlaw.trans hc ha hb
    have hsecond := hlaw'.trans ha hb hc
    have hswap := And.intro (hlaw.neg_iff_pos ha hb) (hlaw.neg_iff_pos hb ha)
    have hswap' := And.intro (hlaw.neg_iff_pos hb hc) (hlaw.neg_iff_pos hc hb)
    have hswap'' := And.intro (hlaw.neg_iff_pos ha hc) (hlaw.neg_iff_pos hc ha)
    split <;> split <;> split <;> omega

theorem congr {cmp' : α → α → Int} (hlaw : LawfulOn cmp S)
    (hsame : ∀ a ∈ S, ∀ b ∈ S, cmp' a b = cmp a b) : LawfulOn cmp' S where
  neg_iff_pos a ha b hb := by
    rw [hsame a ha b hb, hsame b hb a ha]
    exact hlaw.neg_iff_pos ha hb
  trans a ha b hb c hc := by
    rw [hsame a ha b hb, hsame b hb c hc, hsame a ha c hc]
    exact hlaw.trans ha hb hc

/-- The order of a numeric key. -/
theorem of_key (key : α → Int) : LawfulOn (fun a b => key a - key b) S where
  neg_iff_pos a _ b _ := by omega
  trans a _ b _ c _ := by omega

theorem mono {S' : Set α} (hlaw : LawfulOn cmp S) (hsub : S' ⊆ S) : LawfulOn cmp S' where
  neg_iff_pos _ ha _ hb := hlaw.neg_iff_pos (hsub ha) (hsub hb)
  trans _ ha _ hb _ hc := hlaw.trans (hsub ha) (hsub hb) (hsub hc)

end LawfulOn

/-- The elements stand in strictly increasing order. -/
def Increasing (cmp : α → α → Int) (elements : List α) : Prop :=
  elements.Pairwise fun a b => cmp a b < 0

/-- The comparisons of one key against a list go from positive over at most one
zero to negative. -/
def Consistent (key : α → Int) (elements : List α) : Prop :=
  elements.Pairwise fun a b => key a ≤ 0 → key b < 0

theorem Increasing.consistent {cmp : α → α → Int} {S : Set α} {elements : List α} {k : α}
    (hinc : Increasing cmp elements) (hlaw : LawfulOn cmp S) (hmem : ∀ a ∈ elements, a ∈ S)
    (hk : k ∈ S) : Consistent (cmp k) elements := by
  refine List.Pairwise.imp_of_mem ?_ hinc
  intro a b ha hb hab hka
  exact hlaw.lt_of_le_of_lt hk (hmem a ha) (hmem b hb) hka hab

theorem Increasing.nodup {cmp : α → α → Int} {S : Set α} {elements : List α}
    (hinc : Increasing cmp elements) (hlaw : LawfulOn cmp S) (hmem : ∀ a ∈ elements, a ∈ S) :
    elements.Nodup := by
  refine List.Pairwise.imp_of_mem ?_ hinc
  rintro a b ha - hab rfl
  have := hlaw.self (hmem a ha)
  omega

/-- A consistent key compares as zero against at most one place of the list. -/
theorem Consistent.find?_eq_some_iff {key : α → Int} {elements : List α} {a : α}
    (hcons : Consistent key elements) :
    (elements.find? fun b => key b = 0) = some a ↔ a ∈ elements ∧ key a = 0 := by
  constructor
  · intro hfind
    exact ⟨List.mem_of_find?_eq_some hfind, by simpa using List.find?_some hfind⟩
  · rintro ⟨hmem, hzero⟩
    obtain ⟨before, after, rfl⟩ := List.append_of_mem hmem
    have hbefore : ∀ b ∈ before, ¬key b = 0 := by
      intro b hb hzero'
      have := (List.pairwise_append.mp hcons).2.2 b hb a (by simp) (by omega)
      omega
    rw [List.find?_append, List.find?_eq_none.mpr (by simpa using hbefore)]
    simp [hzero]

/-- Two elements of an increasing list that share a key are the same element. -/
theorem Increasing.eq_of_zero {cmp : α → α → Int} {S : Set α} {elements : List α} {a b : α}
    (hinc : Increasing cmp elements) (hlaw : LawfulOn cmp S) (hmem : ∀ a ∈ elements, a ∈ S)
    (ha : a ∈ elements) (hb : b ∈ elements) (hzero : cmp a b = 0) : a = b := by
  have hforward : elements.Pairwise fun x y => cmp x y = 0 → x = y :=
    List.Pairwise.imp (fun hlt hxy => by omega) hinc
  have hbackward : elements.Pairwise (flip fun x y => cmp x y = 0 → x = y) := by
    refine List.Pairwise.imp_of_mem ?_ hinc
    intro x y hx hy hlt hyx
    have := (hlaw.zero_comm (hmem y hy) (hmem x hx)).mp hyx
    omega
  exact List.Pairwise.forall_of_forall_of_flip (fun x _ _ => rfl) hforward hbackward ha hb hzero

/-- Two comparison functions that agree on a list order it the same way. -/
theorem Increasing.congr {cmp cmp' : α → α → Int} {elements : List α}
    (hinc : Increasing cmp elements)
    (hsame : ∀ a ∈ elements, ∀ b ∈ elements, cmp' a b = cmp a b) : Increasing cmp' elements :=
  List.Pairwise.imp_of_mem (fun ha hb hlt => (hsame _ ha _ hb).symm ▸ hlt) hinc

/-- Placing a new key between the smaller and the larger elements. -/
theorem Increasing.insert_between {cmp : α → α → Int} {S : Set α} {before after : List α} {x : α}
    (hinc : Increasing cmp (before ++ after)) (hlaw : LawfulOn cmp S) (hx : x ∈ S)
    (hmem : ∀ a ∈ before, a ∈ S) (hbefore : ∀ a ∈ before, 0 < cmp x a)
    (hafter : ∀ a ∈ after, cmp x a < 0) : Increasing cmp (before ++ x :: after) := by
  obtain ⟨hinc1, hinc2, hcross⟩ := List.pairwise_append.mp hinc
  refine List.pairwise_append.mpr ⟨hinc1, List.pairwise_cons.mpr ⟨hafter, hinc2⟩, ?_⟩
  intro a ha b hb
  rcases List.mem_cons.mp hb with rfl | hb
  · exact (hlaw.neg_iff_pos (hmem a ha) hx).mpr (hbefore a ha)
  · exact hcross a ha b hb

/-- Taking an element out of an increasing list leaves it increasing. -/
theorem Increasing.remove {cmp : α → α → Int} {before after : List α} {x : α}
    (hinc : Increasing cmp (before ++ x :: after)) : Increasing cmp (before ++ after) :=
  List.Pairwise.sublist (List.Sublist.append_left (List.sublist_cons_self x after) before) hinc

/-- The values of a tree from left to right. -/
def inorder : BinaryTree β → List β
  | .nil => []
  | .node value left right => inorder left ++ value :: inorder right

@[simp] theorem inorder_nil : inorder (.nil : BinaryTree β) = [] := rfl

@[simp] theorem inorder_node (value : β) (left right : BinaryTree β) :
    inorder (.node value left right) = inorder left ++ value :: inorder right := rfl

/-- Descends by the sign of a key's comparison against each node and returns
the node at which the comparison is zero. -/
def find (key : β → Int) : BinaryTree β → Option β
  | .nil => none
  | .node value left right =>
    if key value < 0 then find key left
    else if key value > 0 then find key right
    else some value

/-- Whether the node at which the descent ends has a left and a right child. -/
def bothChildren (key : β → Int) : BinaryTree β → Bool
  | .nil => false
  | .node value left right =>
    if key value < 0 then bothChildren key left
    else if key value > 0 then bothChildren key right
    else left.numNodes ≠ 0 && right.numNodes ≠ 0

section Descent

variable {key : β → Int} {value : β} {left right : BinaryTree β}

theorem find_of_neg (hneg : key value < 0) : find key (.node value left right) = find key left := by
  rw [find, if_pos hneg]

theorem find_of_pos (hpos : 0 < key value) : find key (.node value left right) = find key right := by
  rw [find, if_neg (by omega), if_pos hpos]

theorem find_of_zero (hzero : key value = 0) : find key (.node value left right) = some value := by
  rw [find, if_neg (by omega), if_neg (by omega)]

theorem bothChildren_of_neg (hneg : key value < 0) :
    bothChildren key (.node value left right) = bothChildren key left := by
  rw [bothChildren, if_pos hneg]

theorem bothChildren_of_pos (hpos : 0 < key value) :
    bothChildren key (.node value left right) = bothChildren key right := by
  rw [bothChildren, if_neg (by omega), if_pos hpos]

theorem bothChildren_of_zero (hzero : key value = 0) :
    bothChildren key (.node value left right) =
      (left.numNodes ≠ 0 && right.numNodes ≠ 0 : Bool) := by
  rw [bothChildren, if_neg (by omega), if_neg (by omega)]

end Descent

/-- The descent only stops at a stored element whose key is the one looked for. -/
theorem find_sound {key : β → Int} {tree : BinaryTree β} {value : β}
    (hfind : find key tree = some value) : value ∈ inorder tree ∧ key value = 0 := by
  induction tree with
  | nil => simp [find] at hfind
  | node y left right ihLeft ihRight =>
    rcases lt_trichotomy (key y) 0 with hneg | hzero | hpos
    · obtain ⟨hmem, hvalue⟩ := ihLeft (find_of_neg hneg ▸ hfind)
      exact ⟨by simp [hmem], hvalue⟩
    · obtain rfl : y = value := by simpa [find_of_zero hzero] using hfind
      exact ⟨by simp, hzero⟩
    · obtain ⟨hmem, hvalue⟩ := ihRight (find_of_pos hpos ▸ hfind)
      exact ⟨by simp [hmem], hvalue⟩

/-- The descent reaches every stored element whose key is the one looked for. -/
theorem find_complete {key : β → Int} {tree : BinaryTree β} {value : β}
    (hcons : Consistent key (inorder tree)) (hmem : value ∈ inorder tree) (hzero : key value = 0) :
    find key tree = some value := by
  induction tree with
  | nil => simp at hmem
  | node y left right ihLeft ihRight =>
    obtain ⟨hleft, hcons, hcross⟩ := List.pairwise_append.mp hcons
    obtain ⟨hafter, hright⟩ := List.pairwise_cons.mp hcons
    rw [inorder_node, List.mem_append, List.mem_cons] at hmem
    rcases hmem with hmem | rfl | hmem
    · rw [find_of_neg (hcross value hmem y (by simp) (by omega))]
      exact ihLeft hleft hmem
    · exact find_of_zero hzero
    · have hpos : 0 < key y := by
        by_contra hnot
        have := hafter value hmem (by omega)
        omega
      rw [find_of_pos hpos]
      exact ihRight hright hmem

/-- A key that equals no stored element is not found, whatever its order
against them. -/
theorem find_eq_none_of_ne {key : β → Int} {tree : BinaryTree β}
    (hall : ∀ value ∈ inorder tree, key value ≠ 0) : find key tree = none := by
  rw [Option.eq_none_iff_forall_ne_some]
  intro value hfind
  exact hall value (find_sound hfind).1 (find_sound hfind).2

end rc_project.search_tree
