import RcProject.AvlTree.Balance
import RcProject.Library.Treap
import Mathlib.Data.List.Sort

open rc_project.search_tree rc_project.transition rc_project.treap

namespace rc_project.avl_tree

variable {α : Type}

section Specification

variable [DecidableEq α] (data_cmp : α → α → Int)

/-- The elements, given in the order in which they were added, as a traversal lists them. -/
def listing (added : List α) : List α := added.insertionSort fun a b => data_cmp a b ≤ 0

/-- One of two elements was added later than the other. -/
def later (added : List α) (a b : α) : Bool := [a, b].isSublist added

/-- The element with a key has a neighbour on either side that was added later than itself. -/
def walled (added : List α) (data : α) : Bool :=
  match added.find? fun a => data_cmp data a = 0 with
  | none => false
  | some a =>
    (below (data_cmp data) (listing data_cmp added)).getLast?.any (later added a) &&
      (above (data_cmp data) (listing data_cmp added)).head?.any (later added a)

/-- What a removal leaves of the elements. -/
def removed (added : List α) (data : α) : List α :=
  if walled data_cmp added data then added else added.filter fun a => data_cmp data a ≠ 0

/-- What the module is: the list of its elements in the order in which they were added. -/
def history (fd : Int) : Machine (List α) (Call α) (Reply α)
  | added, .add data free_data write_data =>
    match added.find? fun a => data_cmp data a = 0 with
    | some _ => return (added, .status AVL_DUPLICATED_KEY [])
    | none => return (added ++ [data], .status AVL_OK (addEffects fd data free_data write_data))
  | added, .remove data free_data write_data =>
    match added.find? fun a => data_cmp data a = 0 with
    | none => return (added, .status AVL_KEY_NOT_FOUND [])
    | some _ =>
      let left := removed data_cmp added data
      return (left, .status AVL_OK
        (removeEffects fd data (listing data_cmp left) free_data write_data))
  | added, .get data => return (added, .found (added.find? fun a => data_cmp data a = 0))

end Specification

section Order

variable {Q Q' : α → α → Prop} {tree left right : BinaryTree (Cell α)} {cell : Cell α}
  {data_cmp : α → α → Int} {data : α}

/-- Each element is related to those below it. -/
abbrev Ordered (Q : α → α → Prop) (tree : BinaryTree (Cell α)) : Prop :=
  HeapOrdered (fun a b => Q a.2 b.2) tree

theorem ordered_node_iff : Ordered Q (.node cell left right) ↔
    (∀ a ∈ elements left ++ elements right, Q cell.2 a) ∧ Ordered Q left ∧ Ordered Q right := by
  have hsame : (∀ b ∈ inorder left ++ inorder right, Q cell.2 b.2) ↔
      ∀ a ∈ elements left ++ elements right, Q cell.2 a := by
    rw [elements, elements, ← List.map_append, List.forall_mem_map]
  exact and_congr_left fun _ => hsame

theorem Ordered.mono (h : Ordered Q tree)
    (hsub : ∀ a ∈ elements tree, ∀ b ∈ elements tree, Q a b → Q' a b) : Ordered Q' tree :=
  HeapOrdered.mono h fun a ha b hb =>
    hsub a.2 (List.mem_map_of_mem ha) b.2 (List.mem_map_of_mem hb)

theorem mem_elements_insert {a : α} (hmem : a ∈ elements (insert data_cmp data tree)) :
    a = data ∨ a ∈ elements tree := by
  induction tree with
  | nil => simpa [insert] using hmem
  | node cell left right ihLeft ihRight =>
    rcases lt_trichotomy (data_cmp data cell.2) 0 with hneg | hzero | hpos
    · rw [insert_of_neg hneg] at hmem
      simp only [elements_node, List.mem_append, List.mem_cons] at hmem ⊢
      tauto
    · rw [insert_of_zero hzero] at hmem
      exact Or.inr hmem
    · rw [insert_of_pos hpos] at hmem
      simp only [elements_node, List.mem_append, List.mem_cons] at hmem ⊢
      tauto

theorem mem_elements_erase {a : α} (hmem : a ∈ elements (erase data_cmp data tree)) :
    a ∈ elements tree := by
  induction tree with
  | nil => exact hmem
  | node cell left right ihLeft ihRight =>
    rcases lt_trichotomy (data_cmp data cell.2) 0 with hneg | hzero | hpos
    · rw [erase_of_neg hneg] at hmem
      simp only [elements_node, List.mem_append, List.mem_cons] at hmem ⊢
      tauto
    · rw [erase_of_zero hzero, elements_splice] at hmem
      split at hmem <;> simp only [elements_node, List.mem_append, List.mem_cons] at hmem ⊢ <;> tauto
    · rw [erase_of_pos hpos] at hmem
      simp only [elements_node, List.mem_append, List.mem_cons] at hmem ⊢
      tauto

/-- A new element comes below those that it is compared with. -/
theorem Ordered.insert (h : Ordered Q tree) (hnew : ∀ a ∈ elements tree, Q a data) :
    Ordered Q (avl_tree.insert data_cmp data tree) := by
  induction tree with
  | nil => exact ordered_node_iff.mpr ⟨fun a ha => absurd ha List.not_mem_nil, trivial, trivial⟩
  | node cell left right ihLeft ihRight =>
    obtain ⟨hroot, hleft, hright⟩ := ordered_node_iff.mp h
    have hcell := hnew cell.2 (by simp)
    have hnewLeft : ∀ a ∈ elements left, Q a data := fun a ha => hnew a (by simp [ha])
    have hnewRight : ∀ a ∈ elements right, Q a data := fun a ha => hnew a (by simp [ha])
    rcases lt_trichotomy (data_cmp data cell.2) 0 with hneg | hzero | hpos
    · rw [insert_of_neg hneg]
      refine ordered_node_iff.mpr ⟨fun a ha => ?_, ihLeft hleft hnewLeft, hright⟩
      obtain ha | ha := List.mem_append.mp ha
      · obtain rfl | ha := mem_elements_insert ha
        · exact hcell
        · exact hroot a (by simp [ha])
      · exact hroot a (by simp [ha])
    · rwa [insert_of_zero hzero]
    · rw [insert_of_pos hpos]
      refine ordered_node_iff.mpr ⟨fun a ha => ?_, hleft, ihRight hright hnewRight⟩
      obtain ha | ha := List.mem_append.mp ha
      · exact hroot a (by simp [ha])
      · obtain rfl | ha := mem_elements_insert ha
        · exact hcell
        · exact hroot a (by simp [ha])

/-- A node that goes away leaves its only child in its place. -/
theorem ordered_splice (hroot : ∀ a ∈ elements left ++ elements right, Q data a)
    (hleft : Ordered Q left) (hright : Ordered Q right) : Ordered Q (splice data left right) := by
  cases left with
  | nil =>
    cases right with
    | nil => trivial
    | node cell l r => exact hright
  | node cell l r =>
    cases right with
    | nil => exact hleft
    | node cell' l' r' => exact ordered_node_iff.mpr ⟨hroot, hleft, hright⟩

theorem Ordered.erase (h : Ordered Q tree) : Ordered Q (avl_tree.erase data_cmp data tree) := by
  induction tree with
  | nil => trivial
  | node cell left right ihLeft ihRight =>
    obtain ⟨hroot, hleft, hright⟩ := ordered_node_iff.mp h
    rcases lt_trichotomy (data_cmp data cell.2) 0 with hneg | hzero | hpos
    · rw [erase_of_neg hneg]
      refine ordered_node_iff.mpr ⟨fun a ha => ?_, ihLeft hleft, hright⟩
      obtain ha | ha := List.mem_append.mp ha
      · exact hroot a (by simp [mem_elements_erase ha])
      · exact hroot a (by simp [ha])
    · rw [erase_of_zero hzero]
      exact ordered_splice hroot hleft hright
    · rw [erase_of_pos hpos]
      refine ordered_node_iff.mpr ⟨fun a ha => ?_, hleft, ihRight hright⟩
      obtain ha | ha := List.mem_append.mp ha
      · exact hroot a (by simp [ha])
      · exact hroot a (by simp [mem_elements_erase ha])

end Order

section Lists

variable {l l' : List α} {p : α → Bool}

/-- What holds of one element at most is found in any order. -/
theorem find?_eq_of_perm (hperm : l.Perm l')
    (hunique : ∀ a ∈ l, ∀ b ∈ l, p a = true → p b = true → a = b) : l.find? p = l'.find? p := by
  cases hfind : l.find? p with
  | none =>
    symm
    rw [List.find?_eq_none] at hfind ⊢
    exact fun a ha => hfind a (hperm.mem_iff.mpr ha)
  | some a =>
    have ha := List.mem_of_find?_eq_some hfind
    have hpa := List.find?_some hfind
    cases hfind' : l'.find? p with
    | none => exact absurd hpa (List.find?_eq_none.mp hfind' a (hperm.mem_iff.mp ha))
    | some b =>
      have hb := hperm.mem_iff.mpr (List.mem_of_find?_eq_some hfind')
      rw [hunique a ha b hb hpa (List.find?_some hfind')]

/-- In a list without duplicates, of two elements only one is later. -/
theorem not_sublist_swap (hnodup : l.Nodup) {a b : α} (h : [a, b].Sublist l) :
    ¬ [b, a].Sublist l := by
  induction l with
  | nil => cases h
  | cons c l ih =>
    obtain ⟨hc, hl⟩ := List.nodup_cons.mp hnodup
    intro h'
    cases h with
    | cons _ h =>
      cases h' with
      | cons _ h' => exact ih hl h h'
      | cons_cons _ h' => exact hc (h.subset (by simp))
    | cons_cons _ h =>
      cases h' with
      | cons _ h' => exact hc (h'.subset (by simp))
      | cons_cons _ h' => exact hc (h.subset (by simp))

end Lists

section Keys

variable {β : Type} {f : α → β} {cmp : α → α → Int} {cmp' : β → β → Int} {added : List α} {a b : α}

theorem pair_sublist_map_iff (hinj : Set.InjOn f {a | a ∈ added}) (ha : a ∈ added) (hb : b ∈ added) :
    [f a, f b].Sublist (added.map f) ↔ [a, b].Sublist added := by
  constructor
  · intro hsublist
    obtain ⟨pair, hpair, hmap⟩ := List.sublist_map_iff.mp hsublist
    obtain ⟨a', b', rfl⟩ : ∃ a' b', pair = [a', b'] := by
      rw [← List.length_eq_two]
      simpa using (congrArg List.length hmap).symm
    simp only [List.map_cons, List.map_nil, List.cons.injEq, and_true] at hmap
    have ha' : a' ∈ added := hpair.subset (by simp)
    have hb' : b' ∈ added := hpair.subset (by simp)
    rwa [hinj ha ha' hmap.1, hinj hb hb' hmap.2]
  · exact fun hsublist => hsublist.map f

variable (hcmp : ∀ a b, cmp a b = cmp' (f a) (f b))
include hcmp

theorem listing_map (added : List α) :
    (listing cmp added).map f = listing cmp' (added.map f) :=
  List.map_insertionSort _ _ f added fun a _ b _ => by rw [hcmp]

variable [DecidableEq α] [DecidableEq β]

/-- Whether an element is walled in is a matter of the keys. -/
theorem walled_map (hinj : Set.InjOn f {a | a ∈ added}) (data : α) :
    walled cmp' (added.map f) (f data) = walled cmp added data := by
  have hfind : (added.map f).find? (fun b => cmp' (f data) b = 0) =
      (added.find? fun a => cmp data a = 0).map f := by
    rw [List.find?_map]
    simp only [Function.comp_def, hcmp]
  have hbelow : below (cmp' (f data)) ((listing cmp added).map f) =
      (below (cmp data) (listing cmp added)).map f := by
    simp only [below, List.filter_map, Function.comp_def, hcmp]
  have habove : above (cmp' (f data)) ((listing cmp added).map f) =
      (above (cmp data) (listing cmp added)).map f := by
    simp only [above, List.filter_map, Function.comp_def, hcmp]
  have hlisted {a : α} (ha : a ∈ listing cmp added) : a ∈ added :=
    (List.mem_insertionSort _).mp ha
  rw [walled, walled, ← listing_map hcmp, hfind, hbelow, habove, List.getLast?_map, List.head?_map]
  cases hfound : added.find? fun a => cmp data a = 0 with
  | none => rfl
  | some a =>
    have ha := List.mem_of_find?_eq_some hfound
    have hlater {b : α} (hb : b ∈ added) : later (added.map f) (f a) (f b) = later added a b := by
      rw [Bool.eq_iff_iff, later, later, List.isSublist_iff_sublist, List.isSublist_iff_sublist,
        pair_sublist_map_iff hinj ha hb]
    have hany {found : Option α} (hmem : ∀ b ∈ found, b ∈ added) :
        (found.map f).any (later (added.map f) (f a)) = found.any (later added a) := by
      cases found with
      | none => rfl
      | some b => exact hlater (hmem b rfl)
    have hlast : ∀ b ∈ (below (cmp data) (listing cmp added)).getLast?, b ∈ added := fun b hb =>
      hlisted (List.mem_filter.mp (List.mem_of_getLast? hb)).1
    have hfirst : ∀ b ∈ (above (cmp data) (listing cmp added)).head?, b ∈ added := fun b hb =>
      hlisted (List.mem_filter.mp (List.mem_of_head? hb)).1
    simp only [Option.map_some, hany hlast, hany hfirst]

theorem removed_map (hinj : Set.InjOn f {a | a ∈ added}) (data : α) :
    (removed cmp added data).map f = removed cmp' (added.map f) (f data) := by
  rw [removed, removed, walled_map hcmp hinj]
  split
  · rfl
  · simp only [List.filter_map, Function.comp_def, hcmp]

end Keys

section Sorted

variable [DecidableEq α] {data_cmp : α → α → Int} {added : List α}

theorem rel_of_later {R : α → α → Prop} (hpairwise : added.Pairwise R) {a b : α}
    (hlater : later added a b = true) : R a b := by
  have hpair := hpairwise.sublist (List.isSublist_iff_sublist.mp hlater)
  simpa using hpair

/-- Nobody is walled in where all were added in the order of the keys. -/
theorem removed_of_increasing (hlaw : LawfulOn data_cmp Set.univ)
    (hinc : Increasing data_cmp added) (data : α) :
    removed data_cmp added data = added.filter fun a => data_cmp data a ≠ 0 := by
  have hcons := consistent_of_increasing hlaw hinc data
  rw [removed, if_neg]
  rw [walled]
  cases hfound : added.find? fun a => data_cmp data a = 0 with
  | none => simp
  | some a =>
    have hzero : data_cmp data a = 0 := by simpa using List.find?_some hfound
    simp only [Bool.and_eq_true, Option.any_eq_true, not_and]
    rintro ⟨b, hb, hlater⟩
    have hneg : data_cmp data b < 0 := rel_of_later hcons hlater (by omega)
    have hpos : 0 < data_cmp data b := by
      simpa using (List.mem_filter.mp (List.mem_of_getLast? hb)).2
    omega

end Sorted

section Replies

variable {data_cmp : α → α → Int} {T : avl_tree_t α} {tree : BinaryTree (Cell α)} {added : List α}
  {data : α} {cell : Cell α}

/-- The tree that the elements make when they are added in this order. -/
structure Remembers (data_cmp : α → α → Int) (T : avl_tree_t α) (tree : BinaryTree (Cell α))
    (added : List α) : Prop where
  represents : Represents T tree
  ordered : Ordered (fun a b => [a, b].Sublist added) tree
  perm : (elements tree).Perm added
  increasing : Increasing data_cmp (elements tree)

/-- The comparison is only asked about the elements. -/
theorem Remembers.congr {data_cmp' : α → α → Int} (h : Remembers data_cmp T tree added)
    (hsame : ∀ a ∈ added, ∀ b ∈ added, data_cmp' a b = data_cmp a b) :
    Remembers data_cmp' T tree added where
  represents := h.represents
  ordered := h.ordered
  perm := h.perm
  increasing := h.increasing.congr fun a ha b hb =>
    hsame a (h.perm.mem_iff.mp ha) b (h.perm.mem_iff.mp hb)

variable (hlaw : LawfulOn data_cmp Set.univ)
include hlaw

theorem Remembers.nodup (h : Remembers data_cmp T tree added) : added.Nodup :=
  h.perm.nodup_iff.mp (h.increasing.nodup hlaw fun _ _ => trivial)

theorem Remembers.consistent (h : Remembers data_cmp T tree added) (data : α) :
    Consistent (data_cmp data) (elements tree) :=
  consistent_of_increasing hlaw h.increasing data

theorem Remembers.find_eq (h : Remembers data_cmp T tree added) (data : α) :
    (find (against data_cmp data) tree).map Prod.snd = added.find? fun a => data_cmp data a = 0 := by
  have hcons := h.consistent hlaw data
  rw [find_eq_find? hcons]
  refine find?_eq_of_perm h.perm fun a ha b hb hza hzb => ?_
  have hfind := hcons.find?_eq_some_iff.mpr ⟨ha, of_decide_eq_true hza⟩
  have hfind' := hcons.find?_eq_some_iff.mpr ⟨hb, of_decide_eq_true hzb⟩
  rw [hfind, Option.some.injEq] at hfind'
  exact hfind'

/-- A traversal lists the elements by their keys. -/
theorem Remembers.listing_eq (h : Remembers data_cmp T tree added) :
    listing data_cmp added = elements tree := by
  have htotal : Std.Total fun a b => data_cmp a b ≤ 0 := ⟨fun a b => by
    have := hlaw.neg_iff_pos (Set.mem_univ a) (Set.mem_univ b)
    omega⟩
  have htrans : IsTrans α fun a b => data_cmp a b ≤ 0 :=
    ⟨fun _ _ _ => hlaw.trans trivial trivial trivial⟩
  have hsorted : (listing data_cmp added).Pairwise fun a b => data_cmp a b ≤ 0 :=
    List.pairwise_insertionSort _ added
  have hperm : (listing data_cmp added).Perm (elements tree) :=
    (List.perm_insertionSort _ added).trans h.perm.symm
  refine List.Perm.eq_of_pairwise (fun a b ha hb hab hba => ?_) hsorted
    (h.increasing.imp fun hlt => hlt.le) hperm
  have hzero : data_cmp a b = 0 := by
    have hle : data_cmp a b ≤ 0 := hab
    have hge : data_cmp b a ≤ 0 := hba
    have := hlaw.neg_iff_pos (Set.mem_univ a) (Set.mem_univ b)
    omega
  exact h.increasing.eq_of_zero hlaw (fun _ _ => trivial) (hperm.mem_iff.mp ha) hb hzero

/-- A new element is the latest. -/
theorem Remembers.add {T' : avl_tree_t α} (h : Remembers data_cmp T tree added)
    (hfind : find (against data_cmp data) tree = none)
    (hrep : Represents T' (insert data_cmp data tree)) :
    Remembers data_cmp T' (insert data_cmp data tree) (added ++ [data]) := by
  obtain ⟨before, after, hsplit, hnew, hgt, hlt⟩ := elements_insert (h.consistent hlaw data) hfind
  refine ⟨hrep, ?_, ?_, ?_⟩
  · refine (h.ordered.mono fun a _ b _ hab => ?_).insert fun a ha => ?_
    · exact hab.trans (List.sublist_append_left added [data])
    · exact (List.singleton_sublist.mpr (h.perm.mem_iff.mp ha)).append (List.Sublist.refl [data])
  · rw [hnew]
    refine List.perm_middle.trans ?_
    rw [← hsplit]
    exact (h.perm.cons data).trans (List.perm_append_singleton data added).symm
  · rw [hnew]
    exact (hsplit ▸ h.increasing).insert_between hlaw trivial (fun _ _ => trivial) hgt hlt

variable [DecidableEq α]

/-- A node has both children exactly if its element is walled in by later ones. -/
theorem Remembers.walled_eq (h : Remembers data_cmp T tree added)
    (hfind : find (against data_cmp data) tree = some cell) :
    walled data_cmp added data = bothChildren (against data_cmp data) tree := by
  have hcons := consistent_against (h.consistent hlaw data)
  have hasymm : ∀ a b : Cell α, [a.2, b.2].Sublist added → ¬ [b.2, a.2].Sublist added :=
    fun a b => not_sublist_swap (h.nodup hlaw)
  have hfound := h.find_eq hlaw data
  rw [hfind, Option.map_some] at hfound
  rw [Bool.eq_iff_iff, HeapOrdered.bothChildren_iff h.ordered hasymm hcons hfind, walled, ← hfound,
    h.listing_eq hlaw]
  have hbelow : below (data_cmp data) (elements tree) =
      (below (against data_cmp data) (inorder tree)).map Prod.snd := List.filter_map
  have habove : above (data_cmp data) (elements tree) =
      (above (against data_cmp data) (inorder tree)).map Prod.snd := List.filter_map
  rw [hbelow, habove, List.getLast?_map, List.head?_map]
  simp only [Option.any_map, Bool.and_eq_true, Option.any_eq_true, later,
    List.isSublist_iff_sublist]

/-- A removal leaves what the others are in the order in which they were added. -/
theorem Remembers.remove {T' : avl_tree_t α} (h : Remembers data_cmp T tree added)
    (hfind : find (against data_cmp data) tree = some cell)
    (hrep : Represents T' (erase data_cmp data tree)) :
    Remembers data_cmp T' (erase data_cmp data tree) (removed data_cmp added data) := by
  obtain ⟨before, after, hsplit, hrest⟩ := elements_erase hfind
  have hordered : Ordered _ (erase data_cmp data tree) := h.ordered.erase
  by_cases hboth : bothChildren (against data_cmp data) tree = true
  · have hwalled := (h.walled_eq hlaw hfind).trans hboth
    rw [if_pos hboth] at hrest
    rw [removed, if_pos hwalled]
    exact ⟨hrep, hordered, hrest ▸ h.perm, hrest ▸ h.increasing⟩
  · have hwalled : ¬ walled data_cmp added data = true := by rwa [h.walled_eq hlaw hfind]
    have hcons := hsplit ▸ h.consistent hlaw data
    have hzero : data_cmp data cell.2 = 0 := (find_sound hfind).2
    have hfilter : (elements tree).filter (fun a => data_cmp data a ≠ 0) = before ++ after := by
      rw [hsplit]
      exact filter_ne_of_split hcons hzero
    rw [if_neg hboth] at hrest
    rw [removed, if_neg hwalled]
    have hperm : (before ++ after).Perm (added.filter fun a => data_cmp data a ≠ 0) := by
      rw [← hfilter]
      exact h.perm.filter _
    refine ⟨hrep, hordered.mono fun a ha b hb hab => ?_, hrest ▸ hperm, ?_⟩
    · have hkept : ∀ c ∈ [a, b], decide (data_cmp data c ≠ 0) = true := by
        intro c hc
        have hc' : c ∈ elements (erase data_cmp data tree) := by
          simp only [List.mem_cons, List.not_mem_nil, or_false] at hc
          obtain rfl | rfl := hc <;> assumption
        rw [hrest] at hc'
        exact (List.mem_filter.mp (hperm.mem_iff.mp hc')).2
      have hfiltered := hab.filter fun c => decide (data_cmp data c ≠ 0)
      rwa [List.filter_eq_self.mpr hkept] at hfiltered
    · rw [hrest]
      exact (hsplit ▸ h.increasing).remove

/-- The simulation of one call. -/
theorem Remembers.call (h : Remembers data_cmp T tree added) (input : Call α) :
    ∃ T' tree' added' reply, avl_tree.call data_cmp T input = .ok (T', reply) ∧
      history data_cmp T.fd added input = .ok (added', reply) ∧
      Remembers data_cmp T' tree' added' ∧ T'.fd = T.fd := by
  cases input with
  | add data free_data write_data =>
    have hfound := h.find_eq hlaw data
    cases hfind : find (against data_cmp data) tree with
    | some cell =>
      rw [hfind] at hfound
      have hadd := avl_add_duplicated h.represents hfind free_data write_data
      refine ⟨T, tree, added, .status AVL_DUPLICATED_KEY [], ?_, ?_, h, rfl⟩
      · simp only [avl_tree.call, hadd, Result.ok_bind, Result.pure_eq_ok]
      · simp only [history, ← hfound, Option.map_some, Result.pure_eq_ok]
    | none =>
      rw [hfind] at hfound
      obtain ⟨T', hadd, hrep, hfd, -⟩ := avl_add_represents h.represents hfind free_data write_data
      refine ⟨T', _, added ++ [data], .status AVL_OK (addEffects T.fd data free_data write_data), ?_,
        ?_, h.add hlaw hfind hrep, hfd⟩
      · simp only [avl_tree.call, hadd, Result.ok_bind, Result.pure_eq_ok]
      · simp only [history, ← hfound, Option.map_none, Result.pure_eq_ok]
  | remove data free_data write_data =>
    have hfound := h.find_eq hlaw data
    cases hfind : find (against data_cmp data) tree with
    | none =>
      rw [hfind] at hfound
      have hremove := avl_remove_not_found h.represents hfind free_data write_data
      refine ⟨T, tree, added, .status AVL_KEY_NOT_FOUND [], ?_, ?_, h, rfl⟩
      · simp only [avl_tree.call, hremove, Result.ok_bind, Result.pure_eq_ok]
      · simp only [history, ← hfound, Option.map_none, Result.pure_eq_ok]
    | some cell =>
      rw [hfind] at hfound
      obtain ⟨T', hremove, hrep, hfd, -⟩ :=
        avl_remove_represents h.represents hfind free_data write_data
      have h' := h.remove hlaw hfind hrep
      refine ⟨T', _, removed data_cmp added data, .status AVL_OK (removeEffects T.fd data
        (elements (erase data_cmp data tree)) free_data write_data), ?_, ?_, h', hfd⟩
      · simp only [avl_tree.call, hremove, Result.ok_bind, Result.pure_eq_ok]
      · simp only [history, ← hfound, Option.map_some, h'.listing_eq hlaw, Result.pure_eq_ok]
  | get data =>
    have hget : avl_get data_cmp T data = _ := avl_get_represents h.represents data
    refine ⟨T, tree, added, .found (added.find? fun a => data_cmp data a = 0), ?_, rfl, h, rfl⟩
    rw [← h.find_eq hlaw data]
    simp only [avl_tree.call, hget, Result.ok_bind, Result.pure_eq_ok]

/-- The simulation of a run. -/
theorem Remembers.run (h : Remembers data_cmp T tree added) (calls : List (Call α)) :
    ∃ T' tree' added' replies, transition.run (avl_tree.call data_cmp) T calls = .ok (T', replies) ∧
      transition.run (history data_cmp T.fd) added calls = .ok (added', replies) ∧
      Remembers data_cmp T' tree' added' := by
  induction calls generalizing T tree added with
  | nil => exact ⟨T, tree, added, [], rfl, rfl, h⟩
  | cons input calls ih =>
    obtain ⟨T₁, tree₁, added₁, reply, hcall, hhistory, h₁, hfd⟩ := h.call hlaw input
    obtain ⟨T', tree', added', replies, hrun, hrun', h'⟩ := ih h₁
    rw [hfd] at hrun'
    exact ⟨T', tree', added', reply :: replies,
      (run_cons_eq_ok_iff _).mpr ⟨T₁, reply, replies, hcall, hrun, rfl⟩,
      (run_cons_eq_ok_iff _).mpr ⟨added₁, reply, replies, hhistory, hrun', rfl⟩, h'⟩

/-- The module is the list of its elements in the order in which they were added: in every
sequence of calls it gives the replies, writes the records and lists the elements that can be told
from this list. A removal that is reported as done leaves the element where it is exactly if
its neighbours on both sides, by the keys, were added later. -/
theorem avl_history (fd : Int) (blocks : Nodes α) (calls : List (Call α)) :
    ∃ T added replies, transition.run (call data_cmp) (new_avl_tree fd blocks) calls =
        .ok (T, replies) ∧
      transition.run (history data_cmp fd) [] calls = .ok (added, replies) ∧
      avl_print_client T id = .ok (listing data_cmp added) := by
  have hstart : Remembers data_cmp (new_avl_tree fd blocks) .nil [] :=
    ⟨new_avl_tree_represents fd blocks, trivial, .refl [], .nil⟩
  obtain ⟨T, tree, added, replies, hrun, hhistory, h⟩ := hstart.run hlaw calls
  refine ⟨T, added, replies, hrun, hhistory, ?_⟩
  rw [h.listing_eq hlaw]
  simpa using avl_print_client_stores ⟨tree, h.represents, rfl⟩ (id : α → α)

end Replies

example : walled difference [2, 1, 3] 2 = true ∧ walled difference [1, 2, 3] 2 = false := by decide

theorem avl_history_witness : ∃ T added replies,
    run (call difference) (new_avl_tree 3 blank) (three ++ [.remove 2 true true]) =
      .ok (T, replies) ∧
    run (history difference 3) [] (three ++ [.remove 2 true true]) = .ok (added, replies) ∧
    avl_print_client T id = .ok (listing difference added) :=
  avl_history difference_lawful 3 blank _

end rc_project.avl_tree
