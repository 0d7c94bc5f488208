import RcProject.AvlTree.Operations
import RcProject.Library.Transition

open rc_project.linked_tree rc_project.search_tree rc_project.transition

namespace rc_project.avl_tree

variable {α : Type}

/-- The calls that the rest of the program makes on a tree. -/
inductive Call (α : Type)
  | add (data : α) (free_data write_data : Bool)
  | remove (data : α) (free_data write_data : Bool)
  | get (data : α)
  deriving DecidableEq, Repr

/-- What a call hands back. -/
inductive Reply (α : Type)
  | status (code : Int) (effects : List (Effect α))
  | found (data : Option α)
  deriving DecidableEq, Repr

def call (data_cmp : α → α → Int) : Machine (avl_tree_t α) (Call α) (Reply α)
  | T, .add data free_data write_data => do
    let (code, T, effects) ← avl_add data_cmp T data free_data write_data
    return (T, .status code effects)
  | T, .remove data free_data write_data => do
    let (code, T, effects) ← avl_remove data_cmp T data free_data write_data
    return (T, .status code effects)
  | T, .get data => do
    let found ← avl_get data_cmp T data
    return (T, .found found)

section Lawful

variable {data_cmp : α → α → Int} (hlaw : LawfulOn data_cmp Set.univ)
include hlaw

theorem consistent_of_increasing {es : List α} (hinc : Increasing data_cmp es) (data : α) :
    Consistent (data_cmp data) es :=
  hinc.consistent hlaw (fun _ _ => trivial) trivial

/-- Every addition succeeds as an operation and inserts the new element or, if
its key is taken, changes nothing. -/
theorem avl_add_sound {T : avl_tree_t α} {es : List α} (hstores : Stores T es)
    (hinc : Increasing data_cmp es) (data : α) (free_data write_data : Bool) :
    ∃ code T' effects es', avl_add data_cmp T data free_data write_data = .ok (code, T', effects) ∧
      Stores T' es' ∧ Increasing data_cmp es' ∧
      ((code = AVL_OK ∧ ∃ before after, es = before ++ after ∧ es' = before ++ data :: after) ∨
        (code = AVL_DUPLICATED_KEY ∧ T' = T ∧ es' = es)) := by
  have hcons := consistent_of_increasing hlaw hinc data
  by_cases hnew : ∀ a ∈ es, data_cmp data a ≠ 0
  · obtain ⟨T', before, after, hadd, rfl, hstores', hgt, hlt, -⟩ :=
      avl_add_stores hstores hcons hnew free_data write_data
    exact ⟨_, T', _, _, hadd, hstores',
      hinc.insert_between hlaw trivial (fun _ _ => trivial) hgt hlt, Or.inl ⟨rfl, before, after, rfl, rfl⟩⟩
  · push Not at hnew
    obtain ⟨a, ha, hzero⟩ := hnew
    exact ⟨_, T, _, es, avl_add_stores_duplicated hstores hcons ha hzero _ _, hstores, hinc,
      Or.inr ⟨rfl, rfl, rfl⟩⟩

/-- Every removal succeeds as an operation, and takes out at most the element
with the given key. -/
theorem avl_remove_sound {T : avl_tree_t α} {es : List α} (hstores : Stores T es)
    (hinc : Increasing data_cmp es) (data : α) (free_data write_data : Bool) :
    ∃ code T' effects es', avl_remove data_cmp T data free_data write_data = .ok (code, T', effects) ∧
      Stores T' es' ∧ Increasing data_cmp es' ∧ List.Sublist es' es ∧
      (es'.filter fun a => data_cmp data a ≠ 0) = es.filter fun a => data_cmp data a ≠ 0 := by
  by_cases hnew : ∀ a ∈ es, data_cmp data a ≠ 0
  · exact ⟨_, T, _, es, avl_remove_stores_not_found hstores hnew _ _, hstores, hinc,
      List.Sublist.refl es, rfl⟩
  · push Not at hnew
    obtain ⟨a, ha, hzero⟩ := hnew
    obtain ⟨T', before, after, es', rfl, hes', hremove, hstores', -⟩ := avl_remove_stores hstores
      (consistent_of_increasing hlaw hinc data) ha hzero free_data write_data
    refine ⟨_, T', _, es', hremove, hstores', ?_⟩
    rcases hes' with rfl | rfl
    · exact ⟨hinc, List.Sublist.refl _, rfl⟩
    · exact ⟨hinc.remove, List.Sublist.append_left (List.sublist_cons_self a after) before,
        by simp [hzero]⟩

/-- The elements stay in strictly increasing order in every reachable tree. -/
theorem call_sound {T : avl_tree_t α} (hsound : ∃ es, Stores T es ∧ Increasing data_cmp es)
    (input : Call α) :
    ∃ T' reply, call data_cmp T input = .ok (T', reply) ∧
      ∃ es, Stores T' es ∧ Increasing data_cmp es := by
  obtain ⟨es, hstores, hinc⟩ := hsound
  cases input with
  | add data free_data write_data =>
    obtain ⟨code, T', effects, es', hadd, hstores', hinc', -⟩ :=
      avl_add_sound hlaw hstores hinc data free_data write_data
    exact ⟨T', _, by simp [call, hadd]; rfl, es', hstores', hinc'⟩
  | remove data free_data write_data =>
    obtain ⟨code, T', effects, es', hremove, hstores', hinc', -⟩ :=
      avl_remove_sound hlaw hstores hinc data free_data write_data
    exact ⟨T', _, by simp [call, hremove]; rfl, es', hstores', hinc'⟩
  | get data =>
    have hget := avl_get_stores hstores (consistent_of_increasing hlaw hinc data)
    exact ⟨T, _, by simp [call, hget]; rfl, es, hstores, hinc⟩

theorem run_call_sound (fd : Int) (blocks : Nodes α) (calls : List (Call α)) :
    ∃ T replies, run (call data_cmp) (new_avl_tree fd blocks) calls = .ok (T, replies) ∧
      ∃ es, Stores T es ∧ Increasing data_cmp es :=
  run_total (fun T => ∃ es, Stores T es ∧ Increasing data_cmp es)
    ⟨[], new_avl_tree_stores fd blocks, List.Pairwise.nil⟩ (fun _ input hsound => call_sound hlaw hsound input) calls

end Lawful

/-- Every sequence of calls succeeds and leaves a tree whose traversal, by
`private_avl_print_client` and by `private_avl_rewrite`, is strictly increasing.
On that tree a lookup returns exactly the traversed element with its key, an
addition that succeeds inserts exactly the new element, and a removal leaves
the elements with other keys as they are. -/
theorem avl_calls_exact {data_cmp : α → α → Int} (hlaw : LawfulOn data_cmp Set.univ) (fd : Int)
    (blocks : Nodes α) (calls : List (Call α)) :
    ∃ T replies es, run (call data_cmp) (new_avl_tree fd blocks) calls = .ok (T, replies) ∧
      avl_print_client T id = .ok es ∧
      private_avl_rewrite T T.root = .ok (es.map (.write T.fd)) ∧
      Increasing data_cmp es ∧ es.Nodup ∧
      (∀ data, ∃ found, avl_get data_cmp T data = .ok found ∧
        (∀ a, found = some a ↔ a ∈ es ∧ data_cmp data a = 0) ∧
        (found = none ↔ ∀ a ∈ es, data_cmp data a ≠ 0)) ∧
      (∀ data free_data write_data, ∃ code T' effects es',
        avl_add data_cmp T data free_data write_data = .ok (code, T', effects) ∧
        avl_print_client T' id = .ok es' ∧
        (code = AVL_OK → ∃ before after, es = before ++ after ∧ es' = before ++ data :: after) ∧
        (code ≠ AVL_OK → es' = es)) ∧
      ∀ data free_data write_data, ∃ code T' effects es',
        avl_remove data_cmp T data free_data write_data = .ok (code, T', effects) ∧
        avl_print_client T' id = .ok es' ∧ List.Sublist es' es ∧
        (es'.filter fun a => data_cmp data a ≠ 0) = es.filter fun a => data_cmp data a ≠ 0 := by
  obtain ⟨T, replies, hrun, es, hstores, hinc⟩ := run_call_sound hlaw fd blocks calls
  refine ⟨T, replies, es, hrun, ?_, private_avl_rewrite_stores hstores, hinc,
    hinc.nodup hlaw fun _ _ => trivial, ?_, ?_, ?_⟩
  · simpa using avl_print_client_stores hstores id
  · intro data
    have hcons := consistent_of_increasing hlaw hinc data
    refine ⟨_, avl_get_stores hstores hcons, fun a => hcons.find?_eq_some_iff, ?_⟩
    simp [List.find?_eq_none]
  · intro data free_data write_data
    obtain ⟨code, T', effects, es', hadd, hstores', -, hcases⟩ :=
      avl_add_sound hlaw hstores hinc data free_data write_data
    refine ⟨code, T', effects, es', hadd, by simpa using avl_print_client_stores hstores' id, ?_⟩
    rcases hcases with ⟨rfl, hinsert⟩ | ⟨rfl, -, rfl⟩
    · exact ⟨fun _ => hinsert, fun h => absurd rfl h⟩
    · exact ⟨fun h => absurd h (by decide), fun _ => rfl⟩
  · intro data free_data write_data
    obtain ⟨code, T', effects, es', hremove, hstores', -, hsub, hfilter⟩ :=
      avl_remove_sound hlaw hstores hinc data free_data write_data
    exact ⟨code, T', effects, es', hremove, by simpa using avl_print_client_stores hstores' id,
      hsub, hfilter⟩

/-- Comparison of integers by their difference. -/
def difference (a b : Int) : Int := a - b

theorem difference_lawful : LawfulOn difference Set.univ where
  neg_iff_pos _ _ _ _ := by unfold difference; omega
  trans _ _ _ _ _ _ := by unfold difference; omega

/-- Node blocks before their first use. -/
def blank : Nodes Int := fun _ => { height := 7, data := 0, left := some 3, right := none }

theorem avl_calls_exact_witness :
    ∃ T replies es, run (call difference) (new_avl_tree 3 blank)
        [.add 2 false true, .add 1 false true, .get 1, .remove 2 true true] = .ok (T, replies) ∧
      avl_print_client T id = .ok es ∧ Increasing difference es := by
  obtain ⟨T, replies, es, hrun, hprint, -, hinc, -⟩ := avl_calls_exact difference_lawful 3 blank
    [.add 2 false true, .add 1 false true, .get 1, .remove 2 true true]
  exact ⟨T, replies, es, hrun, hprint, hinc⟩

/-- The removal of a key leaves the old traversal with exactly the element under
that key taken out: it is not found any more, not listed, not written to the
file again, and all others are. -/
def RemovesExactly (data_cmp : α → α → Int) (T : avl_tree_t α) (data : α) (free_data : Bool) : Prop :=
  ∃ T' effects es es', avl_remove data_cmp T data free_data true = .ok (AVL_OK, T', effects) ∧
    avl_print_client T id = .ok es ∧ avl_print_client T' id = .ok es' ∧
    es' = (es.filter fun a => data_cmp data a ≠ 0) ∧
    avl_get data_cmp T' data = .ok none ∧
    (∀ a, Effect.write T.fd a ∈ effects ↔ a ∈ es') ∧
    ∀ a ∈ es, a ∈ es' ↔ data_cmp data a ≠ 0

/-- Around the element that a consistent key finds, the elements with other keys
are all that a filter leaves. -/
theorem filter_ne_of_split {data_cmp : α → α → Int} {data a : α} {before after : List α}
    (hcons : Consistent (data_cmp data) (before ++ a :: after)) (hzero : data_cmp data a = 0) :
    ((before ++ a :: after).filter fun b => data_cmp data b ≠ 0) = before ++ after := by
  obtain ⟨-, htail, hcross⟩ := List.pairwise_append.mp hcons
  have hbefore : ∀ b ∈ before, data_cmp data b ≠ 0 := by
    intro b hb hzero'
    have := hcross b hb a (by simp) (by omega)
    omega
  have hafter : ∀ b ∈ after, data_cmp data b ≠ 0 := by
    intro b hb
    have := (List.pairwise_cons.mp htail).1 b hb (by omega)
    omega
  rw [List.filter_append, List.filter_cons_of_neg (by simpa using hzero),
    List.filter_eq_self.mpr (by simpa using hbefore), List.filter_eq_self.mpr (by simpa using hafter)]

/-- A removal does what its success code says exactly when the node that holds
the key has no two children. -/
theorem avl_remove_exact_iff {data_cmp : α → α → Int} (hlaw : LawfulOn data_cmp Set.univ) {fd : Int}
    {blocks : Nodes α} {calls : List (Call α)} {T : avl_tree_t α} {replies : List (Reply α)}
    (hrun : run (call data_cmp) (new_avl_tree fd blocks) calls = .ok (T, replies)) {data : α}
    {node : Nat}
    (hnode : private_avl_get data_cmp T.brk T.nodes T.root data = .ok (some node))
    (free_data : Bool) :
    RemovesExactly data_cmp T data free_data ↔
      (T.nodes node).left = none ∨ (T.nodes node).right = none := by
  obtain ⟨T₁, replies₁, hrun₁, es, ⟨tree, hrep, rfl⟩, hinc⟩ := run_call_sound hlaw fd blocks calls
  obtain ⟨rfl, rfl⟩ : T₁ = T ∧ replies₁ = replies := by simpa [hrun] using hrun₁.symm
  obtain ⟨footprint, hlinked, -⟩ := hrep.linked
  have hchildren := private_avl_get_children data_cmp hlinked hnode
  obtain ⟨found, hget, hfound⟩ := private_avl_get_represents data_cmp hrep data
  obtain rfl : found = some node := by simpa [hnode] using hget.symm
  have hzero : data_cmp data (T₁.nodes node).data = 0 := (find_sound hfound.symm).2
  obtain ⟨T', hremove, hrep', hfd, -⟩ := avl_remove_represents hrep hfound.symm free_data true
  obtain ⟨before, after, hsplit, herase⟩ := elements_erase hfound.symm
  have hcons := consistent_of_increasing hlaw hinc data
  have hfilter : ((elements tree).filter fun b => data_cmp data b ≠ 0) = before ++ after := by
    rw [hsplit] at hcons ⊢
    exact filter_ne_of_split hcons hzero
  have hprint : avl_print_client T₁ id = .ok (elements tree) := by
    simpa using avl_print_client_stores ⟨tree, hrep, rfl⟩ id
  have hprint' : avl_print_client T' id = .ok (elements (erase data_cmp data tree)) := by
    simpa using avl_print_client_stores ⟨_, hrep', rfl⟩ id
  constructor
  · rintro ⟨T'', effects, es, es', hremove'', hes, hes', hexact, -⟩
    by_contra hboth
    rw [hchildren.mpr (not_or.mp hboth), if_pos rfl] at herase
    obtain ⟨rfl, rfl⟩ : T' = T'' ∧ _ = effects := by simpa [hremove] using hremove''
    obtain rfl : elements tree = es := by simpa [hprint] using hes
    obtain rfl : elements tree = es' := by simpa [hprint', herase] using hes'
    have hmem : (T₁.nodes node).data ∈ elements tree := by simp [hsplit]
    rw [hexact, List.mem_filter] at hmem
    simp [hzero] at hmem
  · intro hone
    have hnotBoth : ¬bothChildren (against data_cmp data) tree = true := by
      rw [hchildren]
      tauto
    rw [if_neg hnotBoth] at herase
    rw [herase] at hprint' hremove
    have hother : ∀ a ∈ before ++ after, data_cmp data a ≠ 0 := by
      intro a ha
      rw [← hfilter, List.mem_filter] at ha
      simpa using ha.2
    have hnone : avl_get data_cmp T' data = .ok none := by
      rw [avl_get_represents hrep', find_eq_none_of_ne]
      · rfl
      · intro cell hcell
        exact hother cell.2 (herase ▸ List.mem_map_of_mem hcell)
    refine ⟨T', _, elements tree, before ++ after, hremove, hprint, hprint', hfilter.symm, hnone,
      ?_, ?_⟩
    · cases free_data <;> simp [removeEffects]
    · intro a ha
      rw [← hfilter, List.mem_filter]
      simp [ha]

/-- A tree with the root 2 and the leaves 1 and 3. -/
def three : List (Call Int) := [.add 2 false true, .add 1 false true, .add 3 false true]

theorem avl_remove_exact_iff_witness :
    ∃ T replies, run (call difference) (new_avl_tree 3 blank) three = .ok (T, replies) ∧
      RemovesExactly difference T 3 true := by
  obtain ⟨T, replies, hrun, -⟩ := run_call_sound difference_lawful 3 blank three
  have hnode : (do
      let (T, _) ← run (call difference) (new_avl_tree 3 blank) three
      private_avl_get difference T.brk T.nodes T.root 3) = .ok (some 2) := by decide
  have hleft : (do
      let (T, _) ← run (call difference) (new_avl_tree 3 blank) three
      return (T.nodes 2).left : Result (Option Nat)) = .ok none := by decide
  rw [hrun] at hnode hleft
  exact ⟨T, replies, hrun,
    (avl_remove_exact_iff difference_lawful hrun hnode true).mpr (Or.inl (by simpa using hleft))⟩

/-- The removal of 2 from `three` reports success, and 2 is still found. -/
theorem avl_remove_not_exact :
    ∃ T replies, run (call difference) (new_avl_tree 3 blank) three = .ok (T, replies) ∧
      avl_get difference T 2 = .ok (some 2) ∧ ¬RemovesExactly difference T 2 true := by
  obtain ⟨T, replies, hrun, -⟩ := run_call_sound difference_lawful 3 blank three
  have hget : (do
      let (T, _) ← run (call difference) (new_avl_tree 3 blank) three
      avl_get difference T 2) = .ok (some 2) := by decide
  have hafter : (do
      let (T, _) ← run (call difference) (new_avl_tree 3 blank) three
      let (_, T', _) ← avl_remove difference T 2 true true
      avl_get difference T' 2) = .ok (some 2) := by decide
  rw [hrun] at hget hafter
  refine ⟨T, replies, hrun, hget, ?_⟩
  rintro ⟨T', effects, es, es', hremove, -, -, -, hnone, -⟩
  simp [hremove, hnone] at hafter

end rc_project.avl_tree
