import RcProject.AvlTree.Balance
import RcProject.Server.Startup

open rc_project.avl_tree rc_project.blocks rc_project.c_string rc_project.transition

namespace rc_project.avl_tree

theorem avl_add_duplicated_eq {α : Type} {data_cmp : α → α → Int} {T T' : avl_tree_t α} {data : α}
    {free_data write_data : Bool} {effects : List (Effect α)}
    (hadd : avl_add data_cmp T data free_data write_data =
      .ok (AVL_DUPLICATED_KEY, T', effects)) : T' = T := by
  obtain ⟨found, -, hadd⟩ := Result.bind_eq_ok_iff.mp hadd
  split at hadd
  · cases hadd
    rfl
  · obtain ⟨⟨nodes, root⟩, -, hadd⟩ := Result.bind_eq_ok_iff.mp hadd
    cases hadd

end rc_project.avl_tree

namespace rc_project.server

namespace Memory

variable {memory next : Memory}

/-- `add_user` is one call of `avl_add` on the user list. -/
theorem add_user_call {client : client_t} {free_data write_data : Bool} {res : Int}
    {outputs : List Output}
    (hadd : memory.add_user client free_data write_data = .ok (res, next, outputs)) :
    Reaches call_by memory.user_list [(data_cmp (memory.clients.alloc client).contents,
      .add memory.clients.brk free_data write_data)] next.user_list := by
  obtain ⟨⟨code, user_list, effects⟩, havl, hadd⟩ := Result.bind_eq_ok_iff.mp hadd
  have hcall : call_by memory.user_list (data_cmp (memory.clients.alloc client).contents,
      .add memory.clients.brk free_data write_data) = .ok (user_list, .status code effects) := by
    simp only [call_by, call, havl, Result.ok_bind, Result.pure_eq_ok]
  have hlist : next.user_list = user_list := by
    by_cases hcode : code = AVL_DUPLICATED_KEY
    · subst hcode
      simp only [if_true] at hadd
      cases hadd
      exact (avl_add_duplicated_eq havl).symm
    · simp only [hcode, if_false] at hadd
      cases hadd
      rfl
  rw [hlist]
  exact (Reaches.refl call_by memory.user_list).snoc hcall

/-- The loop of `main` only makes additions to the user list. -/
theorem load_calls {fuel : Nat} {client : client_t} {unread : Bytes}
    (hload : load fuel memory client unread = .ok next) :
    ∃ calls, Reaches call_by memory.user_list calls next.user_list ∧
      ∀ input ∈ calls, ∃ data free_data write_data,
        input.2 = .add data free_data write_data := by
  induction fuel generalizing memory client unread with
  | zero =>
    cases hload
    exact ⟨[], Reaches.refl _ _, by simp⟩
  | succ fuel ih =>
    unfold load at hload
    by_cases hend : unread.take client_t.size = []
    · simp only [hend, if_true] at hload
      cases hload
      exact ⟨[], Reaches.refl _ _, by simp⟩
    · simp only [hend, if_false] at hload
      obtain ⟨⟨res, added, outputs⟩, hadd, hload⟩ := Result.bind_eq_ok_iff.mp hload
      obtain ⟨calls, hreach, hadds⟩ := ih hload
      refine ⟨_, (add_user_call hadd).append hreach, ?_⟩
      intro input hinput
      obtain rfl | hinput := List.mem_cons.mp hinput
      · exact ⟨_, _, _, rfl⟩
      · exact hadds input hinput

end Memory

/-- Behind the loop of `main` the user list is an AVL tree exactly if the file
held at most one name. -/
theorem user_list_isAvl_iff (startup : Startup) (records : Bytes) :
    ∃ server, main startup records = .ok server ∧
      (server.memory.user_list.IsAvl ↔ server.memory.users.length ≤ 1) := by
  obtain ⟨server, hmain, hstarted⟩ := exists_main startup records
  refine ⟨server, hmain, ?_⟩
  obtain ⟨memory, hload, hserver⟩ := Result.bind_eq_ok_iff.mp hmain
  cases hserver
  obtain ⟨calls, hreach, hadds⟩ := Memory.load_calls hload
  have hprint := avl_print_client_stores hstarted.valid.user_list.stores id
  rw [List.map_id] at hprint
  exact isAvl_of_adds_iff hadds hreach hprint

/-- Every sequence of calls on a new tree runs through. The tree is balanced in
all states of the run, with the heights that its nodes store and lookups of
logarithmic depth, exactly if no element is added to a tree that is not empty.
The calls of the startup loop are such a sequence: the user list is balanced behind
it exactly if the file held at most one name. -/
theorem avl_balanced_iff {α : Type} (fd : Int) (blocks : Nodes α)
    (calls : List ((α → α → Int) × Call α)) (startup : Startup) (records : Bytes) :
    (∃ T, Reaches call_by (new_avl_tree fd blocks) calls T) ∧
      ((∀ past T, past <+: calls → Reaches call_by (new_avl_tree fd blocks) past T → T.IsAvl) ↔
        ∀ past input T, past ++ [input] <+: calls →
          Reaches call_by (new_avl_tree fd blocks) past T → ¬ Grows input.1 T input.2) ∧
      ∃ server, main startup records = .ok server ∧
        (server.memory.user_list.IsAvl ↔ server.memory.users.length ≤ 1) := by
  obtain ⟨htotal, hiff⟩ := run_isAvl_iff fd blocks calls
  exact ⟨htotal, hiff, user_list_isAvl_iff startup records⟩

/-- Three keys in increasing order hang below each other on the right. -/
theorem increasing_keys_chain :
    ∃ T, Reaches call_by (new_avl_tree 3 blank) [(difference, .add 1 false true),
        (difference, .add 2 false true), (difference, .add 3 false true)] T ∧
      (T.root.map fun node => ((T.nodes node).height, (T.nodes node).left)) = some (0, none) ∧
      avl_print_client T id = .ok [1, 2, 3] ∧ ¬ T.IsAvl := by
  obtain ⟨⟨T, hreach⟩, -⟩ := run_isAvl_iff 3 blank [(difference, .add 1 false true),
    (difference, .add 2 false true), (difference, .add 3 false true)]
  have hview : (do
      let (T, _) ← run call_by (new_avl_tree 3 blank) [(difference, .add 1 false true),
        (difference, .add 2 false true), (difference, .add 3 false true)]
      let es ← avl_print_client T id
      return ((T.root.map fun node => ((T.nodes node).height, (T.nodes node).left)), es)) =
        (.ok (some (0, none), [1, 2, 3]) : Result _) := by
    decide
  obtain ⟨replies, hrun⟩ := hreach
  rw [hrun, Result.ok_bind] at hview
  obtain ⟨es, hprint, hview⟩ := Result.bind_eq_ok_iff.mp hview
  rw [Result.pure_eq_ok, Except.ok.injEq, Prod.mk.injEq] at hview
  obtain ⟨hroot, rfl⟩ := hview
  refine ⟨T, ⟨replies, hrun⟩, hroot, hprint, ?_⟩
  rw [isAvl_of_adds_iff (by simp) ⟨replies, hrun⟩ hprint]
  decide

end rc_project.server
