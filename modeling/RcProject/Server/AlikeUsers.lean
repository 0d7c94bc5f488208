import RcProject.Server.Alike

open rc_project.avl_tree rc_project.blocks rc_project.c_string rc_project.scanf
open rc_project.search_tree

namespace rc_project.server

namespace Memory

variable {memory memory' next next' : Memory} {client client' : client_t} {u : Nat}

section Trees

variable {tree : BinaryTree (Cell Nat)} {free_data write_data : Bool} {outputs : List Output}

/-- The tree behind an addition is the one that `avl_add` makes of it. -/
theorem represents_of_add_user (hrep : Represents memory.user_list tree)
    (hadd : memory.add_user client free_data write_data = .ok (AVL_OK, next, outputs)) :
    Represents next.user_list
      (insert (data_cmp (memory.clients.alloc client).contents) memory.clients.brk tree) := by
  cases hfind : find (against (data_cmp (memory.clients.alloc client).contents) memory.clients.brk)
      tree with
  | none =>
    obtain ⟨T, havl, hrep', -⟩ := avl_add_represents hrep hfind free_data write_data
    simp only [add_user, havl, Result.ok_bind] at hadd
    rw [if_neg (by decide)] at hadd
    cases hadd
    exact hrep'
  | some cell =>
    have havl := avl_add_duplicated hrep hfind free_data write_data
    simp only [add_user, havl, Result.ok_bind, if_true] at hadd
    cases hadd

/-- The tree behind a removal is the one that `avl_remove` makes of it. -/
theorem represents_of_remove_user (hrep : Represents memory.user_list tree)
    (hremove : memory.remove_user client free_data write_data = .ok (AVL_OK, next, outputs)) :
    Represents next.user_list
      (erase (data_cmp (memory.clients.scratch client).contents) memory.clients.brk tree) := by
  cases hfind : find (against (data_cmp (memory.clients.scratch client).contents) memory.clients.brk)
      tree with
  | none =>
    have havl := avl_remove_not_found hrep hfind free_data write_data
    simp only [remove_user, havl, Result.ok_bind] at hremove
    cases hremove
  | some cell =>
    obtain ⟨T, havl, hrep', -⟩ := avl_remove_represents hrep hfind free_data write_data
    simp only [remove_user, havl, Result.ok_bind] at hremove
    cases hremove
    exact hrep'

/-- A tree of the users holds the users. -/
theorem elements_eq_users (hrep : Represents memory.user_list tree) : elements tree = memory.users :=
  (traversal_eq ⟨tree, hrep, rfl⟩).symm

end Trees

section Names

/-- Two memories that hold users of the same names in one tree. -/
structure SameNames (memory memory' : Memory) : Prop where
  valid : memory.Valid
  valid' : memory'.Valid
  user_list : ∃ tree, Represents memory.user_list tree ∧ Represents memory'.user_list tree
  brk : memory.clients.brk = memory'.clients.brk
  username : ∀ u ∈ memory.users, (memory.clients.contents u).username_string =
    (memory'.clients.contents u).username_string

/-- One record that is added to two memories: to one place of the tree in both, or to none. -/
inductive AddedBoth (memory memory' : Memory) (client client' : client_t)
    (free_data write_data : Bool) : Prop
  | added (next next' : Memory) (tree : BinaryTree (Cell Nat))
    (hnew : ∀ u ∈ memory.users,
      client.username_string ≠ (memory.clients.contents u).username_string)
    (hnew' : ∀ u ∈ memory'.users,
      client'.username_string ≠ (memory'.clients.contents u).username_string)
    (hadd : memory.add_user client free_data write_data =
      .ok (AVL_OK, next, if write_data then [.write client.bytes] else []))
    (hadd' : memory'.add_user client' free_data write_data =
      .ok (AVL_OK, next', if write_data then [.write client'.bytes] else []))
    (hadded : memory.Added client (if write_data then client.bytes else []) next)
    (hadded' : memory'.Added client' (if write_data then client'.bytes else []) next')
    (htree : Represents next.user_list tree) (htree' : Represents next'.user_list tree) :
    AddedBoth memory memory' client client' free_data write_data
  | duplicated
    (hadd : memory.add_user client free_data write_data = .ok (AVL_DUPLICATED_KEY, memory, []))
    (hadd' : memory'.add_user client' free_data write_data =
      .ok (AVL_DUPLICATED_KEY, memory', [])) :
    AddedBoth memory memory' client client' free_data write_data

/-- One name that is removed from two memories: in one way from the tree of both, or from none. -/
inductive RemovedBoth (memory memory' : Memory) (client client' : client_t) : Prop
  | removed (u v : Nat) (next next' : Memory) (tree : BinaryTree (Cell Nat))
    (hremove : memory.remove_user client true true = .ok (AVL_OK, next,
      .ftruncate :: next.users.map fun w => .write (memory.clients.contents w).bytes))
    (hremove' : memory'.remove_user client' true true = .ok (AVL_OK, next',
      .ftruncate :: next'.users.map fun w => .write (memory'.clients.contents w).bytes))
    (hremoved : memory.Removed u next) (hremoved' : memory'.Removed v next')
    (htree : Represents next.user_list tree) (htree' : Represents next'.user_list tree) :
    RemovedBoth memory memory' client client'
  | not_found
    (hremove : memory.remove_user client true true = .ok (AVL_KEY_NOT_FOUND, memory, []))
    (hremove' : memory'.remove_user client' true true = .ok (AVL_KEY_NOT_FOUND, memory', [])) :
    RemovedBoth memory memory' client client'

namespace SameNames

variable (h : memory.SameNames memory')
include h

theorem users : memory.users = memory'.users := by
  obtain ⟨tree, hrep, hrep'⟩ := h.user_list
  exact (elements_eq_users hrep).symm.trans (elements_eq_users hrep')

variable (hname : client.username_string = client'.username_string)
include hname

/-- A name is new in both memories, or in none of them. -/
theorem new_iff :
    (∀ u ∈ memory.users, client.username_string ≠ (memory.clients.contents u).username_string) ↔
      ∀ u ∈ memory'.users,
        client'.username_string ≠ (memory'.clients.contents u).username_string := by
  rw [← h.users, ← hname]
  apply forall₂_congr
  intro u hu
  rw [h.username u hu]

/-- A record compares with the stored ones by its name, so that an operation on the tree is the
same. -/
theorem compares {tree : BinaryTree (Cell Nat)} (hrep : Represents memory.user_list tree) :
    ∀ u ∈ elements tree, data_cmp (memory.clients.scratch client).contents memory.clients.brk u =
      data_cmp (memory'.clients.scratch client').contents memory.clients.brk u := by
  intro u hu
  rw [elements_eq_users hrep] at hu
  have hu' : u ∈ memory'.users := h.users ▸ hu
  calc data_cmp (memory.clients.scratch client).contents memory.clients.brk u
      = client_order client (memory.clients.contents u) :=
        h.valid.user_list.onFun_scratch client hu
    _ = client_order client' (memory'.clients.contents u) :=
        client_order_congr hname (h.username u hu)
    _ = data_cmp (memory'.clients.scratch client').contents memory'.clients.brk u :=
        (h.valid'.user_list.onFun_scratch client' hu').symm
    _ = data_cmp (memory'.clients.scratch client').contents memory.clients.brk u := by rw [h.brk]

theorem addedBoth (free_data write_data : Bool) :
    memory.AddedBoth memory' client client' free_data write_data := by
  by_cases hnew : ∀ u ∈ memory.users,
      client.username_string ≠ (memory.clients.contents u).username_string
  · have hnew' := (h.new_iff hname).mp hnew
    obtain ⟨next, hadd, hadded⟩ := h.valid.add_user_spec hnew free_data write_data
    obtain ⟨next', hadd', hadded'⟩ := h.valid'.add_user_spec hnew' free_data write_data
    obtain ⟨tree, hrep, hrep'⟩ := h.user_list
    have htree' := represents_of_add_user hrep' hadd'
    have hsame : insert (data_cmp (memory'.clients.alloc client').contents) memory.clients.brk tree =
        insert (data_cmp (memory.clients.alloc client).contents) memory.clients.brk tree :=
      (insert_congr (h.compares hname hrep)).symm
    rw [← h.brk, hsame] at htree'
    exact .added next next' _ hnew hnew' hadd hadd' hadded hadded' (represents_of_add_user hrep hadd)
      htree'
  · have hnew' := (not_congr (h.new_iff hname)).mp hnew
    push Not at hnew hnew'
    obtain ⟨u, hu, hsame⟩ := hnew
    obtain ⟨v, hv, hsame'⟩ := hnew'
    exact .duplicated (h.valid.add_user_duplicated hu hsame free_data write_data)
      (h.valid'.add_user_duplicated hv hsame' free_data write_data)

theorem removedBoth : memory.RemovedBoth memory' client client' := by
  by_cases hnew : ∀ u ∈ memory.users,
      client.username_string ≠ (memory.clients.contents u).username_string
  · exact .not_found (h.valid.remove_user_not_found hnew true true)
      (h.valid'.remove_user_not_found ((h.new_iff hname).mp hnew) true true)
  · have hnew' := (not_congr (h.new_iff hname)).mp hnew
    push Not at hnew hnew'
    obtain ⟨u, hu, hsame⟩ := hnew
    obtain ⟨v, hv, hsame'⟩ := hnew'
    obtain ⟨next, hremove, hremoved⟩ := h.valid.remove_user_spec hu hsame
    obtain ⟨next', hremove', hremoved'⟩ := h.valid'.remove_user_spec hv hsame'
    obtain ⟨tree, hrep, hrep'⟩ := h.user_list
    have htree' := represents_of_remove_user hrep' hremove'
    have herase : erase (data_cmp (memory'.clients.scratch client').contents) memory.clients.brk tree =
        erase (data_cmp (memory.clients.scratch client).contents) memory.clients.brk tree :=
      (erase_congr (h.compares hname hrep)).symm
    rw [← h.brk, herase] at htree'
    exact .removed u v next next' _ hremove hremove' hremoved hremoved'
      (represents_of_remove_user hrep hremove) htree'

end SameNames

end Names

section Users

theorem Alike.sameNames (h : memory.Alike memory') : memory.SameNames memory' where
  valid := h.valid
  valid' := h.valid'
  user_list := h.user_list
  brk := h.clients_brk
  username := fun u hu => by rw [h.contents hu]

/-- Memories whose users were changed in one way are alike behind it. -/
theorem Alike.with_users {tree : BinaryTree (Cell Nat)} (h : memory.Alike memory') (records : Bytes)
    (hrest : next = { memory with user_list := next.user_list, clients := next.clients, records })
    (hrest' : next' = { memory' with user_list := next'.user_list, clients := next'.clients, records })
    (hvalid : next.Valid) (hvalid' : next'.Valid) (htree : Represents next.user_list tree)
    (htree' : Represents next'.user_list tree) (hbrk : next.clients.brk = next'.clients.brk)
    (hclients : ∀ u < next.clients.brk, next.clients.contents u = next'.clients.contents u) :
    next.Alike next' := by
  generalize next.user_list = T, next.clients = clients at *
  generalize next'.user_list = T', next'.clients = clients' at *
  subst hrest hrest'
  exact
    { h with
      valid := hvalid
      valid' := hvalid'
      user_list := ⟨tree, htree, htree'⟩
      clients_brk := hbrk
      clients := hclients
      records := rfl }

/-- One record that is added to both memories. -/
theorem Alike.add_user (h : memory.Alike memory') (client : client_t) :
    ∃ res res' outputs outputs', ∃ next next' : Memory,
      memory.add_user client false false = .ok (res, next, outputs) ∧
        memory'.add_user client false false = .ok (res', next', outputs') ∧ next.Alike next' := by
  cases h.sameNames.addedBoth (rfl : client.username_string = _) false false with
  | duplicated hadd hadd' => exact ⟨_, _, _, _, memory, memory', hadd, hadd', h⟩
  | added next next' tree _ _ hadd hadd' hadded hadded' htree htree' =>
    refine ⟨_, _, _, _, next, next', hadd, hadd', ?_⟩
    have hclients : next.clients = memory.clients.alloc client := by rw [hadded.rest]
    have hclients' : next'.clients = memory'.clients.alloc client := by rw [hadded'.rest]
    refine h.with_users memory.records ?_ ?_ hadded.valid hadded'.valid htree htree' ?_ ?_
    · rw [hclients, hadded.rest]
      simp
    · rw [hclients', hadded'.rest, h.records]
      simp
    · rw [hclients, hclients', Blocks.alloc_brk, Blocks.alloc_brk, h.clients_brk]
    · rw [hclients, hclients', Blocks.alloc_brk]
      intro u hu
      obtain hold | rfl := Nat.lt_succ_iff_lt_or_eq.mp hu
      · rw [Blocks.alloc_of_lt _ hold, Blocks.alloc_of_lt _ (h.clients_brk ▸ hold)]
        exact h.clients u hold
      · rw [Blocks.alloc_self, h.clients_brk, Blocks.alloc_self]

/-- A removal of one name writes the same records to both files. -/
theorem Alike.remove_user (h : memory.Alike memory')
    (hname : client.username_string = client'.username_string) :
    ∃ res outputs, ∃ next next' : Memory,
      memory.remove_user client true true = .ok (res, next, outputs) ∧
        memory'.remove_user client' true true = .ok (res, next', outputs) ∧ next.Alike next' := by
  cases h.sameNames.removedBoth hname with
  | not_found hremove hremove' => exact ⟨_, _, memory, memory', hremove, hremove', h⟩
  | removed u v next next' tree hremove hremove' hremoved hremoved' htree htree' =>
    have husers : next'.users = next.users :=
      (elements_eq_users htree').symm.trans (elements_eq_users htree)
    have hcontents (w : Nat) (hw : w ∈ next.users) :
        memory.clients.contents w = memory'.clients.contents w :=
      h.contents (hremoved.sublist.subset hw)
    have houtputs : next.users.map (fun w => Output.write (memory.clients.contents w).bytes) =
        next'.users.map fun w => Output.write (memory'.clients.contents w).bytes := by
      rw [husers]
      apply List.map_congr_left
      intro w hw
      rw [hcontents w hw]
    have hrecords : next.users.flatMap (fun w => (memory.clients.contents w).bytes) =
        next'.users.flatMap fun w => (memory'.clients.contents w).bytes := by
      rw [husers]
      apply List.flatMap_congr
      intro w hw
      rw [hcontents w hw]
    refine ⟨_, _, next, next', hremove, houtputs ▸ hremove', ?_⟩
    have hclients : next.clients = memory.clients := by rw [hremoved.rest]
    have hclients' : next'.clients = memory'.clients := by rw [hremoved'.rest]
    refine h.with_users (next.users.flatMap fun w => (memory.clients.contents w).bytes) ?_ ?_
      hremoved.valid hremoved'.valid htree htree' ?_ ?_
    · rw [hclients]
      exact hremoved.rest
    · rw [hclients', hrecords]
      exact hremoved'.rest
    · rw [hclients, hclients', h.clients_brk]
    · rw [hclients, hclients']
      exact h.clients

end Users

section Start

/-- A read that fills the record leaves nothing of what it held. -/
theorem ofBytes_congr {chunk : Bytes} (hfull : client = client' ∨ chunk.length = client_t.size) :
    client_t.ofBytes (chunk ++ client.bytes.drop chunk.length) =
      client_t.ofBytes (chunk ++ client'.bytes.drop chunk.length) := by
  obtain rfl | hfull := hfull
  · rfl
  · have hnone (client : client_t) : client.bytes.drop chunk.length = [] :=
      List.drop_eq_nil_of_le (by rw [client.length_bytes, hfull])
    rw [hnone, hnone]

/-- The loop of `main` leaves memories alike that were alike in front of it. -/
theorem Alike.load (h : memory.Alike memory') (fuel : Nat) {unread : Bytes}
    (hfull : client = client' ∨ unread = [] ∨ client_t.size ≤ unread.length) :
    ∃ next next' : Memory, server.load fuel memory client unread = .ok next ∧
      server.load fuel memory' client' unread = .ok next' ∧ next.Alike next' := by
  induction fuel generalizing memory memory' client client' unread with
  | zero => exact ⟨memory, memory', rfl, rfl, h⟩
  | succ fuel ih =>
    unfold server.load
    by_cases hend : unread.take client_t.size = []
    · exact ⟨memory, memory', by simp [hend], by simp [hend], h⟩
    · have hchunk : client = client' ∨ (unread.take client_t.size).length = client_t.size := by
        obtain hsame | rfl | hlong := hfull
        · exact Or.inl hsame
        · exact absurd List.take_nil hend
        · exact Or.inr (List.length_take_of_le hlong)
      obtain ⟨res, res', outputs, outputs', added, added', hadd, hadd', halike⟩ :=
        h.add_user (client_t.ofBytes
          (unread.take client_t.size ++ client.bytes.drop (unread.take client_t.size).length))
      have hrecord := ofBytes_congr hchunk
      simp only [hend, if_false, hadd, ← hrecord, hadd', Result.ok_bind]
      exact ih halike (Or.inl rfl)

end Start

section Commands

variable {args : Bytes} {socket : Int}

/-- Two results of an admin command: the same answer and outputs, and memories that
are alike. -/
def SameAnswers (result result' : Memory × Int × List Output) : Prop :=
  result.1.Alike result'.1 ∧ result.2 = result'.2

/-- A command adds a user with a new name, so that a block is written as it was
handed out. -/
inductive AddsUser (memory : Memory) (args : Bytes) : AdminCommand → Prop
  | add (username ip password : Bytes) (client_server p2p group : BitVec 32)
    (hargs : sscanf args [.word USERNAME_SIZE, .space, .word INET_ADDRSTRLEN, .space,
      .word PASSWORD_SIZE, .space, .int, .space, .int, .space, .int] =
        .ok [.string username, .string ip, .string password, .int client_server, .int p2p,
          .int group])
    (hnew : ∀ u ∈ memory.users, cstr username ≠ (memory.clients.contents u).username_string) :
    AddsUser memory args .ADD

theorem Alike.cmd_list (h : memory.Alike memory') (socket : Int) :
    Result.Related SameAnswers (server.cmd_list memory socket) (server.cmd_list memory' socket) := by
  have hlist : memory.users.map (fun data => send_to_client socket (memory.clients.contents data)) =
      memory'.users.map fun data => send_to_client socket (memory'.clients.contents data) := by
    rw [← h.users]
    apply List.map_congr_left
    intro u hu
    rw [h.contents hu]
  rw [server.cmd_list, server.cmd_list, avl_print_client_stores h.valid.user_list.stores,
    avl_print_client_stores h.valid'.user_list.stores, hlist]
  exact .ok ⟨h, rfl⟩

theorem Alike.cmd_add (h : memory.Alike memory') (hold : ¬ memory.AddsUser args .ADD) :
    Result.Related SameAnswers (server.cmd_add memory socket args)
      (server.cmd_add memory' socket args) := by
  apply Result.Related.bind_eq
  intro values hargs
  split
  · rename_i username ip password client_server p2p group
    obtain ⟨client, hclient⟩ : ∃ client, new_client memory.clients.fresh username password ip
        client_server p2p group = .ok client := exists_new_client_of_scan _ hargs
    obtain ⟨client', hclient'⟩ : ∃ client, new_client memory'.clients.fresh username password ip
        client_server p2p group = .ok client := exists_new_client_of_scan _ hargs
    have hname := username_string_of_new_client hclient
    have hname' := username_string_of_new_client hclient'
    obtain ⟨u, hu, hstored⟩ : ∃ u ∈ memory.users,
        cstr username = (memory.clients.contents u).username_string := by
      by_contra hnone
      push Not at hnone
      exact hold (.add username ip password client_server p2p group hargs hnone)
    have hu' : u ∈ memory'.users := h.users ▸ hu
    have hstored' : cstr username = (memory'.clients.contents u).username_string := by
      rw [hstored, h.contents hu]
    rw [hclient, hclient', Result.ok_bind, Result.ok_bind,
      h.valid.add_user_duplicated hu (hname.trans hstored),
      h.valid'.add_user_duplicated hu' (hname'.trans hstored')]
    exact .ok ⟨h, rfl⟩
  · exact .ok ⟨h, rfl⟩

theorem Alike.cmd_del (h : memory.Alike memory') :
    Result.Related SameAnswers (server.cmd_del memory socket args)
      (server.cmd_del memory' socket args) := by
  apply Result.Related.bind_eq
  intro values hargs
  split
  · rename_i username
    have hfits : (cstr username).length < USERNAME_SIZE :=
      (length_cstr_le username).trans_lt (word_of_sscanf hargs).2
    obtain ⟨client, hclient⟩ := exists_new_client memory.clients.fresh hfits 1 1 1
    obtain ⟨client', hclient'⟩ := exists_new_client memory'.clients.fresh hfits 1 1 1
    have hname : client.username_string = client'.username_string :=
      (username_string_of_new_client hclient).trans (username_string_of_new_client hclient').symm
    obtain ⟨res, outputs, next, next', hremove, hremove', halike⟩ := h.remove_user hname
    simp only [hclient, hclient', hremove, hremove', Result.ok_bind]
    by_cases hres : res = AVL_KEY_NOT_FOUND
    · rw [if_pos hres, if_pos hres]
      exact .ok ⟨halike, rfl⟩
    · rw [if_neg hres, if_neg hres]
      exact .ok ⟨halike, rfl⟩
  · exact .ok ⟨h, rfl⟩

/-- An admin command that adds no user does the same in memories that are alike. -/
theorem Alike.cmd_functions (h : memory.Alike memory') {command : AdminCommand}
    (hold : ¬ memory.AddsUser args command) :
    Result.Related SameAnswers (server.cmd_functions memory socket args command)
      (server.cmd_functions memory' socket args command) := by
  cases command with
  | LIST => exact h.cmd_list socket
  | ADD => exact h.cmd_add hold
  | DEL => exact h.cmd_del
  | QUIT => exact .ok ⟨h, rfl⟩

end Commands

end Memory

/-- Before the records are read the memories of two processes are alike. -/
theorem Startup.memory_alike {startup startup' : Startup}
    (hsocket : startup.udp_socket = startup'.udp_socket) (records : Bytes) :
    (startup.memory records).Alike (startup'.memory records) := by
  have hsessions (startup : Startup) : (startup.memory records).userSessions = [] :=
    traversal_eq (new_avl_tree_stores (-1) startup.nodes)
  have hgroups (startup : Startup) : (startup.memory records).multicastGroups = [] :=
    traversal_eq (new_avl_tree_stores 1 startup.nodes)
  exact
    { valid := startup.memory_valid records
      valid' := startup'.memory_valid records
      user_list := ⟨.nil, new_avl_tree_represents _ _, new_avl_tree_represents _ _⟩
      clients_brk := rfl
      clients := fun u hu => absurd hu (Nat.not_lt_zero u)
      records := rfl
      sessions_brk := rfl
      userSessions := by simp [hsessions]
      sessions := by simp [hsessions]
      groups_brk := rfl
      multicastGroups := by simp [hgroups]
      group_blocks := by simp [hgroups]
      current_group := rfl
      udp_socket := hsocket }

/-- A file that holds a whole record, or nothing, starts two servers that are alike. -/
theorem main_alike {startup startup' : Startup} {records : Bytes} {start start' : Server}
    (hsocket : startup.udp_socket = startup'.udp_socket)
    (hrecords : records = [] ∨ client_t.size ≤ records.length)
    (hmain : main startup records = .ok start) (hmain' : main startup' records = .ok start') :
    start.memory.Alike start'.memory := by
  obtain ⟨memory, memory', hload, hload', halike⟩ :
      ∃ memory memory' : Memory,
        load (records.length + 1) (startup.memory records) startup.client records = .ok memory ∧
          load (records.length + 1) (startup'.memory records) startup'.client records = .ok memory' ∧
            memory.Alike memory' :=
    (Startup.memory_alike hsocket records).load _ (Or.inr hrecords)
  rw [main, hload] at hmain
  rw [main, hload'] at hmain'
  cases hmain
  cases hmain'
  exact halike

end rc_project.server
