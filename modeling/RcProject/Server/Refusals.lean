import RcProject.AvlTree.Calls
import RcProject.Server.Overflow

open rc_project.avl_tree rc_project.blocks rc_project.c_string rc_project.scanf
open rc_project.search_tree rc_project.transition

namespace rc_project.avl_tree

variable {α : Type} {data_cmp : α → α → Int} {T : avl_tree_t α} {es : List α}

/-- An addition is refused exactly under a key that is stored, and then nothing is done:
nothing is written, freed or changed. -/
theorem avl_add_refused_iff (hlaw : LawfulOn data_cmp Set.univ) (hstores : Stores T es)
    (hinc : Increasing data_cmp es) (data : α) (free_data write_data : Bool) :
    ∃ code T' effects, avl_add data_cmp T data free_data write_data = .ok (code, T', effects) ∧
      (code = AVL_DUPLICATED_KEY ↔ ∃ a ∈ es, data_cmp data a = 0) ∧
      (code = AVL_DUPLICATED_KEY → T' = T ∧ effects = []) := by
  have hcons := consistent_of_increasing hlaw hinc data
  by_cases hnew : ∀ a ∈ es, data_cmp data a ≠ 0
  · obtain ⟨T', before, after, hadd, -⟩ := avl_add_stores hstores hcons hnew free_data write_data
    refine ⟨_, T', _, hadd, iff_of_false (by decide) ?_, fun h => absurd h (by decide)⟩
    rintro ⟨a, ha, hzero⟩
    exact hnew a ha hzero
  · push Not at hnew
    obtain ⟨a, ha, hzero⟩ := hnew
    exact ⟨_, T, [], avl_add_stores_duplicated hstores hcons ha hzero free_data write_data,
      iff_of_true rfl ⟨a, ha, hzero⟩, fun _ => ⟨rfl, rfl⟩⟩

/-- A removal is refused exactly under a key that is not stored, and then nothing is done. -/
theorem avl_remove_refused_iff (hlaw : LawfulOn data_cmp Set.univ) (hstores : Stores T es)
    (hinc : Increasing data_cmp es) (data : α) (free_data write_data : Bool) :
    ∃ code T' effects, avl_remove data_cmp T data free_data write_data = .ok (code, T', effects) ∧
      (code = AVL_KEY_NOT_FOUND ↔ ∀ a ∈ es, data_cmp data a ≠ 0) ∧
      (code = AVL_KEY_NOT_FOUND → T' = T ∧ effects = []) := by
  by_cases hnew : ∀ a ∈ es, data_cmp data a ≠ 0
  · exact ⟨_, T, [], avl_remove_stores_not_found hstores hnew free_data write_data,
      iff_of_true rfl hnew, fun _ => ⟨rfl, rfl⟩⟩
  · push Not at hnew
    obtain ⟨a, ha, hzero⟩ := hnew
    obtain ⟨T', before, after, es', -, -, hremove, -⟩ := avl_remove_stores hstores
      (consistent_of_increasing hlaw hinc data) ha hzero free_data write_data
    refine ⟨_, T', _, hremove, iff_of_false (by decide) ?_, fun h => absurd h (by decide)⟩
    intro hnone
    exact hnone a ha hzero

/-- A tree refuses an addition exactly under a key that it stores and a removal exactly
under one that it does not store. A refusal leaves the tree, the file and the element of
the caller as they were. -/
structure RefusesExactly (data_cmp : α → α → Int) (T : avl_tree_t α) (es : List α) : Prop where
  add : ∀ data free_data write_data, ∃ code T' effects,
    avl_add data_cmp T data free_data write_data = .ok (code, T', effects) ∧
      (code = AVL_DUPLICATED_KEY ↔ ∃ a ∈ es, data_cmp data a = 0) ∧
      (code = AVL_DUPLICATED_KEY → T' = T ∧ effects = [])
  remove : ∀ data free_data write_data, ∃ code T' effects,
    avl_remove data_cmp T data free_data write_data = .ok (code, T', effects) ∧
      (code = AVL_KEY_NOT_FOUND ↔ ∀ a ∈ es, data_cmp data a ≠ 0) ∧
      (code = AVL_KEY_NOT_FOUND → T' = T ∧ effects = [])

/-- Every sequence of calls leads to such a tree. -/
theorem run_call_refusesExactly (hlaw : LawfulOn data_cmp Set.univ) (fd : Int) (blocks : Nodes α)
    (calls : List (Call α)) :
    ∃ T replies es, run (call data_cmp) (new_avl_tree fd blocks) calls = .ok (T, replies) ∧
      avl_print_client T id = .ok es ∧ RefusesExactly data_cmp T es := by
  obtain ⟨T, replies, hrun, es, hstores, hinc⟩ := run_call_sound hlaw fd blocks calls
  refine ⟨T, replies, es, hrun, ?_, avl_add_refused_iff hlaw hstores hinc,
    avl_remove_refused_iff hlaw hstores hinc⟩
  rw [avl_print_client_stores hstores, List.map_id]

end rc_project.avl_tree

namespace rc_project.server

/-- Two messages that fit are told apart by their texts. -/
theorem write_fd_inj {fd : Int} {a b : Bytes} (ha : 0 ∉ a) (hb : 0 ∉ b)
    (halength : a.length < BUFFER_SIZE) (hblength : b.length < BUFFER_SIZE)
    (hsame : write_fd fd a = write_fd fd b) : a = b := by
  have hmessage : format_message a = format_message b := by
    simpa [write_fd] using hsame
  rw [← cstr_format_message ha halength, hmessage, cstr_format_message hb hblength]

/-- The answer about a user that was done something with is none of the fixed ones. -/
theorem write_fd_user_ne {fd : Int} {username ending other : Bytes} (hname : 0 ∉ username)
    (hfits : username.length < USERNAME_SIZE) (hending : 0 ∉ ending ∧ ending.length ≤ 10)
    (hother : 0 ∉ other ∧ other.length < BUFFER_SIZE) (hdiffer : ¬ ending <:+ other) :
    write_fd fd (text "User " ++ username ++ ending) ≠ write_fd fd other := by
  intro hsame
  have hnul : 0 ∉ text "User " ++ username ++ ending := by
    have huser : 0 ∉ text "User " := by decide
    simp only [List.mem_append, not_or]
    exact ⟨⟨huser, hname⟩, hending.1⟩
  have hlength : (text "User " ++ username ++ ending).length < BUFFER_SIZE := by
    have huser : (text "User ").length = 5 := by decide
    simp only [List.length_append, huser, BUFFER_SIZE, USERNAME_SIZE] at hfits ⊢
    omega
  have htext := write_fd_inj hnul hother.1 hlength hother.2 hsame
  apply hdiffer
  rw [← htext]
  exact List.suffix_append _ _

def userExists (socket : Int) : Output := write_fd socket (text "User already exists\n")

def userNotFound (socket : Int) : Output := write_fd socket (text "User not found\n")

namespace Memory

variable {memory next : Memory} {socket exit : Int} {args : Bytes} {outputs : List Output}

/-- The arguments of an `ADD` that name a user of the list. -/
def AddsStored (memory : Memory) (args : Bytes) : Prop :=
  ∃ username ip password client_server p2p group,
    sscanf args [.word USERNAME_SIZE, .space, .word INET_ADDRSTRLEN, .space, .word PASSWORD_SIZE,
      .space, .int, .space, .int, .space, .int] =
        .ok [.string username, .string ip, .string password, .int client_server, .int p2p,
          .int group] ∧
    ∃ u ∈ memory.users, (memory.clients.contents u).username_string = cstr username

/-- The arguments of a `DEL` that name no user of the list. -/
def DeletesUnknown (memory : Memory) (args : Bytes) : Prop :=
  ∃ username, sscanf args [.word USERNAME_SIZE] = .ok [.string username] ∧
    ∀ u ∈ memory.users, (memory.clients.contents u).username_string ≠ cstr username

/-- `cmd_add` refuses exactly the name of a user of the list, and then does nothing else. -/
theorem AddOutcome.refused_iff (hvalid : memory.Valid) (hnul : 0 ∉ args)
    (h : memory.AddOutcome socket args next outputs) :
    (userExists socket ∈ outputs ↔ memory.AddsStored args) ∧
      (userExists socket ∈ outputs → next = memory ∧ outputs = [userExists socket]) := by
  cases h with
  | usage hargs =>
    have hother : userExists socket ∉ [write_fd socket (text
        "Invalid usage! Use: ADD <USER-ID> <IP> <PASSWORD> <CLIENT-SERVER> <P2P> <GROUP>\n")] := by
      rw [List.mem_singleton]
      intro hsame
      exact absurd (write_fd_inj (by decide) (by decide) (by decide) (by decide) hsame) (by decide)
    refine ⟨iff_of_false hother ?_, fun hmem => absurd hmem hother⟩
    rintro ⟨username, ip, password, client_server, p2p, group, hsix, -⟩
    exact hargs _ _ _ _ _ _ hsix
  | taken username ip password client_server p2p group u hargs huser =>
    obtain ⟨-, hu, hname⟩ := hvalid.find_user_eq_some_iff.mp huser
    exact ⟨iff_of_true (List.mem_singleton.mpr rfl)
      ⟨username, ip, password, client_server, p2p, group, hargs, u, hu, hname⟩, fun _ => ⟨rfl, rfl⟩⟩
  | created username ip password client_server p2p group client _ hargs hclient hnew hadded =>
    have hother : userExists socket ∉ [.write client.bytes,
        write_fd socket (text "User " ++ username ++ text " created.\n")] := by
      simp only [List.mem_cons, List.not_mem_nil, or_false, not_or]
      refine ⟨by simp [userExists, write_fd], ?_⟩
      exact (write_fd_user_ne (fun hmem => hnul (subset_of_sscanf hargs List.mem_cons_self hmem)) (word_of_sscanf hargs).2
        (by decide) (by decide) (by decide)).symm
    refine ⟨iff_of_false hother ?_, fun hmem => absurd hmem hother⟩
    rintro ⟨username', _, _, _, _, _, hsix, u, hu, hname⟩
    rw [hargs, Except.ok.injEq] at hsix
    obtain rfl : username = username' := by
      cases hsix
      rfl
    exact hnew u hu ((username_string_of_new_client hclient).trans hname.symm)

/-- `cmd_del` refuses exactly a name that no user of the list has, and then does nothing
else. -/
theorem DelOutcome.refused_iff (hvalid : memory.Valid) (hnul : 0 ∉ args)
    (h : memory.DelOutcome socket args next outputs) :
    (userNotFound socket ∈ outputs ↔ memory.DeletesUnknown args) ∧
      (userNotFound socket ∈ outputs → next = memory ∧ outputs = [userNotFound socket]) := by
  cases h with
  | usage hargs =>
    have hother : userNotFound socket ∉
        [write_fd socket (text "Invalid usage! Use: DEL <USER-ID>\n")] := by
      rw [List.mem_singleton]
      intro hsame
      exact absurd (write_fd_inj (by decide) (by decide) (by decide) (by decide) hsame) (by decide)
    refine ⟨iff_of_false hother ?_, fun hmem => absurd hmem hother⟩
    rintro ⟨username, hone, -⟩
    exact hargs _ hone
  | unknown username hargs huser =>
    refine ⟨iff_of_true (List.mem_singleton.mpr rfl) ⟨username, hargs, ?_⟩, fun _ => ⟨rfl, rfl⟩⟩
    intro u hu hname
    have hfound := hvalid.find_user_eq_some_iff.mpr ⟨fits_of_find_user huser, hu, hname⟩
    rw [huser] at hfound
    cases hfound
  | deleted username u _ hargs huser hremoved =>
    have hother : userNotFound socket ∉
        (.ftruncate :: next.users.map fun v => .write (memory.clients.contents v).bytes) ++
          [write_fd socket (text "User " ++ username ++ text " deleted.\n")] := by
      simp only [List.mem_append, List.mem_cons, List.mem_map, List.not_mem_nil, or_false, not_or]
      refine ⟨⟨by simp [userNotFound, write_fd], by simp [userNotFound, write_fd]⟩, ?_⟩
      exact (write_fd_user_ne (fun hmem => hnul (subset_of_sscanf hargs List.mem_cons_self hmem)) (word_of_sscanf hargs).2
        (by decide) (by decide) (by decide)).symm
    refine ⟨iff_of_false hother ?_, fun hmem => absurd hmem hother⟩
    rintro ⟨username', hone, hnone⟩
    rw [hargs, Except.ok.injEq] at hone
    obtain rfl : username = username' := by
      cases hone
      rfl
    obtain ⟨-, hu, hname⟩ := hvalid.find_user_eq_some_iff.mp huser
    exact hnone u hu hname

end Memory

section Steps

variable {server : Server} {connection : Connection} {received args : Bytes}
  {command : AdminCommand}

theorem exists_dispatch
    (hcommand : connection.received_command received = .ok (some (command, args))) :
    ∃ buffer, dispatch commands (connection.read received) = .ok (buffer, some (command, args)) := by
  obtain ⟨⟨buffer, found⟩, hdispatch, hfound⟩ := Result.bind_eq_ok_iff.mp hcommand
  cases hfound
  exact ⟨buffer, hdispatch⟩

/-- Where the handler of a command refuses by one answer, so does the read that holds the
command. -/
theorem step_refuses_iff {answer : Output} {refused : Prop}
    (hadmin : server.admin = some connection) (hreceived : received ≠ [])
    (hcommand : connection.received_command received = .ok (some (command, args)))
    (hok : refused →
      ∃ result, cmd_functions server.memory connection.socket args command = .ok result)
    (houtcome : ∀ memory exit outputs, cmd_functions server.memory connection.socket args command =
        .ok (memory, exit, outputs) → (answer ∈ outputs ↔ refused) ∧
          (answer ∈ outputs → memory = server.memory ∧ outputs = [answer])) :
    ((∃ next outputs, step server (.read received) = .ok (next, outputs) ∧ answer ∈ outputs) ↔
        refused) ∧
      ∀ next outputs, step server (.read received) = .ok (next, outputs) → answer ∈ outputs →
        next.memory = server.memory ∧ outputs = [answer] := by
  obtain ⟨buffer, hdispatch⟩ := exists_dispatch hcommand
  rw [step_read_eq hadmin hreceived hdispatch]
  refine ⟨⟨?_, ?_⟩, ?_⟩
  · rintro ⟨next, outputs, hstep, hmem⟩
    obtain ⟨⟨memory, exit, outputs'⟩, hcmd, hstep⟩ := Result.bind_eq_ok_iff.mp hstep
    cases hstep
    exact (houtcome _ _ _ hcmd).1.mp hmem
  · intro hrefused
    obtain ⟨⟨memory, exit, outputs⟩, hcmd⟩ := hok hrefused
    exact ⟨_, outputs, Result.bind_eq_ok_iff.mpr ⟨_, hcmd, rfl⟩, (houtcome _ _ _ hcmd).1.mpr hrefused⟩
  · intro next outputs hstep hmem
    obtain ⟨⟨memory, exit, outputs'⟩, hcmd, hstep⟩ := Result.bind_eq_ok_iff.mp hstep
    cases hstep
    exact (houtcome _ _ _ hcmd).2 hmem

/-- A handler whose arguments are scanned runs through. -/
theorem Memory.Valid.exists_cmd_functions {memory : Memory} (hvalid : memory.Valid) {socket : Int}
    (hfits : ¬ Overlong command.sizes args) :
    ∃ result, cmd_functions memory socket args command = .ok result := by
  cases hcmd : cmd_functions memory socket args command with
  | ok result => exact ⟨result, rfl⟩
  | error e => exact absurd (hvalid.cmd_functions_error_iff.mp hcmd).2 hfits

theorem fits_of_sscanf_add {values : List Value}
    (hargs : sscanf args [.word USERNAME_SIZE, .space, .word INET_ADDRSTRLEN, .space,
      .word PASSWORD_SIZE, .space, .int, .space, .int, .space, .int] = .ok values) :
    ¬ Overlong AdminCommand.ADD.sizes args := by
  intro hlong
  have hfault := (checks_add args (Nat.lt_succ_self _) .overflow).mpr ⟨rfl, hlong⟩
  rw [hargs] at hfault
  cases hfault

theorem Memory.AddsStored.fits {memory : Memory} (h : memory.AddsStored args) :
    ¬ Overlong AdminCommand.ADD.sizes args := by
  obtain ⟨username, ip, password, client_server, p2p, group, hsix, -⟩ := h
  exact fits_of_sscanf_add hsix

theorem Memory.DeletesUnknown.fits {memory : Memory} (h : memory.DeletesUnknown args) :
    ¬ Overlong AdminCommand.DEL.sizes args := by
  obtain ⟨username, hone, -⟩ := h
  intro hlong
  have hfault := (checks_word (by decide) args (Nat.lt_succ_self _) .overflow).mpr ⟨rfl, hlong⟩
  rw [hone] at hfault
  cases hfault

/-- Every tree that calls lead to refuses exactly the additions of a stored key and the
removals of a key that is not stored, with no effect. In every state that the server
reaches, an `ADD` is answered that the user exists exactly if its name is one of the user
list, a `DEL` that there is no such user exactly if its name is none, and neither changes
the memory or the file. -/
theorem refusals_exact {startup : Startup} {records : Bytes} {start : Server} {events : List Event}
    (hmain : main startup records = .ok start) (hreach : Reaches step start events server)
    (hadmin : server.admin = some connection) (hreceived : received ≠ []) :
    (∀ {α : Type} {data_cmp : α → α → Int}, LawfulOn data_cmp Set.univ →
      ∀ fd blocks calls, ∃ T replies es,
        run (call data_cmp) (new_avl_tree fd blocks) calls = .ok (T, replies) ∧
          avl_print_client T id = .ok es ∧ RefusesExactly data_cmp T es) ∧
    (∀ args, connection.received_command received = .ok (some (.ADD, args)) →
      ((∃ next outputs, step server (.read received) = .ok (next, outputs) ∧
          userExists connection.socket ∈ outputs) ↔ server.memory.AddsStored args) ∧
        ∀ next outputs, step server (.read received) = .ok (next, outputs) →
          userExists connection.socket ∈ outputs →
            next.memory = server.memory ∧ outputs = [userExists connection.socket]) ∧
    ∀ args, connection.received_command received = .ok (some (.DEL, args)) →
      ((∃ next outputs, step server (.read received) = .ok (next, outputs) ∧
          userNotFound connection.socket ∈ outputs) ↔ server.memory.DeletesUnknown args) ∧
        ∀ next outputs, step server (.read received) = .ok (next, outputs) →
          userNotFound connection.socket ∈ outputs →
            next.memory = server.memory ∧ outputs = [userNotFound connection.socket] := by
  have hvalid := reaches_valid (started_of_main hmain).valid hreach
  refine ⟨fun hlaw => run_call_refusesExactly hlaw, ?_, ?_⟩
  · intro args hcommand
    obtain ⟨buffer, hdispatch⟩ := exists_dispatch hcommand
    refine step_refuses_iff hadmin hreceived hcommand
      (fun hadds => hvalid.exists_cmd_functions hadds.fits) ?_
    intro memory exit outputs hcmd
    exact (hvalid.cmd_add_outcome hcmd).refused_iff hvalid (nul_not_mem_args hdispatch)
  · intro args hcommand
    obtain ⟨buffer, hdispatch⟩ := exists_dispatch hcommand
    refine step_refuses_iff hadmin hreceived hcommand
      (fun hdeletes => hvalid.exists_cmd_functions hdeletes.fits) ?_
    intro memory exit outputs hcmd
    exact (hvalid.cmd_del_outcome hcmd).refused_iff hvalid (nul_not_mem_args hdispatch)

/-- The file of a user without a password. -/
def oneUser : Bytes := (client_t.ofBytes (text "ana")).bytes

/-- A user of the file is added once more. -/
theorem refusals_exact_witness : ∃ start server next outputs, main .blank oneUser = .ok start ∧
    Reaches step start [.accept .blank] server ∧ server.admin = some .blank ∧
    step server (.read (text "ADD ana 10.0.0.2 x 0 0 0\n")) = .ok (next, outputs) ∧
    userExists 5 ∈ outputs ∧ next.memory = server.memory := by
  have hview : observe .blank oneUser [.accept .blank] (fun server _ => do
      let found ← Connection.blank.received_command (text "ADD ana 10.0.0.2 x 0 0 0\n")
      let (_, outputs) ← step server (.read (text "ADD ana 10.0.0.2 x 0 0 0\n"))
      return (found, outputs, server.admin)) =
      .ok (.ok (some (.ADD, text "ana 10.0.0.2 x 0 0 0"), [userExists 5], some .blank)) := by
    decide +kernel
  obtain ⟨start, server, outputs, hmain, hrun, hview⟩ := exists_of_observe hview
  obtain ⟨found, hcommand, hview⟩ := Result.bind_eq_ok_iff.mp hview
  obtain ⟨⟨next, answers⟩, hstep, hview⟩ := Result.bind_eq_ok_iff.mp hview
  simp only [Result.pure_eq_ok, Except.ok.injEq, Prod.mk.injEq] at hview
  obtain ⟨rfl, rfl, hadmin⟩ := hview
  have hmem : userExists Connection.blank.socket ∈ [userExists 5] := List.mem_cons_self
  obtain ⟨-, hadd, -⟩ := refusals_exact hmain ⟨outputs, hrun⟩ hadmin
    (show text "ADD ana 10.0.0.2 x 0 0 0\n" ≠ [] by decide)
  exact ⟨start, server, next, _, hmain, ⟨outputs, hrun⟩, hadmin, hstep, hmem,
    ((hadd _ hcommand).2 _ _ hstep hmem).1⟩

end Steps

end rc_project.server
