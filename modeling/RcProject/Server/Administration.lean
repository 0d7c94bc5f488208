import RcProject.Server.Changes

open rc_project.avl_tree rc_project.blocks rc_project.c_string rc_project.scanf

namespace rc_project.server

/-- Every output is an answer to the admin. -/
def AnswersOnly (socket : Int) (outputs : List Output) : Prop :=
  ∀ output ∈ outputs, ∃ message, output = .write_fd socket message

theorem answersOnly_nil (socket : Int) : AnswersOnly socket [] := by
  intro output houtput
  cases houtput

theorem answersOnly_singleton (socket : Int) (formatted : Bytes) :
    AnswersOnly socket [write_fd socket formatted] := by
  intro output houtput
  rw [List.mem_singleton.mp houtput]
  exact ⟨_, rfl⟩

namespace Memory

/-- What an admin command does: it answers only, or it adds or removes a user. -/
inductive Administered (memory : Memory) (socket : Int) (args : Bytes) :
    AdminCommand → Memory → List Output → Prop
  | answered (command : AdminCommand) (outputs : List Output)
    (hquiet : AnswersOnly socket outputs) :
    Administered memory socket args command memory outputs
  | added (username ip password : Bytes) (client_server p2p group : BitVec 32)
    (client : client_t) (next : Memory)
    (hargs : sscanf args [.word USERNAME_SIZE, .space, .word INET_ADDRSTRLEN, .space,
      .word PASSWORD_SIZE, .space, .int, .space, .int, .space, .int] =
        .ok [.string username, .string ip, .string password, .int client_server, .int p2p,
          .int group])
    (hclient : new_client memory.clients.fresh username password ip client_server p2p group =
      .ok client)
    (hnew : ∀ u ∈ memory.users, client.username_string ≠
      (memory.clients.contents u).username_string)
    (hadded : memory.Added client client.bytes next) :
    Administered memory socket args .ADD next [.write client.bytes,
      write_fd socket (text "User " ++ username ++ text " created.\n")]
  | removed (username : Bytes) (u : Nat) (next : Memory)
    (hargs : sscanf args [.word USERNAME_SIZE] = .ok [.string username])
    (huser : memory.find_user username = .ok (some u))
    (hremoved : memory.Removed u next) :
    Administered memory socket args .DEL next
      ((.ftruncate :: next.users.map fun v => .write (memory.clients.contents v).bytes) ++
        [write_fd socket (text "User " ++ username ++ text " deleted.\n")])

section Commands

variable {memory next : Memory} {socket exit : Int} {args : Bytes} {outputs : List Output}

theorem Valid.cmd_list_administered (hvalid : memory.Valid)
    (hcmd : cmd_list memory socket = .ok (next, exit, outputs)) :
    memory.Administered socket args .LIST next outputs := by
  rw [cmd_list, avl_print_client_stores hvalid.user_list.stores] at hcmd
  cases hcmd
  refine .answered .LIST _ ?_
  intro output houtput
  obtain ⟨u, -, rfl⟩ := List.mem_map.mp houtput
  exact ⟨_, rfl⟩

/-- What `cmd_add` does: it shows its usage, or the name is taken, or the user is new. -/
inductive AddOutcome (memory : Memory) (socket : Int) (args : Bytes) : Memory → List Output → Prop
  | usage (hargs : ∀ username ip password client_server p2p group,
      sscanf args [.word USERNAME_SIZE, .space, .word INET_ADDRSTRLEN, .space,
        .word PASSWORD_SIZE, .space, .int, .space, .int, .space, .int] ≠
          .ok [.string username, .string ip, .string password, .int client_server, .int p2p,
            .int group]) :
    AddOutcome memory socket args memory [write_fd socket (text
      "Invalid usage! Use: ADD <USER-ID> <IP> <PASSWORD> <CLIENT-SERVER> <P2P> <GROUP>\n")]
  | taken (username ip password : Bytes) (client_server p2p group : BitVec 32) (u : Nat)
    (hargs : sscanf args [.word USERNAME_SIZE, .space, .word INET_ADDRSTRLEN, .space,
      .word PASSWORD_SIZE, .space, .int, .space, .int, .space, .int] =
        .ok [.string username, .string ip, .string password, .int client_server, .int p2p,
          .int group])
    (huser : memory.find_user username = .ok (some u)) :
    AddOutcome memory socket args memory [write_fd socket (text "User already exists\n")]
  | created (username ip password : Bytes) (client_server p2p group : BitVec 32)
    (client : client_t) (next : Memory)
    (hargs : sscanf args [.word USERNAME_SIZE, .space, .word INET_ADDRSTRLEN, .space,
      .word PASSWORD_SIZE, .space, .int, .space, .int, .space, .int] =
        .ok [.string username, .string ip, .string password, .int client_server, .int p2p,
          .int group])
    (hclient : new_client memory.clients.fresh username password ip client_server p2p group =
      .ok client)
    (hnew : ∀ u ∈ memory.users, client.username_string ≠
      (memory.clients.contents u).username_string)
    (hadded : memory.Added client client.bytes next) :
    AddOutcome memory socket args next [.write client.bytes,
      write_fd socket (text "User " ++ username ++ text " created.\n")]

/-- What `cmd_del` does: it shows its usage, or the name is unknown, or the user is there. -/
inductive DelOutcome (memory : Memory) (socket : Int) (args : Bytes) : Memory → List Output → Prop
  | usage (hargs : ∀ username, sscanf args [.word USERNAME_SIZE] ≠ .ok [.string username]) :
    DelOutcome memory socket args memory
      [write_fd socket (text "Invalid usage! Use: DEL <USER-ID>\n")]
  | unknown (username : Bytes) (hargs : sscanf args [.word USERNAME_SIZE] = .ok [.string username])
    (huser : memory.find_user username = .ok none) :
    DelOutcome memory socket args memory [write_fd socket (text "User not found\n")]
  | deleted (username : Bytes) (u : Nat) (next : Memory)
    (hargs : sscanf args [.word USERNAME_SIZE] = .ok [.string username])
    (huser : memory.find_user username = .ok (some u))
    (hremoved : memory.Removed u next) :
    DelOutcome memory socket args next
      ((.ftruncate :: next.users.map fun v => .write (memory.clients.contents v).bytes) ++
        [write_fd socket (text "User " ++ username ++ text " deleted.\n")])

theorem Valid.cmd_add_outcome (hvalid : memory.Valid)
    (hcmd : cmd_add memory socket args = .ok (next, exit, outputs)) :
    memory.AddOutcome socket args next outputs := by
  obtain ⟨values, hargs, hcmd⟩ := Result.bind_eq_ok_iff.mp hcmd
  split at hcmd
  · rename_i username ip password client_server p2p group
    obtain ⟨client, hclient, hcmd⟩ := Result.bind_eq_ok_iff.mp hcmd
    have hkey := username_string_of_new_client hclient
    by_cases hnew : ∀ u ∈ memory.users, client.username_string ≠
        (memory.clients.contents u).username_string
    · obtain ⟨added, hadd, hadded⟩ := hvalid.add_user_spec hnew true true
      rw [hadd, Result.ok_bind] at hcmd
      cases hcmd
      exact .created username ip password client_server p2p group client _ hargs hclient hnew hadded
    · push Not at hnew
      obtain ⟨u, hu, hname⟩ := hnew
      rw [hvalid.add_user_duplicated hu hname, Result.ok_bind] at hcmd
      cases hcmd
      have huser : memory.find_user username = .ok (some u) := hvalid.find_user_eq_some_iff.mpr
        ⟨username_fits_of_new_client hclient, hu, hname.symm.trans hkey⟩
      exact .taken username ip password client_server p2p group u hargs huser
  · rename_i hother
    cases hcmd
    refine .usage ?_
    intro username ip password client_server p2p group hsix
    exact hother username ip password client_server p2p group
      (Except.ok.inj (hargs.symm.trans hsix))

theorem Valid.cmd_del_outcome (hvalid : memory.Valid)
    (hcmd : cmd_del memory socket args = .ok (next, exit, outputs)) :
    memory.DelOutcome socket args next outputs := by
  obtain ⟨values, hargs, hcmd⟩ := Result.bind_eq_ok_iff.mp hcmd
  split at hcmd
  · rename_i username
    obtain ⟨client, hclient, hcmd⟩ := Result.bind_eq_ok_iff.mp hcmd
    have hkey := username_string_of_new_client hclient
    have hfits := username_fits_of_new_client hclient
    by_cases hnew : ∀ u ∈ memory.users, client.username_string ≠
        (memory.clients.contents u).username_string
    · rw [hvalid.remove_user_not_found hnew, Result.ok_bind] at hcmd
      cases hcmd
      obtain ⟨found, hfind, hfound⟩ := hvalid.find_user_spec hfits
      cases found with
      | none => exact .unknown username hargs hfind
      | some u =>
        obtain ⟨hu, hname⟩ := (hfound u).mp rfl
        exact absurd (hkey.trans hname.symm) (hnew u hu)
    · push Not at hnew
      obtain ⟨u, hu, hname⟩ := hnew
      obtain ⟨removed, hremove, hremoved⟩ := hvalid.remove_user_spec hu hname
      rw [hremove, Result.ok_bind] at hcmd
      cases hcmd
      have huser : memory.find_user username = .ok (some u) := hvalid.find_user_eq_some_iff.mpr
        ⟨hfits, hu, hname.symm.trans hkey⟩
      exact .deleted username u _ hargs huser hremoved
  · rename_i hother
    cases hcmd
    refine .usage ?_
    intro username hone
    exact hother username (Except.ok.inj (hargs.symm.trans hone))

theorem AddOutcome.administered (h : memory.AddOutcome socket args next outputs) :
    memory.Administered socket args .ADD next outputs := by
  cases h with
  | usage => exact .answered .ADD _ (answersOnly_singleton socket _)
  | taken => exact .answered .ADD _ (answersOnly_singleton socket _)
  | created username ip password client_server p2p group client _ hargs hclient hnew hadded =>
    exact .added username ip password client_server p2p group client _ hargs hclient hnew hadded

theorem DelOutcome.administered (h : memory.DelOutcome socket args next outputs) :
    memory.Administered socket args .DEL next outputs := by
  cases h with
  | usage => exact .answered .DEL _ (answersOnly_singleton socket _)
  | unknown => exact .answered .DEL _ (answersOnly_singleton socket _)
  | deleted username u _ hargs huser hremoved => exact .removed username u _ hargs huser hremoved

theorem Valid.cmd_functions_administered (hvalid : memory.Valid) {command : AdminCommand}
    (hcmd : cmd_functions memory socket args command = .ok (next, exit, outputs)) :
    memory.Administered socket args command next outputs := by
  cases command with
  | LIST => exact hvalid.cmd_list_administered hcmd
  | ADD => exact (hvalid.cmd_add_outcome hcmd).administered
  | DEL => exact (hvalid.cmd_del_outcome hcmd).administered
  | QUIT =>
    cases hcmd
    exact .answered .QUIT [] (answersOnly_nil socket)

end Commands

end Memory

/-- The command and the arguments that are read from the buffer of a connection. -/
def Connection.received_command (connection : Connection) (received : Bytes) :
    Result (Option (AdminCommand × Bytes)) := do
  let (_, found) ← dispatch commands (connection.read received)
  return found

/-- What an admin gets for a command that was looked up, with the exit flag behind it. -/
def answered (memory : Memory) (connection : Connection) :
    Option (AdminCommand × Bytes) → AdminResult
  | none => return (memory, connection.exit, [write_fd connection.socket (text "Command not found\n")])
  | some (function, args) => cmd_functions memory connection.socket args function

/-- What `handle_admin` does with a read whose command was looked up. -/
theorem handle_admin_eq {memory : Memory} {connection : Connection} {received buffer : Bytes}
    {found : Option (AdminCommand × Bytes)} (hreceived : received ≠ [])
    (hdispatch : dispatch commands (connection.read received) = .ok (buffer, found)) :
    handle_admin memory connection received = (do
      let (memory, exit, outputs) ← answered memory connection found
      let left := { connection with buffer := CharArray.ofBytes _ buffer, exit }
      return (memory, if exit ≠ 0 then none else some left, outputs)) := by
  simp only [handle_admin, if_neg hreceived, cmd_function, hdispatch, Result.ok_bind]
  cases found with
  | none => rfl
  | some entry =>
    rw [bind_assoc]
    rfl

/-- What `handle_admin` does for one read. -/
inductive Handled (memory : Memory) (connection : Connection) (received : Bytes) :
    Memory → List Output → Prop
  | unknown (outputs : List Output) (hquiet : AnswersOnly connection.socket outputs) :
    Handled memory connection received memory outputs
  | command (hreceived : received ≠ []) (command : AdminCommand) (args : Bytes)
    (hcommand : connection.received_command received = .ok (some (command, args)))
    (next : Memory) (outputs : List Output)
    (hadministered : memory.Administered connection.socket args command next outputs) :
    Handled memory connection received next outputs

theorem Memory.Valid.handled {memory next : Memory} (hvalid : memory.Valid)
    {connection : Connection} {received : Bytes} {admin : Option Connection}
    {outputs : List Output}
    (hstep : handle_admin memory connection received = .ok (next, admin, outputs)) :
    Handled memory connection received next outputs := by
  by_cases hend : received = []
  · rw [handle_admin, if_pos hend] at hstep
    cases hstep
    exact .unknown [] (answersOnly_nil _)
  · cases hdispatch : dispatch commands (connection.read received) with
    | error e =>
      rw [handle_admin, if_neg hend, cmd_function, hdispatch] at hstep
      cases hstep
    | ok result =>
      obtain ⟨buffer, found⟩ := result
      have hreceived : connection.received_command received = .ok found := by
        simp only [Connection.received_command, hdispatch, Result.ok_bind, Result.pure_eq_ok]
      rw [handle_admin_eq hend hdispatch] at hstep
      obtain ⟨⟨memory', exit, outputs'⟩, hanswered, hstep⟩ := Result.bind_eq_ok_iff.mp hstep
      cases hstep
      cases found with
      | none =>
        cases hanswered
        exact .unknown _ (answersOnly_singleton _ _)
      | some entry =>
        exact .command hend entry.1 entry.2 hreceived _ _
          (hvalid.cmd_functions_administered hanswered)

/-- The session of a client that an output is for. -/
def Output.client : Output → Option Nat
  | .answer client .. => some client
  | .relay client .. => some client
  | _ => none

/-- The admin thread sends nothing to the clients. -/
theorem Handled.client_eq_none {memory next : Memory} {connection : Connection}
    {received : Bytes} {outputs : List Output}
    (h : Handled memory connection received next outputs) :
    ∀ output ∈ outputs, output.client = none := by
  have hanswers {outputs : List Output} (hquiet : AnswersOnly connection.socket outputs) :
      ∀ output ∈ outputs, output.client = none := by
    intro output houtput
    obtain ⟨message, rfl⟩ := hquiet output houtput
    rfl
  cases h with
  | unknown _ hquiet => exact hanswers hquiet
  | command _ command args hcommand _ _ hadministered =>
    cases hadministered with
    | answered _ _ hquiet => exact hanswers hquiet
    | added => simp [Output.client, write_fd]
    | removed =>
      simp only [List.mem_append, List.mem_cons, List.mem_map, List.not_mem_nil, or_false]
      rintro output ((rfl | ⟨v, -, rfl⟩) | rfl) <;> rfl

/-- What is only about clients is not seen in the outputs of the admin thread. -/
theorem Handled.filterMap_eq_nil {memory next : Memory} {connection : Connection}
    {received : Bytes} {outputs : List Output} {γ : Type} {view : Output → Option γ}
    (h : Handled memory connection received next outputs)
    (hview : ∀ output, output.client = none → view output = none) :
    outputs.filterMap view = [] :=
  List.filterMap_eq_nil_iff.mpr fun output houtput =>
    hview output (h.client_eq_none output houtput)

/-- The admin builds no session, and logs nobody in. -/
theorem Handled.sessions {memory next : Memory} {connection : Connection} {received : Bytes}
    {outputs : List Output} (h : Handled memory connection received next outputs) :
    next.userSessions = memory.userSessions ∧ next.sessions = memory.sessions := by
  cases h with
  | unknown => exact ⟨rfl, rfl⟩
  | command _ command args hcommand _ _ hadministered =>
    cases hadministered with
    | answered => exact ⟨rfl, rfl⟩
    | added _ _ _ _ _ _ _ _ _ _ _ hadded =>
      rw [hadded.rest]
      exact ⟨rfl, rfl⟩
    | removed _ _ _ _ _ hremoved =>
      rw [hremoved.rest]
      exact ⟨rfl, rfl⟩

end rc_project.server
