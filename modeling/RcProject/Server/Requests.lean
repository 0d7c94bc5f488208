import RcProject.Server.Changes

open rc_project.avl_tree rc_project.blocks rc_project.c_string rc_project.scanf

namespace rc_project.server

/-- The three flags of a record that the client commands ask for. -/
inductive Permission
  | client_server
  | p2p
  | group
  deriving DecidableEq, Repr

def client_t.flag (record : client_t) : Permission → BitVec 32
  | .client_server => record.client_server
  | .p2p => record.p2p
  | .group => record.group

/-- The answers that turn a request down. -/
def Answer.refusal : Answer → Bool
  | .login_successful _ | .session_port _ | .permissions .. | .message_sent | .p2p_address ..
  | .group_created .. | .group_address .. => false
  | _ => true

namespace Memory

/-- A session may use what a permission stands for: it is bound to a record that
has the flag. -/
structure Permitted (memory : Memory) (client : Nat) (permission : Permission) (sender : Nat) :
    Prop where
  logged_in : (memory.sessions.contents client).logged_in ≠ 0
  client_eq : (memory.sessions.contents client).client = some sender
  flag : (memory.clients.contents sender).flag permission ≠ 0

/-- A session that is permitted something was there before its datagram. -/
theorem Opened.permitted_old {memory opened : Memory} {sock : sockaddr_in}
    {client sender : Nat} {permission : Permission} (h : memory.Opened sock client opened)
    (hpermitted : opened.Permitted client permission sender) :
    client ∈ memory.userSessions ∧
      opened.sessions.contents client = memory.sessions.contents client := by
  obtain hold | ⟨-, hnew⟩ := h.new client h.mem
  · exact ⟨hold, (h.old client hold).2⟩
  · exact absurd hnew hpermitted.logged_in

/-- What a client command does: it refuses and changes nothing, or it does what
it is for. -/
inductive Performed (memory : Memory) (client : Nat) (args : Bytes) (locals : Locals) :
    ClientCommand → Memory → List Output → Prop
  | refused (command : ClientCommand) (answer : Answer) (hrefusal : answer.refusal = true) :
    Performed memory client args locals command memory [memory.send_udp_message client answer]
  | login (username password : Bytes) (u : Nat)
    (hlogged : (memory.sessions.contents client).logged_in = 0)
    (hargs : sscanf args [.word USERNAME_SIZE, .space, .word PASSWORD_SIZE] =
      .ok [.string username, .string password])
    (huser : memory.find_user username = .ok (some u))
    (hip : strcmp (memory.sessions.contents client).ip.bytes
      (memory.clients.contents u).ip_string = 0)
    (hpassword : strcmp (memory.clients.contents u).password_string password = 0)
    (hnul : 0 ∈ (memory.clients.contents u).ip.bytes) :
    Performed memory client args locals .LOGIN (memory.bind client u)
      [(memory.bind client u).send_udp_message client (.login_successful u),
        (memory.bind client u).send_udp_message client
          (.session_port (memory.sessions.contents client).port),
        (memory.bind client u).send_udp_message client (.permissions
          (locals.permission (memory.clients.contents u).client_server)
          (locals.permission (memory.clients.contents u).p2p)
          (locals.permission (memory.clients.contents u).group))]
  | msg (username message : Bytes) (sender u selected : Nat)
    (hpermitted : memory.Permitted client .client_server sender)
    (hargs : sscanf args [.word USERNAME_SIZE, .space, .line BUFFER_SIZE, .literal 115] =
      .ok [.string username, .string message])
    (huser : memory.find_user username = .ok (some u))
    (hsession : memory.find_session u = .ok (some selected)) :
    Performed memory client args locals .MSG memory
      [relay memory client sender username message selected locals,
        memory.send_udp_message client .message_sent]
  | p2p (username : Bytes) (sender u selected : Nat)
    (hpermitted : memory.Permitted client .p2p sender)
    (hargs : sscanf args [.word USERNAME_SIZE] = .ok [.string username])
    (huser : memory.find_user username = .ok (some u))
    (hsession : memory.find_session u = .ok (some selected)) :
    Performed memory client args locals .P2P memory
      [memory.send_udp_message client (.p2p_address username selected
        (cstr (memory.sessions.contents selected).ip.bytes)
        (memory.sessions.contents selected).port)]
  | create (group_name : Bytes) (sender : Nat) (group : group_t) (next : Memory)
    (hpermitted : memory.Permitted client .group sender)
    (hargs : sscanf args [.word MAX_GROUP_NAME] = .ok [.string group_name])
    (hname : cstr group.name.bytes = cstr group_name)
    (hip : cstr group.ip.bytes = groups.getD memory.current_group [])
    (hroom : memory.current_group < max_groups)
    (hcreated : memory.Created group next) :
    Performed memory client args locals .CREATEMULTICAST next
      [memory.send_udp_message client
        (.group_created group_name (groups.getD memory.current_group []))]
  | get (group_name : Bytes) (sender g : Nat)
    (hpermitted : memory.Permitted client .group sender)
    (hargs : sscanf args [.word MAX_GROUP_NAME] = .ok [.string group_name])
    (hgroup : g ∈ memory.multicastGroups)
    (hname : cstr (memory.group_blocks.contents g).name.bytes = cstr group_name) :
    Performed memory client args locals .GETMULTICAST memory
      [memory.send_udp_message client
        (.group_address group_name (cstr (memory.group_blocks.contents g).ip.bytes))]

section Commands

variable {memory next : Memory} {client : Nat} {args : Bytes} {locals : Locals}
  {outputs : List Output}

/-- A command that only answers. -/
theorem performed_of_refusal {command : ClientCommand} {answer : Answer}
    (hrefusal : answer.refusal = true)
    (hcmd : (return (memory, [memory.send_udp_message client answer]) :
      Result (Memory × List Output)) = .ok (next, outputs)) :
    memory.Performed client args locals command next outputs := by
  obtain ⟨rfl, rfl⟩ : memory = next ∧ [memory.send_udp_message client answer] = outputs := by
    simpa using hcmd
  exact .refused command answer hrefusal

theorem Valid.cmd_login_performed (hvalid : memory.Valid) (hclient : client ∈ memory.userSessions)
    (hcmd : cmd_login memory client args locals = .ok (next, outputs)) :
    memory.Performed client args locals .LOGIN next outputs := by
  unfold cmd_login at hcmd
  by_cases hlogged : (memory.sessions.contents client).logged_in = 0
  · rw [if_neg (not_not.mpr hlogged)] at hcmd
    obtain ⟨values, hargs, hcmd⟩ := Result.bind_eq_ok_iff.mp hcmd
    split at hcmd
    · rename_i username password
      obtain ⟨found, huser, hcmd⟩ := Result.bind_eq_ok_iff.mp hcmd
      cases found with
      | none => exact performed_of_refusal rfl hcmd
      | some u =>
        by_cases hip : strcmp (memory.sessions.contents client).ip.bytes
            (memory.clients.contents u).ip_string = 0
        · by_cases hpassword : strcmp (memory.clients.contents u).password_string password = 0
          · obtain ⟨hnul, hlogin⟩ := hvalid.login_eq hclient hip locals
            simp only [hip, hpassword, hlogin, ne_eq, not_true_eq_false, if_false, if_true,
              Except.ok.injEq, Prod.mk.injEq] at hcmd
            obtain ⟨rfl, rfl⟩ := hcmd
            exact .login username password u hlogged hargs huser hip hpassword hnul
          · simp only [hip, hpassword, ne_eq, not_true_eq_false, if_false] at hcmd
            exact performed_of_refusal rfl hcmd
        · simp only [hip, ne_eq, not_false_eq_true, if_true] at hcmd
          exact performed_of_refusal rfl hcmd
    · exact performed_of_refusal rfl hcmd
  · rw [if_pos hlogged] at hcmd
    exact performed_of_refusal rfl hcmd

theorem cmd_msg_performed (hcmd : cmd_msg memory client args locals = .ok (next, outputs)) :
    memory.Performed client args locals .MSG next outputs := by
  unfold cmd_msg at hcmd
  by_cases hlogged : (memory.sessions.contents client).logged_in = 0
  · rw [if_pos hlogged] at hcmd
    exact performed_of_refusal rfl hcmd
  · rw [if_neg hlogged] at hcmd
    obtain ⟨sender, hsender, hcmd⟩ := Result.bind_eq_ok_iff.mp hcmd
    by_cases hflag : (memory.clients.contents sender).client_server = 0
    · rw [if_pos hflag] at hcmd
      exact performed_of_refusal rfl hcmd
    · rw [if_neg hflag] at hcmd
      obtain ⟨values, hargs, hcmd⟩ := Result.bind_eq_ok_iff.mp hcmd
      split at hcmd
      · rename_i username message
        obtain ⟨found, huser, hcmd⟩ := Result.bind_eq_ok_iff.mp hcmd
        cases found with
        | none => exact performed_of_refusal rfl hcmd
        | some u =>
          obtain ⟨found, hsession, hcmd⟩ := Result.bind_eq_ok_iff.mp hcmd
          cases found with
          | none => exact performed_of_refusal rfl hcmd
          | some selected =>
            simp only [Result.pure_eq_ok, Except.ok.injEq, Prod.mk.injEq] at hcmd
            obtain ⟨rfl, rfl⟩ := hcmd
            exact .msg username message sender u selected
              ⟨hlogged, Result.deref_eq_ok_iff.mp hsender, hflag⟩ hargs huser hsession
      · exact performed_of_refusal rfl hcmd

theorem cmd_p2p_performed (hcmd : cmd_p2p memory client args = .ok (next, outputs)) :
    memory.Performed client args locals .P2P next outputs := by
  unfold cmd_p2p at hcmd
  by_cases hlogged : (memory.sessions.contents client).logged_in = 0
  · rw [if_pos hlogged] at hcmd
    exact performed_of_refusal rfl hcmd
  · rw [if_neg hlogged] at hcmd
    obtain ⟨sender, hsender, hcmd⟩ := Result.bind_eq_ok_iff.mp hcmd
    by_cases hflag : (memory.clients.contents sender).p2p = 0
    · rw [if_pos hflag] at hcmd
      exact performed_of_refusal rfl hcmd
    · rw [if_neg hflag] at hcmd
      obtain ⟨values, hargs, hcmd⟩ := Result.bind_eq_ok_iff.mp hcmd
      split at hcmd
      · rename_i username
        obtain ⟨found, huser, hcmd⟩ := Result.bind_eq_ok_iff.mp hcmd
        cases found with
        | none => exact performed_of_refusal rfl hcmd
        | some u =>
          obtain ⟨found, hsession, hcmd⟩ := Result.bind_eq_ok_iff.mp hcmd
          cases found with
          | none => exact performed_of_refusal rfl hcmd
          | some selected =>
            simp only [Result.pure_eq_ok, Except.ok.injEq, Prod.mk.injEq] at hcmd
            obtain ⟨rfl, rfl⟩ := hcmd
            exact .p2p username sender u selected
              ⟨hlogged, Result.deref_eq_ok_iff.mp hsender, hflag⟩ hargs huser hsession
      · exact performed_of_refusal rfl hcmd

theorem Valid.cmd_createmulticast_performed (hvalid : memory.Valid)
    (hcmd : cmd_createmulticast memory client args = .ok (next, outputs)) :
    memory.Performed client args locals .CREATEMULTICAST next outputs := by
  unfold cmd_createmulticast at hcmd
  by_cases hlogged : (memory.sessions.contents client).logged_in = 0
  · rw [if_pos hlogged] at hcmd
    exact performed_of_refusal rfl hcmd
  · rw [if_neg hlogged] at hcmd
    obtain ⟨values, hargs, hcmd⟩ := Result.bind_eq_ok_iff.mp hcmd
    split at hcmd
    · rename_i group_name
      obtain ⟨sender, hsender, hcmd⟩ := Result.bind_eq_ok_iff.mp hcmd
      by_cases hflag : (memory.clients.contents sender).group = 0
      · rw [if_pos hflag] at hcmd
        exact performed_of_refusal rfl hcmd
      · rw [if_neg hflag] at hcmd
        obtain ⟨group, hnew, hcmd⟩ := Result.bind_eq_ok_iff.mp hcmd
        obtain ⟨found, hfind, hfound⟩ := hvalid.find_group_spec group
        rw [hfind, Result.ok_bind] at hcmd
        cases found with
        | some g => exact performed_of_refusal rfl hcmd
        | none =>
          by_cases hroom : memory.current_group < max_groups
          · have hfresh (g : Nat) (hg : g ∈ memory.multicastGroups) :
                cstr (memory.group_blocks.contents g).name.bytes ≠ cstr group.name.bytes := by
              intro hsame
              cases (hfound g).mpr ⟨hg, hsame⟩
            obtain ⟨ip, T, effects, hip, hstring, hadd, hcreated⟩ :=
              hvalid.create_group_room group hfresh hroom
            rw [if_neg (by simp), if_pos hroom] at hcmd
            simp only [hip, hadd, Result.ok_bind, Result.pure_eq_ok, Except.ok.injEq,
              Prod.mk.injEq] at hcmd
            obtain ⟨rfl, rfl⟩ := hcmd
            have hname : cstr group.name.bytes = cstr group_name := name_of_new_group hnew
            exact .create group_name sender { group with ip } _
              ⟨hlogged, Result.deref_eq_ok_iff.mp hsender, hflag⟩ hargs hname hstring hroom hcreated
          · rw [if_neg (by simp), if_neg hroom] at hcmd
            exact performed_of_refusal rfl hcmd
    · exact performed_of_refusal rfl hcmd

theorem Valid.cmd_getmulticast_performed (hvalid : memory.Valid)
    (hcmd : cmd_getmulticast memory client args = .ok (next, outputs)) :
    memory.Performed client args locals .GETMULTICAST next outputs := by
  unfold cmd_getmulticast at hcmd
  by_cases hlogged : (memory.sessions.contents client).logged_in = 0
  · rw [if_pos hlogged] at hcmd
    exact performed_of_refusal rfl hcmd
  · rw [if_neg hlogged] at hcmd
    obtain ⟨values, hargs, hcmd⟩ := Result.bind_eq_ok_iff.mp hcmd
    split at hcmd
    · rename_i group_name
      obtain ⟨sender, hsender, hcmd⟩ := Result.bind_eq_ok_iff.mp hcmd
      by_cases hflag : (memory.clients.contents sender).group = 0
      · rw [if_pos hflag] at hcmd
        exact performed_of_refusal rfl hcmd
      · rw [if_neg hflag] at hcmd
        obtain ⟨group, hnew, hcmd⟩ := Result.bind_eq_ok_iff.mp hcmd
        obtain ⟨found, hfind, hfound⟩ := hvalid.find_group_spec group
        rw [hfind, Result.ok_bind] at hcmd
        cases found with
        | none => exact performed_of_refusal rfl hcmd
        | some g =>
          obtain ⟨hgroup, hname⟩ := (hfound g).mp rfl
          simp only [Result.pure_eq_ok, Except.ok.injEq, Prod.mk.injEq] at hcmd
          obtain ⟨rfl, rfl⟩ := hcmd
          exact .get group_name sender g ⟨hlogged, Result.deref_eq_ok_iff.mp hsender, hflag⟩ hargs
            hgroup (hname.trans (name_of_new_group hnew))
    · exact performed_of_refusal rfl hcmd

/-- What any command of the table does. -/
theorem Valid.client_cmd_functions_performed (hvalid : memory.Valid)
    (hclient : client ∈ memory.userSessions) {command : ClientCommand}
    (hcmd : client_cmd_functions memory client args locals command = .ok (next, outputs)) :
    memory.Performed client args locals command next outputs := by
  cases command with
  | LOGIN => exact hvalid.cmd_login_performed hclient hcmd
  | MSG => exact cmd_msg_performed hcmd
  | P2P => exact cmd_p2p_performed hcmd
  | CREATEMULTICAST => exact hvalid.cmd_createmulticast_performed hcmd
  | GETMULTICAST => exact hvalid.cmd_getmulticast_performed hcmd

end Commands

end Memory

/-- The command and the arguments that are read from a datagram. -/
def received_command (datagram : Bytes) (locals : Locals) :
    Result (Option (ClientCommand × Bytes)) := do
  let buffer ← remove_end_line (recvfrom locals.buffer datagram)
  let (_, found) ← dispatch client_commands buffer
  return found

/-- What a client gets for a command that was looked up. -/
def served_command (memory : Memory) (client : Nat) (locals : Locals) :
    Option (ClientCommand × Bytes) → Result (Memory × List Output)
  | none => return (memory, [memory.send_udp_message client .command_not_found])
  | some (function, args) => client_cmd_functions memory client args locals function

/-- The client pointer of a session is null or leads to a record. -/
def Memory.Pointed (memory : Memory) (s : Nat) : Prop :=
  ∀ u ∈ (memory.sessions.contents s).client, u < memory.clients.brk

instance (memory : Memory) (s : Nat) : Decidable (memory.Pointed s) :=
  inferInstanceAs (Decidable (∀ u ∈ (memory.sessions.contents s).client, u < memory.clients.brk))

theorem Memory.Pointed.logged_username {memory : Memory} {s : Nat} (h : memory.Pointed s) :
    ∃ username, server.logged_username memory s = .ok username := by
  unfold server.logged_username
  cases hclient : (memory.sessions.contents s).client with
  | none => exact ⟨none, rfl⟩
  | some u => exact ⟨_, if_pos (h u hclient)⟩

/-- The log faults on a pointer that leads to no record, and on nothing else. -/
theorem logged_username_eq_error_iff {memory : Memory} {s : Nat} {e : Fault} :
    logged_username memory s = .error e ↔ e = .wild_pointer ∧ ¬ memory.Pointed s := by
  by_cases h : memory.Pointed s
  · obtain ⟨username, hlog⟩ := h.logged_username
    rw [hlog]
    exact iff_of_false (by simp) fun hfault => hfault.2 h
  · obtain ⟨u, hclient, hwild⟩ : ∃ u, (memory.sessions.contents s).client = some u ∧
        ¬ u < memory.clients.brk := by
      simpa [Memory.Pointed] using h
    rw [logged_username, hclient]
    simp only [if_neg hwild, Result.throw_eq_error, Except.error.injEq]
    exact ⟨fun he => ⟨he.symm, h⟩, fun he => he.1.symm⟩

/-- Somebody who is logged in has a record. -/
theorem Memory.Valid.pointed {memory : Memory} (hvalid : memory.Valid) {s : Nat}
    (hs : s ∈ memory.userSessions) (hlogged : (memory.sessions.contents s).logged_in ≠ 0) :
    memory.Pointed s := by
  obtain ⟨record, hrecord, hclient⟩ := hvalid.bound s hs hlogged
  intro u hu
  obtain rfl : record = u := Option.some.inj (hclient.symm.trans hu)
  exact hrecord

/-- What `udp_server_worker` does with a datagram whose command was looked up: behind the log it is
served. -/
theorem udp_server_worker_eq_logged {memory opened : Memory} {sock : sockaddr_in} {s : Nat}
    {datagram : Bytes} {locals : Locals} {found : Option (ClientCommand × Bytes)}
    (hinit : memory.init_client_session sock = .ok (opened, some s))
    (hcommand : received_command datagram locals = .ok found) :
    udp_server_worker memory sock datagram locals = (do
      let _ ← logged_username opened s
      served_command opened s locals found) := by
  obtain ⟨buffer, hbuffer, hcommand⟩ := Result.bind_eq_ok_iff.mp hcommand
  obtain ⟨⟨command, found'⟩, hdispatch, hfound⟩ := Result.bind_eq_ok_iff.mp hcommand
  cases hfound
  simp only [udp_server_worker, hbuffer, hinit, Result.ok_bind, Result.deref_some,
    client_cmd_function, hdispatch]
  cases logged_username opened s with
  | error e => rfl
  | ok username =>
    cases found with
    | none => rfl
    | some entry =>
      simp only [served_command, Result.ok_bind]
      cases client_cmd_functions opened s entry.2 locals entry.1 <;> rfl

theorem udp_server_worker_eq_served {memory opened : Memory} {sock : sockaddr_in} {s : Nat}
    {datagram : Bytes} {locals : Locals} {found : Option (ClientCommand × Bytes)}
    (hinit : memory.init_client_session sock = .ok (opened, some s)) (hpointed : opened.Pointed s)
    (hcommand : received_command datagram locals = .ok found) :
    udp_server_worker memory sock datagram locals = served_command opened s locals found := by
  obtain ⟨username, hlog⟩ := hpointed.logged_username
  rw [udp_server_worker_eq_logged hinit hcommand, hlog, Result.ok_bind]

/-- A datagram that is served has a session whose pointer is null or leads to a record. -/
theorem pointed_of_worker {memory opened next : Memory} {sock : sockaddr_in} {s : Nat}
    {datagram : Bytes} {locals : Locals} {found : Option (ClientCommand × Bytes)}
    {outputs : List Output} (hinit : memory.init_client_session sock = .ok (opened, some s))
    (hcommand : received_command datagram locals = .ok found)
    (hstep : udp_server_worker memory sock datagram locals = .ok (next, outputs)) :
    opened.Pointed s := by
  rw [udp_server_worker_eq_logged hinit hcommand] at hstep
  obtain ⟨username, hlog, -⟩ := Result.bind_eq_ok_iff.mp hstep
  by_contra hwild
  rw [logged_username_eq_error_iff.mpr ⟨rfl, hwild⟩] at hlog
  cases hlog

/-- What `udp_server_worker` does for one datagram: it opens the session of the
address and, if the datagram holds a command, lets the command run for it. -/
inductive Served (memory : Memory) (sock : sockaddr_in) (datagram : Bytes) (locals : Locals) :
    Memory → List Output → Prop
  | unknown (opened : Memory) (s : Nat) (hopened : memory.Opened sock s opened)
    (hcommand : received_command datagram locals = .ok none) :
    Served memory sock datagram locals opened [opened.send_udp_message s .command_not_found]
  | command (opened : Memory) (s : Nat) (hopened : memory.Opened sock s opened)
    (command : ClientCommand) (args : Bytes)
    (hcommand : received_command datagram locals = .ok (some (command, args)))
    (next : Memory) (outputs : List Output)
    (hperformed : opened.Performed s args locals command next outputs) :
    Served memory sock datagram locals next outputs

theorem Memory.Valid.served {memory next : Memory} (hvalid : memory.Valid) {sock : sockaddr_in}
    {datagram : Bytes} {locals : Locals} {outputs : List Output}
    (hstep : udp_server_worker memory sock datagram locals = .ok (next, outputs)) :
    Served memory sock datagram locals next outputs := by
  obtain ⟨buffer, hbuffer, hstep⟩ := Result.bind_eq_ok_iff.mp hstep
  obtain ⟨opened, s, hinit, hopened⟩ := hvalid.init_client_session_spec sock
  rw [hinit, Result.ok_bind] at hstep
  simp only [Result.deref_some, Result.ok_bind] at hstep
  obtain ⟨result, hfunction, hstep⟩ := Result.bind_eq_ok_iff.mp hstep
  obtain ⟨⟨command, found⟩, hdispatch, hfunction⟩ := Result.bind_eq_ok_iff.mp hfunction
  obtain ⟨username, -, hfunction⟩ := Result.bind_eq_ok_iff.mp hfunction
  have hreceived : received_command datagram locals = .ok found := by
    simp only [received_command, hbuffer, Result.ok_bind, hdispatch, Result.pure_eq_ok]
  cases found with
  | none =>
    cases hfunction
    cases hstep
    exact .unknown _ s hopened hreceived
  | some entry =>
    obtain ⟨⟨_, _⟩, hcmd, hfunction⟩ := Result.bind_eq_ok_iff.mp hfunction
    cases hfunction
    cases hstep
    exact .command opened s hopened entry.1 entry.2 hreceived next outputs
      (hopened.valid.client_cmd_functions_performed hopened.mem hcmd)

/-- A datagram from the address of a session that exists runs its command for
that session. -/
theorem Memory.Valid.udp_server_worker_eq {memory : Memory} (hvalid : memory.Valid)
    {sock : sockaddr_in} {datagram args : Bytes} {locals : Locals} {client : Nat}
    (hclient : client ∈ memory.userSessions)
    (hip : cstr (memory.sessions.contents client).ip.bytes = inet_ntop sock.sin_addr)
    (hport : (memory.sessions.contents client).port = sock.sin_port.setWidth 32)
    (hpointed : memory.Pointed client) {command : ClientCommand}
    (hcommand : received_command datagram locals = .ok (some (command, args))) :
    udp_server_worker memory sock datagram locals =
      client_cmd_functions memory client args locals command := by
  obtain ⟨opened, s, hinit, hopened⟩ := hvalid.init_client_session_spec sock
  obtain ⟨hold, hsame⟩ := hopened.old client hclient
  obtain rfl : s = client := hopened.valid.session_unique hopened.mem hold
    (by rw [hopened.ip, hsame, hip]) (by rw [hopened.port, hsame, hport])
  obtain rfl := hopened.same hclient
  rw [udp_server_worker_eq_served hinit hpointed hcommand, served_command]

end rc_project.server
