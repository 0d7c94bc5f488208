import RcProject.Client.Replies
import RcProject.Library.RequestReply
import RcProject.Server.Relay

open rc_project.blocks rc_project.c_string rc_project.request_reply rc_project.scanf
open rc_project.transition
open rc_project.server (Answer Locals ClientCommand cstr_format_message format_message
  received_command received_command_eq line)

namespace rc_project.client

section Replied

variable {memory opened next : server.Memory} {sock : server.sockaddr_in} {s : Nat}
  {args datagram : Bytes} {locals : Locals} {command : ClientCommand}
  {outputs : List server.Output} {answer : Answer}

/-- What `send_udp_message` sends to an address. -/
def udp_message (sock : server.sockaddr_in) : server.Output → Option Bytes
  | .answer _ _ _ message dest => if dest = sock then some message else none
  | _ => none

/-- What an output brings to the socket of requests of an address. It takes what `cmd_msg` relays
to its address like any other message. -/
def reply (sock : server.sockaddr_in) : server.Output → Option Bytes
  | .answer _ _ _ message dest => if dest = sock then some message else none
  | .relay _ _ _ _ message dest => if dest = sock then some message else none
  | _ => none

/-- What a client tests the first reply of a login for. -/
def LoggedIn (message : Bytes) : Prop := strcmp message (text "Login successfully\n") = 0

instance (message : Bytes) : Decidable (LoggedIn message) :=
  inferInstanceAs (Decidable (_ = _))

/-- The replies to a command: a refusal, or what the command is for. -/
inductive Replied : ClientCommand → List Bytes → Prop
  | refused (command : ClientCommand) (answer : Answer) (hrefusal : answer.refusal = true) :
    Replied command [format_message answer.text]
  | login (u : Nat) (port : BitVec 32) (client_server p2p group : Bytes) (hport : IsPort port) :
    Replied .LOGIN [format_message (Answer.login_successful u).text,
      format_message (Answer.session_port port).text,
      format_message (Answer.permissions client_server p2p group).text]
  | msg : Replied .MSG [format_message Answer.message_sent.text]
  | p2p (username : Bytes) (selected : Nat) (ip : Bytes) (port : BitVec 32)
    (husername : TypedWord USERNAME_SIZE username) (hip : TypedWord server.INET_ADDRSTRLEN ip)
    (hport : IsPort port) :
    Replied .P2P [format_message (Answer.p2p_address username selected ip port).text]
  | create (group_name ip : Bytes) :
    Replied .CREATEMULTICAST [format_message (Answer.group_created group_name ip).text]
  | get (group_name ip : Bytes) (hip : TypedWord server.INET_ADDRSTRLEN ip) :
    Replied .GETMULTICAST [format_message (Answer.group_address group_name ip).text]

theorem nul_not_mem_args (hcommand : received_command datagram locals = .ok (some (command, args))) :
    0 ∉ args := by
  rw [received_command_eq, Except.ok.injEq] at hcommand
  obtain ⟨entry, -, hargs⟩ := Option.map_eq_some_iff.mp hcommand
  cases hargs
  intro hmem
  exact server.nul_not_mem_line _ (List.mem_of_mem_drop hmem)

/-- A word that the server scans is of the form that is read back. -/
theorem typedWord_of_sscanf {size : Nat} {username : Bytes} (hnul : 0 ∉ args)
    (hargs : sscanf args [.word size] = .ok [.string username]) : TypedWord size username := by
  obtain ⟨hne, hlength, hword, -⟩ := sscanf_word_eq_ok_iff.mp hargs
  cases hword
  refine ⟨hne, hlength, ?_, fun c hc => isspace_of_mem_nextWord hc⟩
  intro hmem
  exact hnul ((List.dropWhile_sublist _).subset ((List.takeWhile_sublist _).subset hmem))

theorem udp_message_send_udp_message (hsock : (memory.sessions.contents s).sock = sock) :
    udp_message sock (memory.send_udp_message s answer) = some (format_message answer.text) :=
  if_pos hsock

theorem reply_send_udp_message (hsock : (memory.sessions.contents s).sock = sock) :
    reply sock (memory.send_udp_message s answer) = some (format_message answer.text) :=
  if_pos hsock

theorem udp_message_of_ne {sock' : server.sockaddr_in}
    (hsock : (memory.sessions.contents s).sock = sock) (hne : sock' ≠ sock) :
    udp_message sock' (memory.send_udp_message s answer) = none := by
  apply if_neg
  rw [hsock]
  exact hne.symm

/-- Every command replies to the address of its session, and to no other. -/
theorem replied_of_performed (hvalid : opened.Valid) (hat : opened.SessionAt sock s)
    (hnul : 0 ∉ args) (h : opened.Performed s args locals command next outputs) :
    Replied command (outputs.filterMap (udp_message sock)) ∧
      ∀ sock', sock' ≠ sock → outputs.filterMap (udp_message sock') = [] := by
  have hsock := hvalid.sock_of_sessionAt hat
  have hone (answer : Answer) (hreplied : Replied command [format_message answer.text]) :
      Replied command ([opened.send_udp_message s answer].filterMap (udp_message sock)) ∧
        ∀ sock', sock' ≠ sock →
          [opened.send_udp_message s answer].filterMap (udp_message sock') = [] := by
    refine ⟨?_, fun sock' hne => ?_⟩
    · simpa [udp_message_send_udp_message hsock] using hreplied
    · simp [udp_message_of_ne hsock hne]
  cases h with
  | refused _ answer hrefusal => exact hone answer (.refused command answer hrefusal)
  | login username password u hlogged hargs huser hip hpassword hnul =>
    obtain ⟨-, -, hsame⟩ := opened.bind_sessions_key s u s
    have hsock' := hsame.trans hsock
    obtain ⟨-, hport⟩ := session_typedWord hvalid hat.mem
    refine ⟨?_, fun sock' hne => ?_⟩
    · simp only [List.filterMap_cons, List.filterMap_nil, udp_message_send_udp_message hsock']
      exact .login u _ _ _ _ hport
    · simp only [List.filterMap_cons, List.filterMap_nil, udp_message_of_ne hsock' hne]
  | msg username message sender u selected hpermitted hargs huser hsession =>
    obtain ⟨hreplied, hothers⟩ := hone .message_sent .msg
    exact ⟨hreplied, hothers⟩
  | p2p username sender u selected hpermitted hargs huser hsession =>
    have hselected := (hvalid.find_session_eq_some_iff.mp hsession).1
    obtain ⟨hip, hport⟩ := session_typedWord hvalid hselected
    exact hone _ (.p2p username selected _ _ (typedWord_of_sscanf hnul hargs) hip hport)
  | create group_name => exact hone _ (.create group_name _)
  | get group_name sender g hpermitted hargs hgroup hname =>
    exact hone _ (.get group_name _ (group_address_typedWord hvalid hgroup))

theorem Call.replied {call : Call}
    (hserved : server.Served memory sock call.datagram locals next outputs) :
    Replied call.command (outputs.filterMap (udp_message sock)) := by
  obtain ⟨opened, s, hopened, hperformed⟩ := Call.performed hserved
  have hnul := nul_not_mem_args (call.received_command_datagram locals)
  exact (replied_of_performed hopened.valid hopened.sessionAt hnul hperformed).1

end Replied

section Counted

variable {command : ClientCommand} {replies : List Bytes}

/-- Three replies where the first one is that of a successful login, otherwise one. -/
def Counted (replies : List Bytes) : Prop :=
  ∃ first rest, replies = first :: rest ∧ replies.length = if LoggedIn first then 3 else 1

/-- A message that begins with another letter is not that of a login. -/
theorem not_loggedIn_of_ne {c : UInt8} (hne : c ≠ 76) (rest : Bytes) :
    ¬ LoggedIn (format_message (c :: rest)) := by
  have hliteral : cstr (c_string.text "Login successfully\n") =
      76 :: c_string.text "ogin successfully\n" := by decide
  rw [LoggedIn, strcmp_eq_zero_iff, hliteral, format_message, snprintf, List.length_replicate]
  rw [show server.BUFFER_SIZE - 1 = 998 + 1 from rfl, List.take_succ_cons, List.cons_append,
    cstr_cons]
  split
  · simp
  · intro hsame
    exact hne (List.cons.inj hsame).1

/-- Nor is one that gives the address of a user, whatever its name. -/
theorem not_loggedIn_p2p_address {username ip : Bytes} {port : BitVec 32} (selected : Nat)
    (husername : TypedWord USERNAME_SIZE username) (hip : TypedWord server.INET_ADDRSTRLEN ip)
    (hport : IsPort port) :
    ¬ LoggedIn (format_message (Answer.p2p_address username selected ip port).text) := by
  have hliteral : cstr (c_string.text "Login successfully\n") =
      c_string.text "Login" ++ 32 :: c_string.text "successfully\n" := by decide
  have hip' : c_string.text " IP: " = 32 :: 73 :: c_string.text "P: " := by decide
  have hspace : 32 ∉ username := fun hmem => absurd (husername.isspace_eq 32 hmem) (by decide)
  have hhead : (c_string.text "successfully\n").head? = some 115 := by decide
  rw [LoggedIn, strcmp_eq_zero_iff, cstr_p2p_address selected husername hip hport, hliteral, hip']
  intro hsame
  obtain ⟨-, hrest⟩ := server.append_cons_inj hspace (by decide) hsame
  rw [← hrest] at hhead
  cases hhead

/-- The replies are those of a login, or one that is not. -/
theorem Replied.login_or (h : Replied command replies) :
    (command = .LOGIN ∧ ∃ u port client_server p2p group, IsPort port ∧
      replies = [format_message (Answer.login_successful u).text,
        format_message (Answer.session_port port).text,
        format_message (Answer.permissions client_server p2p group).text]) ∨
      ∃ message, ¬ LoggedIn message ∧ replies = [message] := by
  cases h with
  | refused _ answer hrefusal => exact Or.inr ⟨_, strcmp_refusal hrefusal, rfl⟩
  | login u port client_server p2p group hport =>
    exact Or.inl ⟨rfl, u, port, client_server, p2p, group, hport, rfl⟩
  | msg =>
    exact Or.inr ⟨_, not_loggedIn_of_ne (c := 77) (by decide) (c_string.text "essage sent\n"), rfl⟩
  | p2p username selected ip port husername hip hport =>
    exact Or.inr ⟨_, not_loggedIn_p2p_address selected husername hip hport, rfl⟩
  | create group_name ip =>
    exact Or.inr ⟨_, not_loggedIn_of_ne (c := 71) (by decide) _, rfl⟩
  | get group_name ip hip =>
    exact Or.inr ⟨_, not_loggedIn_of_ne (c := 77) (by decide) _, rfl⟩

end Counted

section Clients

variable {ι : Type} {address : ι → server.sockaddr_in}
  {Allowed : server.Server → server.Event → Prop} {client : Client} {call : Call}
  {replies : List Bytes}

/-- A client waits in one of its `recvfrom`s. -/
def Client.Receiving (client : Client) : Prop :=
  client.stage ≠ .start ∧ client.stage ≠ .menu ∧ client.stage ≠ .exited

/-- Two steps without a message: a client is left from its menu, and it is started anew
at the same address once it has exited. -/
inductive Client.Moves (client : Client) : Client → Prop
  | leave (hmenu : client.stage = .menu) : Client.Moves client { client with stage := .exited }
  | restart (hexited : client.stage = .exited) : Client.Moves client .initial

/-- The stage in which a client waits for the first reply to a request. -/
def Call.stage : Call → Stage
  | .authenticate .. => .login
  | call => .waiting call

/-- A client waits for the first reply to a datagram of its own. -/
def Client.Awaits (client : Client) (datagram : Bytes) : Prop :=
  ∃ call : Call, datagram = call.datagram ∧ client.stage = call.stage

/-- The clients at their addresses and the server, in the runs in which the server is given only
what is allowed in its state. It takes the datagrams of the clients, and in between those of
others and what the admin does. -/
def protocol (address : ι → server.sockaddr_in) (Allowed : server.Server → server.Event → Prop) :
    Protocol ι server.Server Client Bytes Bytes where
  receiving := Client.Receiving
  asks client datagram next := ∃ call : Call, datagram = call.datagram ∧ client.sends call = some next
  reads client reply next := client.Receiving ∧
    ∃ outside outputs, recvfrom client (reply, outside) = .ok (next, outputs)
  moves := Client.Moves
  serves state i datagram next replies := ∃ locals outputs,
    Allowed state (.datagram (address i) datagram locals) ∧
      server.step state (.datagram (address i) datagram locals) = .ok (next, outputs) ∧
        replies = fun j => outputs.filterMap (reply (address j))
  turns state next replies := ∃ event outputs,
    (∀ i datagram locals, event ≠ .datagram (address i) datagram locals) ∧
      Allowed state event ∧ server.step state event = .ok (next, outputs) ∧
        replies = fun j => outputs.filterMap (reply (address j))

theorem Call.stage_cases (call : Call) : (call.stage = .login ∧ call.command = .LOGIN) ∨
    (call.stage = .waiting call ∧ call.command ≠ .LOGIN) := by
  cases call <;> simp [Call.stage, Call.command]

theorem Client.Awaits.receiving {datagram : Bytes} (h : client.Awaits datagram) :
    client.Receiving := by
  obtain ⟨call, -, hstage⟩ := h
  unfold Client.Receiving
  obtain ⟨hlogin, -⟩ | ⟨hwaiting, -⟩ := call.stage_cases
  · simp [hstage, hlogin]
  · simp [hstage, hwaiting]

/-- A client that gets on with each result of its `recvfrom` reads the reply. -/
theorem reads_cons {reply : Bytes} (hreceiving : client.Receiving)
    (hrecv : ∀ outside, ∃ next outputs, recvfrom client (reply, outside) = .ok (next, outputs) ∧
      (protocol address Allowed).Reads next replies) :
    (protocol address Allowed).Reads client (reply :: replies) := by
  refine ⟨hreceiving, ?_, ?_⟩
  · obtain ⟨next, outputs, hnext, -⟩ := hrecv ⟨0, CharArray.ofBytes _ []⟩
    exact ⟨next, hreceiving, _, outputs, hnext⟩
  · rintro next ⟨-, outside, outputs, hnext⟩
    obtain ⟨next', outputs', hnext', hreads⟩ := hrecv outside
    rw [hnext, Except.ok.injEq, Prod.mk.injEq] at hnext'
    obtain ⟨rfl, -⟩ := hnext'
    exact hreads

/-- The last reply, behind which the client is in its menu or has exited. -/
theorem reads_last {reply : Bytes} (hreceiving : client.Receiving)
    (hrecv : ∀ outside, ∃ next outputs, recvfrom client (reply, outside) = .ok (next, outputs) ∧
      (next.stage = .menu ∨ next.stage = .exited)) :
    (protocol address Allowed).Reads client [reply] := by
  refine reads_cons hreceiving fun outside => ?_
  obtain ⟨next, outputs, hnext, hstage⟩ := hrecv outside
  refine ⟨next, outputs, hnext, ?_⟩
  rintro ⟨-, hmenu, hexited⟩
  exact hstage.elim hmenu hexited

/-- A client that authenticates reads all replies to a login. -/
theorem Replied.reads_login {command : ClientCommand} (h : Replied command replies)
    (hstage : client.stage = .login) : (protocol address Allowed).Reads client replies := by
  have hreceiving (behind : Client) (hbehind : behind.stage = .login ∨ behind.stage = .port ∨
      behind.stage = .permissions) : behind.Receiving := by
    unfold Client.Receiving
    obtain hbehind | hbehind | hbehind := hbehind <;> simp [hbehind]
  obtain ⟨-, u, port, client_server, p2p, group, hport, rfl⟩ | ⟨message, hother, rfl⟩ := h.login_or
  · refine reads_cons (hreceiving _ (Or.inl hstage)) fun outside => ?_
    refine ⟨_, _, recvfrom_login hstage u outside, ?_⟩
    refine reads_cons (hreceiving _ (Or.inr (Or.inl rfl))) fun outside => ?_
    refine ⟨_, _, recvfrom_port rfl hport outside, ?_⟩
    refine reads_last (hreceiving _ (Or.inr (Or.inr rfl))) fun outside => ?_
    exact ⟨_, _, recvfrom_permissions rfl _ outside, Or.inl rfl⟩
  · refine reads_last (hreceiving _ (Or.inl hstage)) fun outside => ?_
    exact ⟨_, _, recvfrom_exits hstage hother outside, Or.inr rfl⟩

/-- What the client makes of the reply to a request for a user or for a group. -/
theorem Replied.scan_p2p (h : Replied .P2P replies) :
    ∃ message found, replies = [message] ∧ scan_p2p message = .ok found := by
  cases h with
  | refused _ answer hrefusal => exact ⟨_, _, rfl, scan_p2p_refusal hrefusal⟩
  | p2p username selected ip port husername hip hport =>
    exact ⟨_, _, rfl, scan_p2p_address selected husername hip hport⟩

theorem Replied.scan_multicast (h : Replied .GETMULTICAST replies) :
    ∃ message found, replies = [message] ∧ scan_multicast message = .ok found := by
  cases h with
  | refused _ answer hrefusal => exact ⟨_, _, rfl, scan_multicast_refusal hrefusal⟩
  | get group_name ip hip => exact ⟨_, _, rfl, scan_multicast_address group_name hip⟩

/-- A client in a function of its menu reads the one reply to its command, and is back
in its menu. -/
theorem Replied.reads_waiting (h : Replied call.command replies) (hstage : client.stage = .waiting call)
    (hcommand : call.command ≠ .LOGIN) : (protocol address Allowed).Reads client replies := by
  have hreceiving : client.Receiving := by
    unfold Client.Receiving
    simp [hstage]
  obtain ⟨hlogin, -⟩ | ⟨message, -, rfl⟩ := h.login_or
  · exact absurd hlogin hcommand
  · refine reads_last hreceiving fun outside => ?_
    cases call with
    | authenticate => exact absurd rfl hcommand
    | send_msg =>
      have hrecv : recvfrom client (message, outside) = .ok ({ client with stage := .menu }, []) := by
        simp only [recvfrom, hstage, Result.pure_eq_ok]
      exact ⟨_, _, hrecv, Or.inl rfl⟩
    | create_group_multicast =>
      have hrecv : recvfrom client (message, outside) = .ok ({ client with stage := .menu }, []) := by
        simp only [recvfrom, hstage, Result.pure_eq_ok]
      exact ⟨_, _, hrecv, Or.inl rfl⟩
    | send_p2p username msg =>
      obtain ⟨_, found, hmessage, hscan⟩ := Replied.scan_p2p h
      cases hmessage
      cases found with
      | none =>
        have hrecv : recvfrom client (message, outside) =
            .ok ({ client with stage := .menu }, []) := by
          simp only [recvfrom, hstage, hscan, Result.ok_bind, Result.pure_eq_ok]
        exact ⟨_, _, hrecv, Or.inl rfl⟩
      | some found =>
        obtain ⟨name, ip, port⟩ := found
        have hrecv : recvfrom client (message, outside) = .ok ({ client with stage := .menu },
            [.p2p outside.message ip (server.htons port)]) := by
          simp only [recvfrom, hstage, hscan, Result.ok_bind, Result.pure_eq_ok]
        exact ⟨_, _, hrecv, Or.inl rfl⟩
    | connect_multicast group_name array =>
      obtain ⟨_, found, hmessage, hscan⟩ := Replied.scan_multicast h
      cases hmessage
      cases found with
      | none =>
        have hrecv : recvfrom client (message, outside) =
            .ok ({ client with stage := .menu }, []) := by
          simp only [recvfrom, hstage, hscan, Result.ok_bind, Result.pure_eq_ok]
        exact ⟨_, _, hrecv, Or.inl rfl⟩
      | some ip =>
        obtain ⟨current_group, hcopy⟩ := exists_strcpy client.current_group
          ((length_cstr_le _).trans_lt group_name.length_lt)
        simp only [recvfrom, hstage, hscan, Result.ok_bind, hcopy]
        by_cases hmembership : outside.setsockopt < 0
        · rw [if_pos hmembership]
          exact ⟨_, _, rfl, Or.inl rfl⟩
        · rw [if_neg hmembership]
          exact ⟨_, _, rfl, Or.inl rfl⟩

/-- A client reads exactly the replies to its request. -/
theorem Call.reads (hstage : client.stage = call.stage) (h : Replied call.command replies) :
    (protocol address Allowed).Reads client replies := by
  obtain ⟨hlogin, -⟩ | ⟨hwaiting, hcommand⟩ := call.stage_cases
  · exact h.reads_login (hstage.trans hlogin)
  · exact h.reads_waiting (hstage.trans hwaiting) hcommand

end Clients

section Networks

variable {ι : Type} {address : ι → server.sockaddr_in} {start state : server.Server}
  {past : List server.Event}

end Networks

section Relayed

variable {state next : server.Server} {client client' : Client} {replies : List Bytes}
  {Allowed : server.Server → server.Event → Prop}

end Relayed

end rc_project.client
