import RcProject.Client.LockStep
import RcProject.Client.Terminal
import RcProject.Server.Routing

open rc_project.c_string rc_project.scanf rc_project.transition
open rc_project.server (Answer format_message htons in_addr inet_ntop line sockaddr_in)

namespace rc_project.client

section Addresses

variable {rest : Bytes}

theorem dot_not_digit (hrest : ∀ c ∈ rest.head?, c = 46) : ∀ c ∈ rest.head?, isdigit c = false := by
  intro c hc
  rw [hrest c hc]
  decide

/-- The numbers that `inet_ntop` writes are read back. -/
theorem strtoul_decimal (byte : UInt8) (hrest : ∀ c ∈ rest.head?, c = 46) :
    strtoul (decimal byte.toNat ++ rest) = (byte.toNat, rest) := by
  by_cases hzero : byte = 0
  · subst hzero
    cases rest with
    | nil => decide
    | cons c rest =>
      obtain rfl : c = 46 := hrest c rfl
      have hzero : decimal (0 : UInt8).toNat = [48] := by decide
      have hdigit : isodigit 48 = true ∧ isodigit 46 = false := by decide
      have hvalue : digits_value 8 [48] = 0 := by decide
      rw [hzero]
      simp [strtoul, hdigit, hvalue]
  · have hfirst : ∀ n < 256, n ≠ 0 → (decimal n).head? ≠ some 48 := by decide +kernel
    have hpositive : byte.toNat ≠ 0 := fun h => hzero (UInt8.toNat_inj.mp h)
    have hhead : (decimal byte.toNat ++ rest).head? ≠ some 48 := by
      rw [List.head?_append_of_ne_nil _ (decimal_ne_nil _)]
      exact hfirst byte.toNat byte.toNat_lt hpositive
    have hdigits : (decimal byte.toNat ++ rest).takeWhile isdigit = decimal byte.toNat ∧
        (decimal byte.toNat ++ rest).dropWhile isdigit = rest := by
      rw [List.takeWhile_append_of_pos fun c hc => isdigit_of_mem_decimal hc,
        List.dropWhile_append_of_pos fun c hc => isdigit_of_mem_decimal hc]
      cases rest with
      | nil => simp
      | cons c rest => simp [dot_not_digit hrest c rfl]
    rw [strtoul, if_neg hhead, hdigits.1, hdigits.2, digitsValue_decimal]

theorem head_decimal (byte : UInt8) (rest : Bytes) :
    (decimal byte.toNat ++ rest).head?.any isdigit = true := by
  obtain ⟨c, digits, hdigits⟩ := List.exists_cons_of_ne_nil (decimal_ne_nil byte.toNat)
  have hc : isdigit c = true := by
    apply isdigit_of_mem_decimal
    rw [hdigits]
    exact List.mem_cons_self
  simp [hdigits, hc]

theorem address_parts_dot (dots : Nat) (byte : UInt8) (rest : Bytes) :
    address_parts (dots + 1) (decimal byte.toNat ++ 46 :: rest) =
      (address_parts dots rest).map fun (values, rest) => (byte.toNat :: values, rest) := by
  have hlt : byte.toNat < 256 := byte.toNat_lt
  have hsmall : byte.toNat ≤ 0xffffffff := by omega
  have hbyte : byte.toNat ≤ 0xff := by omega
  have hread : strtoul (decimal byte.toNat ++ 46 :: rest) = (byte.toNat, 46 :: rest) :=
    strtoul_decimal byte (by simp)
  rw [address_parts, hread]
  simp only [head_decimal, hsmall, and_self, if_true, List.head?_cons, List.tail_cons, hbyte]

theorem address_parts_end (dots : Nat) (byte : UInt8) :
    address_parts dots (decimal byte.toNat) = some ([byte.toNat], []) := by
  have hlt : byte.toNat < 256 := byte.toNat_lt
  have hsmall : byte.toNat ≤ 0xffffffff := by omega
  have hread : strtoul (decimal byte.toNat ++ []) = (byte.toNat, []) :=
    strtoul_decimal byte (by simp)
  have hhead := head_decimal byte []
  rw [List.append_nil] at hread hhead
  rw [address_parts, hread]
  simp [hhead, hsmall]

/-- The address that a client sends to is the one that the server printed. -/
theorem inet_addr_inet_ntop (addr : in_addr) : inet_addr (inet_ntop addr) = addr := by
  obtain ⟨a, b, c, d⟩ := addr
  have hdots : inet_ntop ⟨a, b, c, d⟩ = decimal a.toNat ++ 46 :: (decimal b.toNat ++
      46 :: (decimal c.toNat ++ 46 :: decimal d.toNat)) := by
    simp [inet_ntop, text]
  have ha : a.toNat < 256 := a.toNat_lt
  have hb : b.toNat < 256 := b.toNat_lt
  have hc : c.toNat < 256 := c.toNat_lt
  have hd : d.toNat < 256 := d.toNat_lt
  have hlast : d.toNat ≤ 0xff := by omega
  rw [inet_addr, hdots, address_parts_dot, address_parts_dot, address_parts_dot, address_parts_end]
  simp only [Option.map_some, List.head?_nil, Option.any_none, Bool.false_eq_true, if_false,
    if_pos hlast, address_of, in_addr.mk.injEq]
  refine ⟨?_, ?_, ?_, ?_⟩ <;> apply UInt8.toNat_inj.mp <;> rw [UInt8.toNat_ofNat'] <;> omega

end Addresses

section Listeners

/-- The client program at a terminal comes to its menu, with `read_msg` at the port that the server
sends the messages for an address to. -/
def Start.Listens (terminal : Start) (stdin : Bytes) (sock : sockaddr_in) : Prop :=
  ∃ process : Process, main terminal stdin = process.options terminal.rounds ∧
    .bind sock.listener.sin_port ∈ process.done

/-- The last login to the record `u` in front of a state of the server, into the session `s`: a
client at an address has typed it at its terminal, and has read the replies. -/
inductive LastLogin (start : server.Server) (sock : sockaddr_in) (terminal : Start) (stdin : Bytes)
    (s u : Nat) (last : server.Server) : Prop
  | intro (past between : List server.Event) (before next : server.Server)
    (locals : server.Locals) (outputs : List server.Output) (rest : List (List server.Output))
    (username password typed left : Bytes) (husername : Types USERNAME_SIZE username stdin typed)
    (hpassword : Types PASSWORD_SIZE password typed left)
    (hreach : Reaches server.step start past before)
    (hstep : server.step before (.datagram sock (Call.authenticate
      ⟨username, husername.word.nul_not_mem, husername.word.length_lt⟩
      ⟨password, hpassword.word.nul_not_mem, hpassword.word.length_lt⟩ terminal.message).datagram
        locals) = .ok (next, outputs))
    (hlogin : (s, u) ∈ outputs.filterMap server.Output.login)
    (hreplies : (outputs.filterMap (reply sock)).map some =
      [terminal.login, terminal.port, terminal.permissions])
    (hrun : run server.step next between = .ok (last, rest))
    (hlast : ∀ outputs ∈ rest, ∀ t, (t, u) ∉ outputs.filterMap server.Output.login) :
    LastLogin start sock terminal stdin s u last

variable {start last : server.Server} {sock : sockaddr_in} {terminal : Start} {stdin : Bytes}
  {s u : Nat}

theorem isPort_setWidth (port : BitVec 16) : IsPort (port.setWidth 32) := by
  have hlt : port.toNat < 65536 := port.isLt
  constructor
  rw [BitVec.toNat_setWidth]
  omega

/-- The replies of a login bring the client to its menu. -/
theorem listens_of_login {before next : server.Server} {locals : server.Locals}
    {outputs : List server.Output} {username password typed left : Bytes}
    (hvalid : before.memory.Valid) (husername : Types USERNAME_SIZE username stdin typed)
    (hpassword : Types PASSWORD_SIZE password typed left)
    (hstep : server.step before (.datagram sock (Call.authenticate
      ⟨username, husername.word.nul_not_mem, husername.word.length_lt⟩
      ⟨password, hpassword.word.nul_not_mem, hpassword.word.length_lt⟩ terminal.message).datagram
        locals) = .ok (next, outputs))
    (hlogin : (s, u) ∈ outputs.filterMap server.Output.login)
    (hreplies : (outputs.filterMap (reply sock)).map some =
      [terminal.login, terminal.port, terminal.permissions]) : terminal.Listens stdin sock := by
  obtain ⟨t, hat, hrefused | ⟨v, client_server, p2p, group, houtputs⟩⟩ :=
    login_answer (served_of_step hvalid hstep)
  · obtain ⟨answer, hrefusal, rfl⟩ := hrefused
    rw [server.logins_of_refusal hrefusal] at hlogin
    cases hlogin
  · have hvalid' := server.step_valid hvalid hstep
    have hsock := hvalid'.sock_of_sessionAt hat
    simp only [houtputs, List.filterMap_cons, reply_send_udp_message hsock, List.filterMap_nil,
      List.map_cons, List.map_nil, List.cons.injEq, and_true, hat.port] at hreplies
    obtain ⟨hfirst, hsecond, hthird⟩ := hreplies
    obtain ⟨process, hmain, -, -, hbind, -⟩ := main_eq_options husername hpassword
      (isPort_setWidth sock.sin_port) hfirst.symm hsecond.symm hthird.symm
    exact ⟨process, hmain, hbind⟩

theorem sessionAt_of_logsIn {memory next : server.Memory} {datagram : Bytes} {locals : server.Locals}
    (h : memory.LogsIn (.datagram sock datagram locals) s u next) : next.SessionAt sock s := by
  cases h with
  | intro _ _ _ opened _ _ _ _ _ hopened =>
    obtain ⟨hip, hport, -⟩ := opened.bind_sessions_key s u s
    exact ⟨hopened.mem, hip ▸ hopened.ip, hport.trans hopened.port⟩

/-- What the server knows of the last login: its session is the one that is looked up for the
record, and the client at its terminal listens. -/
theorem LastLogin.located (hvalid : start.memory.Valid)
    (h : LastLogin start sock terminal stdin s u last) :
    last.memory.Valid ∧ last.memory.SessionAt sock s ∧
      last.memory.find_session u = .ok (some s) ∧ terminal.Listens stdin sock := by
  cases h with
  | intro past between before next locals outputs rest username password typed left husername
      hpassword hreach hstep hlogin hreplies hrun hlast =>
    have hbefore := server.reaches_valid hvalid hreach
    have hnext := server.step_valid hbefore hstep
    have hlistens := listens_of_login hbefore husername hpassword hstep hlogin hreplies
    obtain ⟨-, hnone⟩ | ⟨s', u', hlogs, houtputs⟩ :=
      (server.stepped_of_step hbefore hstep).keeps_or_login hbefore
    · rw [hnone] at hlogin
      cases hlogin
    · rw [houtputs, List.mem_singleton] at hlogin
      cases hlogin
      obtain ⟨hbound, hlocated⟩ := hlogs.bound hbefore
      obtain ⟨hlast', hbound', hlocated'⟩ :=
        server.run_last_login hnext hbound hlocated hrun hlast
      have hat := sessionAt_of_logsIn hlogs
      obtain ⟨-, hip, hport, -, -⟩ :=
        server.reaches_keepsSession hnext hbound.mem ⟨rest, hrun⟩
      exact ⟨hlast', ⟨hbound'.mem, hip ▸ hat.ip, hport.trans hat.port⟩,
        hlast'.find_session_eq_some_iff_located.mpr ⟨hbound'.mem, hlocated'⟩, hlistens⟩

end Listeners

section Messages

variable {startup : server.Startup} {records : Bytes} {start last : server.Server}
  {sock peer : sockaddr_in} {terminal : Start} {stdin input name message behind rest : Bytes}
  {s u client sender : Nat} {permission : server.Permission}

/-- The text of a message that a client sends is short, whatever its sender is called. -/
theorem length_message_text_lt (memory : server.Memory) (sender : Nat) (peer : sockaddr_in)
    (hmessage : TypedLine 100 message) :
    (message_text (memory.clients.contents sender).username_string peer
      (remainder message)).length < BUFFER_SIZE := by
  have hname : (memory.clients.contents sender).username_string.length ≤ server.client_t.size :=
    (length_cstr_le _).trans_eq (memory.clients.contents sender).length_bytes
  have hip : (inet_ntop peer.sin_addr).length < 16 := server.length_inet_ntop_lt peer.sin_addr
  have hlt : peer.sin_port.toNat < 10 ^ (4 + 1) := peer.sin_port.isLt.trans (by decide)
  have hport := length_decimal_le hlt
  have hkept : (remainder message).length ≤ message.length :=
    ((List.dropWhile_sublist _).trans (List.takeWhile_sublist _)).length_le
  have hshort := hmessage.length_lt
  have hsizes : server.client_t.size ≤ 200 ∧ BUFFER_SIZE = 1000 := by decide
  rw [length_message_text]
  omega

theorem nul_not_mem_remainder (hmessage : TypedLine 100 message) : 0 ∉ remainder message :=
  fun hmem => hmessage.nul_not_mem
    (((List.dropWhile_sublist _).trans (List.takeWhile_sublist _)).subset hmem)

/-- A request that is typed asks for what the user of its session may do. -/
theorem Call.requests {memory : server.Memory} (call : Call) (hat : memory.SessionAt peer client)
    (hpermitted : memory.Permitted client permission sender) (locals : server.Locals) :
    memory.Requests client sender permission call.command (line call.args) locals
      (.datagram peer call.datagram locals) :=
  .intro peer call.datagram hat.mem hat.ip hat.port hpermitted
    (call.received_command_datagram locals)

/-- The terminal of a client that has typed `bob` and `pw`, with the replies to the login. -/
def bobTerminal : Start where
  message := .ofBytes _ []
  option := 9
  login := some (format_message (Answer.login_successful 1).text)
  port := some (format_message (Answer.session_port 5001).text)
  permissions := some (format_message
    (Answer.permissions (text "YES") (text "YES") (text "YES")).text)
  rounds := []

def bobSocket : sockaddr_in := ⟨⟨10, 0, 0, 2⟩, 5001⟩

theorem bob_typedWord : TypedWord USERNAME_SIZE (text "bob") :=
  ⟨by decide, by decide, by decide, by decide⟩

theorem bob_password_typedWord : TypedWord PASSWORD_SIZE (text "pw") :=
  ⟨by decide, by decide, by decide, by decide⟩

/-- `ana` is there already when `bob` logs in. -/
theorem bob_logs_in : ∃ start last, server.main .blank [] = .ok start ∧
    LastLogin start bobSocket bobTerminal (text "bob\npw\n") 1 1 last ∧
    last.memory.find_user (text "bob") = .ok (some 1) ∧ last.memory.SessionAt anaSocket 0 ∧
    last.memory.Permitted 0 .client_server 0 ∧ last.memory.Permitted 0 .p2p 0 := by
  have hbob : Types USERNAME_SIZE (text "bob") (text "bob\npw\n") (text "\npw\n") :=
    ⟨bob_typedWord, ⟨[], by decide, by simp⟩, breaks_cons (by decide) _⟩
  have hpw : Types PASSWORD_SIZE (text "pw") (text "\npw\n") [10] :=
    ⟨bob_password_typedWord, ⟨[10], by decide, by decide⟩, breaks_cons (by decide) _⟩
  have hview : server.observe .blank [] server.addTwo (fun before _ => do
      let result ← server.step before (.datagram bobSocket (Call.authenticate
        ⟨text "bob", bob_typedWord.nul_not_mem, bob_typedWord.length_lt⟩
        ⟨text "pw", bob_password_typedWord.nul_not_mem, bob_password_typedWord.length_lt⟩
        bobTerminal.message).datagram .blank)
      let next := result.1
      let found ← next.memory.find_user (text "bob")
      let client := next.memory.sessions.contents 0
      return (found, result.2.filterMap server.Output.login,
        decide ((result.2.filterMap (reply bobSocket)).map some =
          [bobTerminal.login, bobTerminal.port, bobTerminal.permissions]),
        decide (0 ∈ next.memory.userSessions ∧ cstr client.ip.bytes = inet_ntop anaSocket.sin_addr ∧
          client.port = anaSocket.sin_port.setWidth 32 ∧ client.logged_in ≠ 0 ∧
          client.client = some 0 ∧ (next.memory.clients.contents 0).client_server ≠ 0 ∧
          (next.memory.clients.contents 0).p2p ≠ 0))) =
        .ok (.ok (some 1, [(1, 1)], true, true)) := by
    decide +kernel
  obtain ⟨start, before, _, hmain, hreach, hview⟩ := server.exists_of_observe hview
  obtain ⟨⟨next, outputs⟩, hstep, hview⟩ := Result.bind_eq_ok_iff.mp hview
  obtain ⟨found, huser, hview⟩ := Result.bind_eq_ok_iff.mp hview
  simp only [Result.pure_eq_ok, Except.ok.injEq, Prod.mk.injEq, decide_eq_true_eq] at hview
  obtain ⟨rfl, hlogin, hreplies, hmem, hip, hport, hlogged, hclient, hmsg, hp2p⟩ := hview
  have hlast : LastLogin start bobSocket bobTerminal (text "bob\npw\n") 1 1 next :=
    .intro _ [] before next .blank outputs [] _ _ _ _ hbob hpw ⟨_, hreach⟩ hstep
      (by rw [hlogin]; exact List.mem_cons_self) hreplies rfl (by simp)
  exact ⟨start, next, hmain, hlast, huser, ⟨hmem, hip, hport⟩, ⟨hlogged, hclient, hmsg⟩,
    ⟨hlogged, hclient, hp2p⟩⟩

/-- A message that is typed at one terminal, by a client that may send it, is printed at the terminal
of the last login of the user that it names, whatever the arrays on its way held: what the server
keeps of it, which is not empty. The sender then overruns the array that it reads the reply into. -/
theorem message_delivered (hmain : server.main startup records = .ok start)
    (hlast : LastLogin start sock terminal stdin s u last)
    (huser : last.memory.find_user name = .ok (some u)) (hat : last.memory.SessionAt peer client)
    (hpermitted : last.memory.Permitted client .client_server sender)
    (hname : Types USERNAME_SIZE name input (behind ++ 10 :: (message ++ 10 :: rest)))
    (hbehind : 10 ∉ behind) (hmessage : TypedLine 100 message) (hkept : remainder message ≠ [])
    (a : CharArray USERNAME_SIZE) (b : CharArray 100) (c : CharArray BUFFER_SIZE) :
    terminal.Listens stdin sock ∧
      ∃ call, send_msg a b c input = .ok (some (call, 10 :: rest)) ∧
        ∀ locals, ∃ socket sent, server.step last (.datagram peer call.datagram locals) =
            .ok (last, [.relay client name s socket sent sock.listener,
              last.memory.send_udp_message client .message_sent]) ∧
          Delivers sent (message_text (last.memory.clients.contents sender).username_string peer
            (remainder message)) ∧
          ∀ (process : Process) (round : Round), process.stdin = input →
            round.received = reply peer (last.memory.send_udp_message client .message_sent) →
            process.send_msg round = .error .overflow := by
  obtain ⟨hvalid, hsock, hsession, hlistens⟩ :=
    hlast.located (server.started_of_main hmain).valid
  refine ⟨hlistens, _, send_msg_eq hname hbehind hmessage a b c, fun locals => ?_⟩
  let call := Call.send_msg ⟨name, hname.word.nul_not_mem, hname.word.length_lt⟩
    ⟨message, hmessage.nul_not_mem, hmessage.length_lt⟩ c
  have hrequest := call.requests hat hpermitted locals
  have hargs : sscanf (line call.args) [.word server.USERNAME_SIZE, .space,
      .line server.BUFFER_SIZE, .literal 115] =
        .ok [.string name, .string (remainder message)] := by
    have hscan := msg_decoded hname.word hmessage
    rwa [if_neg hkept] at hscan
  have hstep := hrequest.step_eq hvalid
  rw [Call.command, server.client_cmd_functions,
    server.cmd_msg_eq hpermitted hargs huser hsession] at hstep
  have harray : BUFFER_SIZE < locals.send_message.bytes.length := by
    rw [locals.send_message.length_eq]
    decide
  have hdelivers := (delivers_iff harray (nul_not_mem_message_text (not_mem_cstr _)
    (nul_not_mem_remainder hmessage) peer)).mpr
      (length_message_text_lt last.memory sender peer hmessage)
  obtain ⟨socket, dest, hrelay⟩ := relay_eq hat.ip hat.port sender s name (remainder message) locals
  obtain rfl : dest = sock.listener := by
    have hdest : (server.relay last.memory client sender name (remainder message) s locals).relayed =
        some (last.memory.sessions.contents s).sock.listener :=
      server.relayed_relay hvalid hsock.mem
    rw [hrelay, hvalid.sock_of_sessionAt hsock] at hdest
    exact Option.some.inj hdest
  rw [hrelay] at hstep
  refine ⟨socket, _, hstep, hdelivers, fun process round hinput hreply => ?_⟩
  rw [reply_send_udp_message (hvalid.sock_of_sessionAt hat)] at hreply
  rw [← hinput] at hname
  exact Process.send_msg_overflow hname hbehind hmessage hreply

theorem message_delivered_witness : ∃ start last call socket sent,
    server.main .blank [] = .ok start ∧ bobTerminal.Listens (text "bob\npw\n") bobSocket ∧
    send_msg (.ofBytes _ []) (.ofBytes _ []) (.ofBytes _ []) (text "bob\nhi\n") =
      .ok (some (call, [10])) ∧
    server.step last (.datagram anaSocket call.datagram .blank) =
      .ok (last, [.relay 0 (text "bob") 1 socket sent bobSocket.listener,
        last.memory.send_udp_message 0 .message_sent]) := by
  obtain ⟨start, last, hmain, hlast, huser, hat, hpermitted, -⟩ := bob_logs_in
  have hbob : Types USERNAME_SIZE (text "bob") (text "bob\nhi\n")
      ([] ++ 10 :: (text "hi" ++ 10 :: [])) :=
    ⟨⟨by decide, by decide, by decide, by decide⟩, ⟨[], by decide, by simp⟩,
      breaks_cons (by decide) _⟩
  have hhi : TypedLine 100 (text "hi") := ⟨by decide, by decide, by decide, by decide⟩
  obtain ⟨hlistens, call, htyped, hserved⟩ := message_delivered hmain hlast huser hat hpermitted hbob
    (by simp) hhi (by decide) (.ofBytes _ []) (.ofBytes _ []) (.ofBytes _ [])
  obtain ⟨socket, sent, hstep, -, -⟩ := hserved .blank
  exact ⟨start, last, call, socket, sent, hmain, hlistens, htyped, hstep⟩

/-- What is sent from client to client carries its text whole. -/
theorem Process.exists_p2p {process : Process} {addr : sockaddr_in}
    (hsent : .p2p message addr ∈ process.sent) (hfits : message.length < BUFFER_SIZE) :
    ∃ array, .p2p array addr ∈ process.done ∧ Delivers array.bytes message := by
  obtain ⟨effect, hdone, heffect⟩ := List.mem_filterMap.mp hsent
  cases effect with
  | p2p array addr' =>
    rw [Effect.sent_p2p, Option.some.injEq, Sent.p2p.injEq] at heffect
    obtain ⟨hmessage, rfl⟩ := heffect
    have hends : (cstr array.bytes).length < array.bytes.length := by
      rwa [hmessage, array.length_eq]
    have hbytes := eq_cstr_append_nul hends
    have hnul : 0 ∈ array.bytes := by
      rw [hbytes]
      exact List.mem_append_right _ List.mem_cons_self
    refine ⟨array, hdone, ⟨_, hmessage ▸ hbytes⟩, fun buffer sin_addr => ?_⟩
    have hread := read_msg_terminated array.length_eq hnul buffer sin_addr
    rw [hmessage] at hread
    exact ⟨_, hread⟩
  | print | request | bind | multicast => simp [Effect.sent] at heffect

/-- A message from client to client that is typed at one terminal is sent to where the client of the
last login of the user listens, and is printed whole there. -/
theorem p2p_delivered (hmain : server.main startup records = .ok start)
    (hlast : LastLogin start sock terminal stdin s u last)
    (huser : last.memory.find_user name = .ok (some u)) (hat : last.memory.SessionAt peer client)
    (hpermitted : last.memory.Permitted client .p2p sender) {process : Process}
    (hname : Types USERNAME_SIZE name process.stdin (behind ++ 10 :: (message ++ 10 :: rest)))
    (hbehind : 10 ∉ behind) (hmessage : TypedLine BUFFER_SIZE message) (round : Round) :
    terminal.Listens stdin sock ∧
      ∃ call, rc_project.client.send_p2p round.username round.msg process.stdin =
          .ok (call, behind ++ 10 :: (message ++ 10 :: rest)) ∧
        ∀ locals, ∃ answer, server.step last (.datagram peer call.datagram locals) =
            .ok (last, [last.memory.send_udp_message client answer]) ∧
          (round.received = reply peer (last.memory.send_udp_message client answer) →
            ∃ next array, process.send_p2p round = .ok (next, .running) ∧
              next.stdin = 10 :: rest ∧ .p2p array sock.listener ∈ next.done ∧
              Delivers array.bytes message) := by
  obtain ⟨hvalid, hsock, hsession, hlistens⟩ :=
    hlast.located (server.started_of_main hmain).valid
  refine ⟨hlistens, _, send_p2p_eq hname round.username round.msg, fun locals => ?_⟩
  let call := Call.send_p2p ⟨name, hname.word.nul_not_mem, hname.word.length_lt⟩ round.msg
  have hrequest := call.requests hat hpermitted locals
  have hargs : sscanf (line call.args) [.word server.USERNAME_SIZE] = .ok [.string name] :=
    p2p_decoded hname.word
  have hstep := hrequest.step_eq hvalid
  rw [Call.command, server.client_cmd_functions,
    server.cmd_p2p_eq hpermitted hargs huser hsession, hsock.ip, hsock.port] at hstep
  refine ⟨_, hstep, fun hreply => ?_⟩
  rw [reply_send_udp_message (hvalid.sock_of_sessionAt hat)] at hreply
  obtain ⟨next, hsend, hadvances⟩ := Process.send_p2p_answered hname hbehind hmessage
    (inet_ntop_typedWord sock.sin_addr) (isPort_setWidth sock.sin_port) hreply
  have hsent : .p2p message sock.listener ∈ next.sent := by
    rw [hadvances.sent_eq, inet_addr_inet_ntop]
    exact List.mem_append_right _ (List.mem_cons_of_mem _ List.mem_cons_self)
  obtain ⟨array, hdone, hdelivers⟩ := Process.exists_p2p hsent hmessage.length_lt
  exact ⟨next, array, hsend, hadvances.stdin_eq, hdone, hdelivers⟩

theorem p2p_delivered_witness : ∃ (start last : server.Server) (call : Call) (answer : Answer),
    server.main .blank [] = .ok start ∧
    send_p2p (.ofBytes _ []) (.ofBytes _ []) (text "bob\nhi\n") =
      .ok (call, [10] ++ text "hi\n") ∧
    server.step last (.datagram anaSocket call.datagram .blank) =
      .ok (last, [last.memory.send_udp_message 0 answer]) ∧
    bobTerminal.Listens (text "bob\npw\n") bobSocket := by
  obtain ⟨start, last, hmain, hlast, huser, hat, -, hpermitted⟩ := bob_logs_in
  let process : Process := {
    globals := Client.authenticated 5000
    username := ana
    option := 2
    stdin := text "bob\nhi\n"
    done := [] }
  have hbob : Types USERNAME_SIZE (text "bob") process.stdin
      ([] ++ 10 :: (text "hi" ++ 10 :: [])) :=
    ⟨⟨by decide, by decide, by decide, by decide⟩, ⟨[], by decide, by simp⟩,
      breaks_cons (by decide) _⟩
  have hhi : TypedLine BUFFER_SIZE (text "hi") := ⟨by decide, by decide, by decide, by decide⟩
  obtain ⟨hlistens, call, htyped, hserved⟩ :=
    p2p_delivered hmain hlast huser hat hpermitted hbob (by simp) hhi (.blank none)
  obtain ⟨answer, hstep, -⟩ := hserved .blank
  exact ⟨start, last, call, answer, hmain, htyped, hstep, hlistens⟩

end Messages

end rc_project.client
