import RcProject.Client.Main
import RcProject.Server.Datagram
import RcProject.Server.Relay

open rc_project.c_string rc_project.scanf rc_project.transition
open rc_project.server (Event Locals Memory Server Startup client_cmd_functions cmd_msg_eq
  exists_of_observe format_int_eq htons in_addr inet_ntop loginRun main
  nul_not_mem_inet_ntop observe reaches_valid received_command relay sockaddr_in started_of_main
  step)

namespace rc_project.client

/-- One round of the loop of `read_msg`, for a `recvfrom` that fails or one that receives
bytes from an address: the array behind it, and what is printed. -/
def read_msg (buffer : CharArray BUFFER_SIZE) :
    Option (in_addr × Bytes) → Result (CharArray BUFFER_SIZE × Bytes)
  | none => return (buffer, text "Message read error\n")
  | some (sin_addr, datagram) =>
    let received := datagram.take BUFFER_SIZE
    if received = [] then
      return (buffer, text "Message read error\n")
    else do
      let buffer := CharArray.ofBytes _ (received ++ buffer.bytes.drop received.length)
      let string ← buffer.string
      return (buffer, text "[Message received from " ++ inet_ntop sin_addr ++ text "] " ++
        string.bytes ++ text "\n")

section ReadMsg

variable {sent : Bytes} (hlength : sent.length = BUFFER_SIZE)
include hlength

/-- A datagram of the size of the array fills it. -/
theorem ofBytes_received (buffer : CharArray BUFFER_SIZE) :
    CharArray.ofBytes BUFFER_SIZE (sent.take BUFFER_SIZE ++
      buffer.bytes.drop (sent.take BUFFER_SIZE).length) = ⟨sent, hlength⟩ := by
  have hwhole : sent.take BUFFER_SIZE = sent := List.take_of_length_le hlength.le
  rw [hwhole]
  exact CharArray.ofBytes_append ⟨sent, hlength⟩ _

theorem received_ne_nil : sent.take BUFFER_SIZE ≠ [] := by
  rw [List.take_of_length_le hlength.le]
  rintro rfl
  cases hlength

theorem read_msg_terminated (hnul : 0 ∈ sent) (buffer : CharArray BUFFER_SIZE) (sin_addr : in_addr) :
    read_msg buffer (some (sin_addr, sent)) = .ok (⟨sent, hlength⟩,
      text "[Message received from " ++ inet_ntop sin_addr ++ text "] " ++ cstr sent ++ text "\n") := by
  simp only [read_msg, if_neg (received_ne_nil hlength), ofBytes_received hlength,
    CharArray.string, dif_pos hnul, Result.pure_eq_ok, Result.ok_bind]

/-- Without a terminator the print runs over the end of the array. -/
theorem read_msg_error (hnul : 0 ∉ sent) (buffer : CharArray BUFFER_SIZE) (sin_addr : in_addr) :
    read_msg buffer (some (sin_addr, sent)) = .error .out_of_bounds := by
  simp only [read_msg, if_neg (received_ne_nil hlength), ofBytes_received hlength,
    CharArray.string, dif_neg hnul]
  rfl

end ReadMsg

/-- The text that a message is relayed as: `username (ip:port) : message`. -/
def message_text (username : Bytes) (sock : sockaddr_in) (message : Bytes) : Bytes :=
  username ++ text " (" ++ inet_ntop sock.sin_addr ++ text ":" ++ decimal sock.sin_port.toNat ++
    text ") : " ++ message

section MessageText

variable {username message : Bytes}

theorem length_message_text (username : Bytes) (sock : sockaddr_in) (message : Bytes) :
    (message_text username sock message).length = username.length +
      (inet_ntop sock.sin_addr).length + (decimal sock.sin_port.toNat).length +
        message.length + 7 := by
  have hopen : (text " (").length = 2 := by decide
  have hcolon : (text ":").length = 1 := by decide
  have hclose : (text ") : ").length = 4 := by decide
  simp only [message_text, List.length_append, hopen, hcolon, hclose]
  omega

theorem nul_not_mem_message_text (husername : 0 ∉ username) (hmessage : 0 ∉ message)
    (sock : sockaddr_in) : 0 ∉ message_text username sock message := by
  have hopen : 0 ∉ text " (" := by decide
  have hcolon : 0 ∉ text ":" := by decide
  have hclose : 0 ∉ text ") : " := by decide
  simp only [message_text, List.mem_append, not_or]
  exact ⟨⟨⟨⟨⟨⟨husername, hopen⟩, nul_not_mem_inet_ntop _⟩, hcolon⟩, nul_not_mem_decimal _⟩, hclose⟩,
    hmessage⟩

end MessageText

/-- A datagram carries a text whole: the text is in it with its terminator, and a client
that receives it prints the text, whatever its array held. -/
structure Delivers (sent string : Bytes) : Prop where
  contains : ∃ behind, sent = string ++ 0 :: behind
  prints : ∀ buffer sin_addr, ∃ left, read_msg buffer (some (sin_addr, sent)) = .ok (left,
    text "[Message received from " ++ inet_ntop sin_addr ++ text "] " ++ string ++ text "\n")

/-- The first bytes of the formatted array carry the text exactly if it is shorter. -/
theorem delivers_iff {array string : Bytes} (harray : BUFFER_SIZE < array.length)
    (hnul : 0 ∉ string) :
    Delivers ((snprintf array string).take BUFFER_SIZE) string ↔ string.length < BUFFER_SIZE := by
  have hlength : ((snprintf array string).take BUFFER_SIZE).length = BUFFER_SIZE := by
    rw [List.length_take, length_snprintf (Nat.zero_lt_of_lt harray)]
    omega
  constructor
  · rintro ⟨⟨behind, hsent⟩, -⟩
    have := congrArg List.length hsent
    rw [hlength, List.length_append, List.length_cons] at this
    omega
  · intro hfits
    obtain ⟨behind, hsent⟩ := take_snprintf_of_lt harray.le hfits
    refine ⟨⟨behind, hsent⟩, fun buffer sin_addr => ⟨⟨_, hlength⟩, ?_⟩⟩
    have hmem : 0 ∈ (snprintf array string).take BUFFER_SIZE := by
      rw [hsent]
      exact List.mem_append_right _ List.mem_cons_self
    have hstring : cstr ((snprintf array string).take BUFFER_SIZE) = string := by
      rw [hsent]
      exact cstr_append_nul hnul behind
    rw [read_msg_terminated hlength hmem, hstring]

section Relay

variable {start server : Server} {client sender u selected : Nat} {sock : sockaddr_in}
  {datagram args username message : Bytes} {locals : Locals}

/-- What is relayed for a session is the text with its name and its address. -/
theorem relay_eq {memory : Memory}
    (hip : cstr (memory.sessions.contents client).ip.bytes = inet_ntop sock.sin_addr)
    (hport : (memory.sessions.contents client).port = sock.sin_port.setWidth 32)
    (sender selected : Nat) (username message : Bytes) (locals : Locals) :
    ∃ socket dest, relay memory client sender username message selected locals =
      .relay client username selected socket ((snprintf locals.send_message.bytes (message_text
        (memory.clients.contents sender).username_string sock message)).take BUFFER_SIZE) dest := by
  have hlt : sock.sin_port.toNat < 65536 := sock.sin_port.isLt
  have hvalue : (sock.sin_port.setWidth 32).toNat = sock.sin_port.toNat := by
    rw [BitVec.toNat_setWidth]
    omega
  have hdigits : format_int (sock.sin_port.setWidth 32) = decimal sock.sin_port.toNat := by
    rw [format_int_eq (by omega), hvalue]
  let found := memory.sessions.contents selected
  refine ⟨found.socket, ⟨found.sock.sin_addr, htons found.port⟩, ?_⟩
  simp only [relay, hip, hport, hdigits, message_text]
  rfl

/-- In every state that the server reaches, a message that is relayed carries the whole text
`username (ip:port) : message` to its receiver if and only if the lengths of its parts leave
room for it and its terminator in the bytes that are sent. -/
theorem relayed_whole_iff {startup : Startup} {records : Bytes} {events : List Event}
    (hmain : main startup records = .ok start) (hreach : Reaches step start events server)
    (hrequest : server.memory.Requests client sender .client_server .MSG args locals
      (.datagram sock datagram locals))
    (hargs : sscanf args [.word rc_project.server.USERNAME_SIZE, .space,
      .line rc_project.server.BUFFER_SIZE, .literal 115] = .ok [.string username, .string message])
    (huser : server.memory.find_user username = .ok (some u))
    (hsession : server.memory.find_session u = .ok (some selected)) :
    ∃ socket sent dest, step server (.datagram sock datagram locals) = .ok (server,
        [.relay client username selected socket sent dest,
          server.memory.send_udp_message client .message_sent]) ∧ sent.length = BUFFER_SIZE ∧
      (Delivers sent (message_text (server.memory.clients.contents sender).username_string sock
          message) ↔
        (server.memory.clients.contents sender).username_string.length +
          (inet_ntop sock.sin_addr).length + (decimal sock.sin_port.toNat).length +
            message.length + 7 < BUFFER_SIZE) := by
  have hvalid := reaches_valid (started_of_main hmain).valid hreach
  have hstep := hrequest.step_eq hvalid
  rw [client_cmd_functions, cmd_msg_eq hrequest.permitted hargs huser hsession] at hstep
  cases hrequest with
  | intro _ _ hclient hip hport hpermitted hcommand =>
    have hmessage : 0 ∉ message := by
      obtain ⟨cut, -, hcommand⟩ := Result.bind_eq_ok_iff.mp hcommand
      obtain ⟨⟨buffer, found⟩, hdispatch, hfound⟩ := Result.bind_eq_ok_iff.mp hcommand
      cases hfound
      have hmem : Value.string message ∈ [.string username, .string message] := by simp
      exact fun hnul => rc_project.server.nul_not_mem_args hdispatch (subset_of_sscanf hargs hmem hnul)
    have harray : BUFFER_SIZE < locals.send_message.bytes.length := by
      rw [locals.send_message.length_eq]
      decide
    obtain ⟨socket, dest, hrelay⟩ := relay_eq hip hport sender selected username message locals
    rw [hrelay] at hstep
    refine ⟨socket, _, dest, hstep, ?_, ?_⟩
    · rw [List.length_take, length_snprintf (Nat.zero_lt_of_lt harray)]
      omega
    · have hname : 0 ∉ (server.memory.clients.contents sender).username_string := not_mem_cstr _
      rw [delivers_iff harray (nul_not_mem_message_text hname hmessage sock), length_message_text]

/-- The address of the client in the examples. -/
def anaSocket : sockaddr_in := ⟨⟨10, 0, 0, 1⟩, 5000⟩

theorem relayed_whole_iff_witness : ∃ start server sent socket dest,
    main .blank [] = .ok start ∧ Reaches step start loginRun server ∧
    step server (.datagram anaSocket (text "MSG ana hi") .blank) = .ok (server,
      [.relay 0 (text "ana") 0 socket sent dest,
        server.memory.send_udp_message 0 .message_sent]) ∧
    Delivers sent (text "ana (10.0.0.1:5000) : hi") := by
  have hview : observe .blank [] loginRun (fun server _ => do
      let found ← server.memory.find_user (text "ana")
      let selected ← server.memory.find_session 0
      let client := server.memory.sessions.contents 0
      return (found, selected, (server.memory.clients.contents 0).username_string,
        decide (0 ∈ server.memory.userSessions ∧ cstr client.ip.bytes = inet_ntop anaSocket.sin_addr ∧
          client.port = anaSocket.sin_port.setWidth 32 ∧ client.logged_in ≠ 0 ∧ client.client = some 0 ∧
          (server.memory.clients.contents 0).client_server ≠ 0))) =
        .ok (.ok (some 0, some 0, text "ana", true)) := by
    decide +kernel
  obtain ⟨start, server, outputs, hmain, hrun, hview⟩ := exists_of_observe hview
  obtain ⟨found, huser, hview⟩ := Result.bind_eq_ok_iff.mp hview
  obtain ⟨selected, hsession, hview⟩ := Result.bind_eq_ok_iff.mp hview
  simp only [Result.pure_eq_ok, Except.ok.injEq, Prod.mk.injEq, decide_eq_true_eq] at hview
  obtain ⟨rfl, rfl, hname, hclient, hip, hport, hlogged, hsender, hflag⟩ := hview
  have hcommand : received_command (text "MSG ana hi") .blank =
      .ok (some (.MSG, text "ana hi")) := by
    decide +kernel
  have hargs : sscanf (text "ana hi") [.word rc_project.server.USERNAME_SIZE, .space,
      .line rc_project.server.BUFFER_SIZE, .literal 115] =
        .ok [.string (text "ana"), .string (text "hi")] := by
    decide +kernel
  have hrequest : server.memory.Requests 0 0 .client_server .MSG (text "ana hi") .blank
      (.datagram anaSocket (text "MSG ana hi") .blank) :=
    .intro _ _ hclient hip hport ⟨hlogged, hsender, hflag⟩ hcommand
  obtain ⟨socket, sent, dest, hstep, -, hdelivers⟩ :=
    relayed_whole_iff hmain ⟨outputs, hrun⟩ hrequest hargs huser hsession
  rw [hname] at hdelivers
  have hfits : (text "ana").length + (inet_ntop anaSocket.sin_addr).length +
      (decimal anaSocket.sin_port.toNat).length + (text "hi").length + 7 < BUFFER_SIZE := by
    decide +kernel
  have htext : message_text (text "ana") anaSocket (text "hi") = text "ana (10.0.0.1:5000) : hi" := by
    decide +kernel
  exact ⟨start, server, sent, socket, dest, hmain, ⟨outputs, hrun⟩, hstep,
    htext ▸ hdelivers.mpr hfits⟩

/-- The bytes that are sent to the receiver of a message. -/
def relayedBytes : rc_project.server.Output → Option Bytes
  | .relay _ _ _ _ sent _ => some sent
  | _ => none

/-- A request line of 993 characters. -/
def longMessage : Bytes := List.replicate 985 97

/-- The text that is relayed has no room for its terminator, and the client that receives
it prints what lies behind its array. -/
theorem long_message_not_delivered : ∃ start server next outputs sent,
    main .blank [] = .ok start ∧ Reaches step start loginRun server ∧
    step server (.datagram anaSocket (text "MSG ana " ++ longMessage) .blank) = .ok (next, outputs) ∧
    outputs.filterMap relayedBytes = [sent] ∧
    ¬ Delivers sent (message_text (text "ana") anaSocket longMessage) ∧
    ∀ buffer sin_addr, read_msg buffer (some (sin_addr, sent)) = .error .out_of_bounds := by
  have hview : observe .blank [] loginRun (fun server _ => do
      let result ← step server
        (.datagram anaSocket (text "MSG ana " ++ longMessage) .blank)
      return result.2.filterMap relayedBytes) =
        .ok (.ok [(message_text (text "ana") anaSocket longMessage).take BUFFER_SIZE]) := by
    decide +kernel
  obtain ⟨start, server, outputs, hmain, hrun, hview⟩ := exists_of_observe hview
  obtain ⟨⟨next, outputs'⟩, hstep, hsent⟩ := Result.bind_eq_ok_iff.mp hview
  have hlength : ((message_text (text "ana") anaSocket longMessage).take BUFFER_SIZE).length =
      BUFFER_SIZE := by
    decide +kernel
  have hnul : 0 ∉ (message_text (text "ana") anaSocket longMessage).take BUFFER_SIZE := by
    decide +kernel
  refine ⟨start, server, next, outputs', _, hmain, ⟨outputs, hrun⟩, hstep, Except.ok.inj hsent, ?_,
    read_msg_error hlength hnul⟩
  rintro ⟨⟨behind, hsent⟩, -⟩
  rw [hsent] at hnul
  exact hnul (List.mem_append_right _ List.mem_cons_self)

end Relay

end rc_project.client
