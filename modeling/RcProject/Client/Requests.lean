import RcProject.Client.Main
import RcProject.Server.Datagram
import RcProject.Server.Groups

open rc_project.blocks rc_project.c_string rc_project.scanf rc_project.transition
open rc_project.server (Locals ClientCommand received_command received_command_eq line line_line
  line_append_nul line_cons line_append_of_not endsLine parse_line client_commands word word_append)

namespace rc_project.client

section Datagrams

variable {call : Call}

/-- The command that a function of the client asks for. -/
def Call.command : Call → ClientCommand
  | .authenticate .. => .LOGIN
  | .send_msg .. => .MSG
  | .send_p2p .. => .P2P
  | .create_group_multicast .. => .CREATEMULTICAST
  | .connect_multicast .. => .GETMULTICAST

/-- What it writes behind the name of the command. -/
def Call.args : Call → Bytes
  | .authenticate username password _ => username.bytes ++ c_string.text " " ++ password.bytes
  | .send_msg username message _ => username.bytes ++ c_string.text " " ++ message.bytes
  | .send_p2p username _ => username.bytes
  | .create_group_multicast group_name _ => group_name.bytes
  | .connect_multicast group_name _ => group_name.bytes

/-- Every request begins with the name of a command of the server and a space. -/
theorem Call.exists_name (call : Call) : ∃ name, call.text = name ++ 32 :: call.args ∧
    (∀ c ∈ name, endsLine c = false) ∧ 32 ∉ name ∧
    client_commands.find? (fun entry => entry.1 = name) = some (name, call.command) := by
  cases call with
  | authenticate username password _ =>
    exact ⟨c_string.text "LOGIN", by simp [Call.text, Call.args, c_string.text], by decide,
      by decide, rfl⟩
  | send_msg username message _ =>
    exact ⟨c_string.text "MSG", by simp [Call.text, Call.args, c_string.text], by decide,
      by decide, rfl⟩
  | send_p2p username _ =>
    exact ⟨c_string.text "P2P", by simp [Call.text, Call.args, c_string.text], by decide,
      by decide, rfl⟩
  | create_group_multicast group_name _ =>
    exact ⟨c_string.text "CREATEMULTICAST", by simp [Call.text, Call.args, c_string.text], by decide,
      by decide, rfl⟩
  | connect_multicast group_name _ =>
    exact ⟨c_string.text "GETMULTICAST", by simp [Call.text, Call.args, c_string.text], by decide,
      by decide, rfl⟩

/-- No request is cut: the longest one, of `send_msg`, has 119 characters. -/
theorem Call.length_text_le (call : Call) : call.text.length ≤ 119 := by
  have hspace : (c_string.text " ").length = 1 := by decide
  cases call with
  | authenticate username password _ =>
    have hlogin : (c_string.text "LOGIN ").length = 6 := by decide
    have husername : username.bytes.length < 16 := username.length_lt
    have hpassword : password.bytes.length < 32 := password.length_lt
    simp only [Call.text, List.length_append, hlogin, hspace]
    omega
  | send_msg username message _ =>
    have hmsg : (c_string.text "MSG ").length = 4 := by decide
    have husername : username.bytes.length < 16 := username.length_lt
    have hmessage := message.length_lt
    simp only [Call.text, List.length_append, hmsg, hspace]
    omega
  | send_p2p username _ =>
    have hp2p : (c_string.text "P2P ").length = 4 := by decide
    have husername : username.bytes.length < 16 := username.length_lt
    simp only [Call.text, List.length_append, hp2p]
    omega
  | create_group_multicast group_name _ =>
    have hcreate : (c_string.text "CREATEMULTICAST ").length = 16 := by decide
    have hname := group_name.length_lt
    simp only [Call.text, List.length_append, hcreate]
    omega
  | connect_multicast group_name _ =>
    have hget : (c_string.text "GETMULTICAST ").length = 13 := by decide
    have hname : group_name.bytes.length < 16 := group_name.length_lt
    simp only [Call.text, List.length_append, hget]
    omega

/-- A datagram holds the whole text with its terminator, and then what the stack held. -/
theorem Call.datagram_eq (call : Call) :
    ∃ tail, call.datagram = call.text ++ 0 :: tail ∧ call.datagram.length = BUFFER_SIZE := by
  have htext := call.length_text_le
  have hbuffer := call.le_length_buffer
  have hsize : BUFFER_SIZE = 1000 := rfl
  have hwhole : call.text.take (call.buffer.length - 1) = call.text :=
    List.take_of_length_le (by omega)
  refine ⟨(call.buffer.drop (call.text.length + 1)).take (BUFFER_SIZE - call.text.length - 1),
    ?_, ?_⟩
  · rw [Call.datagram, snprintf, hwhole, take_append_nul (by omega)]
  · rw [Call.datagram, snprintf, hwhole, List.length_take, List.length_append, List.length_cons,
      List.length_drop]
    omega

/-- The server reads the command and the arguments that the client wrote, up to the
end of their line, whatever follows the terminator. -/
theorem Call.received_command_append (call : Call) (tail : Bytes) (locals : Locals) :
    received_command (call.text ++ 0 :: tail) locals = .ok (some (call.command, line call.args)) := by
  obtain ⟨name, htext, hname, hspace, hfind⟩ := call.exists_name
  have hlength := call.length_text_le
  have hsize : server.BUFFER_SIZE = 1000 := rfl
  have hline : line call.text = name ++ 32 :: line call.args := by
    rw [htext, line_append_of_not hname, line_cons, if_neg (by decide)]
  have hword : word (name ++ 32 :: line call.args) = name := by
    rw [word_append hspace]
    simp [word]
  rw [received_command_eq, take_append_nul (by omega), line_append_nul, hline, parse_line, hword, hfind,
    Option.map_some, List.drop_append]
  simp

theorem Call.received_command_datagram (call : Call) (locals : Locals) :
    received_command call.datagram locals = .ok (some (call.command, line call.args)) := by
  obtain ⟨tail, hdatagram, -⟩ := call.datagram_eq
  rw [hdatagram, call.received_command_append]

end Datagrams

section Codec

/-- What is typed at the prompt for a name or a password. -/
structure TypedWord (size : Nat) (typed : Bytes) : Prop where
  ne_nil : typed ≠ []
  length_lt : typed.length < size
  nul_not_mem : 0 ∉ typed
  isspace_eq : ∀ c ∈ typed, isspace c = false

/-- What is typed at the prompt for a message or for the name of a group. -/
structure TypedLine (size : Nat) (typed : Bytes) : Prop where
  ne_nil : typed ≠ []
  length_lt : typed.length < size
  nul_not_mem : 0 ∉ typed
  feed_not_mem : 10 ∉ typed

/-- A word is typed, behind white space and in front of the rest of the input. -/
structure Types (size : Nat) (typed stdin rest : Bytes) : Prop where
  word : TypedWord size typed
  split : ∃ before, stdin = before ++ (typed ++ rest) ∧ ∀ c ∈ before, isspace c = true
  breaks : Breaks rest

variable {size : Nat} {typed stdin rest : Bytes}

theorem endsLine_of_isspace {c : UInt8} (hnul : c ≠ 0) (hc : isspace c = false) :
    endsLine c = false := by
  have hreturn : c ≠ 13 := by
    rintro rfl
    exact absurd hc (by decide)
  have hfeed : c ≠ 10 := by
    rintro rfl
    exact absurd hc (by decide)
  simp [endsLine, hnul, hreturn, hfeed]

/-- A word does not end its line. -/
theorem TypedWord.endsLine_eq (h : TypedWord size typed) : ∀ c ∈ typed, endsLine c = false :=
  fun c hc => endsLine_of_isspace (ne_of_mem_of_not_mem hc h.nul_not_mem) (h.isspace_eq c hc)

theorem TypedWord.line_append (h : TypedWord size typed) (rest : Bytes) :
    line (typed ++ rest) = typed ++ line rest := line_append_of_not h.endsLine_eq rest

theorem TypedWord.line_eq (h : TypedWord size typed) : line typed = typed := by
  have hline := h.line_append []
  rwa [List.append_nil, show line ([] : Bytes) = [] from rfl, List.append_nil] at hline

/-- A typed line is cut at its first carriage return. -/
theorem TypedLine.line_eq (h : TypedLine size typed) : line typed = typed.takeWhile (· ≠ 13) := by
  have hnul := h.nul_not_mem
  have hfeed := h.feed_not_mem
  clear h
  induction typed with
  | nil => rfl
  | cons c typed ih =>
    rw [List.mem_cons, not_or] at hnul hfeed
    rw [line_cons, List.takeWhile_cons, ih hnul.2 hfeed.2]
    by_cases hreturn : c = 13
    · simp [hreturn, endsLine]
    · simp [hreturn, endsLine, Ne.symm hnul.1, Ne.symm hfeed.1]

theorem Types.scanf_word_eq (h : Types size typed stdin rest) (dest : CharArray size) :
    ∃ array, scanf_word dest stdin = .ok (array, rest) ∧
      array.string = .ok ⟨typed, h.word.nul_not_mem, h.word.length_lt⟩ := by
  obtain ⟨before, rfl, hbefore⟩ := h.split
  exact scanf.scanf_word_eq dest hbefore h.word.ne_nil h.word.isspace_eq h.word.nul_not_mem
    h.word.length_lt h.breaks

/-- A word holds no line end that `strcspn` could find. -/
theorem TypedWord.cut_eq (h : TypedWord size typed) :
    CString.cut ⟨typed, h.nul_not_mem, h.length_lt⟩ 10 = ⟨typed, h.nul_not_mem, h.length_lt⟩ := by
  have hfeed : 10 ∉ typed := fun hmem => absurd (h.isspace_eq 10 hmem) (by decide)
  ext1
  exact List.takeWhile_eq_self_iff.mpr fun c hc => by simpa using ne_of_mem_of_not_mem hc hfeed

variable {username password message : Bytes}

theorem authenticate_eq (husername : Types USERNAME_SIZE username stdin typed)
    (hpassword : Types PASSWORD_SIZE password typed rest) (a : CharArray USERNAME_SIZE)
    (b : CharArray PASSWORD_SIZE) (c : CharArray BUFFER_SIZE) :
    authenticate a b c stdin = .ok (.authenticate
      ⟨username, husername.word.nul_not_mem, husername.word.length_lt⟩
      ⟨password, hpassword.word.nul_not_mem, hpassword.word.length_lt⟩ c, rest) := by
  obtain ⟨a', hscan, hstring⟩ := husername.scanf_word_eq a
  obtain ⟨b', hscan', hstring'⟩ := hpassword.scanf_word_eq b
  simp only [authenticate, hscan, hscan', hstring, hstring', Result.ok_bind, Result.pure_eq_ok]

theorem send_p2p_eq (husername : Types USERNAME_SIZE username stdin rest)
    (a : CharArray USERNAME_SIZE) (c : CharArray BUFFER_SIZE) :
    send_p2p a c stdin = .ok (.send_p2p
      ⟨username, husername.word.nul_not_mem, husername.word.length_lt⟩ c, rest) := by
  obtain ⟨a', hscan, hstring⟩ := husername.scanf_word_eq a
  simp only [send_p2p, hscan, hstring, husername.word.cut_eq, Result.ok_bind, Result.pure_eq_ok]

theorem send_msg_eq {behind : Bytes}
    (husername : Types USERNAME_SIZE username stdin (behind ++ 10 :: (message ++ 10 :: rest)))
    (hbehind : 10 ∉ behind) (hmessage : TypedLine 100 message) (a : CharArray USERNAME_SIZE)
    (b : CharArray 100) (c : CharArray BUFFER_SIZE) :
    send_msg a b c stdin = .ok (some (.send_msg
      ⟨username, husername.word.nul_not_mem, husername.word.length_lt⟩
      ⟨message, hmessage.nul_not_mem, hmessage.length_lt⟩ c, 10 :: rest)) := by
  obtain ⟨a', hscan, hstring⟩ := husername.scanf_word_eq a
  obtain ⟨b', hscan', hstring'⟩ := scanf_line_eq b hmessage.ne_nil hmessage.feed_not_mem
    hmessage.nul_not_mem hmessage.length_lt rest
  simp only [send_msg, hscan, hstring, husername.word.cut_eq, Result.ok_bind, skip_line_eq hbehind,
    hscan', hstring', Result.pure_eq_ok]

end Codec

section Decoding

variable {username password message : Bytes}

/-- The server receives a command with some arguments from a call, whatever its stack
held and whatever bytes follow the terminator of the text. -/
def Call.Received (call : Call) (command : ClientCommand) (args : Bytes) : Prop :=
  call.datagram.length = BUFFER_SIZE ∧ (∃ tail, call.datagram = call.text ++ 0 :: tail) ∧
    ∀ tail locals, received_command (call.text ++ 0 :: tail) locals = .ok (some (command, args))

theorem Call.received (call : Call) : call.Received call.command (line call.args) := by
  obtain ⟨tail, hdatagram, hlength⟩ := call.datagram_eq
  exact ⟨hlength, ⟨tail, hdatagram⟩, call.received_command_append⟩

theorem Call.Received.eq {call : Call} {command : ClientCommand} {args : Bytes}
    (h : call.Received command args) : command = call.command ∧ args = line call.args := by
  have hsame := (h.2.2 [] .blank).symm.trans (call.received_command_append [] .blank)
  simpa using hsame

theorem TypedWord.line_append_text (h : TypedWord USERNAME_SIZE username) (rest : Bytes) :
    line (username ++ text " " ++ rest) = username ++ 32 :: line rest := by
  rw [List.append_assoc, h.line_append]
  simp [text, line_cons, endsLine]

theorem login_decoded (husername : TypedWord USERNAME_SIZE username)
    (hpassword : TypedWord PASSWORD_SIZE password) :
    sscanf (line (username ++ text " " ++ password))
        [.word server.USERNAME_SIZE, .space, .word server.PASSWORD_SIZE] =
      .ok [.string username, .string password] := by
  have hfits : username.length < server.USERNAME_SIZE := husername.length_lt
  have hpassword' : sscanf password [.word server.PASSWORD_SIZE] = .ok [.string password] :=
    sscanf_word_self hpassword.ne_nil hpassword.isspace_eq hpassword.length_lt
  have hspace : (32 :: password).dropWhile isspace = password := by
    simpa [isspace] using dropWhile_isspace_word hpassword.ne_nil hpassword.isspace_eq []
  rw [husername.line_append_text, hpassword.line_eq,
    sscanf_word_append _ husername.ne_nil husername.isspace_eq hfits (breaks_cons (by decide) _),
    sscanf_space, hspace, hpassword']
  rfl

theorem p2p_decoded (husername : TypedWord USERNAME_SIZE username) :
    sscanf (line username) [.word server.USERNAME_SIZE] = .ok [.string username] := by
  rw [husername.line_eq]
  exact sscanf_word_self husername.ne_nil husername.isspace_eq husername.length_lt

/-- What the server reads of a message: it is cut at its first carriage return, and
the white space in front is lost. -/
def remainder (message : Bytes) : Bytes := (message.takeWhile (· ≠ 13)).dropWhile isspace

theorem msg_decoded (husername : TypedWord USERNAME_SIZE username)
    (hmessage : TypedLine 100 message) :
    sscanf (line (username ++ text " " ++ message))
        [.word server.USERNAME_SIZE, .space, .line server.BUFFER_SIZE, .literal 115] =
      .ok (if remainder message = [] then [.string username]
        else [.string username, .string (remainder message)]) := by
  have hsublist : List.Sublist (remainder message) message :=
    (List.dropWhile_sublist _).trans (List.takeWhile_sublist _)
  have hfeed : 10 ∉ remainder message := fun hmem => hmessage.feed_not_mem (hsublist.subset hmem)
  have hfits : username.length < server.USERNAME_SIZE := husername.length_lt
  have hroom : (remainder message).length < server.BUFFER_SIZE :=
    (hsublist.length_le.trans_lt hmessage.length_lt).trans (by decide)
  have hspace : (32 :: message.takeWhile (· ≠ 13)).dropWhile isspace = remainder message := by
    rw [remainder, List.dropWhile_cons, if_pos (by decide)]
  rw [husername.line_append_text, hmessage.line_eq,
    sscanf_word_append _ husername.ne_nil husername.isspace_eq hfits (breaks_cons (by decide) _),
    sscanf_space, hspace, sscanf_line_of_not_mem hfeed hroom]
  by_cases hempty : remainder message = [] <;> simp [hempty]

/-- A permitted session is told the usage of `MSG` exactly if the server did not read
both a user and a message. -/
theorem msg_usage_iff {memory : server.Memory} {client sender : Nat} {args : Bytes}
    {values : List Value} (hpermitted : memory.Permitted client .client_server sender)
    (hargs : sscanf args [.word server.USERNAME_SIZE, .space, .line server.BUFFER_SIZE,
      .literal 115] = .ok values) (locals : Locals) :
    server.cmd_msg memory client args locals =
        .ok (memory, [memory.send_udp_message client .msg_usage]) ↔
      ∀ username message, values ≠ [.string username, .string message] := by
  have hflag : (memory.clients.contents sender).client_server ≠ 0 := hpermitted.flag
  simp only [server.cmd_msg, hpermitted.logged_in, if_false, hpermitted.client_eq,
    Result.deref_some, Result.ok_bind, hflag, hargs]
  split
  · rename_i username message
    refine iff_of_false ?_ fun hshape => hshape username message rfl
    intro hanswer
    obtain ⟨found, -, hanswer⟩ := Result.bind_eq_ok_iff.mp hanswer
    cases found with
    | none => cases hanswer
    | some u =>
      obtain ⟨session, -, hanswer⟩ := Result.bind_eq_ok_iff.mp hanswer
      cases session <;> cases hanswer
  · rename_i hshape
    refine iff_of_true rfl ?_
    rintro username message rfl
    exact hshape username message rfl

end Decoding

/-- What the client formats from its prompts the server decodes to the same command
and the same strings; of a message it reads what is left by the cut at a carriage
return and by the white space that a conversion skips. -/
theorem request_codec (a : CharArray USERNAME_SIZE) (b : CharArray PASSWORD_SIZE)
    (m : CharArray 100) (c : CharArray BUFFER_SIZE) :
    (∀ username password stdin between rest, Types USERNAME_SIZE username stdin between →
      Types PASSWORD_SIZE password between rest →
      ∃ call args, authenticate a b c stdin = .ok (call, rest) ∧ call.Received .LOGIN args ∧
        sscanf args [.word server.USERNAME_SIZE, .space, .word server.PASSWORD_SIZE] =
          .ok [.string username, .string password]) ∧
    (∀ username stdin rest, Types USERNAME_SIZE username stdin rest →
      ∃ call args, send_p2p a c stdin = .ok (call, rest) ∧ call.Received .P2P args ∧
        sscanf args [.word server.USERNAME_SIZE] = .ok [.string username]) ∧
    (∀ username message stdin behind rest,
      Types USERNAME_SIZE username stdin (behind ++ 10 :: (message ++ 10 :: rest)) →
      10 ∉ behind → TypedLine 100 message →
      ∃ call args, send_msg a m c stdin = .ok (some (call, 10 :: rest)) ∧
        call.Received .MSG args ∧
        sscanf args [.word server.USERNAME_SIZE, .space, .line server.BUFFER_SIZE, .literal 115] =
          .ok (if remainder message = [] then [.string username]
            else [.string username, .string (remainder message)]) ∧
        ∀ (memory : server.Memory) (client sender : Nat) (locals : Locals),
          memory.Permitted client .client_server sender →
          (server.cmd_msg memory client args locals =
              .ok (memory, [memory.send_udp_message client .msg_usage]) ↔
            remainder message = [])) := by
  refine ⟨?_, ?_, ?_⟩
  · intro username password stdin between rest husername hpassword
    exact ⟨_, _, authenticate_eq husername hpassword a b c, Call.received _,
      login_decoded husername.word hpassword.word⟩
  · intro username stdin rest husername
    exact ⟨_, _, send_p2p_eq husername a c, Call.received _, p2p_decoded husername.word⟩
  · intro username message stdin behind rest husername hbehind hmessage
    have hscan := msg_decoded husername.word hmessage
    refine ⟨_, _, send_msg_eq husername hbehind hmessage a m c, Call.received _, hscan, ?_⟩
    intro memory client sender locals hpermitted
    rw [Call.args, msg_usage_iff hpermitted hscan locals]
    by_cases hempty : remainder message = []
    · simp [hempty]
    · simp [hempty]

theorem request_codec_witness :
    (∃ call args, authenticate (.ofBytes _ []) (.ofBytes _ []) (.ofBytes _ []) (text "ana\npw\n") =
        .ok (call, [10]) ∧ call.Received .LOGIN args ∧
      sscanf args [.word server.USERNAME_SIZE, .space, .word server.PASSWORD_SIZE] =
        .ok [.string (text "ana"), .string (text "pw")]) ∧
    ∃ call args, send_msg (.ofBytes _ []) (.ofBytes _ []) (.ofBytes _ []) (text "bob\n hi\rho\n") =
        .ok (some (call, [10])) ∧ call.Received .MSG args ∧
      sscanf args [.word server.USERNAME_SIZE, .space, .line server.BUFFER_SIZE, .literal 115] =
        .ok [.string (text "bob"), .string (text "hi")] := by
  obtain ⟨hlogin, -, hmsg⟩ :=
    request_codec (.ofBytes _ []) (.ofBytes _ []) (.ofBytes _ []) (.ofBytes _ [])
  have hana : Types USERNAME_SIZE (text "ana") (text "ana\npw\n") (text "\npw\n") :=
    ⟨⟨by decide, by decide, by decide, by decide⟩, ⟨[], by decide, by simp⟩, breaks_cons (by decide) _⟩
  have hpw : Types PASSWORD_SIZE (text "pw") (text "\npw\n") [10] :=
    ⟨⟨by decide, by decide, by decide, by decide⟩, ⟨[10], by decide, by decide⟩,
      breaks_cons (by decide) _⟩
  have hbob : Types USERNAME_SIZE (text "bob") (text "bob\n hi\rho\n")
      ([] ++ 10 :: (text " hi\rho" ++ 10 :: [])) :=
    ⟨⟨by decide, by decide, by decide, by decide⟩, ⟨[], by decide, by simp⟩, breaks_cons (by decide) _⟩
  refine ⟨hlogin _ _ _ _ _ hana hpw, ?_⟩
  obtain ⟨call, args, hsend, hreceived, hscan, -⟩ := hmsg _ _ _ _ _ hbob (by decide)
    ⟨by decide, by decide, by decide, by decide⟩
  have hleft : remainder (text " hi\rho") = text "hi" := by decide
  rw [hleft, if_neg (by decide)] at hscan
  exact ⟨call, args, hsend, hreceived, hscan⟩

end rc_project.client
