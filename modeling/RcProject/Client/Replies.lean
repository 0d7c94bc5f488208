import Mathlib.Data.List.GetD
import RcProject.Client.GroupNames
import RcProject.Server.Overflow

open rc_project.blocks rc_project.c_string rc_project.scanf rc_project.transition
open rc_project.server (Answer Locals cstr_format_message format_message format_int_eq inet_ntop
  INET_ADDRSTRLEN htons line)

namespace rc_project.client

section Refusals

variable {answer : Answer}

/-- What a client can tell of the texts that turn a request down. -/
theorem refusal_text (hrefusal : answer.refusal = true) :
    0 ∉ answer.text ∧ answer.text.length < server.BUFFER_SIZE ∧ scan_p2p answer.text = .ok none ∧
      ¬ c_string.text "Multicast IP" <+: answer.text ∧
      answer.text ≠ c_string.text "Login successfully\n" := by
  cases answer <;> first | decide +kernel | cases hrefusal

/-- These texts are strings that fit a message. -/
theorem cstr_refusal (hrefusal : answer.refusal = true) :
    cstr (format_message answer.text) = answer.text := by
  obtain ⟨hnul, hfits, -⟩ := refusal_text hrefusal
  exact cstr_format_message hnul hfits

/-- None of these texts is the address of a user. -/
theorem scan_p2p_refusal (hrefusal : answer.refusal = true) :
    scan_p2p (format_message answer.text) = .ok none := by
  obtain ⟨hnul, -, hscan, -⟩ := refusal_text hrefusal
  rw [scan_p2p, cstr_eq_self hnul] at hscan
  rw [scan_p2p, cstr_refusal hrefusal]
  exact hscan

/-- The loop of `starts_with` compares the first bytes. -/
theorem starts_with_iff (a b : Bytes) : starts_with a b = true ↔ cstr b <+: cstr a := by
  have hgetD (memory : Bytes) (i : Nat) (hi : i < (cstr memory).length) :
      memory.getD i 0 = (cstr memory).getD i 0 := by
    obtain ⟨rest, hrest⟩ : cstr memory <+: memory := List.takeWhile_prefix _
    rw [← List.getD_append (cstr memory) rest 0 i hi, hrest]
  unfold starts_with
  by_cases hlong : (cstr b).length > (cstr a).length
  · rw [if_pos hlong]
    exact iff_of_false (by simp) fun hprefix => absurd hprefix.length_le (Nat.not_le.mpr hlong)
  · rw [if_neg hlong, List.all_eq_true, List.prefix_iff_getElem?]
    constructor
    · intro hall i hi
      have ha : i < (cstr a).length := by omega
      have hsame := hall i (List.mem_range.mpr hi)
      rw [decide_eq_true_eq, hgetD a i ha, hgetD b i hi] at hsame
      simpa [List.getD_eq_getElem?_getD, hi, ha] using hsame
    · intro hprefix i hmem
      have hi := List.mem_range.mp hmem
      have ha : i < (cstr a).length := by omega
      have hsame := hprefix i hi
      rw [decide_eq_true_eq, hgetD a i ha, hgetD b i hi]
      simpa [List.getD_eq_getElem?_getD, hi, ha] using hsame

/-- None of these texts is the address of a group. -/
theorem scan_multicast_refusal (hrefusal : answer.refusal = true) :
    scan_multicast (format_message answer.text) = .ok none := by
  have hstarts : starts_with (format_message answer.text) (c_string.text "Multicast IP") = false := by
    obtain ⟨-, -, -, hother, -⟩ := refusal_text hrefusal
    have hname : cstr (c_string.text "Multicast IP") = c_string.text "Multicast IP" := by decide
    rw [← Bool.not_eq_true, starts_with_iff, cstr_refusal hrefusal, hname]
    exact hother
  rw [scan_multicast, hstarts]
  rfl

/-- None of these texts is that of a successful login. -/
theorem strcmp_refusal (hrefusal : answer.refusal = true) :
    strcmp (format_message answer.text) (text "Login successfully\n") ≠ 0 := by
  obtain ⟨-, -, -, -, hother⟩ := refusal_text hrefusal
  have hstring : cstr (c_string.text "Login successfully\n") =
      c_string.text "Login successfully\n" := by decide
  rw [ne_eq, strcmp_eq_zero_iff, cstr_refusal hrefusal, hstring]
  exact hother

end Refusals

section Successes

variable {username ip : Bytes} {port : BitVec 32}

/-- The text of a successful login is the one that the client tests for. -/
theorem strcmp_login_successful (u : Nat) : strcmp (format_message (Answer.login_successful u).text)
    (text "Login successfully\n") = 0 := by
  have hstring : cstr (format_message (c_string.text "Login successfully\n")) =
      c_string.text "Login successfully\n" := cstr_format_message (by decide) (by decide)
  rw [strcmp_eq_zero_iff, Answer.text, hstring]
  decide

/-- A port of UDP is printed by its digits. -/
structure IsPort (port : BitVec 32) : Prop where
  toNat_lt : port.toNat < 65536

theorem IsPort.format_int_eq (h : IsPort port) : format_int port = decimal port.toNat := by
  have hlt := h.toNat_lt
  exact server.format_int_eq (by omega)

theorem IsPort.length_le (h : IsPort port) : (format_int port).length ≤ 5 := by
  have hlt := h.toNat_lt
  rw [h.format_int_eq]
  exact length_decimal_le (by omega)

theorem IsPort.nul_not_mem (h : IsPort port) : 0 ∉ format_int port := by
  rw [h.format_int_eq]
  exact nul_not_mem_decimal _

/-- A port at the end of a text is read back. -/
theorem IsPort.sscanf_eq (h : IsPort port) :
    sscanf (format_int port ++ text "\n") [.int] = .ok [.int port] := by
  have hlt := h.toNat_lt
  have hend : ∀ c ∈ (text "\n").head?, isdigit c = false := by
    intro c hc
    cases hc
    rfl
  rw [h.format_int_eq, sscanf_int_decimal (by omega) hend, BitVec.ofNat_toNat, BitVec.setWidth_eq]

/-- The literal parts of the format of `send_p2p`. -/
theorem sscanf_ip (rest : Bytes) (format : List Directive) :
    sscanf (text " IP: " ++ rest) (directives " IP: " ++ format) =
      sscanf (rest.dropWhile isspace) format := by
  simp [text, directives, sscanf, isspace]

theorem sscanf_port (rest : Bytes) (format : List Directive) :
    sscanf (text " Port: " ++ rest) (directives " Port: " ++ format) =
      sscanf (rest.dropWhile isspace) format := by
  simp [text, directives, sscanf, isspace]

/-- The literal part of the format of `connect_multicast`. -/
theorem sscanf_multicast (rest : Bytes) (format : List Directive) :
    sscanf (text "Multicast IP " ++ rest) (directives "Multicast IP " ++ format) =
      sscanf (rest.dropWhile isspace) format := by
  simp [text, directives, sscanf, isspace]

/-- The string of an answer with the address of a user. -/
theorem cstr_p2p_address (selected : Nat) (husername : TypedWord USERNAME_SIZE username)
    (hip : TypedWord INET_ADDRSTRLEN ip) (hport : IsPort port) :
    cstr (format_message (Answer.p2p_address username selected ip port).text) =
      username ++ (c_string.text " IP: " ++ (ip ++ (c_string.text " Port: " ++
        (format_int port ++ c_string.text "\n")))) := by
  have husername' : username.length < 16 := husername.length_lt
  have hip' : ip.length < 16 := hip.length_lt
  have hport' := hport.length_le
  have hliterals : (c_string.text " IP: ").length = 5 ∧ (c_string.text " Port: ").length = 7 ∧
      (c_string.text "\n").length = 1 := by decide
  have hsize : server.BUFFER_SIZE = 1000 := rfl
  rw [cstr_format_message]
  · simp only [Answer.text, List.append_assoc]
  · simp only [Answer.text, List.mem_append, not_or]
    exact ⟨⟨⟨⟨⟨husername.nul_not_mem, by decide⟩, hip.nul_not_mem⟩, by decide⟩,
      hport.nul_not_mem⟩, by decide⟩
  · simp only [Answer.text, List.length_append]
    omega

theorem scan_p2p_address (selected : Nat) (husername : TypedWord USERNAME_SIZE username)
    (hip : TypedWord INET_ADDRSTRLEN ip) (hport : IsPort port) :
    scan_p2p (format_message (Answer.p2p_address username selected ip port).text) =
      .ok (some (username, ip, port)) := by
  have hstring := cstr_p2p_address selected husername hip hport
  have hfirst (rest : Bytes) : Breaks (c_string.text " IP: " ++ rest) := by
    simp [Breaks, c_string.text, isspace]
  have hsecond (rest : Bytes) : Breaks (c_string.text " Port: " ++ rest) := by
    simp [Breaks, c_string.text, isspace]
  have husername' : username.length < USERNAME_SIZE := husername.length_lt
  rw [scan_p2p, hstring, List.append_assoc, List.cons_append, List.cons_append,
    sscanf_word_append _ husername.ne_nil husername.isspace_eq husername'
      (hfirst _),
    sscanf_ip, sscanf_word_dropWhile,
    sscanf_word_append _ hip.ne_nil hip.isspace_eq hip.length_lt
      (hsecond _),
    sscanf_port, sscanf_int_dropWhile, hport.sscanf_eq]
  rfl

theorem scan_multicast_address (group_name : Bytes) (hip : TypedWord INET_ADDRSTRLEN ip) :
    scan_multicast (format_message (Answer.group_address group_name ip).text) = .ok (some ip) := by
  have hip' : ip.length < 16 := hip.length_lt
  have hliterals : (c_string.text "Multicast IP ").length = 13 ∧ (c_string.text "\n").length = 1 := by
    decide
  have hsize : server.BUFFER_SIZE = 1000 := rfl
  have hstring : cstr (format_message (Answer.group_address group_name ip).text) =
      c_string.text "Multicast IP " ++ (ip ++ c_string.text "\n") := by
    rw [cstr_format_message]
    · simp only [Answer.text, List.append_assoc]
    · simp only [Answer.text, List.mem_append, not_or]
      exact ⟨⟨by decide, hip.nul_not_mem⟩, by decide⟩
    · simp only [Answer.text, List.length_append]
      omega
  have hstarts : starts_with (format_message (Answer.group_address group_name ip).text)
      (c_string.text "Multicast IP") = true := by
    have hprefix : c_string.text "Multicast IP " = c_string.text "Multicast IP" ++ [32] := by decide
    have hliteral : cstr (c_string.text "Multicast IP") = c_string.text "Multicast IP" := by decide
    rw [starts_with_iff, hstring, hliteral, hprefix, List.append_assoc]
    exact List.prefix_append _ _
  have hbreaks : Breaks (c_string.text "\n") := by
    simp [Breaks, c_string.text, isspace]
  rw [scan_multicast, hstarts, if_pos rfl, hstring, sscanf_multicast, sscanf_word_dropWhile,
    sscanf_word_append _ hip.ne_nil hip.isspace_eq hip.length_lt hbreaks, sscanf]
  rfl

end Successes

section Served

variable {memory next : server.Memory} {sock : server.sockaddr_in} {locals : Locals}
  {outputs : List server.Output} {call : Call}

theorem served_of_step {state after : server.Server} {datagram : Bytes} (hvalid : state.memory.Valid)
    (hstep : server.step state (.datagram sock datagram locals) = .ok (after, outputs)) :
    server.Served state.memory sock datagram locals after.memory outputs := by
  obtain ⟨⟨memory, outputs'⟩, hserve, hafter⟩ := Result.bind_eq_ok_iff.mp hstep
  cases hafter
  exact hvalid.served hserve

/-- The server runs the command of a request for the session of its address. -/
theorem Call.performed (hserved : server.Served memory sock call.datagram locals next outputs) :
    ∃ opened s, memory.Opened sock s opened ∧
      opened.Performed s (line call.args) locals call.command next outputs := by
  cases hserved with
  | unknown opened s hopened hcommand =>
    rw [call.received_command_datagram] at hcommand
    cases hcommand
  | command opened s hopened command args hcommand _ _ hperformed =>
    rw [call.received_command_datagram] at hcommand
    cases hcommand
    exact ⟨opened, s, hopened, hperformed⟩

theorem inet_ntop_typedWord (addr : server.in_addr) :
    TypedWord INET_ADDRSTRLEN (inet_ntop addr) := by
  have hdigit (c d : UInt8) (hd : d ∈ decimal c.toNat) : isspace d = false :=
    isspace_of_isdigit (isdigit_of_mem_decimal hd)
  have hdot (d : UInt8) (hd : d ∈ text ".") : isspace d = false := by
    revert d
    decide
  refine ⟨?_, server.length_inet_ntop_lt addr, server.nul_not_mem_inet_ntop addr, ?_⟩
  · simp [inet_ntop, decimal_ne_nil]
  · intro d hd
    simp only [inet_ntop, List.mem_append] at hd
    obtain (((((hd | hd) | hd) | hd) | hd) | hd) | hd := hd
    · exact hdigit _ _ hd
    · exact hdot _ hd
    · exact hdigit _ _ hd
    · exact hdot _ hd
    · exact hdigit _ _ hd
    · exact hdot _ hd
    · exact hdigit _ _ hd

theorem group_typedWord : ∀ ip ∈ server.groups, TypedWord INET_ADDRSTRLEN ip := by
  have hall : ∀ ip ∈ server.groups, ip ≠ [] ∧ ip.length < INET_ADDRSTRLEN ∧ 0 ∉ ip ∧
      ∀ c ∈ ip, isspace c = false := by decide
  intro ip hip
  obtain ⟨hne, hlength, hnul, hspace⟩ := hall ip hip
  exact ⟨hne, hlength, hnul, hspace⟩

/-- The address and the port of a session are of the form that is read back. -/
theorem session_typedWord (hvalid : memory.Valid) {t : Nat} (ht : t ∈ memory.userSessions) :
    TypedWord INET_ADDRSTRLEN (cstr (memory.sessions.contents t).ip.bytes) ∧
      IsPort (memory.sessions.contents t).port := by
  obtain ⟨hip, hport⟩ := hvalid.addressed t ht
  constructor
  · rw [hip]
    exact inet_ntop_typedWord _
  · constructor
    have hlt := (memory.sessions.contents t).sock.sin_port.isLt
    rw [hport, BitVec.toNat_setWidth]
    omega

/-- The address of a group is one of the pool. -/
theorem group_address_typedWord (hvalid : memory.Valid) {g : Nat}
    (hg : g ∈ memory.multicastGroups) :
    TypedWord INET_ADDRSTRLEN (cstr (memory.group_blocks.contents g).ip.bytes) := by
  apply group_typedWord
  have hmem := hvalid.pool.mem_iff.mp (List.mem_map_of_mem hg)
  exact List.mem_of_mem_take hmem

/-- A request for a user is answered with a refusal or with the address of a session. -/
theorem p2p_answer {username : CString USERNAME_SIZE}
    {msg : CharArray BUFFER_SIZE} (husername : TypedWord USERNAME_SIZE username.bytes)
    (hserved : server.Served memory sock (Call.send_p2p username msg).datagram locals next outputs) :
    ∃ s answer, outputs = [next.send_udp_message s answer] ∧
      (answer.refusal = true ∨ ∃ selected ∈ next.userSessions,
        answer = .p2p_address username.bytes selected
          (cstr (next.sessions.contents selected).ip.bytes)
          (next.sessions.contents selected).port) := by
  obtain ⟨opened, s, hopened, hperformed⟩ := Call.performed hserved
  generalize hcommand : (Call.send_p2p username msg).command = command at hperformed
  cases hperformed with
  | refused _ answer hrefusal => exact ⟨s, answer, rfl, Or.inl hrefusal⟩
  | p2p username' sender u selected hpermitted hargs huser hsession =>
    rw [Call.args, p2p_decoded husername] at hargs
    cases hargs
    exact ⟨s, _, rfl, Or.inr ⟨selected, (hopened.valid.find_session_eq_some_iff.mp hsession).1, rfl⟩⟩
  | _ => cases hcommand

/-- A request for a group is answered with a refusal or with the address of the group. -/
theorem multicast_answer {group_name : CString GROUP_SIZE}
    {message : CharArray (BUFFER_SIZE + GROUP_SIZE + 1)}
    (hserved : server.Served memory sock (Call.connect_multicast group_name message).datagram locals
      next outputs) :
    ∃ s answer, outputs = [next.send_udp_message s answer] ∧
      (answer.refusal = true ∨ ∃ name, ∃ g ∈ next.multicastGroups,
        (Call.connect_multicast group_name message).ServerName name ∧
        cstr (next.group_blocks.contents g).name.bytes = cstr name ∧
        answer = .group_address name (cstr (next.group_blocks.contents g).ip.bytes)) := by
  obtain ⟨opened, s, hopened, hperformed⟩ := Call.performed hserved
  generalize hcommand : (Call.connect_multicast group_name message).command = command at hperformed
  cases hperformed with
  | refused _ answer hrefusal => exact ⟨s, answer, rfl, Or.inl hrefusal⟩
  | get name sender g hpermitted hargs hgroup hname =>
    exact ⟨s, _, rfl, Or.inr ⟨name, g, hgroup, ⟨_, Call.received _, hargs⟩, hname, rfl⟩⟩
  | _ => cases hcommand

/-- A login is answered with a refusal, or with the three replies of a success. -/
theorem login_answer {username : CString USERNAME_SIZE} {password : CString PASSWORD_SIZE}
    {message : CharArray BUFFER_SIZE}
    (hserved : server.Served memory sock (Call.authenticate username password message).datagram
      locals next outputs) :
    ∃ s, next.SessionAt sock s ∧
      ((∃ answer, answer.refusal = true ∧ outputs = [next.send_udp_message s answer]) ∨
        ∃ u client_server p2p group, outputs = [next.send_udp_message s (.login_successful u),
          next.send_udp_message s (.session_port (next.sessions.contents s).port),
          next.send_udp_message s (.permissions client_server p2p group)]) := by
  obtain ⟨opened, s, hopened, hperformed⟩ := Call.performed hserved
  generalize hcommand : (Call.authenticate username password message).command = command at hperformed
  cases hperformed with
  | refused _ answer hrefusal =>
    exact ⟨s, hopened.sessionAt, Or.inl ⟨answer, hrefusal, rfl⟩⟩
  | login username' password' u hlogged hargs huser hip hpassword hnul =>
    obtain ⟨hkeyip, hkeyport, -⟩ := opened.bind_sessions_key s u s
    have hat : (opened.bind s u).SessionAt sock s :=
      ⟨hopened.mem, by rw [hkeyip, hopened.ip], by rw [hkeyport, hopened.port]⟩
    refine ⟨s, hat, Or.inr ?_⟩
    rw [hkeyport]
    exact ⟨u, _, _, _, rfl⟩
  | _ => cases hcommand

end Served

section Agreement

variable {memory : server.Memory} {answer : Answer} {client : Client} {sock : server.sockaddr_in}

/-- The port of the listener of a client whose requests come from an address. -/
def listener (sock : server.sockaddr_in) : BitVec 16 := htons (sock.sin_port.setWidth 32)

/-- `send_p2p` finds an address in an answer exactly if the server found a session, and
then it is the address of this session, for the user that was asked for. Its peer is
sent to at the port of the session's listener. -/
structure P2PAgrees (memory : server.Memory) (call : Call) (username : Bytes) (answer : Answer) :
    Prop where
  scans : ∃ found, scan_p2p (format_message answer.text) = .ok found
  iff : (∃ found, scan_p2p (format_message answer.text) = .ok (some found)) ↔
    ∃ selected ip port, answer = .p2p_address username selected ip port
  address : ∀ name selected ip port, answer = .p2p_address name selected ip port →
    name = username ∧ selected ∈ memory.userSessions ∧
      ip = cstr (memory.sessions.contents selected).ip.bytes ∧
      port = (memory.sessions.contents selected).port ∧
      scan_p2p (format_message answer.text) = .ok (some (username, ip, port))
  peer : ∀ name selected ip port sock, answer = .p2p_address name selected ip port →
    memory.SessionAt sock selected → ∀ client outside, client.stage = .waiting call →
      recvfrom client (format_message answer.text, outside) =
        .ok ({ client with stage := .menu }, [.p2p outside.message ip (listener sock)])

/-- `connect_multicast` finds an address in an answer exactly if the server found the
group, and then it is the address of this group. -/
structure MulticastAgrees (memory : server.Memory) (call : Call) (answer : Answer) : Prop where
  scans : ∃ found, scan_multicast (format_message answer.text) = .ok found
  iff : (∃ found, scan_multicast (format_message answer.text) = .ok (some found)) ↔
    ∃ name ip, answer = .group_address name ip
  address : ∀ name ip, answer = .group_address name ip → call.ServerName name ∧
    memory.HasGroup (cstr name) ip ∧
    scan_multicast (format_message answer.text) = .ok (some ip)

theorem p2pAgrees_of_refusal {call : Call} {username : Bytes} (hrefusal : answer.refusal = true) :
    P2PAgrees memory call username answer := by
  have hscan := scan_p2p_refusal hrefusal
  have hother (name : Bytes) (selected : Nat) (ip : Bytes) (port : BitVec 32) :
      answer ≠ .p2p_address name selected ip port := by
    rintro rfl
    cases hrefusal
  refine ⟨⟨none, hscan⟩, iff_of_false ?_ ?_, ?_, ?_⟩
  · rintro ⟨found, hfound⟩
    cases hscan.symm.trans hfound
  · rintro ⟨selected, ip, port, heq⟩
    exact hother _ _ _ _ heq
  · intro name selected ip port heq
    exact absurd heq (hother _ _ _ _)
  · intro name selected ip port sock heq
    exact absurd heq (hother _ _ _ _)

theorem p2pAgrees_of_address (hvalid : memory.Valid) {username : CString USERNAME_SIZE}
    {msg : CharArray BUFFER_SIZE} (husername : TypedWord USERNAME_SIZE username.bytes)
    {selected : Nat} (hselected : selected ∈ memory.userSessions) :
    P2PAgrees memory (.send_p2p username msg) username.bytes (.p2p_address username.bytes selected
      (cstr (memory.sessions.contents selected).ip.bytes)
      (memory.sessions.contents selected).port) := by
  obtain ⟨hip, hport⟩ := session_typedWord hvalid hselected
  have hscan := scan_p2p_address selected husername hip hport
  refine ⟨⟨_, hscan⟩, iff_of_true ⟨_, hscan⟩ ⟨_, _, _, rfl⟩, ?_, ?_⟩
  · intro name selected' ip port heq
    cases heq
    exact ⟨rfl, hselected, rfl, rfl, hscan⟩
  · intro name selected' ip port sock heq hat client outside hstage
    cases heq
    rw [listener, ← hat.port]
    simp only [recvfrom, hstage, hscan, Result.ok_bind, Result.pure_eq_ok]

theorem multicastAgrees_of_refusal {call : Call} (hrefusal : answer.refusal = true) :
    MulticastAgrees memory call answer := by
  have hscan := scan_multicast_refusal hrefusal
  have hother (name ip : Bytes) : answer ≠ .group_address name ip := by
    rintro rfl
    cases hrefusal
  refine ⟨⟨none, hscan⟩, iff_of_false ?_ ?_, ?_⟩
  · rintro ⟨found, hfound⟩
    cases hscan.symm.trans hfound
  · rintro ⟨name, ip, heq⟩
    exact hother _ _ heq
  · intro name ip heq
    exact absurd heq (hother _ _)

theorem multicastAgrees_of_address (hvalid : memory.Valid) {call : Call} {name : Bytes} {g : Nat}
    (hg : g ∈ memory.multicastGroups) (hread : call.ServerName name)
    (hname : cstr (memory.group_blocks.contents g).name.bytes = cstr name) :
    MulticastAgrees memory call
      (.group_address name (cstr (memory.group_blocks.contents g).ip.bytes)) := by
  have hscan := scan_multicast_address name (group_address_typedWord hvalid hg)
  refine ⟨⟨_, hscan⟩, iff_of_true ⟨_, hscan⟩ ⟨_, _, rfl⟩, ?_⟩
  intro name' ip heq
  cases heq
  exact ⟨hread, ⟨g, hg, hname, rfl⟩, hscan⟩

/-- A client that authenticates leaves after any other reply than that of a success. -/
theorem recvfrom_exits (hstage : client.stage = .login) {reply : Bytes}
    (hother : strcmp reply (text "Login successfully\n") ≠ 0) (outside : Outside) :
    recvfrom client (reply, outside) = .ok ({ client with stage := .exited }, []) := by
  simp only [recvfrom, hstage, hother, if_false, Result.pure_eq_ok]

theorem recvfrom_login (hstage : client.stage = .login) (u : Nat) (outside : Outside) :
    recvfrom client (format_message (Answer.login_successful u).text, outside) =
      .ok ({ client with stage := .port }, []) := by
  simp only [recvfrom, hstage, strcmp_login_successful u, if_true, Result.pure_eq_ok]

theorem recvfrom_port (hstage : client.stage = .port) {port : BitVec 32} (hport : IsPort port)
    (outside : Outside) :
    recvfrom client (format_message (Answer.session_port port).text, outside) =
      .ok ({ client with stage := .permissions, message_port := port }, [.bind (htons port)]) := by
  have hmessage : cstr (format_message (Answer.session_port port).text) =
      format_int port ++ c_string.text "\n" := by
    have hlength := hport.length_le
    have hfeed : (c_string.text "\n").length = 1 := by decide
    have hsize : server.BUFFER_SIZE = 1000 := rfl
    apply cstr_format_message
    · rw [Answer.text, List.mem_append, not_or]
      exact ⟨hport.nul_not_mem, by decide⟩
    · rw [Answer.text, List.length_append]
      omega
  simp only [recvfrom, hstage, hmessage, hport.sscanf_eq, Result.ok_bind, Result.pure_eq_ok]

theorem recvfrom_permissions (hstage : client.stage = .permissions) (reply : Bytes)
    (outside : Outside) :
    recvfrom client (reply, outside) = .ok ({ client with stage := .menu }, []) := by
  simp only [recvfrom, hstage, Result.pure_eq_ok]

/-- It reads the three replies of a success, and binds its listener to the port that it
was told. -/
theorem recvfrom_success (hstage : client.stage = .login) {port : BitVec 32} (hport : IsPort port)
    (u : Nat) (client_server p2p group : Bytes) (first second third : Outside) :
    run recvfrom client
      [(format_message (Answer.login_successful u).text, first),
        (format_message (Answer.session_port port).text, second),
        (format_message (Answer.permissions client_server p2p group).text, third)] =
      .ok ({ client with stage := .menu, message_port := port }, [[], [.bind (htons port)], []]) := by
  have hsecond (behind : Client) (hbehind : behind.stage = .port) := recvfrom_port hbehind hport second
  have hthird (behind : Client) (hbehind : behind.stage = .permissions) (reply : Bytes) :=
    recvfrom_permissions hbehind reply third
  simp only [run, recvfrom_login hstage, hsecond, hthird, Result.ok_bind, Result.pure_eq_ok]

/-- A message is relayed to the port of the listener of the session that is selected. -/
theorem relay_port {state next : server.Server} {event : server.Event}
    {outputs : List server.Output} (hvalid : state.memory.Valid)
    (hstep : server.step state event = .ok (next, outputs)) {s t : Nat} {username message : Bytes}
    {socket : Int} {dest : server.sockaddr_in}
    (hrelay : .relay s username t socket message dest ∈ outputs)
    (hat : next.memory.SessionAt sock t) : dest.sin_port = listener sock := by
  have hstepped := server.stepped_of_step hvalid hstep
  generalize next.memory = memory at hstepped hat
  cases hstepped with
  | served sock' datagram locals _ _ hserved =>
    cases hserved with
    | unknown => simp [server.Memory.send_udp_message] at hrelay
    | command opened s' hopened command args hcommand _ _ hperformed =>
      cases hperformed with
      | msg username' message' sender u selected hpermitted hargs huser hsession =>
        simp only [List.mem_cons, server.relay, server.Memory.send_udp_message, server.Output.relay.injEq,
          reduceCtorEq, List.not_mem_nil, or_false] at hrelay
        obtain ⟨rfl, rfl, rfl, rfl, rfl, rfl⟩ := hrelay
        rw [listener, ← hat.port]
      | _ => simp [server.Memory.send_udp_message] at hrelay
  | handled connection hadmin received _ _ hhandled =>
    have hclient := hhandled.client_eq_none _ hrelay
    cases hclient
  | idle => cases hrelay

end Agreement

/-- What the client makes of a reply agrees with what the server did: for the address
of a user, for the address of a group and for a login. The listener of a client, the
relay of the server and a peer use one port. -/
theorem reply_codec {startup : server.Startup} {records : Bytes} {start state next : server.Server}
    {past : List server.Event} {sock : server.sockaddr_in} {locals : Locals}
    {outputs : List server.Output} (hmain : server.main startup records = .ok start)
    (hreach : Reaches server.step start past state) :
    (∀ username msg, TypedWord USERNAME_SIZE username.bytes →
      server.step state (.datagram sock (Call.send_p2p username msg).datagram locals) =
        .ok (next, outputs) →
      ∃ s answer, outputs = [next.memory.send_udp_message s answer] ∧
        P2PAgrees next.memory (.send_p2p username msg) username.bytes answer) ∧
    (∀ group_name message,
      server.step state (.datagram sock (Call.connect_multicast group_name message).datagram locals) =
        .ok (next, outputs) →
      ∃ s answer, outputs = [next.memory.send_udp_message s answer] ∧
        MulticastAgrees next.memory (.connect_multicast group_name message) answer) ∧
    (∀ username password message,
      server.step state (.datagram sock (Call.authenticate username password message).datagram
        locals) = .ok (next, outputs) →
      ∃ s, next.memory.SessionAt sock s ∧
        ((∃ answer, answer.refusal = true ∧ outputs = [next.memory.send_udp_message s answer] ∧
          ∀ client outside, client.stage = .login →
            recvfrom client (format_message answer.text, outside) =
              .ok ({ client with stage := .exited }, [])) ∨
        ∃ u port client_server p2p group,
          outputs = [next.memory.send_udp_message s (.login_successful u),
            next.memory.send_udp_message s (.session_port port),
            next.memory.send_udp_message s (.permissions client_server p2p group)] ∧
          port = (next.memory.sessions.contents s).port ∧
          ∀ client first second third, client.stage = .login → run recvfrom client
            [(format_message (Answer.login_successful u).text, first),
              (format_message (Answer.session_port port).text, second),
              (format_message (Answer.permissions client_server p2p group).text, third)] =
            .ok ({ client with stage := .menu, message_port := port },
              [[], [.bind (listener sock)], []]))) ∧
    ∀ event, server.step state event = .ok (next, outputs) →
      ∀ s username t socket message dest sock', .relay s username t socket message dest ∈ outputs →
        next.memory.SessionAt sock' t → dest.sin_port = listener sock' := by
  have hvalid := server.reaches_valid (server.started_of_main hmain).valid hreach
  refine ⟨?_, ?_, ?_, ?_⟩
  · intro username msg husername hstep
    have hvalid' := server.step_valid hvalid hstep
    obtain ⟨s, answer, rfl, hrefusal | ⟨selected, hselected, rfl⟩⟩ :=
      p2p_answer husername (served_of_step hvalid hstep)
    · exact ⟨s, answer, rfl, p2pAgrees_of_refusal hrefusal⟩
    · exact ⟨s, _, rfl, p2pAgrees_of_address hvalid' husername hselected⟩
  · intro group_name message hstep
    have hvalid' := server.step_valid hvalid hstep
    obtain ⟨s, answer, rfl, hrefusal | ⟨name, g, hg, hread, hname, rfl⟩⟩ :=
      multicast_answer (served_of_step hvalid hstep)
    · exact ⟨s, answer, rfl, multicastAgrees_of_refusal hrefusal⟩
    · exact ⟨s, _, rfl, multicastAgrees_of_address hvalid' hg hread hname⟩
  · intro username password message hstep
    have hvalid' := server.step_valid hvalid hstep
    obtain ⟨s, hat, ⟨answer, hrefusal, rfl⟩ | ⟨u, client_server, p2p, group, rfl⟩⟩ :=
      login_answer (served_of_step hvalid hstep)
    · refine ⟨s, hat, Or.inl ⟨answer, hrefusal, rfl, ?_⟩⟩
      intro client outside hstage
      exact recvfrom_exits hstage (strcmp_refusal hrefusal) outside
    · obtain ⟨-, hport⟩ := session_typedWord hvalid' hat.mem
      refine ⟨s, hat, Or.inr ⟨u, _, client_server, p2p, group, rfl, rfl, ?_⟩⟩
      intro client first second third hstage
      rw [recvfrom_success hstage hport, listener, ← hat.port]
  · intro event hstep s username t socket message dest sock' hrelay hat
    exact relay_port hvalid hstep hrelay hat

def ana : CString USERNAME_SIZE := ⟨text "ana", by decide, by decide⟩

/-- A client asks for the address of `ana`. -/
def askForAna : Call := .send_p2p ana (.ofBytes _ [])

theorem reply_codec_witness : ∃ start state next outputs, server.main .blank [] = .ok start ∧
    Reaches server.step start server.loginRun state ∧
    server.step state (.datagram ⟨⟨10, 0, 0, 1⟩, 5000⟩ askForAna.datagram .blank) =
      .ok (next, outputs) ∧
    ∃ s answer, outputs = [next.memory.send_udp_message s answer] ∧
      P2PAgrees next.memory askForAna (text "ana") answer := by
  have hview : server.observe .blank [] (server.loginRun ++
      [.datagram ⟨⟨10, 0, 0, 1⟩, 5000⟩ askForAna.datagram .blank])
      (fun _ outputs => outputs.map (List.filterMap server.Output.route)) =
        .ok [[], [], [], [(0, text "ana", 0)]] := by
    decide +kernel
  obtain ⟨start, next, outputs, hmain, hrun, -⟩ := server.exists_of_observe hview
  obtain ⟨state, before, last, hbefore, hstep, -⟩ := (run_snoc_eq_ok_iff server.step).mp hrun
  obtain ⟨hp2p, -⟩ := reply_codec hmain ⟨before, hbefore⟩
  exact ⟨start, state, next, last, hmain, ⟨before, hbefore⟩, hstep,
    hp2p _ _ ⟨by decide, by decide, by decide, by decide⟩ hstep⟩

end rc_project.client
