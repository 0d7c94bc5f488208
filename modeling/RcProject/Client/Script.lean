import RcProject.Client.Options
import RcProject.Client.GroupNames
import RcProject.Library.Simulation
import RcProject.Client.Replies

open rc_project.c_string rc_project.scanf rc_project.transition
open rc_project.server (Answer format_message htons sockaddr_in)

namespace rc_project.client

section Received

variable {size : Nat} {string : Bytes}

theorem length_format_message (string : Bytes) : (format_message string).length = BUFFER_SIZE := by
  have hpos : 0 < (List.replicate server.BUFFER_SIZE (0 : UInt8)).length := by
    rw [List.length_replicate]
    exact Nat.succ_pos _
  rw [format_message, length_snprintf hpos, List.length_replicate]
  rfl

theorem nul_mem_format_message (string : Bytes) : 0 ∈ format_message string := by
  simp [format_message, snprintf]

theorem take_format_message (string : Bytes) :
    (format_message string).take BUFFER_SIZE = format_message string :=
  List.take_of_length_le (length_format_message string).le

theorem format_message_ne_nil (string : Bytes) : format_message string ≠ [] :=
  List.ne_nil_of_mem (nul_mem_format_message string)

/-- What the server sends ends inside of every array that has room for it. -/
theorem receive_format_message (array : CharArray size) (hsize : BUFFER_SIZE ≤ size)
    (string : Bytes) : ∃ left received, receive array (some (format_message string)) =
      .ok (some left) ∧ left.string = .ok received ∧
      received.bytes = cstr (format_message string) := by
  have hlength := length_format_message string
  have hle : (format_message string).length ≤ size := hlength.trans_le hsize
  let left := CharArray.ofBytes size (format_message string ++
    array.bytes.drop (format_message string).length)
  have hbytes : left.bytes = format_message string ++
      array.bytes.drop (format_message string).length := by
    have hwhole : (format_message string ++
        array.bytes.drop (format_message string).length).length = size := by
      rw [List.length_append, List.length_drop, array.length_eq]
      omega
    rw [CharArray.bytes_ofBytes hwhole.ge, List.take_of_length_le hwhole.le]
  have hnul : 0 ∈ left.bytes := by
    rw [hbytes]
    exact List.mem_append_left _ (nul_mem_format_message string)
  refine ⟨left, ⟨cstr left.bytes, not_mem_cstr _, (length_cstr_lt hnul).trans_eq left.length_eq⟩,
    ?_, ?_, ?_⟩
  · simp only [receive, Option.getD_some, take_format_message, if_neg (format_message_ne_nil string),
      if_pos hle, Result.pure_eq_ok, left]
  · rw [CharArray.string, dif_pos hnul]
    rfl
  · change cstr left.bytes = _
    rw [hbytes, cstr_append_of_mem (nul_mem_format_message string)]

/-- It has no room in a smaller one. -/
theorem receive_overflow (array : CharArray size) (hsize : size < BUFFER_SIZE) (string : Bytes) :
    receive array (some (format_message string)) = .error .overflow := by
  have hlength := length_format_message string
  have hlarge : ¬ (format_message string).length ≤ size := by omega
  simp only [receive, Option.getD_some, take_format_message, if_neg (format_message_ne_nil string),
    if_neg hlarge, Result.throw_eq_error]

theorem scan_p2p_cstr (memory : Bytes) : scan_p2p (cstr memory) = scan_p2p memory := by
  rw [scan_p2p, scan_p2p, cstr_cstr]

theorem starts_with_cstr (memory literal : Bytes) :
    starts_with (cstr memory) literal = starts_with memory literal := by
  rw [Bool.eq_iff_iff, starts_with_iff, starts_with_iff, cstr_cstr]

theorem starts_with_refusal {answer : Answer} (hrefusal : answer.refusal = true) :
    starts_with (format_message answer.text) (text "Multicast IP") = false := by
  obtain ⟨-, -, -, hother, -⟩ := refusal_text hrefusal
  have hname : cstr (text "Multicast IP") = text "Multicast IP" := by decide
  rw [← Bool.not_eq_true, starts_with_iff, cstr_refusal hrefusal, hname]
  exact hother

theorem starts_with_of_scan_multicast {message ip : Bytes}
    (hscan : scan_multicast message = .ok (some ip)) :
    starts_with message (text "Multicast IP") = true := by
  by_contra hother
  rw [scan_multicast, if_neg hother] at hscan
  cases hscan

theorem scan_multicast_cstr (memory : Bytes) :
    scan_multicast (cstr memory) = scan_multicast memory := by
  rw [scan_multicast, scan_multicast, starts_with_cstr, cstr_cstr]

end Received

section Options

variable {option number : BitVec 32} {stdin rest : Bytes}

/-- What is typed for the option of the menu: its number, or something that is no number and
stands for the option before. -/
inductive Chooses (option : BitVec 32) : Bytes → BitVec 32 → Bytes → Prop
  | number {before rest : Bytes} {n : Nat} (hbefore : ∀ c ∈ before, isspace c = true)
    (hn : n < 2 ^ 31) (hrest : ∀ c ∈ rest.head?, isdigit c = false) :
    Chooses option (before ++ (decimal n ++ rest)) (BitVec.ofNat 32 n) rest
  | again {before rest : Bytes} {c : UInt8} (hbefore : ∀ c ∈ before, isspace c = true)
    (hspace : isspace c = false) (hdigit : isdigit c = false) (hsign : c ≠ 43 ∧ c ≠ 45) :
    Chooses option (before ++ c :: rest) option (c :: rest)

theorem not_isdigit_head {rest : Bytes} {first : UInt8} (hhead : rest.head? = some first)
    (hdigit : isdigit first = false) : ∀ c ∈ rest.head?, isdigit c = false := by
  intro c hc
  obtain rfl : first = c := Option.some.inj (hhead.symm.trans hc)
  exact hdigit

theorem Chooses.scanf_int_eq (h : Chooses option stdin number rest) :
    Process.scanf_int option stdin = (number, rest) := by
  cases h with
  | @number before _ n hbefore hn hrest =>
    have hword : (decimal n ++ rest).dropWhile isspace = decimal n ++ rest := by
      apply dropWhile_isspace_word (decimal_ne_nil n)
      exact fun c hc => isspace_of_isdigit (isdigit_of_mem_decimal hc)
    simp only [Process.scanf_int, dropWhile_isspace_append hbefore, hword, scan_int_decimal hn hrest]
  | @again before rest c hbefore hspace hdigit hsign =>
    have hword : (c :: rest).dropWhile isspace = c :: rest := by simp [hspace]
    have hscan : scan_int (c :: rest) = none := by
      simp [scan_int, hsign.1, hsign.2, hdigit]
    simp only [Process.scanf_int, dropWhile_isspace_append hbefore, hword, hscan, List.head?_cons,
      Option.some.injEq, hsign.1, hsign.2, or_self, if_false]

end Options

/-- What leaves a client, as its receiver reads it. -/
inductive Sent
  | request (string : Bytes)
  | p2p (message : Bytes) (target_addr : sockaddr_in)
  | multicast (send : Bytes) (multicast_addr : sockaddr_in)
  deriving DecidableEq

def Effect.sent : Effect → Option Sent
  | .print _ | .bind _ => none
  | .request datagram => some (.request (cstr datagram))
  | .p2p message target_addr => some (.p2p (cstr message.bytes) target_addr)
  | .multicast send multicast_addr => some (.multicast (cstr send) multicast_addr)

section Effects

variable (string : Bytes) (sin_port : BitVec 16) (addr : sockaddr_in)

@[simp] theorem Effect.sent_print : (Effect.print string).sent = none := rfl

@[simp] theorem Effect.sent_bind : (Effect.bind sin_port).sent = none := rfl

@[simp] theorem Effect.sent_p2p (message : CharArray BUFFER_SIZE) :
    (Effect.p2p message addr).sent = some (.p2p (cstr message.bytes) addr) := rfl

@[simp] theorem Effect.sent_multicast :
    (Effect.multicast string addr).sent = some (.multicast (cstr string) addr) := rfl

end Effects

namespace Process

/-- All that a client has sent. -/
def sent (process : Process) : List Sent := process.done.filterMap Effect.sent

section Fields

variable (process : Process) (effects : List Effect) (literal : String)

@[simp] theorem does_globals : (process.does effects).globals = process.globals := rfl

@[simp] theorem does_username : (process.does effects).username = process.username := rfl

@[simp] theorem does_option : (process.does effects).option = process.option := rfl

@[simp] theorem does_stdin : (process.does effects).stdin = process.stdin := rfl

@[simp] theorem does_sent :
    (process.does effects).sent = process.sent ++ effects.filterMap Effect.sent :=
  List.filterMap_append

@[simp] theorem reads_globals (stdin : Bytes) : (process.reads stdin).globals = process.globals := rfl

@[simp] theorem reads_username (stdin : Bytes) : (process.reads stdin).username = process.username := rfl

@[simp] theorem reads_option (stdin : Bytes) : (process.reads stdin).option = process.option := rfl

@[simp] theorem reads_stdin (stdin : Bytes) : (process.reads stdin).stdin = stdin := rfl

@[simp] theorem reads_sent (stdin : Bytes) : (process.reads stdin).sent = process.sent := rfl

@[simp] theorem becomes_globals (globals : Client) : (process.becomes globals).globals = globals := rfl

@[simp] theorem becomes_username (globals : Client) : (process.becomes globals).username = process.username := rfl

@[simp] theorem becomes_option (globals : Client) : (process.becomes globals).option = process.option := rfl

@[simp] theorem becomes_stdin (globals : Client) : (process.becomes globals).stdin = process.stdin := rfl

@[simp] theorem becomes_sent (globals : Client) : (process.becomes globals).sent = process.sent := rfl

@[simp] theorem prints_globals : (process.prints literal).globals = process.globals := rfl

@[simp] theorem prints_username : (process.prints literal).username = process.username := rfl

@[simp] theorem prints_option : (process.prints literal).option = process.option := rfl

@[simp] theorem prints_stdin : (process.prints literal).stdin = process.stdin := rfl

@[simp] theorem prints_sent : (process.prints literal).sent = process.sent := by
  rw [prints, does_sent]
  exact List.append_nil _

end Fields

/-- A client behind a function of the menu. -/
structure Advances (process : Process) (globals : Client) (sent : List Sent) (stdin : Bytes)
    (next : Process) : Prop where
  globals_eq : next.globals = globals
  username_eq : next.username = process.username
  option_eq : next.option = process.option
  stdin_eq : next.stdin = stdin
  sent_eq : next.sent = process.sent ++ sent

end Process

/-- The text of a request is a string. -/
theorem Call.nul_not_mem_text (call : Call) : 0 ∉ call.text := by
  have hliterals : 0 ∉ c_string.text "LOGIN " ∧ 0 ∉ c_string.text "MSG " ∧ 0 ∉ c_string.text "P2P " ∧
      0 ∉ c_string.text "CREATEMULTICAST " ∧ 0 ∉ c_string.text "GETMULTICAST " ∧
      0 ∉ c_string.text " " := by
    decide
  cases call with
  | authenticate username password _ =>
    simp [Call.text, hliterals, username.nul_not_mem, password.nul_not_mem]
  | send_msg username message _ =>
    simp [Call.text, hliterals, username.nul_not_mem, message.nul_not_mem]
  | send_p2p username _ => simp [Call.text, hliterals, username.nul_not_mem]
  | create_group_multicast group_name _ => simp [Call.text, hliterals, group_name.nul_not_mem]
  | connect_multicast group_name _ => simp [Call.text, hliterals, group_name.nul_not_mem]

@[simp] theorem Call.sent_datagram (call : Call) :
    (Effect.request call.datagram).sent = some (.request call.text) := by
  obtain ⟨tail, hdatagram, -⟩ := call.datagram_eq
  rw [Effect.sent, hdatagram, cstr_append_nul call.nul_not_mem_text]

/-- The line that `send_multicast` formats. -/
def multicast_text (current_group username message : Bytes) : Bytes :=
  text "[GROUP " ++ current_group ++ text "] " ++ username ++ text " : " ++ message

section Functions

namespace Process

variable {process : Process} {round : Round} {answer : Answer} {name message behind rest : Bytes}

theorem send_p2p_refused (hname : Types USERNAME_SIZE name process.stdin rest)
    (hreply : round.received = some (format_message answer.text)) (hrefusal : answer.refusal = true) :
    ∃ next, process.send_p2p round = .ok (next, .running) ∧
      process.Advances process.globals [.request (text "P2P " ++ name)] rest next := by
  obtain ⟨left, received, hreceive, hstring, hbytes⟩ :=
    receive_format_message round.response le_rfl answer.text
  have hscan : scan_p2p received.bytes = .ok none := by
    rw [hbytes, scan_p2p_cstr, scan_p2p_refusal hrefusal]
  simp only [send_p2p, send_p2p_eq hname, Result.ok_bind, hreply, hreceive, reduceCtorEq, if_false,
    Option.getD_some, hstring, hscan, Result.pure_eq_ok]
  refine ⟨_, rfl, ?_⟩
  constructor <;> simp [Call.text]

theorem send_p2p_answered {selected : Nat} {ip : Bytes} {port : BitVec 32}
    (hname : Types USERNAME_SIZE name process.stdin (behind ++ 10 :: (message ++ 10 :: rest)))
    (hbehind : 10 ∉ behind) (hmessage : TypedLine BUFFER_SIZE message)
    (hip : TypedWord server.INET_ADDRSTRLEN ip) (hport : IsPort port)
    (hreply : round.received =
      some (format_message (Answer.p2p_address name selected ip port).text)) :
    ∃ next, process.send_p2p round = .ok (next, .running) ∧
      process.Advances process.globals [.request (text "P2P " ++ name),
        .p2p message ⟨inet_addr ip, htons port⟩] (10 :: rest) next := by
  obtain ⟨left, received, hreceive, hstring, hbytes⟩ := receive_format_message round.response le_rfl
    (Answer.p2p_address name selected ip port).text
  have hscan : scan_p2p received.bytes = .ok (some (name, ip, port)) := by
    rw [hbytes, scan_p2p_cstr, scan_p2p_address selected hname.word hip hport]
  obtain ⟨line, hline, hread⟩ := scanf_line_eq round.line hmessage.ne_nil hmessage.feed_not_mem
    hmessage.nul_not_mem hmessage.length_lt rest
  have hmessage' : cstr line.bytes = message := (CharArray.bytes_of_string hread).symm
  simp only [send_p2p, send_p2p_eq hname, Result.ok_bind, hreply, hreceive, reduceCtorEq, if_false,
    Option.getD_some, hstring, hscan, Result.pure_eq_ok, does_stdin, reads_stdin,
    skip_line_eq hbehind, hline]
  refine ⟨_, rfl, ?_⟩
  constructor <;> simp [Call.text, List.filterMap_cons, hmessage']

theorem create_group_multicast_typed (hname : TypedLine 16 name) (hbehind : 10 ∉ behind)
    (hstdin : process.stdin = behind ++ 10 :: (name ++ 10 :: rest))
    (hreply : round.received = some (format_message answer.text)) :
    ∃ next, process.create_group_multicast round = .ok (next, .running) ∧
      process.Advances process.globals [.request (text "CREATEMULTICAST " ++ name)] (10 :: rest)
        next := by
  obtain ⟨left, received, hreceive, hstring, -⟩ := receive_format_message
    ((Call.create_group_multicast ⟨name, hname.nul_not_mem, hname.length_lt⟩ round.create).array
      (BUFFER_SIZE + 17)) (Nat.le_add_right _ _) answer.text
  simp only [create_group_multicast, prints_stdin, hstdin, read_group_name_eq hname hbehind,
    Result.ok_bind, hreply, hreceive, hstring, Result.pure_eq_ok]
  refine ⟨_, rfl, ?_⟩
  constructor <;> simp [Call.text]

theorem connect_multicast_refused (hname : TypedLine GROUP_SIZE name) (hbehind : 10 ∉ behind)
    (hstdin : process.stdin = behind ++ 10 :: (name ++ 10 :: rest))
    (hreply : round.received = some (format_message answer.text)) (hrefusal : answer.refusal = true) :
    ∃ next, process.connect_multicast round = .ok (next, .running) ∧
      process.Advances process.globals [.request (text "GETMULTICAST " ++ name)] (10 :: rest)
        next := by
  obtain ⟨left, received, hreceive, hstring, hbytes⟩ := receive_format_message
    ((Call.connect_multicast ⟨name, hname.nul_not_mem, hname.length_lt⟩ round.connect).array
      (BUFFER_SIZE + GROUP_SIZE + 1)) (Nat.le_add_right _ (GROUP_SIZE + 1)) answer.text
  have hscan : starts_with received.bytes (text "Multicast IP") = false := by
    rw [hbytes, starts_with_cstr, starts_with_refusal hrefusal]
  simp only [connect_multicast, prints_stdin, hstdin, read_group_name_eq hname hbehind,
    Result.ok_bind, hreply, hreceive, hstring, hscan, Result.pure_eq_ok]
  refine ⟨_, rfl, ?_⟩
  constructor <;> simp [Call.text]

theorem connect_multicast_answered {group_name ip : Bytes} {globals : Client}
    (hname : TypedLine GROUP_SIZE name) (hbehind : 10 ∉ behind)
    (hstdin : process.stdin = behind ++ 10 :: (name ++ 10 :: rest))
    (hip : TypedWord server.INET_ADDRSTRLEN ip)
    (hreply : round.received = some (format_message (Answer.group_address group_name ip).text))
    (hglobals : process.globals.answered round.setsockopt
      (some (⟨name, hname.nul_not_mem, hname.length_lt⟩, ip)) = .ok globals) :
    ∃ next, process.connect_multicast round = .ok (next, .running) ∧
      process.Advances globals [.request (text "GETMULTICAST " ++ name)] (10 :: rest) next := by
  obtain ⟨left, received, hreceive, hstring, hbytes⟩ := receive_format_message
    ((Call.connect_multicast ⟨name, hname.nul_not_mem, hname.length_lt⟩ round.connect).array
      (BUFFER_SIZE + GROUP_SIZE + 1)) (Nat.le_add_right _ (GROUP_SIZE + 1))
      (Answer.group_address group_name ip).text
  have hscan : scan_multicast received.bytes = .ok (some ip) := by
    rw [hbytes, scan_multicast_cstr, scan_multicast_address group_name hip]
  have hstarts : starts_with received.bytes (text "Multicast IP") = true :=
    starts_with_of_scan_multicast hscan
  simp only [connect_multicast, prints_stdin, hstdin, read_group_name_eq hname hbehind,
    Result.ok_bind, hreply, hreceive, hstring, hscan, hstarts, if_true, Result.pure_eq_ok,
    does_globals, reads_globals, prints_globals, hglobals]
  by_cases hsetsockopt : round.setsockopt < 0
  · rw [if_pos hsetsockopt]
    refine ⟨_, rfl, ?_⟩
    constructor <;> simp [Call.text]
  · rw [if_neg hsetsockopt]
    refine ⟨_, rfl, ?_⟩
    constructor <;> simp [Call.text]

theorem send_multicast_typed {current_group : CString GROUP_SIZE}
    (hgroup : process.globals.multicast_ip ≠ INVALID_GROUP)
    (hcurrent : process.globals.current_group.string = .ok current_group)
    (hbehind : 10 ∉ behind) (hmessage : TypedLine BUFFER_SIZE message)
    (hstdin : process.stdin = behind ++ 10 :: (message ++ 10 :: rest)) :
    ∃ next, process.send_multicast round = .ok (next, .running) ∧
      process.Advances process.globals [.multicast
        ((multicast_text current_group.bytes process.username.bytes message).take BUFFER_SIZE)
        process.globals.multicast_addr] (10 :: rest) next := by
  obtain ⟨line, hline, hread⟩ := scanf_line_eq round.line hmessage.ne_nil hmessage.feed_not_mem
    hmessage.nul_not_mem hmessage.length_lt rest
  have hsize : BUFFER_SIZE < round.send.bytes.length := by
    rw [round.send.length_eq]
    exact Nat.lt_add_of_pos_right (by decide)
  have hnul : 0 ∉ multicast_text current_group.bytes process.username.bytes message := by
    have hliterals : 0 ∉ text "[GROUP " ∧ 0 ∉ text "] " ∧ 0 ∉ text " : " := by decide
    simp [multicast_text, hliterals, current_group.nul_not_mem, process.username.nul_not_mem,
      hmessage.nul_not_mem]
  have hstring : cstr ((snprintf round.send.bytes (multicast_text current_group.bytes
      process.username.bytes message)).take BUFFER_SIZE) =
        (multicast_text current_group.bytes process.username.bytes message).take BUFFER_SIZE := by
    rw [cstr_take_snprintf hsize, cstr_eq_self fun hmem => hnul (List.mem_of_mem_take hmem)]
  simp only [send_multicast, if_neg hgroup, hcurrent, Result.ok_bind, does_stdin, hstdin,
    skip_line_eq hbehind, hline, hread, Result.pure_eq_ok]
  refine ⟨_, rfl, ?_⟩
  simp only [multicast_text, List.append_assoc] at hstring
  constructor <;> simp [multicast_text, List.filterMap_cons, hstring]

theorem send_multicast_no_group (hgroup : process.globals.multicast_ip = INVALID_GROUP) :
    ∃ next, process.send_multicast round = .ok (next, .running) ∧
      process.Advances process.globals [] process.stdin next := by
  rw [send_multicast, if_pos hgroup]
  refine ⟨_, rfl, ?_⟩
  constructor <;> simp

/-- The reply of the server has no room in the array of `send_msg`. -/
theorem send_msg_overflow
    (hname : Types USERNAME_SIZE name process.stdin (behind ++ 10 :: (message ++ 10 :: rest)))
    (hbehind : 10 ∉ behind) (hmessage : TypedLine 100 message)
    (hreply : round.received = some (format_message answer.text)) :
    process.send_msg round = .error .overflow := by
  obtain ⟨username, hscan, hstring⟩ := hname.scanf_word_eq round.username
  obtain ⟨line, hline, hread⟩ := scanf_line_eq round.message hmessage.ne_nil hmessage.feed_not_mem
    hmessage.nul_not_mem hmessage.length_lt rest
  simp only [send_msg, prints_stdin, hscan, Result.ok_bind, hstring, skip_line_eq hbehind, hline,
    hread, hreply, receive_overflow line (by decide) answer.text, Result.error_bind]

/-- Without a reply the message has been sent all the same, and `send_msg` leaves the program. -/
theorem send_msg_unanswered
    (hname : Types USERNAME_SIZE name process.stdin (behind ++ 10 :: (message ++ 10 :: rest)))
    (hbehind : 10 ∉ behind) (hmessage : TypedLine 100 message) (hreply : round.received = none) :
    ∃ last, process.send_msg round = .ok (last, .error) ∧ last.globals = process.globals ∧
      last.sent = process.sent ++ [.request (text "MSG " ++ name ++ text " " ++ message)] := by
  obtain ⟨username, hscan, hstring⟩ := hname.scanf_word_eq round.username
  obtain ⟨line, hline, hread⟩ := scanf_line_eq round.message hmessage.ne_nil hmessage.feed_not_mem
    hmessage.nul_not_mem hmessage.length_lt rest
  have hreceive : receive line none = .ok none := by simp [receive]
  simp only [send_msg, prints_stdin, hscan, Result.ok_bind, hstring, hname.word.cut_eq,
    skip_line_eq hbehind, hline, hread, hreply, hreceive, Result.pure_eq_ok]
  refine ⟨_, rfl, rfl, ?_⟩
  simp [Call.text]

end Process

end Functions

section Scripts

/-- What a user enters behind an option, where the server answers: what the client sends for it,
its globals behind it, and the input that is left. -/
inductive Enters (username : CString USERNAME_SIZE) (globals : Client) (round : Round) :
    BitVec 32 → Bytes → List Sent → Client → Bytes → Prop
  | p2p_refused {name stdin rest : Bytes} {answer : Answer}
    (hname : Types USERNAME_SIZE name stdin rest)
    (hreply : round.received = some (format_message answer.text)) (hrefusal : answer.refusal = true) :
    Enters username globals round 2 stdin [.request (text "P2P " ++ name)] globals rest
  | p2p {name message behind stdin rest ip : Bytes} {selected : Nat} {port : BitVec 32}
    (hname : Types USERNAME_SIZE name stdin (behind ++ 10 :: (message ++ 10 :: rest)))
    (hbehind : 10 ∉ behind) (hmessage : TypedLine BUFFER_SIZE message)
    (hip : TypedWord server.INET_ADDRSTRLEN ip) (hport : IsPort port)
    (hreply : round.received =
      some (format_message (Answer.p2p_address name selected ip port).text)) :
    Enters username globals round 2 stdin [.request (text "P2P " ++ name),
      .p2p message ⟨inet_addr ip, htons port⟩] globals (10 :: rest)
  | create {name behind rest : Bytes} {answer : Answer} (hname : TypedLine 16 name)
    (hbehind : 10 ∉ behind) (hreply : round.received = some (format_message answer.text)) :
    Enters username globals round 3 (behind ++ 10 :: (name ++ 10 :: rest))
      [.request (text "CREATEMULTICAST " ++ name)] globals (10 :: rest)
  | connect_refused {name behind rest : Bytes} {answer : Answer} (hname : TypedLine GROUP_SIZE name)
    (hbehind : 10 ∉ behind) (hreply : round.received = some (format_message answer.text))
    (hrefusal : answer.refusal = true) :
    Enters username globals round 4 (behind ++ 10 :: (name ++ 10 :: rest))
      [.request (text "GETMULTICAST " ++ name)] globals (10 :: rest)
  | connect {name behind rest group_name ip : Bytes} {next : Client}
    (hname : TypedLine GROUP_SIZE name) (hbehind : 10 ∉ behind)
    (hip : TypedWord server.INET_ADDRSTRLEN ip)
    (hreply : round.received = some (format_message (Answer.group_address group_name ip).text))
    (hnext : globals.answered round.setsockopt
      (some (⟨name, hname.nul_not_mem, hname.length_lt⟩, ip)) = .ok next) :
    Enters username globals round 4 (behind ++ 10 :: (name ++ 10 :: rest))
      [.request (text "GETMULTICAST " ++ name)] next (10 :: rest)
  | no_group {stdin : Bytes} (hgroup : globals.multicast_ip = INVALID_GROUP) :
    Enters username globals round 5 stdin [] globals stdin
  | multicast {message behind rest : Bytes} {current_group : CString GROUP_SIZE}
    (hgroup : globals.multicast_ip ≠ INVALID_GROUP)
    (hcurrent : globals.current_group.string = .ok current_group) (hbehind : 10 ∉ behind)
    (hmessage : TypedLine BUFFER_SIZE message) :
    Enters username globals round 5 (behind ++ 10 :: (message ++ 10 :: rest))
      [.multicast ((multicast_text current_group.bytes username.bytes message).take BUFFER_SIZE)
        globals.multicast_addr] globals (10 :: rest)
  | unknown {option : BitVec 32} {stdin : Bytes} (hoption : option ∉ [0, 1, 2, 3, 4, 5]) :
    Enters username globals round option stdin [] globals stdin

/-- A client in front of its menu, with what will be typed there. -/
structure Prompt where
  option : BitVec 32
  globals : Client
  stdin : Bytes

/-- A turn of the user at the menu. The rest of the line before goes first. -/
inductive Turn (username : CString USERNAME_SIZE) : Spec Prompt (Round × List Sent)
  | intro {option number : BitVec 32} {globals next : Client} {round : Round} {sent : List Sent}
    {behind line typed rest : Bytes} (hbehind : 10 ∉ behind)
    (hchooses : Chooses option line number typed)
    (henters : Enters username globals round number typed sent next rest) :
    Turn username ⟨option, globals, behind ++ 10 :: line⟩ (round, sent) ⟨number, next, rest⟩

def Process.prompt (process : Process) : Prompt where
  option := process.option
  globals := process.globals
  stdin := process.stdin

namespace Process

variable {process : Process} {round : Round} {prompt : Prompt} {sent : List Sent}

theorem choose_enters {next : Client} {rest : Bytes}
    (henters : Enters process.username process.globals round process.option process.stdin sent next
      rest) :
    ∃ last, process.choose round = .ok (last, .running) ∧ process.Advances next sent rest last := by
  unfold choose
  generalize hoption : process.option = option at henters
  generalize hstdin : process.stdin = stdin at henters
  cases henters with
  | p2p_refused hname hreply hrefusal => exact send_p2p_refused (hstdin ▸ hname) hreply hrefusal
  | p2p hname hbehind hmessage hip hport hreply =>
    exact send_p2p_answered (hstdin ▸ hname) hbehind hmessage hip hport hreply
  | create hname hbehind hreply => exact create_group_multicast_typed hname hbehind hstdin hreply
  | connect_refused hname hbehind hreply hrefusal =>
    exact connect_multicast_refused hname hbehind hstdin hreply hrefusal
  | connect hname hbehind hip hreply hnext =>
    exact connect_multicast_answered hname hbehind hstdin hip hreply hnext
  | no_group hgroup => exact hstdin ▸ send_multicast_no_group hgroup
  | multicast hgroup hcurrent hbehind hmessage =>
    exact send_multicast_typed hgroup hcurrent hbehind hmessage hstdin
  | unknown hunknown =>
    simp only [List.mem_cons, List.not_mem_nil, or_false, not_or] at hunknown
    obtain ⟨h0, h1, h2, h3, h4, h5⟩ := hunknown
    simp only [h0, h1, h2, h3, h4, h5, if_false]
    refine ⟨_, rfl, ?_⟩
    constructor <;> simp [hstdin]

/-- What a round chooses its function by, and what it leaves of the line before. -/
theorem round_eq {behind line typed : Bytes} {number : BitVec 32} (hbehind : 10 ∉ behind)
    (hstdin : process.stdin = behind ++ 10 :: line)
    (hchooses : Chooses process.option line number typed) :
    process.round round =
      { (process.prints menu).reads typed with option := number }.choose round := by
  simp only [Process.round, prints_stdin, hstdin, skip_line_eq hbehind, prints_option,
    hchooses.scanf_int_eq]

/-- A turn is a round of the loop. -/
theorem round_turn (hturn : Turn process.username process.prompt (round, sent) prompt) :
    ∃ next, process.round round = .ok (next, .running) ∧ next.username = process.username ∧
      next.prompt = prompt ∧ next.sent = process.sent ++ sent := by
  generalize hstart : process.prompt = start at hturn
  cases hturn with
  | @intro option number globals next _ _ behind line typed rest hbehind hchooses henters =>
    obtain ⟨hoption, hglobals, hstdin⟩ := Prompt.mk.inj hstart
    let chosen : Process := { (process.prints menu).reads typed with option := number }
    have henters' : Enters chosen.username chosen.globals round chosen.option chosen.stdin sent next
        rest := hglobals ▸ henters
    obtain ⟨last, hchoose, hadvances⟩ := choose_enters henters'
    have hround : process.round round = chosen.choose round :=
      round_eq hbehind hstdin (hoption ▸ hchooses)
    refine ⟨last, hround.trans hchoose, hadvances.username_eq, ?_, ?_⟩
    · rw [prompt, hadvances.globals_eq, hadvances.option_eq, hadvances.stdin_eq]
    · rw [hadvances.sent_eq]
      exact congrArg (· ++ sent) (prints_sent process menu)

/-- Turns of the user are rounds of the loop, one after the other. -/
theorem options_turns {script : List (Round × List Sent)}
    (hscript : Spec.Runs (Turn process.username) process.prompt script prompt) (more : List Round) :
    ∃ next : Process, process.options (script.map Prod.fst ++ more) = next.options more ∧
      next.username = process.username ∧ next.prompt = prompt ∧
      next.sent = process.sent ++ script.flatMap Prod.snd := by
  induction script generalizing process with
  | nil =>
    cases hscript
    exact ⟨process, rfl, rfl, rfl, (List.append_nil _).symm⟩
  | cons turn script ih =>
    cases hscript with
    | cons hturn hrest =>
      obtain ⟨middle, hround, husername, hprompt, hsent⟩ := round_turn hturn
      rw [← husername, ← hprompt] at hrest
      obtain ⟨next, hoptions, husername', hprompt', hsent'⟩ := ih hrest
      refine ⟨next, ?_, husername'.trans husername, hprompt', ?_⟩
      · rw [List.map_cons, List.cons_append, options, hround]
        exact hoptions
      · rw [hsent', hsent, List.flatMap_cons, List.append_assoc]

theorem round_exit {behind line typed : Bytes} (hbehind : 10 ∉ behind)
    (hstdin : process.stdin = behind ++ 10 :: line) (hchooses : Chooses process.option line 0 typed) :
    ∃ last : Process, process.round round = .ok (last, .left) ∧ last.globals = process.globals ∧
      last.sent = process.sent := by
  rw [round_eq hbehind hstdin hchooses]
  refine ⟨_, rfl, rfl, ?_⟩
  rw [prints_sent]
  exact prints_sent process menu

theorem round_msg {behind line typed behind' name message rest : Bytes} {answer : Answer}
    (hbehind : 10 ∉ behind) (hstdin : process.stdin = behind ++ 10 :: line)
    (hchooses : Chooses process.option line 1 typed)
    (hname : Types USERNAME_SIZE name typed (behind' ++ 10 :: (message ++ 10 :: rest)))
    (hbehind' : 10 ∉ behind') (hmessage : TypedLine 100 message)
    (hreply : round.received = some (format_message answer.text)) :
    process.round round = .error .overflow := by
  rw [round_eq hbehind hstdin hchooses]
  exact send_msg_overflow hname hbehind' hmessage hreply

theorem round_msg_unanswered {behind line typed behind' name message rest : Bytes}
    (hbehind : 10 ∉ behind) (hstdin : process.stdin = behind ++ 10 :: line)
    (hchooses : Chooses process.option line 1 typed)
    (hname : Types USERNAME_SIZE name typed (behind' ++ 10 :: (message ++ 10 :: rest)))
    (hbehind' : 10 ∉ behind') (hmessage : TypedLine 100 message) (hreply : round.received = none) :
    ∃ last : Process, process.round round = .ok (last, .error) ∧ last.globals = process.globals ∧
      last.sent = process.sent ++ [.request (text "MSG " ++ name ++ text " " ++ message)] := by
  let chosen : Process := { (process.prints menu).reads typed with option := 1 }
  have hname : Types USERNAME_SIZE name chosen.stdin (behind' ++ 10 :: (message ++ 10 :: rest)) :=
    hname
  obtain ⟨last, hsend, hkept, hsent⟩ := send_msg_unanswered hname hbehind' hmessage hreply
  have hround : process.round round = chosen.choose round := round_eq hbehind hstdin hchooses
  refine ⟨last, hround.trans hsend, hkept, hsent.trans ?_⟩
  exact congrArg (· ++ _) (prints_sent process menu)

theorem round_waits (hstdin : 10 ∉ process.stdin) :
    ∃ last : Process, process.round round = .ok (last, .waits) ∧ last.globals = process.globals ∧
      last.sent = process.sent := by
  have hskip : skip_line process.stdin = none := by rw [skip_line, if_neg hstdin]
  simp only [Process.round, prints_stdin, hskip, Result.pure_eq_ok]
  exact ⟨_, rfl, rfl, prints_sent process menu⟩

theorem options_cons_ended {last : Process} {status : Status} (hstatus : status ≠ .running)
    (hround : process.round round = .ok (last, status)) (more : List Round) :
    process.options (round :: more) = .ok (last, status) := by
  rw [options, hround]
  cases status <;> first | rfl | exact absurd rfl hstatus

end Process

variable {username password stdin typed rest name : Bytes} {start : Start} {port : BitVec 32}
  {prompt : Prompt} {script : List (Round × List Sent)} {round : Round} {more : List Round} {u : Nat}
  {client_server p2p group : Bytes}

/-- A login that the server accepts leads to the menu. -/
theorem main_eq_options (husername : Types USERNAME_SIZE username stdin typed)
    (hpassword : Types PASSWORD_SIZE password typed rest) (hport : IsPort port)
    (hlogin : start.login = some (format_message (Answer.login_successful u).text))
    (hport' : start.port = some (format_message (Answer.session_port port).text))
    (hpermissions : start.permissions =
      some (format_message (Answer.permissions client_server p2p group).text)) :
    ∃ process : Process, main start stdin = process.options start.rounds ∧
      process.username = ⟨username, husername.word.nul_not_mem, husername.word.length_lt⟩ ∧
      process.prompt = ⟨start.option, Client.authenticated port, rest⟩ ∧
      .bind (htons port) ∈ process.done ∧
      process.sent = [.request (text "LOGIN " ++ username ++ text " " ++ password)] := by
  obtain ⟨a, hscan, hstring⟩ := husername.scanf_word_eq (.ofBytes USERNAME_SIZE [])
  obtain ⟨b, hscan', hstring'⟩ := hpassword.scanf_word_eq (.ofBytes PASSWORD_SIZE [])
  let call := Call.authenticate ⟨username, husername.word.nul_not_mem, husername.word.length_lt⟩
    ⟨password, hpassword.word.nul_not_mem, hpassword.word.length_lt⟩ start.message
  obtain ⟨m, r, hreceive, hread, hbytes⟩ := receive_format_message (call.array BUFFER_SIZE) le_rfl
    (Answer.login_successful u).text
  obtain ⟨m', r', hreceive', hread', hbytes'⟩ := receive_format_message m le_rfl
    (Answer.session_port port).text
  obtain ⟨m'', r'', hreceive'', hread'', -⟩ := receive_format_message m' le_rfl
    (Answer.permissions client_server p2p group).text
  have hlogged : strcmp r.bytes (text "Login successfully\n") = 0 := by
    have hsame := strcmp_eq_zero_iff.mp (strcmp_login_successful u)
    rw [strcmp_eq_zero_iff, hbytes, cstr_cstr, hsame]
  have hnumber : sscanf r'.bytes [.int] = .ok [.int port] := by
    have hlength := hport.length_le
    have hfeed : (text "\n").length = 1 ∧ 0 ∉ text "\n" := by decide
    have hsize : server.BUFFER_SIZE = 1000 := rfl
    rw [hbytes', server.cstr_format_message, Answer.text, hport.sscanf_eq]
    · simp [Answer.text, hport.nul_not_mem, hfeed]
    · simp only [Answer.text, List.length_append]
      omega
  simp only [main, hscan, Result.ok_bind, hscan', hstring, hstring', hlogin, hreceive, hread, hlogged,
    if_true, hport', hreceive', hread', hnumber, hpermissions, hreceive'', hread'', call]
  refine ⟨_, rfl, rfl, rfl, ?_, ?_⟩
  · simp [Process.does, Process.becomes]
  · simp [Process.sent, Process.does, Process.becomes, List.filterMap_cons, Call.text]

/-- What is typed at a terminal is what the client does. It logs in, and behind any turns at the
menu it has sent exactly what these turns ask for, in their order. It then leaves with the option
0, it waits where the input ends, and a message through the server ends it: the reply runs over
its array, and without a reply it leaves through its error with the message sent. -/
theorem client_session (husername : Types USERNAME_SIZE username stdin typed)
    (hpassword : Types PASSWORD_SIZE password typed rest) (hport : IsPort port)
    (hlogin : start.login = some (format_message (Answer.login_successful u).text))
    (hport' : start.port = some (format_message (Answer.session_port port).text))
    (hpermissions : start.permissions =
      some (format_message (Answer.permissions client_server p2p group).text))
    (hscript : Spec.Runs
      (Turn ⟨username, husername.word.nul_not_mem, husername.word.length_lt⟩)
      ⟨start.option, Client.authenticated port, rest⟩ script prompt)
    (hrounds : start.rounds = script.map Prod.fst ++ round :: more) :
    (∀ behind line typed, prompt.stdin = behind ++ 10 :: line → 10 ∉ behind →
      Chooses prompt.option line 0 typed → ∃ last : Process, main start stdin = .ok (last, .left) ∧
        last.globals = prompt.globals ∧ last.sent =
          .request (text "LOGIN " ++ username ++ text " " ++ password) ::
            script.flatMap Prod.snd) ∧
    (10 ∉ prompt.stdin → ∃ last : Process, main start stdin = .ok (last, .waits) ∧
      last.globals = prompt.globals ∧ last.sent =
        .request (text "LOGIN " ++ username ++ text " " ++ password) :: script.flatMap Prod.snd) ∧
    (∀ behind line typed behind' name message rest answer, prompt.stdin = behind ++ 10 :: line →
      10 ∉ behind → Chooses prompt.option line 1 typed →
      Types USERNAME_SIZE name typed (behind' ++ 10 :: (message ++ 10 :: rest)) → 10 ∉ behind' →
      TypedLine 100 message → round.received = some (format_message (Answer.text answer)) →
      main start stdin = .error .overflow) ∧
    ∀ behind line typed behind' name message rest, prompt.stdin = behind ++ 10 :: line →
      10 ∉ behind → Chooses prompt.option line 1 typed →
      Types USERNAME_SIZE name typed (behind' ++ 10 :: (message ++ 10 :: rest)) → 10 ∉ behind' →
      TypedLine 100 message → round.received = none →
      ∃ last : Process, main start stdin = .ok (last, .error) ∧ last.globals = prompt.globals ∧
        last.sent = .request (text "LOGIN " ++ username ++ text " " ++ password) ::
          (script.flatMap Prod.snd ++
            [.request (text "MSG " ++ name ++ text " " ++ message)]) := by
  obtain ⟨process, hmain, huser, hprompt, -, hsent⟩ :=
    main_eq_options husername hpassword hport hlogin hport' hpermissions
  rw [← huser, ← hprompt] at hscript
  obtain ⟨next, hoptions, -, hnext, hsent'⟩ := Process.options_turns hscript (round :: more)
  have hrun : main start stdin = next.options (round :: more) := by
    rw [hmain, hrounds, hoptions]
  have hstdin : next.stdin = prompt.stdin := congrArg Prompt.stdin hnext
  have hoption : next.option = prompt.option := congrArg Prompt.option hnext
  have hglobals : next.globals = prompt.globals := congrArg Prompt.globals hnext
  rw [hsent] at hsent'
  rw [hrun, ← hstdin, ← hoption, ← hglobals]
  refine ⟨fun behind line typed heq hbehind hchooses => ?_, fun hwaits => ?_, ?_, ?_⟩
  · obtain ⟨last, hround, hkept, hsame⟩ := Process.round_exit hbehind heq hchooses
    exact ⟨last, Process.options_cons_ended (by decide) hround more, hkept, hsame.trans hsent'⟩
  · obtain ⟨last, hround, hkept, hsame⟩ := Process.round_waits hwaits
    exact ⟨last, Process.options_cons_ended (by decide) hround more, hkept, hsame.trans hsent'⟩
  · intro behind line typed behind' name message rest answer heq hbehind hchooses hname hbehind'
      hmessage hreply
    rw [Process.options, Process.round_msg hbehind heq hchooses hname hbehind' hmessage hreply]
    rfl
  · intro behind line typed behind' name message rest heq hbehind hchooses hname hbehind' hmessage
      hreply
    obtain ⟨last, hround, hkept, hsame⟩ :=
      Process.round_msg_unanswered hbehind heq hchooses hname hbehind' hmessage hreply
    exact ⟨last, Process.options_cons_ended (by decide) hround more, hkept, by
      rw [hsame, hsent']
      rfl⟩

/-- A client logs in, creates a group, and leaves. -/
theorem client_session_witness : ∃ (start : Start) (last : Process),
    main start (text "ana\npw\n3\nteam\n0\n") = .ok (last, .left) ∧
      last.sent = [.request (text "LOGIN ana pw"), .request (text "CREATEMULTICAST team")] := by
  let created := Round.blank (some (format_message
    (Answer.group_created (text "team") (text "239.0.0.1")).text))
  let start : Start := {
    message := .ofBytes _ []
    option := 9
    login := some (format_message (Answer.login_successful 0).text)
    port := some (format_message (Answer.session_port 5000).text)
    permissions := some (format_message
      (Answer.permissions (text "YES") (text "YES") (text "YES")).text)
    rounds := [created, .blank none] }
  have hana : Types USERNAME_SIZE (text "ana") (text "ana\npw\n3\nteam\n0\n")
      (text "\npw\n3\nteam\n0\n") :=
    ⟨⟨by decide, by decide, by decide, by decide⟩, ⟨[], by decide, by simp⟩,
      breaks_cons (by decide) _⟩
  have hpw : Types PASSWORD_SIZE (text "pw") (text "\npw\n3\nteam\n0\n")
      ([] ++ 10 :: text "3\nteam\n0\n") :=
    ⟨⟨by decide, by decide, by decide, by decide⟩, ⟨[10], by decide, by decide⟩,
      breaks_cons (by decide) _⟩
  have hthree : Chooses 9 (text "3\nteam\n0\n") 3 ([] ++ 10 :: (text "team" ++ 10 :: text "0\n")) :=
    @Chooses.number 9 [] _ 3 (by simp) (by decide) (not_isdigit_head rfl rfl)
  have hzero : Chooses 3 (text "0\n") 0 [10] :=
    @Chooses.number 3 [] _ 0 (by simp) (by decide) (not_isdigit_head rfl rfl)
  have hscript : Spec.Runs (Turn ⟨text "ana", hana.word.nul_not_mem, hana.word.length_lt⟩)
      ⟨9, Client.authenticated 5000, [] ++ 10 :: text "3\nteam\n0\n"⟩
      [(created, [.request (text "CREATEMULTICAST " ++ text "team")])]
      ⟨3, Client.authenticated 5000, [] ++ 10 :: text "0\n"⟩ :=
    .single (.intro (by simp) hthree
      (.create ⟨by decide, by decide, by decide, by decide⟩ (by simp) rfl))
  have hlogin : start.login = some (format_message (Answer.login_successful 0).text) := rfl
  obtain ⟨hleaves, -, -, -⟩ := client_session hana hpw ⟨by decide⟩ hlogin rfl rfl hscript rfl
  obtain ⟨last, hmain, -, hsent⟩ := hleaves [] (text "0\n") [10] rfl (by simp) hzero
  exact ⟨start, last, hmain, hsent⟩

end Scripts

end rc_project.client
