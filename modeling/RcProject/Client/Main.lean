import RcProject.Library.Scanf
import RcProject.Library.Transition
import RcProject.Server.Structs

open rc_project.c_string rc_project.scanf rc_project.transition
open rc_project.server (in_addr sockaddr_in htons INET_ADDRSTRLEN)

namespace rc_project.client

def BUFFER_SIZE : Nat := 1000
def USERNAME_SIZE : Nat := 16
def PASSWORD_SIZE : Nat := 32
def GROUP_SIZE : Nat := 16
def MULTICAST_PORT : BitVec 32 := 9000

/-- The `unsigned long` 1. `inet_pton` overwrites its first four bytes. -/
def INVALID_GROUP : in_addr := ⟨1, 0, 0, 0⟩

/-- A function of the client that sends a request, with the strings that it has read
from its prompts and with the array that it formats the request in. `send_p2p` also
has the array of its message. -/
inductive Call
  | authenticate (username : CString USERNAME_SIZE) (password : CString PASSWORD_SIZE)
      (message : CharArray BUFFER_SIZE)
  | send_msg (username : CString USERNAME_SIZE) (message : CString 100)
      (msg : CharArray BUFFER_SIZE)
  | send_p2p (username : CString USERNAME_SIZE) (msg : CharArray BUFFER_SIZE)
  | create_group_multicast (group_name : CString 16) (message : CharArray (BUFFER_SIZE + 17))
  | connect_multicast (group_name : CString GROUP_SIZE)
      (message : CharArray (BUFFER_SIZE + GROUP_SIZE + 1))
  deriving DecidableEq

namespace Call

/-- What the request says. -/
def text : Call → Bytes
  | .authenticate username password _ =>
    c_string.text "LOGIN " ++ username.bytes ++ c_string.text " " ++ password.bytes
  | .send_msg username message _ =>
    c_string.text "MSG " ++ username.bytes ++ c_string.text " " ++ message.bytes
  | .send_p2p username _ => c_string.text "P2P " ++ username.bytes
  | .create_group_multicast group_name _ => c_string.text "CREATEMULTICAST " ++ group_name.bytes
  | .connect_multicast group_name _ => c_string.text "GETMULTICAST " ++ group_name.bytes

/-- The array that the request is formatted in, as it was before. -/
def buffer : Call → Bytes
  | .authenticate _ _ message => message.bytes
  | .send_msg _ _ msg => msg.bytes
  | .send_p2p _ msg => msg.bytes
  | .create_group_multicast _ message => message.bytes
  | .connect_multicast _ message => message.bytes

/-- The `sendto` of the request: the first bytes of the array, with what the stack
held behind the text. -/
def datagram (call : Call) : Bytes := (snprintf call.buffer call.text).take BUFFER_SIZE

/-- No array is shorter than what is sent of it. -/
theorem le_length_buffer (call : Call) : BUFFER_SIZE ≤ call.buffer.length := by
  cases call with
  | authenticate _ _ message => exact message.length_eq.ge
  | send_msg _ _ msg => exact msg.length_eq.ge
  | send_p2p _ msg => exact msg.length_eq.ge
  | create_group_multicast _ message =>
    rw [buffer, message.length_eq]
    exact Nat.le_add_right _ _
  | connect_multicast _ message =>
    rw [buffer, message.length_eq, Nat.add_assoc]
    exact Nat.le_add_right _ _

end Call

section Prompts

/-- `authenticate` up to its request, with the input that is left. -/
def authenticate (username : CharArray USERNAME_SIZE) (password : CharArray PASSWORD_SIZE)
    (message : CharArray BUFFER_SIZE) (stdin : Bytes) : Result (Call × Bytes) := do
  let (username, stdin) ← scanf_word username stdin
  let (password, stdin) ← scanf_word password stdin
  let username ← username.string
  let password ← password.string
  return (.authenticate username password message, stdin)

/-- `send_msg` up to its request. `none` where it waits for the end of a line. -/
def send_msg (username : CharArray USERNAME_SIZE) (message : CharArray 100)
    (msg : CharArray BUFFER_SIZE) (stdin : Bytes) : Result (Option (Call × Bytes)) := do
  let (username, stdin) ← scanf_word username stdin
  let username ← username.string
  let username := username.cut 10
  match skip_line stdin with
  | none => return none
  | some stdin => do
    let (message, stdin) ← scanf_line message stdin
    let message ← message.string
    return some (.send_msg username message msg, stdin)

/-- `send_p2p` up to its request. -/
def send_p2p (username : CharArray USERNAME_SIZE) (msg : CharArray BUFFER_SIZE) (stdin : Bytes) :
    Result (Call × Bytes) := do
  let (username, stdin) ← scanf_word username stdin
  let username ← username.string
  let username := username.cut 10
  return (.send_p2p username msg, stdin)

/-- The prompt of the two functions for groups. -/
def read_group_name {size : Nat} (group_name : CharArray size) (stdin : Bytes) :
    Result (Option (CString size × Bytes)) := do
  match skip_line stdin with
  | none => return none
  | some stdin => do
    let (group_name, stdin) ← scanf_line group_name stdin
    let group_name ← group_name.string
    return some (group_name, stdin)

/-- `create_group_multicast` up to its request. -/
def create_group_multicast (group_name : CharArray 16) (message : CharArray (BUFFER_SIZE + 17))
    (stdin : Bytes) : Result (Option (Call × Bytes)) := do
  match ← read_group_name group_name stdin with
  | none => return none
  | some (group_name, stdin) => return some (.create_group_multicast group_name message, stdin)

/-- `connect_multicast` up to its request. -/
def connect_multicast (group_name : CharArray GROUP_SIZE)
    (message : CharArray (BUFFER_SIZE + GROUP_SIZE + 1)) (stdin : Bytes) :
    Result (Option (Call × Bytes)) := do
  match ← read_group_name group_name stdin with
  | none => return none
  | some (group_name, stdin) => return some (.connect_multicast group_name message, stdin)

end Prompts

section Replies

/-- `starts_with` -/
def starts_with (a b : Bytes) : Bool :=
  if (cstr b).length > (cstr a).length then false
  else (List.range (cstr b).length).all fun i => a.getD i 0 = b.getD i 0

/-- The directives of a part of a format without conversions. -/
def directives (literal : String) : List Directive :=
  (text literal).map fun c => if isspace c then .space else .literal c

/-- `sscanf` of `send_p2p` on the response: the user, the ip and the port where all
three are there. -/
def scan_p2p (response : Bytes) : Result (Option (Bytes × Bytes × BitVec 32)) := do
  match ← sscanf (cstr response) (.word USERNAME_SIZE :: directives " IP: " ++
      .word INET_ADDRSTRLEN :: directives " Port: " ++ [.int]) with
  | [.string username, .string ip, .int port] => return some (username, ip, port)
  | _ => return none

/-- `starts_with` and `sscanf` of `connect_multicast` on the message: the ip where it
is there. -/
def scan_multicast (message : Bytes) : Result (Option Bytes) := do
  if starts_with message (text "Multicast IP") then
    match ← sscanf (cstr message) (directives "Multicast IP " ++ [.word INET_ADDRSTRLEN]) with
    | [.string ip] => return some ip
    | _ => return none
  else
    return none

/-- One of the four numbers of an address in text. -/
def octet (digits : Bytes) : Option UInt8 :=
  if digits ≠ [] ∧ (∀ c ∈ digits, isdigit c) ∧ (digits.length = 1 ∨ digits.head? ≠ some 48) ∧
      digitsValue digits < 256 then
    some (UInt8.ofNat (digitsValue digits))
  else none

/-- `inet_pton` for `AF_INET` -/
def inet_pton (src : Bytes) : Option in_addr :=
  match (cstr src).splitOn 46 with
  | [a, b, c, d] => do
    let a ← octet a
    let b ← octet b
    let c ← octet c
    let d ← octet d
    return ⟨a, b, c, d⟩
  | _ => none

end Replies

/-- What a client is about to do: to authenticate, to read one of the three replies
of a login, to show its menu, to read the reply of a function of the menu. -/
inductive Stage
  | start
  | login
  | port
  | permissions
  | menu
  | waiting (call : Call)
  | exited
  deriving DecidableEq

/-- A client, with its globals. -/
structure Client where
  stage : Stage
  message_port : BitVec 32
  multicast_ip : in_addr
  multicast_addr : sockaddr_in
  current_group : CharArray GROUP_SIZE
  deriving DecidableEq

/-- The globals in front of `main`. -/
def Client.initial : Client where
  stage := .start
  message_port := 0
  multicast_ip := INVALID_GROUP
  multicast_addr := ⟨⟨0, 0, 0, 0⟩, 0⟩
  current_group := CharArray.ofBytes _ []

/-- What a client does with its other sockets. -/
inductive Output
  /-- `read_msg` binds its socket to a port. -/
  | bind (sin_port : BitVec 16)
  /-- The `sendto` of `send_p2p`. The address is left in the text that `inet_addr` reads. -/
  | p2p (message : CharArray BUFFER_SIZE) (ip : Bytes) (sin_port : BitVec 16)
  deriving DecidableEq

/-- What a client gets from outside behind a reply: the result of `setsockopt` in
`connect_multicast`, and what the array of `send_p2p` holds behind its prompt. -/
structure Outside where
  setsockopt : Int
  message : CharArray BUFFER_SIZE

/-- A client reads the reply to its request with `recvfrom`, and goes on up to the
next one or up to its menu. The reply of `send_msg` is longer than its array; it is
printed only. -/
def recvfrom (client : Client) : Bytes × Outside → Result (Client × List Output)
  | (reply, outside) =>
    match client.stage with
    | .login =>
      if strcmp reply (text "Login successfully\n") = 0 then
        return ({ client with stage := .port }, [])
      else return ({ client with stage := .exited }, [])
    | .port => do
      match ← sscanf (cstr reply) [.int] with
      | [.int message_port] =>
        return ({ client with stage := .permissions, message_port }, [.bind (htons message_port)])
      | _ => return ({ client with stage := .exited }, [.bind (htons client.message_port)])
    | .permissions => return ({ client with stage := .menu }, [])
    | .waiting (.send_p2p ..) => do
      match ← scan_p2p reply with
      | none => return ({ client with stage := .menu }, [])
      | some (_, ip, port) =>
        return ({ client with stage := .menu }, [.p2p outside.message ip (htons port)])
    | .waiting (.connect_multicast group_name _) => do
      match ← scan_multicast reply with
      | none => return ({ client with stage := .menu }, [])
      | some ip =>
        let multicast_ip := (inet_pton ip).getD client.multicast_ip
        if outside.setsockopt < 0 then
          return ({ client with stage := .menu, multicast_ip }, [])
        else do
          let current_group ← strcpy client.current_group group_name.bytes
          return ({ client with
            stage := .menu, multicast_ip, current_group
            multicast_addr := ⟨multicast_ip, htons MULTICAST_PORT⟩ }, [])
    | .waiting _ => return ({ client with stage := .menu }, [])
    | .start | .menu | .exited => return (client, [])

/-- A client sends a request, where its program has come to the function. -/
def Client.sends (client : Client) (call : Call) : Option Client :=
  match client.stage, call with
  | .start, .authenticate .. => some { client with stage := .login }
  | .menu, .authenticate .. => none
  | .menu, call => some { client with stage := .waiting call }
  | _, _ => none

end rc_project.client
