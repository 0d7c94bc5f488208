import RcProject.Server.Memory
import RcProject.Server.Strings

open rc_project.avl_tree rc_project.blocks rc_project.c_string rc_project.scanf

namespace rc_project.server

namespace Memory

variable (memory : Memory)

/-- `init_client_session`. The new session is built in a block whose client
pointer is never set. -/
def init_client_session (sock : sockaddr_in) : Result (Memory × Option Nat) := do
  let ip ← strcpy memory.sessions.fresh.ip (inet_ntop sock.sin_addr)
  let session : client_session_t :=
    { memory.sessions.fresh with
      port := sock.sin_port.setWidth 32, ip, sock, len := 16, socket := memory.udp_socket,
      logged_in := 0 }
  let sessions := memory.sessions.alloc session
  let cmp := session_cmp sessions.contents
  match ← avl_get cmp memory.user_session_list memory.sessions.brk with
  | none => do
    let (_, user_session_list, _) ←
      avl_add cmp memory.user_session_list memory.sessions.brk false false
    let client_session ← avl_get cmp user_session_list memory.sessions.brk
    return ({ memory with user_session_list, sessions }, client_session)
  | some client_session => return (memory, some client_session)

end Memory

/-- `answer[flag]` of `cmd_login` -/
def Locals.permission (locals : Locals) (flag : BitVec 32) : Bytes :=
  if flag = 0 then text "NO" else if flag = 1 then text "YES" else locals.answer flag

/-- What `cmd_login` does when the password is right. -/
def login (memory : Memory) (client database_client : Nat) (locals : Locals) :
    Result (Memory × List Output) := do
  let session := memory.sessions.contents client
  let record := memory.clients.contents database_client
  let ip ← strcpy record.ip session.ip.bytes
  let clients := memory.clients.store database_client { record with port := session.port, ip }
  let sessions := memory.sessions.store client
    { session with client := some database_client, logged_in := 1 }
  let memory := { memory with clients, sessions }
  return (memory, [
    memory.send_udp_message client (.login_successful database_client),
    memory.send_udp_message client (.session_port session.port),
    memory.send_udp_message client (.permissions (locals.permission record.client_server)
      (locals.permission record.p2p) (locals.permission record.group))])

def cmd_login (memory : Memory) (client : Nat) (args : Bytes) (locals : Locals) :
    Result (Memory × List Output) := do
  let session := memory.sessions.contents client
  if session.logged_in ≠ 0 then
    return (memory, [memory.send_udp_message client .already_logged_in])
  else
    match ← sscanf args [.word USERNAME_SIZE, .space, .word PASSWORD_SIZE] with
    | [.string username, .string password] => do
      match ← memory.find_user username with
      | none => return (memory, [memory.send_udp_message client .user_not_found])
      | some database_client =>
        let record := memory.clients.contents database_client
        if strcmp session.ip.bytes record.ip_string ≠ 0 then
          return (memory, [memory.send_udp_message client .different_ip])
        else if strcmp record.password_string password = 0 then
          login memory client database_client locals
        else
          return (memory, [memory.send_udp_message client .wrong_password])
    | _ => return (memory, [memory.send_udp_message client .login_usage])

/-- The `sendto` of `cmd_msg`: the first bytes of the formatted array go to the
address of the selected session, at its port in swapped order. -/
def relay (memory : Memory) (client sender : Nat) (username message : Bytes) (selected : Nat)
    (locals : Locals) : Output :=
  let session := memory.sessions.contents client
  let client_session := memory.sessions.contents selected
  let formatted := (memory.clients.contents sender).username_string ++ text " (" ++
    cstr session.ip.bytes ++ text ":" ++ format_int session.port ++ text ") : " ++ message
  let send_message := snprintf locals.send_message.bytes formatted
  .relay client username selected client_session.socket (send_message.take BUFFER_SIZE)
    { sin_addr := client_session.sock.sin_addr, sin_port := htons client_session.port }

def cmd_msg (memory : Memory) (client : Nat) (args : Bytes) (locals : Locals) :
    Result (Memory × List Output) := do
  let session := memory.sessions.contents client
  if session.logged_in = 0 then
    return (memory, [memory.send_udp_message client .not_logged_in])
  else do
    let sender ← Result.deref session.client
    if (memory.clients.contents sender).client_server = 0 then
      return (memory, [memory.send_udp_message client .no_permission])
    else
      match ← sscanf args [.word USERNAME_SIZE, .space, .line BUFFER_SIZE, .literal 115] with
      | [.string username, .string message] => do
        match ← memory.find_user username with
        | none => return (memory, [memory.send_udp_message client .user_not_found])
        | some database_client =>
          match ← memory.find_session database_client with
          | none => return (memory, [memory.send_udp_message client .session_not_found])
          | some client_session =>
            return (memory, [relay memory client sender username message client_session locals,
              memory.send_udp_message client .message_sent])
      | _ => return (memory, [memory.send_udp_message client .msg_usage])

def cmd_p2p (memory : Memory) (client : Nat) (args : Bytes) : Result (Memory × List Output) := do
  let session := memory.sessions.contents client
  if session.logged_in = 0 then
    return (memory, [memory.send_udp_message client .not_logged_in])
  else do
    let sender ← Result.deref session.client
    if (memory.clients.contents sender).p2p = 0 then
      return (memory, [memory.send_udp_message client .no_permission])
    else
      match ← sscanf args [.word USERNAME_SIZE] with
      | [.string username] => do
        match ← memory.find_user username with
        | none => return (memory, [memory.send_udp_message client .user_not_found])
        | some database_client =>
          match ← memory.find_session database_client with
          | none => return (memory, [memory.send_udp_message client .session_not_found])
          | some client_session =>
            let found := memory.sessions.contents client_session
            return (memory, [memory.send_udp_message client
              (.p2p_address username client_session (cstr found.ip.bytes) found.port)])
      | _ => return (memory, [memory.send_udp_message client .p2p_usage])

/-- The lookup of a group by name: `new_group(group_name, "")` and `avl_get` on
`group_list`. -/
def Memory.find_group (memory : Memory) (group : group_t) : Result (Option Nat) :=
  avl_get (group_cmp (memory.group_blocks.scratch group).contents) memory.group_list
    memory.group_blocks.brk

def cmd_createmulticast (memory : Memory) (client : Nat) (args : Bytes) :
    Result (Memory × List Output) := do
  let session := memory.sessions.contents client
  if session.logged_in = 0 then
    return (memory, [memory.send_udp_message client .not_logged_in])
  else
    match ← sscanf args [.word MAX_GROUP_NAME] with
    | [.string group_name] => do
      let sender ← Result.deref session.client
      if (memory.clients.contents sender).group = 0 then
        return (memory, [memory.send_udp_message client .no_permission])
      else do
        let group ← new_group memory.group_blocks.fresh group_name []
        let temp_group ← memory.find_group group
        if temp_group ≠ none then
          return (memory, [memory.send_udp_message client .duplicated_group])
        else if memory.current_group < max_groups then do
          let ip := groups.getD memory.current_group []
          let group_ip ← strcpy group.ip ip
          let group_blocks := memory.group_blocks.alloc { group with ip := group_ip }
          let (_, group_list, _) ← avl_add (group_cmp group_blocks.contents) memory.group_list
            memory.group_blocks.brk true false
          return ({ memory with
              group_list, group_blocks, current_group := memory.current_group + 1 },
            [memory.send_udp_message client (.group_created group_name ip)])
        else
          return (memory, [memory.send_udp_message client .too_many_groups])
    | _ => return (memory, [memory.send_udp_message client .create_usage])

def cmd_getmulticast (memory : Memory) (client : Nat) (args : Bytes) :
    Result (Memory × List Output) := do
  let session := memory.sessions.contents client
  if session.logged_in = 0 then
    return (memory, [memory.send_udp_message client .not_logged_in])
  else
    match ← sscanf args [.word MAX_GROUP_NAME] with
    | [.string group_name] => do
      let sender ← Result.deref session.client
      if (memory.clients.contents sender).group = 0 then
        return (memory, [memory.send_udp_message client .no_permission])
      else do
        let group ← new_group memory.group_blocks.fresh group_name []
        let temp_group ← memory.find_group group
        match temp_group with
        | none => return (memory, [memory.send_udp_message client .group_not_found])
        | some found =>
          let ip := cstr (memory.group_blocks.contents found).ip.bytes
          return (memory, [memory.send_udp_message client (.group_address group_name ip)])
    | _ => return (memory, [memory.send_udp_message client .get_usage])

inductive ClientCommand
  | LOGIN
  | MSG
  | P2P
  | CREATEMULTICAST
  | GETMULTICAST
  deriving DecidableEq, Repr

def client_commands : List (Bytes × ClientCommand) :=
  [(text "LOGIN", .LOGIN), (text "MSG", .MSG), (text "P2P", .P2P),
    (text "CREATEMULTICAST", .CREATEMULTICAST), (text "GETMULTICAST", .GETMULTICAST)]

/-- The table `client_cmd_functions`. -/
def client_cmd_functions (memory : Memory) (client : Nat) (args : Bytes) (locals : Locals) :
    ClientCommand → Result (Memory × List Output)
  | .LOGIN => cmd_login memory client args locals
  | .MSG => cmd_msg memory client args locals
  | .P2P => cmd_p2p memory client args
  | .CREATEMULTICAST => cmd_createmulticast memory client args
  | .GETMULTICAST => cmd_getmulticast memory client args

/-- The argument `client->client->username` of the log, where the pointer is not NULL. A pointer
that leads to no record is followed to bytes that the source does not determine. -/
def logged_username (memory : Memory) (client : Nat) : Result (Option Bytes) :=
  match (memory.sessions.contents client).client with
  | none => return none
  | some user =>
    if user < memory.clients.brk then return some (memory.clients.contents user).username_string
    else throw .wild_pointer

/-- `none` where the source returns 0. -/
def client_cmd_function (memory : Memory) (client : Nat) (command : Bytes) (locals : Locals) :
    Result (Option (Memory × List Output)) := do
  let (_, found) ← dispatch client_commands command
  let _ ← logged_username memory client
  match found with
  | none => return none
  | some (function, args) => do
    let result ← client_cmd_functions memory client args locals function
    return some result

/-- The buffer behind `recvfrom` and `buffer[n] = '\0'`. The terminator of a
datagram that fills the buffer lands right behind it. -/
def recvfrom (buffer : CharArray BUFFER_SIZE) (datagram : Bytes) : Bytes :=
  let received := datagram.take BUFFER_SIZE
  received ++ 0 :: buffer.bytes.drop (received.length + 1)

/-- The loop body of `udp_server_worker` for a datagram that was received. -/
def udp_server_worker (memory : Memory) (client_sock : sockaddr_in) (datagram : Bytes)
    (locals : Locals) : Result (Memory × List Output) := do
  let buffer ← remove_end_line (recvfrom locals.buffer datagram)
  let (memory, client_session) ← memory.init_client_session client_sock
  let client_session ← Result.deref client_session
  match ← client_cmd_function memory client_session buffer locals with
  | none => return (memory, [memory.send_udp_message client_session .command_not_found])
  | some result => return result

end rc_project.server
