import RcProject.AvlTree.Defs
import RcProject.Library.Blocks
import RcProject.Library.Scanf
import RcProject.Server.Structs

open rc_project.avl_tree rc_project.blocks rc_project.c_string

namespace rc_project.server

/-- The multicast addresses. -/
def groups : List Bytes :=
  [text "239.0.0.1", text "239.0.0.2", text "239.0.0.3", text "239.0.0.4", text "239.0.0.5",
    text "239.0.0.6"]

def max_groups : Nat := groups.length

/-- The globals of the server, the blocks that its trees point to and the bytes
of the records file. -/
structure Memory where
  user_list : avl_tree_t Nat
  user_session_list : avl_tree_t Nat
  group_list : avl_tree_t Nat
  current_group : Nat
  clients : Blocks client_t
  sessions : Blocks client_session_t
  group_blocks : Blocks group_t
  records : Bytes
  /-- `udp_server->socket` -/
  udp_socket : Int

/-- What the stack holds when a datagram is handled. -/
structure Locals where
  buffer : CharArray BUFFER_SIZE
  send_message : CharArray (BUFFER_SIZE + 100)
  /-- What is read as `answer[flag]` when the flag is neither 0 nor 1. -/
  answer : BitVec 32 → Bytes

/-- The answers of the client commands, with the arguments of their formats.
Where the text does not show it, `record`, `selected` and `group_name` say which
record, session or group the answer is about. -/
inductive Answer
  | command_not_found
  | already_logged_in
  | login_usage
  | user_not_found
  | different_ip
  | login_successful (record : Nat)
  | session_port (port : BitVec 32)
  | permissions (client_server p2p group : Bytes)
  | wrong_password
  | not_logged_in
  | no_permission
  | msg_usage
  | session_not_found
  | message_sent
  | p2p_usage
  | p2p_address (username : Bytes) (selected : Nat) (ip : Bytes) (port : BitVec 32)
  | create_usage
  | duplicated_group
  | group_created (group_name ip : Bytes)
  | too_many_groups
  | get_usage
  | group_not_found
  | group_address (group_name ip : Bytes)
  deriving DecidableEq, Repr

def Answer.text : Answer → Bytes
  | .command_not_found => c_string.text "Command not found\n"
  | .already_logged_in => c_string.text "You are already logged in\n"
  | .login_usage => c_string.text "Invalid usage! Use: LOGIN <USER-ID> <PASSWORD>\n"
  | .user_not_found => c_string.text "User not found\n"
  | .different_ip => c_string.text "You cannot login to this user account. (DIFFERENT IP)\n"
  | .login_successful _ => c_string.text "Login successfully\n"
  | .session_port port => format_int port ++ c_string.text "\n"
  | .permissions client_server p2p group =>
    c_string.text "Current account permissions:\n\tClient-Server: " ++ client_server ++
      c_string.text "\n\tP2P: " ++ p2p ++ c_string.text "\n\tGroup: " ++ group ++
      c_string.text "\n"
  | .wrong_password => c_string.text "Wrong password\n"
  | .not_logged_in => c_string.text "You need to be logged in to perform this command\n"
  | .no_permission => c_string.text "You do not have permission to use this command\n"
  | .msg_usage => c_string.text "Invalid usage! Use: MSG <USER-ID> <MSG>\n"
  | .session_not_found => c_string.text "Couldn't find user session\n"
  | .message_sent => c_string.text "Message sent\n"
  | .p2p_usage => c_string.text "Invalid usage! Use: P2P <USER-ID>\n"
  | .p2p_address username _ ip port =>
    username ++ c_string.text " IP: " ++ ip ++ c_string.text " Port: " ++ format_int port ++
      c_string.text "\n"
  | .create_usage => c_string.text "Invalid usage! Use: CREATEMULTICAST <GROUP-ID>\n"
  | .duplicated_group => c_string.text "Duplicated group name\n"
  | .group_created group_name ip =>
    c_string.text "Group " ++ group_name ++ c_string.text " Multicast ip: " ++ ip ++
      c_string.text "\n"
  | .too_many_groups => c_string.text "Cannot create more groups\n"
  | .get_usage => c_string.text "Invalid usage! Use: GETMULTICAST <GROUP-ID>\n"
  | .group_not_found => c_string.text "Group not found\n"
  | .group_address _ ip => c_string.text "Multicast IP " ++ ip ++ c_string.text "\n"

/-- What the server does outside of its memory. -/
inductive Output
  /-- The `sendto` of `send_udp_message`, with the session that is answered. -/
  | answer (client : Nat) (answer : Answer) (socket : Int) (message : Bytes) (dest : sockaddr_in)
  /-- The `sendto` of `cmd_msg`, with the session that asked for it, the user it
  named and the session that was selected. -/
  | relay (client : Nat) (username : Bytes) (selected : Nat) (socket : Int) (message : Bytes)
      (dest : sockaddr_in)
  /-- `write_fd` and `send_to_client` -/
  | write_fd (fd : Int) (message : Bytes)
  /-- A `write` at the end of the records file. -/
  | write (record : Bytes)
  | ftruncate
  deriving DecidableEq, Repr

/-- What an output does to the bytes of the records file. -/
def Output.onRecords (records : Bytes) : Output → Bytes
  | .write record => records ++ record
  | .ftruncate => []
  | _ => records

/-- `message[BUFFER_SIZE] = {0}` and `vsnprintf` -/
def format_message (formatted : Bytes) : Bytes := snprintf (List.replicate BUFFER_SIZE 0) formatted

section Comparisons

def data_cmp (clients : Nat → client_t) (a b : Nat) : Int :=
  strcmp (clients a).bytes (clients b).bytes

def group_cmp (group_blocks : Nat → group_t) (a b : Nat) : Int :=
  strcmp (group_blocks a).name.bytes (group_blocks b).name.bytes

/-- The difference of the ports wraps around at 32 bits. -/
def session_cmp (sessions : Nat → client_session_t) (a b : Nat) : Int :=
  let ip_cmp := strcmp (sessions a).ip.bytes (sessions b).ip.bytes
  if ip_cmp ≠ 0 then ip_cmp else ((sessions a).port - (sessions b).port).toInt

end Comparisons

namespace Memory

variable (memory : Memory)

/-- `send_udp_message` to the session at an address. -/
def send_udp_message (client : Nat) (answer : Answer) : Output :=
  let session := memory.sessions.contents client
  .answer client answer session.socket (format_message answer.text) session.sock

/-- What an operation on `user_list` does to the records file. -/
def recordOutput : Effect Nat → List Output
  | .write _ data => [.write (memory.clients.contents data).bytes]
  | .ftruncate _ => [.ftruncate]
  | .free _ => []

/-- The user list behind an operation on it, and what that did to the file. -/
def updateUsers (user_list : avl_tree_t Nat) (effects : List (Effect Nat)) :
    Memory × List Output :=
  let outputs := effects.flatMap memory.recordOutput
  ({ memory with user_list, records := outputs.foldl Output.onRecords memory.records }, outputs)

/-- The lookup of a user by name: `new_client(username, "", "", 0, 0, 0)` and
`avl_get` on `user_list`. The block is freed behind it. -/
def find_user (username : Bytes) : Result (Option Nat) := do
  let client_arg ← new_client memory.clients.fresh username [] [] 0 0 0
  let clients := memory.clients.scratch client_arg
  avl_get (data_cmp clients.contents) memory.user_list memory.clients.brk

/-- The lookup of a user's session: `client_temp` takes the address of the
record, its other fields hold what the stack held. -/
def find_session (database_client : Nat) : Result (Option Nat) := do
  let record := memory.clients.contents database_client
  let ip ← strcpy memory.sessions.fresh.ip record.ip_string
  let client_temp := { memory.sessions.fresh with ip, port := record.port }
  let sessions := memory.sessions.scratch client_temp
  avl_get (session_cmp sessions.contents) memory.user_session_list memory.sessions.brk

/-- `avl_add` of a user from a block outside of the tree. -/
def add_user (client : client_t) (free_data write_data : Bool) :
    Result (Int × Memory × List Output) := do
  let clients := memory.clients.alloc client
  let (res, user_list, effects) ←
    avl_add (data_cmp clients.contents) memory.user_list memory.clients.brk free_data write_data
  if res = AVL_DUPLICATED_KEY then
    return (res, memory, [])
  else
    return (res, ({ memory with clients } : Memory).updateUsers user_list effects)

/-- `avl_remove` of a user, known by a block outside of the tree. -/
def remove_user (client : client_t) (free_data write_data : Bool) :
    Result (Int × Memory × List Output) := do
  let clients := memory.clients.scratch client
  let (res, user_list, effects) ←
    avl_remove (data_cmp clients.contents) memory.user_list memory.clients.brk free_data write_data
  return (res, memory.updateUsers user_list effects)

end Memory

end rc_project.server
