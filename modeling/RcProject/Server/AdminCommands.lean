import RcProject.Server.Memory
import RcProject.Server.Strings

open rc_project.avl_tree rc_project.blocks rc_project.c_string rc_project.scanf

namespace rc_project.server

/-- `write_fd` -/
def write_fd (fd : Int) (formatted : Bytes) : Output := .write_fd fd (format_message formatted)

/-- `send_to_client` -/
def send_to_client (socket : Int) (data : client_t) : Output :=
  write_fd socket (text "User: " ++ data.username_string ++ text "\n")

/-- What an admin command leaves: the memory, the exit flag, and what it did
outside of them. -/
abbrev AdminResult := Result (Memory × Int × List Output)

def cmd_list (memory : Memory) (socket : Int) : AdminResult := do
  let outputs ← avl_print_client memory.user_list fun data =>
    send_to_client socket (memory.clients.contents data)
  return (memory, 0, outputs)

def cmd_add (memory : Memory) (socket : Int) (args : Bytes) : AdminResult := do
  match ← sscanf args [.word USERNAME_SIZE, .space, .word INET_ADDRSTRLEN, .space,
      .word PASSWORD_SIZE, .space, .int, .space, .int, .space, .int] with
  | [.string username, .string ip, .string password, .int client_server, .int p2p, .int group] => do
    let client ←
      new_client memory.clients.fresh username password ip client_server p2p group
    let (res, memory, outputs) ← memory.add_user client true true
    if res = AVL_DUPLICATED_KEY then
      return (memory, 0, outputs ++ [write_fd socket (text "User already exists\n")])
    else
      return (memory, 0,
        outputs ++ [write_fd socket (text "User " ++ username ++ text " created.\n")])
  | _ => return (memory, 0, [write_fd socket (text
      "Invalid usage! Use: ADD <USER-ID> <IP> <PASSWORD> <CLIENT-SERVER> <P2P> <GROUP>\n")])

def cmd_del (memory : Memory) (socket : Int) (args : Bytes) : AdminResult := do
  match ← sscanf args [.word USERNAME_SIZE] with
  | [.string username] => do
    let client ← new_client memory.clients.fresh username [] [] 1 1 1
    let (res, memory, outputs) ← memory.remove_user client true true
    if res = AVL_KEY_NOT_FOUND then
      return (memory, 0, outputs ++ [write_fd socket (text "User not found\n")])
    else
      return (memory, 0,
        outputs ++ [write_fd socket (text "User " ++ username ++ text " deleted.\n")])
  | _ => return (memory, 0, [write_fd socket (text "Invalid usage! Use: DEL <USER-ID>\n")])

def cmd_quit (memory : Memory) : AdminResult := return (memory, 1, [])

inductive AdminCommand
  | LIST
  | ADD
  | DEL
  | QUIT
  deriving DecidableEq, Repr

def commands : List (Bytes × AdminCommand) :=
  [(text "LIST", .LIST), (text "ADD", .ADD), (text "DEL", .DEL), (text "QUIT", .QUIT)]

/-- The table `cmd_functions`. -/
def cmd_functions (memory : Memory) (socket : Int) (args : Bytes) : AdminCommand → AdminResult
  | .LIST => cmd_list memory socket
  | .ADD => cmd_add memory socket args
  | .DEL => cmd_del memory socket args
  | .QUIT => cmd_quit memory

/-- The buffer behind the call, and what the command left: `none` where the
source returns 0. -/
def cmd_function (memory : Memory) (socket : Int) (command : Bytes) :
    Result (Bytes × Option (Memory × Int × List Output)) := do
  let (command, found) ← dispatch commands command
  match found with
  | none => return (command, none)
  | some (function, args) => do
    let result ← cmd_functions memory socket args function
    return (command, some result)

/-- The locals of `handle_admin`, with the socket of the connection. -/
structure Connection where
  socket : Int
  buffer : CharArray BUFFER_SIZE
  exit : Int
  deriving DecidableEq, Repr

/-- The buffer behind a `read`: the bytes that were received replace the first
ones, the others stay. -/
def Connection.read (connection : Connection) (received : Bytes) : Bytes :=
  received.take BUFFER_SIZE ++ connection.buffer.bytes.drop (received.take BUFFER_SIZE).length

/-- One round of the loop of `handle_admin`, for a `read` that returns the given
bytes. `none` in place of the connection ends the loop. -/
def handle_admin (memory : Memory) (connection : Connection) (received : Bytes) :
    Result (Memory × Option Connection × List Output) := do
  if received = [] then
    return (memory, none, [])
  else do
    let (buffer, command_found) ← cmd_function memory connection.socket (connection.read received)
    let connection := { connection with buffer := CharArray.ofBytes _ buffer }
    let (memory, exit, outputs) := command_found.getD
      (memory, connection.exit, [write_fd connection.socket (text "Command not found\n")])
    return (memory, if exit ≠ 0 then none else some { connection with exit }, outputs)

end rc_project.server
