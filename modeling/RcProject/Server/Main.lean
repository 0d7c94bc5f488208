import RcProject.Library.Transition
import RcProject.Server.AdminCommands
import RcProject.Server.ClientCommands

open rc_project.avl_tree rc_project.blocks rc_project.c_string rc_project.transition

namespace rc_project.server

/-- The memory that the process starts with before it is initialised, and the
descriptors that the system hands out. -/
structure Startup where
  clients : Nat → client_t
  sessions : Nat → client_session_t
  group_blocks : Nat → group_t
  nodes : Nodes Nat
  /-- The local `client` of `main`. -/
  client : client_t
  records_fd : Int
  udp_socket : Int

/-- The globals in front of the loop of `main`. -/
def Startup.memory (startup : Startup) (records : Bytes) : Memory where
  user_list := new_avl_tree startup.records_fd startup.nodes
  user_session_list := new_avl_tree (-1) startup.nodes
  group_list := new_avl_tree 1 startup.nodes
  current_group := 0
  clients := { contents := startup.clients, brk := 0 }
  sessions := { contents := startup.sessions, brk := 0 }
  group_blocks := { contents := startup.group_blocks, brk := 0 }
  records := records
  udp_socket := startup.udp_socket

/-- The loop of `main` that reads the records. A read at the end of the file may
fill only the first bytes of the local `client`. The first argument bounds the
number of reads. -/
def load : Nat → Memory → client_t → Bytes → Result Memory
  | 0, memory, _, _ => return memory
  | fuel + 1, memory, client, unread =>
    let chunk := unread.take client_t.size
    if chunk = [] then
      return memory
    else do
      let client := client_t.ofBytes (chunk ++ client.bytes.drop chunk.length)
      let (_, memory, _) ← memory.add_user client false false
      load fuel memory client (unread.drop client_t.size)

/-- The server: its memory and the admin connection that is being handled. -/
structure Server where
  memory : Memory
  admin : Option Connection

def main (startup : Startup) (records : Bytes) : Result Server := do
  let memory ← load (records.length + 1) (startup.memory records) startup.client records
  return { memory, admin := none }

inductive Event
  /-- A datagram is received, from an address. -/
  | datagram (client_sock : sockaddr_in) (datagram : Bytes) (locals : Locals)
  /-- A connection of an admin is accepted, the locals hold what the stack held. -/
  | accept (connection : Connection)
  /-- A `read` from the admin returns; without bytes it is the end. -/
  | read (received : Bytes)

/-- One step of one of the two threads. `handle_admin` serves one connection at
a time, the others wait. -/
def step : Machine Server Event (List Output)
  | server, .datagram client_sock datagram locals => do
    let (memory, outputs) ← udp_server_worker server.memory client_sock datagram locals
    return ({ server with memory }, outputs)
  | server, .accept connection =>
    if server.admin = none ∧ connection.socket > 0 then
      return ({ server with admin := some connection }, [])
    else
      return (server, [])
  | server, .read received =>
    match server.admin with
    | none => return (server, [])
    | some connection => do
      let (memory, admin, outputs) ← handle_admin server.memory connection received
      return ({ memory, admin }, outputs)

end rc_project.server
