import RcProject.Server.Administration
import RcProject.Server.Requests
import RcProject.Server.Startup

open rc_project.avl_tree rc_project.blocks rc_project.c_string rc_project.scanf
open rc_project.transition

namespace rc_project.server

namespace Memory

variable {memory next : Memory}

/-- No session, no record and no group that was there before is touched, and no
session is logged in that was not. -/
structure Keeps (memory next : Memory) : Prop where
  valid : next.Valid
  brk : memory.clients.brk ≤ next.clients.brk
  clients : ∀ a < memory.clients.brk, next.clients.contents a = memory.clients.contents a
  sessions : ∀ t ∈ memory.userSessions, t ∈ next.userSessions ∧
    next.sessions.contents t = memory.sessions.contents t
  new : ∀ t ∈ next.userSessions, t ∈ memory.userSessions ∨
    (next.sessions.contents t).logged_in = 0
  groups : ∀ g ∈ memory.multicastGroups, g ∈ next.multicastGroups ∧
    next.group_blocks.contents g = memory.group_blocks.contents g

theorem Valid.keeps_refl (hvalid : memory.Valid) : memory.Keeps memory where
  valid := hvalid
  brk := Nat.le_refl _
  clients _ _ := rfl
  sessions _ ht := ⟨ht, rfl⟩
  new _ ht := Or.inl ht
  groups _ hg := ⟨hg, rfl⟩

theorem Keeps.trans {last : Memory} (h : memory.Keeps next) (h' : next.Keeps last) :
    memory.Keeps last where
  valid := h'.valid
  brk := h.brk.trans h'.brk
  clients a ha := (h'.clients a (ha.trans_le h.brk)).trans (h.clients a ha)
  sessions t ht := by
    obtain ⟨hmem, hsame⟩ := h.sessions t ht
    obtain ⟨hmem', hsame'⟩ := h'.sessions t hmem
    exact ⟨hmem', hsame'.trans hsame⟩
  new t ht := by
    obtain hmem | hlogged := h'.new t ht
    · obtain hold | hlogged := h.new t hmem
      · exact Or.inl hold
      · right
        rw [(h'.sessions t hmem).2]
        exact hlogged
    · exact Or.inr hlogged
  groups g hg := by
    obtain ⟨hmem, hsame⟩ := h.groups g hg
    obtain ⟨hmem', hsame'⟩ := h'.groups g hmem
    exact ⟨hmem', hsame'.trans hsame⟩

theorem Opened.users_eq {sock : sockaddr_in} {s : Nat} (h : memory.Opened sock s next) :
    next.users = memory.users := by
  rw [h.rest]
  rfl

theorem Opened.clients_eq {sock : sockaddr_in} {s : Nat} (h : memory.Opened sock s next) :
    next.clients = memory.clients := by
  rw [h.rest]

theorem Opened.find_user_eq {sock : sockaddr_in} {s : Nat} (h : memory.Opened sock s next)
    (username : Bytes) : next.find_user username = memory.find_user username := by
  rw [h.rest]
  rfl

theorem Opened.keeps {sock : sockaddr_in} {s : Nat} (h : memory.Opened sock s next) :
    memory.Keeps next where
  valid := h.valid
  brk := Nat.le_of_eq (by rw [h.clients_eq])
  clients a _ := by rw [h.clients_eq]
  sessions := h.old
  new t ht := (h.new t ht).imp_right fun hnew => hnew.2
  groups g hg := by
    rw [h.rest]
    exact ⟨hg, rfl⟩

theorem Created.keeps (hvalid : memory.Valid) {group : group_t} (h : memory.Created group next) :
    memory.Keeps next where
  valid := h.valid
  brk := Nat.le_of_eq (by rw [h.rest])
  clients a _ := by rw [h.rest]
  sessions t ht := by
    rw [h.rest]
    exact ⟨ht, rfl⟩
  new t ht := by
    rw [h.rest] at ht
    exact Or.inl ht
  groups g hg := by
    refine ⟨(h.mem_groups g).mpr (Or.inl hg), ?_⟩
    rw [h.rest]
    exact memory.group_blocks.alloc_of_lt (hvalid.group_list.allocated g hg)

theorem Added.keeps {client : client_t} {written : Bytes} (h : memory.Added client written next) :
    memory.Keeps next where
  valid := h.valid
  brk := by
    rw [h.rest]
    exact Nat.le_succ _
  clients a ha := by
    rw [h.rest]
    exact memory.clients.alloc_of_lt ha
  sessions t ht := by
    rw [h.rest]
    exact ⟨ht, rfl⟩
  new t ht := by
    rw [h.rest] at ht
    exact Or.inl ht
  groups g hg := by
    rw [h.rest]
    exact ⟨hg, rfl⟩

theorem Removed.keeps {u : Nat} (h : memory.Removed u next) : memory.Keeps next where
  valid := h.valid
  brk := Nat.le_of_eq (by rw [h.rest])
  clients a _ := by rw [h.rest]
  sessions t ht := by
    rw [h.rest]
    exact ⟨ht, rfl⟩
  new t ht := by
    rw [h.rest] at ht
    exact Or.inl ht
  groups g hg := by
    rw [h.rest]
    exact ⟨hg, rfl⟩

/-- A datagram that logs the session `s` of its address in to the record `u`. -/
inductive LogsIn (memory : Memory) : Event → Nat → Nat → Memory → Prop
  | intro (sock : sockaddr_in) (datagram : Bytes) (locals : Locals) (opened : Memory) (s u : Nat)
    (args username password : Bytes)
    (hopened : memory.Opened sock s opened)
    (hcommand : received_command datagram locals = .ok (some (.LOGIN, args)))
    (hlogged : (opened.sessions.contents s).logged_in = 0)
    (hargs : sscanf args [.word USERNAME_SIZE, .space, .word PASSWORD_SIZE] =
      .ok [.string username, .string password])
    (huser : memory.find_user username = .ok (some u))
    (hip : (memory.clients.contents u).ip_string = inet_ntop sock.sin_addr)
    (hpassword : (memory.clients.contents u).password_string = cstr password)
    (hnul : 0 ∈ (memory.clients.contents u).ip.bytes) :
    LogsIn memory (.datagram sock datagram locals) s u (opened.bind s u)

/-- A datagram with a command, from the address of a session that may use the
permission for it. -/
inductive Requests (memory : Memory) (client sender : Nat) (permission : Permission)
    (command : ClientCommand) (args : Bytes) (locals : Locals) : Event → Prop
  | intro (sock : sockaddr_in) (datagram : Bytes)
    (hclient : client ∈ memory.userSessions)
    (hip : cstr (memory.sessions.contents client).ip.bytes = inet_ntop sock.sin_addr)
    (hport : (memory.sessions.contents client).port = sock.sin_port.setWidth 32)
    (hpermitted : memory.Permitted client permission sender)
    (hcommand : received_command datagram locals = .ok (some (command, args))) :
    Requests memory client sender permission command args locals (.datagram sock datagram locals)

theorem Requests.permitted {client sender : Nat} {permission : Permission}
    {command : ClientCommand} {args : Bytes} {locals : Locals} {event : Event}
    (h : memory.Requests client sender permission command args locals event) :
    memory.Permitted client permission sender := by
  cases h with
  | intro _ _ _ _ _ hpermitted => exact hpermitted

/-- A datagram whose session is permitted its command finds the session open. -/
theorem Opened.requests {opened : Memory} {sock : sockaddr_in} {client sender : Nat}
    {permission : Permission} {command : ClientCommand} {datagram args : Bytes} {locals : Locals}
    (h : memory.Opened sock client opened)
    (hpermitted : opened.Permitted client permission sender)
    (hcommand : received_command datagram locals = .ok (some (command, args))) :
    opened = memory ∧ memory.Requests client sender permission command args locals
      (.datagram sock datagram locals) := by
  obtain rfl := h.same (h.permitted_old hpermitted).1
  exact ⟨rfl, .intro sock datagram h.mem h.ip h.port hpermitted hcommand⟩

end Memory

/-- The session that an output answers with a successful login, and the record
that it is logged in to. -/
def Output.login : Output → Option (Nat × Nat)
  | .answer client (.login_successful record) .. => some (client, record)
  | _ => none

/-- The admin deletes the record `u`: a read holds a `DEL` of its name. -/
inductive Server.Deletes (server : Server) : Event → Nat → Prop
  | intro (connection : Connection) (received args username : Bytes) (u : Nat)
    (hadmin : server.admin = some connection) (hreceived : received ≠ [])
    (hcommand : connection.received_command received = .ok (some (.DEL, args)))
    (hargs : sscanf args [.word USERNAME_SIZE] = .ok [.string username])
    (huser : server.memory.find_user username = .ok (some u)) :
    server.Deletes (.read received) u

/-- What one step of the server does to its memory. -/
inductive Stepped (server : Server) : Event → Memory → List Output → Prop
  | served (sock : sockaddr_in) (datagram : Bytes) (locals : Locals) (next : Memory)
    (outputs : List Output) (hserved : Served server.memory sock datagram locals next outputs) :
    Stepped server (.datagram sock datagram locals) next outputs
  | handled (connection : Connection) (hadmin : server.admin = some connection) (received : Bytes)
    (next : Memory) (outputs : List Output)
    (hhandled : Handled server.memory connection received next outputs) :
    Stepped server (.read received) next outputs
  | idle (event : Event) : Stepped server event server.memory []

section Steps

variable {server next : Server} {event : Event} {outputs : List Output}

theorem stepped_of_step (hvalid : server.memory.Valid)
    (hstep : step server event = .ok (next, outputs)) :
    Stepped server event next.memory outputs := by
  cases event with
  | datagram sock datagram locals =>
    obtain ⟨⟨memory, outputs'⟩, hserve, hstep⟩ := Result.bind_eq_ok_iff.mp hstep
    cases hstep
    exact .served sock datagram locals _ _ (hvalid.served hserve)
  | accept connection =>
    rw [step] at hstep
    split at hstep <;> cases hstep <;> exact .idle _
  | read received =>
    rw [step] at hstep
    split at hstep
    · cases hstep
      exact .idle _
    · rename_i connection hadmin
      obtain ⟨⟨memory, admin, outputs'⟩, hhandle, hstep⟩ := Result.bind_eq_ok_iff.mp hstep
      cases hstep
      exact .handled connection hadmin received _ _ (hvalid.handled hhandle)

/-- An answer that only refuses logs nobody in. -/
theorem logins_of_refusal {memory : Memory} {client : Nat} {answer : Answer}
    (hrefusal : answer.refusal = true) :
    [memory.send_udp_message client answer].filterMap Output.login = [] := by
  cases answer <;> first | rfl | cases hrefusal

theorem login_eq_none (output : Output) (hclient : output.client = none) :
    output.login = none := by
  cases output <;> first | rfl | cases hclient

/-- Every step keeps the sessions and records, or it is a login and says so. -/
theorem Stepped.keeps_or_login {next : Memory} (hvalid : server.memory.Valid)
    (h : Stepped server event next outputs) :
    (server.memory.Keeps next ∧ outputs.filterMap Output.login = []) ∨
      ∃ s u, server.memory.LogsIn event s u next ∧ outputs.filterMap Output.login = [(s, u)] := by
  cases h with
  | served sock datagram locals _ _ hserved =>
    cases hserved with
    | unknown _ s hopened => exact Or.inl ⟨hopened.keeps, rfl⟩
    | command opened s hopened command args hcommand _ _ hperformed =>
      cases hperformed with
      | refused _ answer hrefusal => exact Or.inl ⟨hopened.keeps, logins_of_refusal hrefusal⟩
      | login username password u hlogged hargs huser hip hpassword hnul =>
        rw [hopened.find_user_eq] at huser
        rw [hopened.clients_eq] at hip hpassword hnul
        have hip' := (strcmp_eq_zero_iff.mp hip).symm
        have hpassword' := strcmp_eq_zero_iff.mp hpassword
        rw [client_t.ip_string, cstr_cstr, hopened.ip] at hip'
        rw [client_t.password_string, cstr_cstr] at hpassword'
        exact Or.inr ⟨s, u, .intro sock datagram locals opened s u args username password hopened
          hcommand hlogged hargs huser hip' hpassword' hnul, rfl⟩
      | msg => exact Or.inl ⟨hopened.keeps, rfl⟩
      | p2p => exact Or.inl ⟨hopened.keeps, rfl⟩
      | create group_name sender group _ hpermitted hargs' hname hip hroom hcreated =>
        exact Or.inl ⟨hopened.keeps.trans (hcreated.keeps hopened.valid), rfl⟩
      | get => exact Or.inl ⟨hopened.keeps, rfl⟩
  | handled connection hadmin received _ _ hhandled =>
    refine Or.inl ⟨?_, hhandled.filterMap_eq_nil login_eq_none⟩
    cases hhandled with
    | unknown => exact hvalid.keeps_refl
    | command _ command args hcommand _ _ hadministered =>
      cases hadministered with
      | answered => exact hvalid.keeps_refl
      | added _ _ _ _ _ _ _ _ _ _ _ hadded => exact hadded.keeps
      | removed _ _ _ _ _ hremoved => exact hremoved.keeps
  | idle => exact Or.inl ⟨hvalid.keeps_refl, rfl⟩

theorem Memory.LogsIn.valid {memory next : Memory} {s u : Nat} (hvalid : memory.Valid)
    (h : memory.LogsIn event s u next) : next.Valid := by
  cases h with
  | intro sock datagram locals opened _ _ args username password hopened hcommand hlogged hargs
      huser hip hpassword hnul =>
    refine hopened.valid.bind ?_ ?_
    · rw [hopened.users_eq]
      exact (hvalid.find_user_eq_some_iff.mp huser).2.1
    · rw [hopened.clients_eq]
      exact hnul

/-- Every step keeps the memory valid. -/
theorem step_valid (hvalid : server.memory.Valid)
    (hstep : step server event = .ok (next, outputs)) : next.memory.Valid := by
  obtain ⟨hkeeps, -⟩ | ⟨s, u, hlogin, -⟩ := (stepped_of_step hvalid hstep).keeps_or_login hvalid
  · exact hkeeps.valid
  · exact hlogin.valid hvalid

/-- The memory is valid in every state that a run reaches. -/
theorem reaches_valid {events : List Event} (hvalid : server.memory.Valid)
    (hreach : Reaches step server events next) : next.memory.Valid :=
  hreach.invariant (fun server => server.memory.Valid) hvalid
    fun _ _ _ _ hvalid hstep => step_valid hvalid hstep

/-- A request of a session runs its command for the session. -/
theorem Memory.Requests.step_eq (hvalid : server.memory.Valid) {client sender : Nat}
    {permission : Permission} {command : ClientCommand} {args : Bytes} {locals : Locals}
    (h : server.memory.Requests client sender permission command args locals event) :
    step server event = (do
      let (memory, outputs) ← client_cmd_functions server.memory client args locals command
      return ({ server with memory }, outputs)) := by
  cases h with
  | intro sock datagram hclient hip hport hpermitted hcommand =>
    have hpointed := hvalid.pointed hclient hpermitted.1
    rw [step, hvalid.udp_server_worker_eq hclient hip hport hpointed hcommand]

/-- A read with bytes runs the command that was looked up for it. -/
theorem step_read_eq {connection : Connection} {received buffer : Bytes}
    {found : Option (AdminCommand × Bytes)} (hadmin : server.admin = some connection)
    (hreceived : received ≠ [])
    (hdispatch : dispatch commands (connection.read received) = .ok (buffer, found)) :
    step server (.read received) = (do
      let (memory, exit, outputs) ← answered server.memory connection found
      let left := { connection with buffer := CharArray.ofBytes _ buffer, exit }
      return ({ memory, admin := if exit ≠ 0 then none else some left }, outputs)) := by
  simp only [step, hadmin]
  rw [handle_admin_eq hreceived hdispatch, bind_assoc]
  rfl

end Steps

section Play

/-- A process whose memory is zero before it is used. -/
def Startup.blank : Startup where
  clients _ := client_t.ofBytes []
  sessions _ :=
    { client := none, sock := ⟨⟨0, 0, 0, 0⟩, 0⟩, len := 0, ip := CharArray.ofBytes _ [], port := 0,
      socket := 0, logged_in := 0 }
  group_blocks _ := { name := CharArray.ofBytes _ [], ip := CharArray.ofBytes _ [] }
  nodes _ := { height := 0, data := 0, left := none, right := none }
  client := client_t.ofBytes []
  records_fd := 3
  udp_socket := 4

def Locals.blank : Locals where
  buffer := CharArray.ofBytes _ []
  send_message := CharArray.ofBytes _ []
  answer _ := []

def Connection.blank : Connection where
  socket := 5
  buffer := CharArray.ofBytes _ []
  exit := 0

/-- A user is added and logs in. -/
def loginRun : List Event :=
  [.accept .blank, .read (text "ADD ana 10.0.0.1 pw 1 1 1\n"),
    .datagram ⟨⟨10, 0, 0, 1⟩, 5000⟩ (text "LOGIN ana pw") .blank]

def anaRecord : client_t where
  username := CharArray.ofBytes _ (text "ana")
  password := CharArray.ofBytes _ (text "pw")
  ip := CharArray.ofBytes _ (text "10.0.0.1")
  port := 0
  client_server := 1
  p2p := 1
  group := 1

def bobRecord : client_t :=
  { anaRecord with username := CharArray.ofBytes _ (text "bob") }

/-- What can be seen of a run from the start of the server. -/
def observe {α : Type} (startup : Startup) (records : Bytes) (events : List Event)
    (view : Server → List (List Output) → α) : Result α := do
  let start ← main startup records
  let (server, outputs) ← run step start events
  return view server outputs

/-- What is seen of a run is a fact about a run that exists. -/
theorem exists_of_observe {α : Type} {startup : Startup} {records : Bytes} {events : List Event}
    {view : Server → List (List Output) → α} {value : α}
    (hview : observe startup records events view = .ok value) :
    ∃ start server outputs, main startup records = .ok start ∧
      run step start events = .ok (server, outputs) ∧ view server outputs = value := by
  obtain ⟨start, hmain, hview⟩ := Result.bind_eq_ok_iff.mp hview
  obtain ⟨⟨server, outputs⟩, hrun, hview⟩ := Result.bind_eq_ok_iff.mp hview
  cases hview
  exact ⟨start, server, outputs, hmain, hrun, rfl⟩

end Play

end rc_project.server
