import RcProject.Library.Simulation
import RcProject.Server.Flags
import RcProject.Server.Relay

open rc_project.blocks rc_project.c_string rc_project.scanf rc_project.transition

namespace rc_project.server

/-- The account of a user. -/
structure Account where
  username : Bytes
  password : Bytes
  ip : Bytes
  port : BitVec 32
  flag : Permission → BitVec 32

/-- What the server is meant to be: accounts by the names of their users, sessions by the
addresses of their peers, and groups by their names. An account keeps the number that it was
created under, also for the sessions that are logged in to it when its name is gone. -/
structure Service where
  accounts : Bytes → Option Nat
  account : Nat → Account
  created : Nat
  /-- `some none` is a session that is not logged in. -/
  sessions : sockaddr_in → Option (Option Nat)
  groups : Bytes → Option Bytes
  current_group : Nat

/-- What leaves the server, byte by byte. -/
inductive Sent
  | reply (dest : sockaddr_in) (message : Bytes)
  | relay (dest : sockaddr_in) (message : Bytes)
  | admin (socket : Int) (message : Bytes)
  deriving DecidableEq, Repr

def Output.sent : Output → Option Sent
  | .answer _ _ _ message dest => some (.reply dest message)
  | .relay _ _ _ _ message dest => some (.relay dest message)
  | .write_fd fd message => some (.admin fd message)
  | .write _ | .ftruncate => none

/-- An answer to the peer at an address. -/
def answer (sock : sockaddr_in) (answer : Answer) : Sent := .reply sock (format_message answer.text)

/-- The text that a message is relayed in. -/
def Account.message (sender : Account) (sock : sockaddr_in) (message : Bytes) : Bytes :=
  sender.username ++ text " (" ++ inet_ntop sock.sin_addr ++ text ":" ++
    format_int (sock.sin_port.setWidth 32) ++ text ") : " ++ message

namespace Service

variable (service : Service)

/-- The account that the peer at an address is logged in to. -/
def user_at (sock : sockaddr_in) : Option Nat := (service.sessions sock).join

/-- A session is there from the first datagram of its peer on. -/
def opens (sock : sockaddr_in) : Service :=
  if service.sessions sock = none then
    { service with sessions := Function.update service.sessions sock (some none) }
  else service

theorem opens_accounts (sock : sockaddr_in) :
    (service.opens sock).accounts = service.accounts := by
  unfold opens
  split <;> rfl

theorem opens_account (sock : sockaddr_in) :
    (service.opens sock).account = service.account := by
  unfold opens
  split <;> rfl

/-- The session of the peer at `sock` is the one that an account points to. -/
def Locates (u : Nat) (sock : sockaddr_in) : Prop :=
  service.sessions sock ≠ none ∧ inet_ntop sock.sin_addr = (service.account u).ip ∧
    sock.sin_port.setWidth 32 = (service.account u).port

open Classical in
noncomputable def find_session (u : Nat) : Result (Option sockaddr_in) :=
  if (service.account u).ip.length < INET_ADDRSTRLEN then
    return if hlocated : ∃ sock, service.Locates u sock then some hlocated.choose else none
  else
    throw .overflow

def login (sock : sockaddr_in) (u : Nat) : Service :=
  { service with
    account := Function.update service.account u
      { service.account u with port := sock.sin_port.setWidth 32 }
    sessions := Function.update service.sessions sock (some (some u)) }

theorem login_account (sock : sockaddr_in) (u : Nat) : (service.login sock u).account =
    Function.update service.account u
      { service.account u with port := sock.sin_port.setWidth 32 } := rfl

theorem login_sessions (sock : sockaddr_in) (u : Nat) : (service.login sock u).sessions =
    Function.update service.sessions sock (some (some u)) := rfl

def cmd_login (sock : sockaddr_in) (args : Bytes) (locals : Locals) :
    Result (Service × List Sent) := do
  if service.user_at sock ≠ none then
    return (service, [answer sock .already_logged_in])
  else
    match ← sscanf args [.word USERNAME_SIZE, .space, .word PASSWORD_SIZE] with
    | [.string username, .string password] =>
      match service.accounts (cstr username) with
      | none => return (service, [answer sock .user_not_found])
      | some u =>
        let account := service.account u
        if account.ip ≠ inet_ntop sock.sin_addr then
          return (service, [answer sock .different_ip])
        else if account.password = cstr password then
          return (service.login sock u, [answer sock (.login_successful u),
            answer sock (.session_port (sock.sin_port.setWidth 32)),
            answer sock (.permissions (locals.permission (account.flag .client_server))
              (locals.permission (account.flag .p2p)) (locals.permission (account.flag .group)))])
        else
          return (service, [answer sock .wrong_password])
    | _ => return (service, [answer sock .login_usage])

noncomputable def cmd_msg (sock : sockaddr_in) (args : Bytes) (locals : Locals) :
    Result (Service × List Sent) := do
  match service.user_at sock with
  | none => return (service, [answer sock .not_logged_in])
  | some sender =>
    if (service.account sender).flag .client_server = 0 then
      return (service, [answer sock .no_permission])
    else
      match ← sscanf args [.word USERNAME_SIZE, .space, .line BUFFER_SIZE, .literal 115] with
      | [.string username, .string message] =>
        match service.accounts (cstr username) with
        | none => return (service, [answer sock .user_not_found])
        | some u =>
          match ← service.find_session u with
          | none => return (service, [answer sock .session_not_found])
          | some target =>
            -- behind a short text go the bytes that the array held
            let send_message := snprintf locals.send_message.bytes
              ((service.account sender).message sock message)
            return (service, [.relay target.listener (send_message.take BUFFER_SIZE),
              answer sock .message_sent])
      | _ => return (service, [answer sock .msg_usage])

noncomputable def cmd_p2p (sock : sockaddr_in) (args : Bytes) : Result (Service × List Sent) := do
  match service.user_at sock with
  | none => return (service, [answer sock .not_logged_in])
  | some sender =>
    if (service.account sender).flag .p2p = 0 then
      return (service, [answer sock .no_permission])
    else
      match ← sscanf args [.word USERNAME_SIZE] with
      | [.string username] =>
        match service.accounts (cstr username) with
        | none => return (service, [answer sock .user_not_found])
        | some u =>
          match ← service.find_session u with
          | none => return (service, [answer sock .session_not_found])
          | some target =>
            return (service, [answer sock (.p2p_address username u (inet_ntop target.sin_addr)
              (target.sin_port.setWidth 32))])
      | _ => return (service, [answer sock .p2p_usage])

def cmd_createmulticast (sock : sockaddr_in) (args : Bytes) : Result (Service × List Sent) := do
  match service.user_at sock with
  | none => return (service, [answer sock .not_logged_in])
  | some sender =>
    match ← sscanf args [.word MAX_GROUP_NAME] with
    | [.string group_name] =>
      if (service.account sender).flag .group = 0 then
        return (service, [answer sock .no_permission])
      else if service.groups (cstr group_name) ≠ none then
        return (service, [answer sock .duplicated_group])
      else if service.current_group < max_groups then
        let ip := server.groups.getD service.current_group []
        return ({ service with
            groups := Function.update service.groups (cstr group_name) (some ip)
            current_group := service.current_group + 1 },
          [answer sock (.group_created group_name ip)])
      else
        return (service, [answer sock .too_many_groups])
    | _ => return (service, [answer sock .create_usage])

def cmd_getmulticast (sock : sockaddr_in) (args : Bytes) : Result (Service × List Sent) := do
  match service.user_at sock with
  | none => return (service, [answer sock .not_logged_in])
  | some sender =>
    match ← sscanf args [.word MAX_GROUP_NAME] with
    | [.string group_name] =>
      if (service.account sender).flag .group = 0 then
        return (service, [answer sock .no_permission])
      else
        match service.groups (cstr group_name) with
        | none => return (service, [answer sock .group_not_found])
        | some ip => return (service, [answer sock (.group_address group_name ip)])
    | _ => return (service, [answer sock .get_usage])

noncomputable def commands (sock : sockaddr_in) (args : Bytes) (locals : Locals) :
    ClientCommand → Result (Service × List Sent)
  | .LOGIN => service.cmd_login sock args locals
  | .MSG => service.cmd_msg sock args locals
  | .P2P => service.cmd_p2p sock args
  | .CREATEMULTICAST => service.cmd_createmulticast sock args
  | .GETMULTICAST => service.cmd_getmulticast sock args

/-- What the service does with a datagram that holds a command, or none. -/
noncomputable def serve (sock : sockaddr_in) (locals : Locals) :
    Option (ClientCommand × Bytes) → Result (Service × List Sent)
  | none => return (service.opens sock, [answer sock .command_not_found])
  | some (command, args) => (service.opens sock).commands sock args locals command

end Service

/-- An account as it is read off the record of its user. -/
def client_t.toAccount (record : client_t) : Account where
  username := record.username_string
  password := record.password_string
  ip := record.ip_string
  port := record.port
  flag := record.flag

/-- The account that a session is logged in to. -/
def client_session_t.user (session : client_session_t) : Option Nat :=
  if session.logged_in ≠ 0 then session.client else none

/-- The service that the memory of the server stands for. -/
def Memory.service (memory : Memory) : Service where
  accounts username := memory.users.find? fun u =>
    (memory.clients.contents u).username_string = username
  account u := (memory.clients.contents u).toAccount
  created := memory.clients.brk
  sessions sock := (memory.userSessions.find? fun t =>
    cstr (memory.sessions.contents t).ip.bytes = inet_ntop sock.sin_addr ∧
      (memory.sessions.contents t).port = sock.sin_port.setWidth 32).map fun t =>
        (memory.sessions.contents t).user
  groups name := (memory.multicastGroups.find? fun g =>
    cstr (memory.group_blocks.contents g).name.bytes = name).map fun g =>
      cstr (memory.group_blocks.contents g).ip.bytes
  current_group := memory.current_group

namespace Memory

variable {memory next : Memory} {sock : sockaddr_in} {t u : Nat}

section Views

theorem Valid.service_accounts (hvalid : memory.Valid) {username : Bytes} :
    memory.service.accounts username = some u ↔
      u ∈ memory.users ∧ (memory.clients.contents u).username_string = username := by
  constructor
  · intro hfind
    exact ⟨List.mem_of_find?_eq_some hfind, by simpa using List.find?_some hfind⟩
  · rintro ⟨hu, hname⟩
    cases hfind : memory.service.accounts username with
    | none => exact absurd hname (by simpa using List.find?_eq_none.mp hfind u hu)
    | some v =>
      have hv : (memory.clients.contents v).username_string = username := by
        simpa using List.find?_some hfind
      rw [hvalid.user_unique (List.mem_of_find?_eq_some hfind) hu (hv.trans hname.symm)]

theorem Valid.sessionAt_unique (hvalid : memory.Valid) {s : Nat} (ht : memory.SessionAt sock t)
    (hs : memory.SessionAt sock s) : t = s :=
  hvalid.session_unique ht.mem hs.mem (ht.ip.trans hs.ip.symm) (ht.port.trans hs.port.symm)

theorem Valid.service_sessions (hvalid : memory.Valid) {user : Option Nat} :
    memory.service.sessions sock = some user ↔
      ∃ t, memory.SessionAt sock t ∧ (memory.sessions.contents t).user = user := by
  have hsessionAt {t : Nat} (hfind : memory.userSessions.find? (fun t =>
      cstr (memory.sessions.contents t).ip.bytes = inet_ntop sock.sin_addr ∧
        (memory.sessions.contents t).port = sock.sin_port.setWidth 32) = some t) :
      memory.SessionAt sock t := by
    obtain ⟨hip, hport⟩ : _ ∧ _ := by simpa using List.find?_some hfind
    exact ⟨List.mem_of_find?_eq_some hfind, hip, hport⟩
  simp only [service, Option.map_eq_some_iff]
  constructor
  · rintro ⟨t, hfind, huser⟩
    exact ⟨t, hsessionAt hfind, huser⟩
  · rintro ⟨t, ht, huser⟩
    cases hfind : memory.userSessions.find? (fun t =>
        cstr (memory.sessions.contents t).ip.bytes = inet_ntop sock.sin_addr ∧
          (memory.sessions.contents t).port = sock.sin_port.setWidth 32) with
    | none =>
      have hnot : cstr (memory.sessions.contents t).ip.bytes = inet_ntop sock.sin_addr →
          (memory.sessions.contents t).port ≠ sock.sin_port.setWidth 32 := by
        simpa using List.find?_eq_none.mp hfind t ht.mem
      exact absurd ht.port (hnot ht.ip)
    | some s => exact ⟨s, rfl, hvalid.sessionAt_unique ht (hsessionAt hfind) ▸ huser⟩

theorem Valid.service_sessions_eq_none (hvalid : memory.Valid) :
    memory.service.sessions sock = none ↔ ∀ t, ¬ memory.SessionAt sock t := by
  rw [Option.eq_none_iff_forall_ne_some]
  constructor
  · intro hnone t ht
    exact hnone _ (hvalid.service_sessions.mpr ⟨t, ht, rfl⟩)
  · intro hnone user hsome
    obtain ⟨t, ht, -⟩ := hvalid.service_sessions.mp hsome
    exact hnone t ht

theorem Valid.service_groups (hvalid : memory.Valid) {name ip : Bytes} :
    memory.service.groups name = some ip ↔ ∃ g ∈ memory.multicastGroups,
      cstr (memory.group_blocks.contents g).name.bytes = name ∧
        cstr (memory.group_blocks.contents g).ip.bytes = ip := by
  simp only [service, Option.map_eq_some_iff]
  constructor
  · rintro ⟨g, hfind, hip⟩
    exact ⟨g, List.mem_of_find?_eq_some hfind, by simpa using List.find?_some hfind, hip⟩
  · rintro ⟨g, hg, hname, hip⟩
    cases hfind : memory.multicastGroups.find? (fun g =>
        cstr (memory.group_blocks.contents g).name.bytes = name) with
    | none => exact absurd hname (by simpa using List.find?_eq_none.mp hfind g hg)
    | some g' =>
      have hg' : cstr (memory.group_blocks.contents g').name.bytes = name := by
        simpa using List.find?_some hfind
      have hsame : g = g' := hvalid.group_list.eq_of_zero hg (List.mem_of_find?_eq_some hfind)
        (group_order_eq_zero_iff.mpr (hname.trans hg'.symm))
      exact ⟨g', rfl, hsame ▸ hip⟩

end Views

end Memory

end rc_project.server
