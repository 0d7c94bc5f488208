import RcProject.Library.Relational
import RcProject.Server.Overflow

open rc_project.avl_tree rc_project.blocks rc_project.c_string rc_project.scanf
open rc_project.search_tree rc_project.transition

namespace rc_project.server

/-- Two sessions that differ at most in what their blocks held before behind the terminator of
the address. -/
structure client_session_t.Alike (session session' : client_session_t) : Prop where
  sock : session.sock = session'.sock
  ip : cstr session.ip.bytes = cstr session'.ip.bytes
  port : session.port = session'.port
  socket : session.socket = session'.socket
  logged_in : session.logged_in = session'.logged_in
  client : session.client = session'.client

/-- Two groups that differ at most behind the terminators of their strings. -/
structure group_t.Alike (group group' : group_t) : Prop where
  name : cstr group.name.bytes = cstr group'.name.bytes
  ip : cstr group.ip.bytes = cstr group'.ip.bytes

/-- Two memories that differ at most in what was there before: the records are the same
to the last byte, the sessions and the groups are alike. -/
structure Memory.Alike (memory memory' : Memory) : Prop where
  valid : memory.Valid
  valid' : memory'.Valid
  user_list : ∃ tree, Represents memory.user_list tree ∧ Represents memory'.user_list tree
  clients_brk : memory.clients.brk = memory'.clients.brk
  clients : ∀ u < memory.clients.brk, memory.clients.contents u = memory'.clients.contents u
  records : memory.records = memory'.records
  sessions_brk : memory.sessions.brk = memory'.sessions.brk
  userSessions : ∀ t, t ∈ memory.userSessions ↔ t ∈ memory'.userSessions
  sessions : ∀ t ∈ memory.userSessions,
    (memory.sessions.contents t).Alike (memory'.sessions.contents t)
  groups_brk : memory.group_blocks.brk = memory'.group_blocks.brk
  multicastGroups : ∀ g, g ∈ memory.multicastGroups ↔ g ∈ memory'.multicastGroups
  group_blocks : ∀ g ∈ memory.multicastGroups,
    (memory.group_blocks.contents g).Alike (memory'.group_blocks.contents g)
  current_group : memory.current_group = memory'.current_group
  udp_socket : memory.udp_socket = memory'.udp_socket

namespace Memory

variable {memory memory' : Memory} {u s g : Nat} {username : Bytes}

section Lookups

theorem Alike.users (h : memory.Alike memory') : memory.users = memory'.users := by
  obtain ⟨tree, hrep, hrep'⟩ := h.user_list
  exact (traversal_eq ⟨tree, hrep, rfl⟩).trans (traversal_eq ⟨tree, hrep', rfl⟩).symm

theorem Alike.contents (h : memory.Alike memory') (hu : u ∈ memory.users) :
    memory.clients.contents u = memory'.clients.contents u :=
  h.clients u (h.valid.user_list.allocated u hu)

/-- What is found is told by the addresses that can be found. -/
theorem eq_of_forall_some {found found' : Option Nat} {P P' : Nat → Prop}
    (hfound : ∀ a, found = some a ↔ P a) (hfound' : ∀ a, found' = some a ↔ P' a)
    (hsame : ∀ a, P a ↔ P' a) : found = found' := by
  ext a
  rw [hfound, hfound', hsame]

theorem find_user_of_long (hlong : ¬ (cstr username).length < USERNAME_SIZE) :
    memory.find_user username = .error .overflow := by
  simp only [find_user, new_client, strcpy, dif_neg hlong, Result.throw_eq_error, Result.error_bind]

theorem Alike.find_user (h : memory.Alike memory') (username : Bytes) :
    memory.find_user username = memory'.find_user username := by
  by_cases hfits : (cstr username).length < USERNAME_SIZE
  · obtain ⟨found, hfind, hfound⟩ := h.valid.find_user_spec hfits
    obtain ⟨found', hfind', hfound'⟩ := h.valid'.find_user_spec hfits
    rw [hfind, hfind', eq_of_forall_some hfound hfound']
    intro u
    rw [← h.users]
    apply and_congr_right
    intro hu
    rw [h.contents hu]
  · rw [find_user_of_long hfits, find_user_of_long hfits]

theorem find_session_of_long
    (hlong : ¬ (memory.clients.contents u).ip_string.length < INET_ADDRSTRLEN) :
    memory.find_session u = .error .overflow := by
  have hself : cstr (memory.clients.contents u).ip_string = (memory.clients.contents u).ip_string :=
    cstr_cstr _
  rw [← hself] at hlong
  simp only [find_session, strcpy, dif_neg hlong, Result.throw_eq_error, Result.error_bind]

theorem Alike.find_session (h : memory.Alike memory') (hu : u ∈ memory.users) :
    memory.find_session u = memory'.find_session u := by
  have hrecord := h.contents hu
  by_cases hfits : (memory.clients.contents u).ip_string.length < INET_ADDRSTRLEN
  · obtain ⟨found, hfind, hfound⟩ := h.valid.find_session_spec hfits
    rw [hrecord] at hfits hfound
    obtain ⟨found', hfind', hfound'⟩ := h.valid'.find_session_spec hfits
    rw [hfind, hfind', eq_of_forall_some hfound hfound']
    intro t
    rw [← h.userSessions]
    apply and_congr_right
    intro ht
    rw [(h.sessions t ht).ip, (h.sessions t ht).port]
  · rw [find_session_of_long hfits]
    rw [hrecord] at hfits
    rw [find_session_of_long hfits]

theorem Alike.find_group (h : memory.Alike memory') {group group' : group_t}
    (hname : cstr group.name.bytes = cstr group'.name.bytes) :
    ∃ found, memory.find_group group = .ok found ∧ memory'.find_group group' = .ok found ∧
      ∀ g, found = some g ↔ g ∈ memory.multicastGroups ∧
        cstr (memory.group_blocks.contents g).name.bytes = cstr group.name.bytes := by
  obtain ⟨found, hfind, hfound⟩ := h.valid.find_group_spec group
  obtain ⟨found', hfind', hfound'⟩ := h.valid'.find_group_spec group'
  refine ⟨found, hfind, ?_, hfound⟩
  rw [hfind', eq_of_forall_some hfound hfound']
  intro g
  rw [← h.multicastGroups]
  apply and_congr_right
  intro hg
  rw [(h.group_blocks g hg).name, hname]

theorem Alike.send_udp_message (h : memory.Alike memory') (hs : s ∈ memory.userSessions)
    (answer : Answer) : memory.send_udp_message s answer = memory'.send_udp_message s answer := by
  simp only [Memory.send_udp_message, (h.sessions s hs).socket, (h.sessions s hs).sock]

end Lookups

section Open

variable {opened opened' : Memory} {sock : sockaddr_in}

theorem Alike.sessionAt_iff (h : memory.Alike memory') {t : Nat} :
    memory.SessionAt sock t ↔ memory'.SessionAt sock t := by
  constructor
  · intro hat
    have hsession := h.sessions t hat.mem
    exact ⟨(h.userSessions t).mp hat.mem, hsession.ip.symm.trans hat.ip,
      hsession.port.symm.trans hat.port⟩
  · intro hat
    have hmem := (h.userSessions t).mpr hat.mem
    have hsession := h.sessions t hmem
    exact ⟨hmem, hsession.ip.trans hat.ip, hsession.port.trans hat.port⟩

/-- An address that has a new session had none before. -/
theorem Opened.not_sessionAt (hvalid : memory.Valid)
    (h : memory.Opened sock memory.sessions.brk opened) (t : Nat) : ¬ memory.SessionAt sock t := by
  intro hat
  have ht := hvalid.user_session_list.allocated t hat.mem
  have heq := (h.eq_of_sessionAt hat).1
  omega

/-- New sessions of one address are alike if their blocks hold the same pointer. -/
theorem newSession_alike (h : memory.Alike memory') {ip ip' : CharArray INET_ADDRSTRLEN}
    (hip : cstr ip.bytes = cstr ip'.bytes)
    (hclient : memory.sessions.fresh.client = memory'.sessions.fresh.client) :
    (memory.newSession sock ip).Alike (memory'.newSession sock ip') where
  sock := rfl
  ip := hip
  port := rfl
  socket := h.udp_socket
  logged_in := rfl
  client := hclient

/-- A datagram gets the same session in both memories, which are alike behind it, if a new
session finds the same pointer in both. -/
theorem Alike.init_client_session (h : memory.Alike memory') (sock : sockaddr_in)
    (hfresh : (∀ t, ¬ memory.SessionAt sock t) →
      memory.sessions.fresh.client = memory'.sessions.fresh.client) :
    ∃ s opened opened', memory.init_client_session sock = .ok (opened, some s) ∧
      memory'.init_client_session sock = .ok (opened', some s) ∧ memory.Opened sock s opened ∧
      opened.Alike opened' := by
  obtain ⟨s, hinit, hopened⟩ | ⟨T, ip, next, hinit, hip, hnext, hmem, hopened⟩ :=
    h.valid.init_client_session_cases sock
  · have hat := h.sessionAt_iff.mp hopened.sessionAt
    obtain ⟨s', hinit', hopened'⟩ | ⟨T', ip', next', hinit', -, -, -, hopened'⟩ :=
      h.valid'.init_client_session_cases sock
    · obtain ⟨rfl, -⟩ := hopened'.eq_of_sessionAt hat
      exact ⟨s, memory, memory', hinit, hinit', hopened, h⟩
    · exact absurd hat (hopened'.not_sessionAt h.valid' s)
  · obtain ⟨s', hinit', hopened'⟩ | ⟨T', ip', next', hinit', hip', hnext', hmem', hopened'⟩ :=
      h.valid'.init_client_session_cases sock
    · exact absurd (h.sessionAt_iff.mpr hopened'.sessionAt) (hopened.not_sessionAt h.valid s')
    · refine ⟨memory.sessions.brk, next, next', hinit, h.sessions_brk ▸ hinit', hopened, ?_⟩
      have hold := hopened.old
      have hold' := hopened'.old
      have hvalid := hopened.valid
      have hvalid' := hopened'.valid
      subst hnext hnext'
      exact
        { h with
          valid := hvalid
          valid' := hvalid'
          sessions_brk := congrArg (· + 1) h.sessions_brk
          userSessions := by
            intro t
            rw [hmem, hmem', h.userSessions, h.sessions_brk]
          sessions := by
            intro t ht
            obtain ht | rfl := (hmem t).mp ht
            · rw [(hold t ht).2, (hold' t ((h.userSessions t).mp ht)).2]
              exact h.sessions t ht
            · have hself : (memory.sessions.alloc (memory.newSession sock ip)).contents
                  memory.sessions.brk = memory.newSession sock ip := memory.sessions.alloc_self
              have hself' : (memory'.sessions.alloc (memory'.newSession sock ip')).contents
                  memory'.sessions.brk = memory'.newSession sock ip' := memory'.sessions.alloc_self
              rw [← h.sessions_brk] at hself'
              rw [hself, hself']
              exact newSession_alike h (hip.trans hip'.symm)
                (hfresh (hopened.not_sessionAt h.valid)) }

end Open

section Changes

/-- A login leaves alike memories alike. -/
theorem Alike.bind (h : memory.Alike memory') (hs : s ∈ memory.userSessions) (hu : u ∈ memory.users)
    (hvalid : (memory.bind s u).Valid) (hvalid' : (memory'.bind s u).Valid) :
    (memory.bind s u).Alike (memory'.bind s u) :=
  { h with
    valid := hvalid
    valid' := hvalid'
    clients := by
      intro v hv
      by_cases hsame : v = u
      · subst hsame
        rw [bind_clients_self, bind_clients_self, h.contents hu, (h.sessions s hs).port]
      · rw [bind_clients_of_ne hsame, bind_clients_of_ne hsame]
        exact h.clients v hv
    sessions := by
      intro t ht
      by_cases hsame : t = s
      · subst hsame
        have hsession := h.sessions t hs
        rw [bind_sessions_self, bind_sessions_self]
        exact ⟨hsession.sock, hsession.ip, hsession.port, hsession.socket, rfl, rfl⟩
      · rw [bind_sessions_of_ne hsame, bind_sessions_of_ne hsame]
        exact h.sessions t ht }

/-- So does a new group. -/
theorem Alike.create (h : memory.Alike memory') {group group' : group_t} {next next' : Memory}
    (hcreated : memory.Created group next) (hcreated' : memory'.Created group' next')
    (hgroup : group.Alike group') : next.Alike next' := by
  have hvalid := hcreated.valid
  have hvalid' := hcreated'.valid
  have hmem := hcreated.mem_groups
  have hmem' := hcreated'.mem_groups
  have hrest := hcreated.rest
  have hrest' := hcreated'.rest
  generalize next.group_list = T at hrest
  generalize next'.group_list = T' at hrest'
  subst hrest hrest'
  exact
    { h with
      valid := hvalid
      valid' := hvalid'
      groups_brk := congrArg (· + 1) h.groups_brk
      current_group := congrArg (· + 1) h.current_group
      multicastGroups := by
        intro g
        rw [hmem, hmem', h.multicastGroups, h.groups_brk]
      group_blocks := by
        intro g hg
        change ((memory.group_blocks.alloc group).contents g).Alike
          ((memory'.group_blocks.alloc group').contents g)
        obtain hg | rfl := (hmem g).mp hg
        · have hold := h.valid.group_list.allocated g hg
          rw [Blocks.alloc_of_lt _ hold, Blocks.alloc_of_lt _ (h.groups_brk ▸ hold)]
          exact h.group_blocks g hg
        · rw [Blocks.alloc_self, h.groups_brk, Blocks.alloc_self]
          exact hgroup }

end Changes

section Commands

variable {args : Bytes} {locals locals' : Locals}

/-- Two results of a command: the same outputs, and memories that are alike. -/
def SameOutputs (result result' : Memory × List Output) : Prop :=
  result.1.Alike result'.1 ∧ result.2 = result'.2

theorem Alike.answered (h : memory.Alike memory') (hs : s ∈ memory.userSessions) (answer : Answer) :
    Result.Related SameOutputs (.ok (memory, [memory.send_udp_message s answer]))
      (.ok (memory', [memory'.send_udp_message s answer])) :=
  .ok ⟨h, by rw [h.send_udp_message hs]⟩

/-- A login that succeeds, where the flags of the record are printed. -/
theorem Alike.login (h : memory.Alike memory') (hs : s ∈ memory.userSessions) (hu : u ∈ memory.users)
    (hip : strcmp (memory.sessions.contents s).ip.bytes (memory.clients.contents u).ip_string = 0)
    (hflags : ∀ permission, (memory.clients.contents u).flag permission = 0 ∨
      (memory.clients.contents u).flag permission = 1) :
    Result.Related SameOutputs (server.login memory s u locals) (server.login memory' s u locals') := by
  have hsession := h.sessions s hs
  have hrecord := h.contents hu
  have hs' := (h.userSessions s).mp hs
  have hu' : u ∈ memory'.users := h.users ▸ hu
  have hip' : strcmp (memory'.sessions.contents s).ip.bytes
      (memory'.clients.contents u).ip_string = 0 := by
    rw [strcmp_eq_zero_iff, ← hsession.ip, ← hrecord]
    exact strcmp_eq_zero_iff.mp hip
  obtain ⟨hnul, hlogin⟩ := h.valid.login_eq hs hip locals
  obtain ⟨hnul', hlogin'⟩ := h.valid'.login_eq hs' hip' locals'
  have hpermission (permission : Permission) :
      locals.permission ((memory.clients.contents u).flag permission) =
        locals'.permission ((memory.clients.contents u).flag permission) := by
    obtain hzero | hone := hflags permission
    · simp [Locals.permission, hzero]
    · simp [Locals.permission, hone]
  have hbound := h.bind hs hu (h.valid.bind hu hnul) (h.valid'.bind hu' hnul')
  rw [hlogin, hlogin', ← hrecord, ← hsession.port]
  refine .ok ⟨hbound, ?_⟩
  have hclient_server := hpermission .client_server
  have hp2p := hpermission .p2p
  have hgroup := hpermission .group
  simp only [client_t.flag] at hclient_server hp2p hgroup
  have hmem : s ∈ (memory.bind s u).userSessions := hs
  simp only [hclient_server, hp2p, hgroup, hbound.send_udp_message hmem]

theorem Alike.cmd_login (h : memory.Alike memory') (hs : s ∈ memory.userSessions)
    (hflags : ∀ username password u, (memory.sessions.contents s).logged_in = 0 →
      sscanf args [.word USERNAME_SIZE, .space, .word PASSWORD_SIZE] =
        .ok [.string username, .string password] →
      memory.find_user username = .ok (some u) →
      strcmp (memory.sessions.contents s).ip.bytes (memory.clients.contents u).ip_string = 0 →
      strcmp (memory.clients.contents u).password_string password = 0 →
      ∀ permission, (memory.clients.contents u).flag permission = 0 ∨
        (memory.clients.contents u).flag permission = 1) :
    Result.Related SameOutputs (server.cmd_login memory s args locals)
      (server.cmd_login memory' s args locals') := by
  have hsession := h.sessions s hs
  simp only [server.cmd_login, ← hsession.logged_in]
  by_cases hlogged : (memory.sessions.contents s).logged_in = 0
  · rw [if_neg (not_not.mpr hlogged), if_neg (not_not.mpr hlogged)]
    apply Result.Related.bind_eq
    intro values hargs
    split
    · rename_i username password
      rw [← h.find_user]
      apply Result.Related.bind_eq
      intro found huser
      cases found with
      | none => exact h.answered hs _
      | some u =>
        have hu := (h.valid.find_user_eq_some_iff.mp huser).2.1
        have hrecord := h.contents hu
        have hsame : strcmp (memory'.sessions.contents s).ip.bytes
            (memory.clients.contents u).ip_string =
              strcmp (memory.sessions.contents s).ip.bytes (memory.clients.contents u).ip_string := by
          rw [← strcmp_cstr, ← hsession.ip, strcmp_cstr]
        simp only [← hrecord, hsame]
        by_cases hip : strcmp (memory.sessions.contents s).ip.bytes
            (memory.clients.contents u).ip_string = 0
        · rw [if_neg (not_not.mpr hip), if_neg (not_not.mpr hip)]
          by_cases hpassword : strcmp (memory.clients.contents u).password_string password = 0
          · rw [if_pos hpassword, if_pos hpassword]
            exact h.login hs hu hip (hflags username password u hlogged hargs huser hip hpassword)
          · rw [if_neg hpassword, if_neg hpassword]
            exact h.answered hs _
        · rw [if_pos hip, if_pos hip]
          exact h.answered hs _
    · exact h.answered hs _
  · rw [if_pos hlogged, if_pos hlogged]
    exact h.answered hs _

/-- The first check of the commands that need a login. -/
theorem Alike.logged_in (h : memory.Alike memory') (hs : s ∈ memory.userSessions)
    {body body' : Result (Memory × List Output)}
    (hbody : (memory.sessions.contents s).logged_in ≠ 0 → Result.Related SameOutputs body body') :
    Result.Related SameOutputs
      (if (memory.sessions.contents s).logged_in = 0 then
        return (memory, [memory.send_udp_message s .not_logged_in]) else body)
      (if (memory'.sessions.contents s).logged_in = 0 then
        return (memory', [memory'.send_udp_message s .not_logged_in]) else body') := by
  rw [← (h.sessions s hs).logged_in]
  by_cases hlogged : (memory.sessions.contents s).logged_in = 0
  · rw [if_pos hlogged, if_pos hlogged]
    exact h.answered hs _
  · rw [if_neg hlogged, if_neg hlogged]
    exact hbody hlogged

/-- The check of a permission in the record that the session is bound to. -/
theorem Alike.permitted (h : memory.Alike memory') (hs : s ∈ memory.userSessions)
    (permission : Permission) {body body' : Nat → Result (Memory × List Output)}
    (hlogged : (memory.sessions.contents s).logged_in ≠ 0)
    (hbody : ∀ sender, memory.Permitted s permission sender →
      memory.clients.contents sender = memory'.clients.contents sender →
        Result.Related SameOutputs (body sender) (body' sender)) :
    Result.Related SameOutputs
      (do
        let sender ← Result.deref (memory.sessions.contents s).client
        if (memory.clients.contents sender).flag permission = 0 then
          return (memory, [memory.send_udp_message s .no_permission]) else body sender)
      (do
        let sender ← Result.deref (memory'.sessions.contents s).client
        if (memory'.clients.contents sender).flag permission = 0 then
          return (memory', [memory'.send_udp_message s .no_permission]) else body' sender) := by
  obtain ⟨sender, hlt, hclient⟩ := h.valid.bound s hs hlogged
  have hrecord := h.clients sender hlt
  have hclient' : (memory'.sessions.contents s).client = some sender :=
    (h.sessions s hs).client.symm.trans hclient
  rw [Result.deref_eq_ok_iff.mpr hclient, Result.deref_eq_ok_iff.mpr hclient', Result.ok_bind,
    Result.ok_bind, ← hrecord]
  by_cases hflag : (memory.clients.contents sender).flag permission = 0
  · rw [if_pos hflag, if_pos hflag]
    exact h.answered hs _
  · rw [if_neg hflag, if_neg hflag]
    exact hbody sender ⟨hlogged, hclient, hflag⟩ hrecord

/-- A user that is named is looked up with its session. -/
theorem Alike.locate (h : memory.Alike memory') (hs : s ∈ memory.userSessions) (username : Bytes)
    {body body' : Nat → Result (Memory × List Output)}
    (hbody : ∀ u selected, memory.find_user username = .ok (some u) →
      memory.find_session u = .ok (some selected) →
        Result.Related SameOutputs (body selected) (body' selected)) :
    Result.Related SameOutputs
      (do
        match ← memory.find_user username with
        | none => return (memory, [memory.send_udp_message s .user_not_found])
        | some u =>
          match ← memory.find_session u with
          | none => return (memory, [memory.send_udp_message s .session_not_found])
          | some selected => body selected)
      (do
        match ← memory'.find_user username with
        | none => return (memory', [memory'.send_udp_message s .user_not_found])
        | some u =>
          match ← memory'.find_session u with
          | none => return (memory', [memory'.send_udp_message s .session_not_found])
          | some selected => body' selected) := by
  rw [← h.find_user]
  apply Result.Related.bind_eq
  intro found huser
  cases found with
  | none => exact h.answered hs _
  | some u =>
    have hu := (h.valid.find_user_eq_some_iff.mp huser).2.1
    simp only [← h.find_session hu]
    apply Result.Related.bind_eq
    intro found hsession
    cases found with
    | none => exact h.answered hs _
    | some selected => exact hbody u selected huser hsession

/-- The text of a relayed message. -/
def relay_text (memory : Memory) (client sender : Nat) (message : Bytes) : Bytes :=
  (memory.clients.contents sender).username_string ++ text " (" ++
    cstr (memory.sessions.contents client).ip.bytes ++ text ":" ++
      format_int (memory.sessions.contents client).port ++ text ") : " ++ message

/-- What is relayed is the same where the text fills the bytes that are sent. -/
theorem Alike.relay (h : memory.Alike memory') (hs : s ∈ memory.userSessions)
    {sender selected : Nat} {message : Bytes}
    (hrecord : memory.clients.contents sender = memory'.clients.contents sender)
    (hselected : selected ∈ memory.userSessions)
    (hfull : BUFFER_SIZE ≤ (memory.relay_text s sender message).length + 1) :
    server.relay memory s sender username message selected locals =
      server.relay memory' s sender username message selected locals' := by
  have hsession := h.sessions s hs
  have hfound := h.sessions selected hselected
  have htext : memory'.relay_text s sender message = memory.relay_text s sender message := by
    rw [relay_text, relay_text, hrecord, hsession.ip, hsession.port]
  have hlength : locals.send_message.bytes.length = locals'.send_message.bytes.length := by
    rw [locals.send_message.length_eq, locals'.send_message.length_eq]
  have hfits : BUFFER_SIZE ≤ locals.send_message.bytes.length := by
    rw [locals.send_message.length_eq]
    omega
  have hsent : (snprintf locals.send_message.bytes (memory.relay_text s sender message)).take
      BUFFER_SIZE = (snprintf locals'.send_message.bytes
        (memory'.relay_text s sender message)).take BUFFER_SIZE := by
    rw [htext]
    exact take_snprintf_congr hlength hfits hfull
  simp only [relay_text] at hsent
  simp only [server.relay, hsent, hfound.socket, hfound.sock, hfound.port]

theorem Alike.cmd_msg (h : memory.Alike memory') (hs : s ∈ memory.userSessions)
    (hfull : ∀ sender username message u selected, memory.Permitted s .client_server sender →
      sscanf args [.word USERNAME_SIZE, .space, .line BUFFER_SIZE, .literal 115] =
        .ok [.string username, .string message] →
      memory.find_user username = .ok (some u) → memory.find_session u = .ok (some selected) →
      BUFFER_SIZE ≤ (memory.relay_text s sender message).length + 1) :
    Result.Related SameOutputs (server.cmd_msg memory s args locals)
      (server.cmd_msg memory' s args locals') := by
  apply h.logged_in hs
  intro hlogged
  apply h.permitted hs .client_server hlogged
  intro sender hpermitted hrecord
  apply Result.Related.bind_eq
  intro values hargs
  split
  · rename_i username message
    apply h.locate hs username
    intro u selected huser hsession
    have hselected := (h.valid.find_session_eq_some_iff.mp hsession).1
    have hrelay : server.relay memory s sender username message selected locals =
        server.relay memory' s sender username message selected locals' :=
      h.relay hs hrecord hselected
        (hfull sender username message u selected hpermitted hargs huser hsession)
    refine .ok ⟨h, ?_⟩
    rw [hrelay, h.send_udp_message hs]
  · exact h.answered hs _

theorem Alike.cmd_p2p (h : memory.Alike memory') (hs : s ∈ memory.userSessions) :
    Result.Related SameOutputs (server.cmd_p2p memory s args) (server.cmd_p2p memory' s args) := by
  apply h.logged_in hs
  intro hlogged
  apply h.permitted hs .p2p hlogged
  intro sender _ _
  apply Result.Related.bind_eq
  intro values hargs
  split
  · rename_i username
    apply h.locate hs username
    intro u selected huser hsession
    have hfound := h.sessions selected (h.valid.find_session_eq_some_iff.mp hsession).1
    simp only [hfound.ip, hfound.port]
    exact h.answered hs _
  · exact h.answered hs _

/-- The lookup of a group by a name that was scanned. -/
theorem Alike.naming (h : memory.Alike memory') {group_name : Bytes}
    (hargs : sscanf args [.word MAX_GROUP_NAME] = .ok [.string group_name])
    {body body' : group_t → Option Nat → Result (Memory × List Output)}
    (hbody : ∀ group group' found, cstr group.name.bytes = cstr group'.name.bytes →
      (∀ g, found = some g ↔ g ∈ memory.multicastGroups ∧
        cstr (memory.group_blocks.contents g).name.bytes = cstr group.name.bytes) →
      Result.Related SameOutputs (body group found) (body' group' found)) :
    Result.Related SameOutputs
      (do
        let group ← new_group memory.group_blocks.fresh group_name []
        let temp_group ← memory.find_group group
        body group temp_group)
      (do
        let group ← new_group memory'.group_blocks.fresh group_name []
        let temp_group ← memory'.find_group group
        body' group temp_group) := by
  obtain ⟨group, hgroup⟩ := exists_new_group memory.group_blocks.fresh (word_of_sscanf hargs).2
  obtain ⟨group', hgroup'⟩ := exists_new_group memory'.group_blocks.fresh (word_of_sscanf hargs).2
  have hname : cstr group.name.bytes = cstr group'.name.bytes :=
    (name_of_new_group hgroup).trans (name_of_new_group hgroup').symm
  obtain ⟨found, hfind, hfind', hfound⟩ := h.find_group hname
  rw [hgroup, hgroup', Result.ok_bind, Result.ok_bind, hfind, hfind', Result.ok_bind, Result.ok_bind]
  exact hbody group group' found hname hfound

theorem Alike.cmd_createmulticast (h : memory.Alike memory') (hs : s ∈ memory.userSessions) :
    Result.Related SameOutputs (server.cmd_createmulticast memory s args)
      (server.cmd_createmulticast memory' s args) := by
  apply h.logged_in hs
  intro hlogged
  apply Result.Related.bind_eq
  intro values hargs
  split
  · rename_i group_name
    apply h.permitted hs .group hlogged
    intro sender _ _
    apply h.naming hargs
    intro group group' found hname hfound
    by_cases hsome : found ≠ none
    · rw [if_pos hsome, if_pos hsome]
      exact h.answered hs _
    · rw [if_neg hsome, if_neg hsome, ← h.current_group]
      by_cases hroom : memory.current_group < max_groups
      · have hnew (g : Nat) (hg : g ∈ memory.multicastGroups) :
            cstr (memory.group_blocks.contents g).name.bytes ≠ cstr group.name.bytes := by
          intro hsame
          apply hsome
          rw [(hfound g).mpr ⟨hg, hsame⟩]
          exact Option.some_ne_none g
        have hnew' (g : Nat) (hg : g ∈ memory'.multicastGroups) :
            cstr (memory'.group_blocks.contents g).name.bytes ≠ cstr group'.name.bytes := by
          have hg' := (h.multicastGroups g).mpr hg
          rw [← (h.group_blocks g hg').name, ← hname]
          exact hnew g hg'
        obtain ⟨ip, T, effects, hip, haddress, hadd, hcreated⟩ :=
          h.valid.create_group_room group hnew hroom
        obtain ⟨ip', T', effects', hip', haddress', hadd', hcreated'⟩ :=
          h.valid'.create_group_room group' hnew' (h.current_group ▸ hroom)
        rw [← h.current_group] at hip' haddress'
        have halike := h.create hcreated hcreated' ⟨hname, haddress.trans haddress'.symm⟩
        rw [← h.current_group] at halike
        simp only [if_pos hroom, hip, hip', hadd, hadd', Result.ok_bind]
        refine .ok ⟨halike, ?_⟩
        rw [h.send_udp_message hs]
      · rw [if_neg hroom, if_neg hroom]
        exact h.answered hs _
  · exact h.answered hs _

theorem Alike.cmd_getmulticast (h : memory.Alike memory') (hs : s ∈ memory.userSessions) :
    Result.Related SameOutputs (server.cmd_getmulticast memory s args)
      (server.cmd_getmulticast memory' s args) := by
  apply h.logged_in hs
  intro hlogged
  apply Result.Related.bind_eq
  intro values hargs
  split
  · rename_i group_name
    apply h.permitted hs .group hlogged
    intro sender _ _
    apply h.naming hargs
    intro group group' found _ hfound
    cases found with
    | none => exact h.answered hs _
    | some g =>
      have hgroup := h.group_blocks g ((hfound g).mp rfl).1
      simp only [hgroup.ip]
      exact h.answered hs _
  · exact h.answered hs _

end Commands

section Datagrams

variable {sock : sockaddr_in} {args datagram : Bytes} {locals locals' : Locals}
  {opened opened' : Memory} {command : ClientCommand}

/-- A command shows what the stack held: the flags of a record are printed where they
are neither 0 nor 1, or the text of a message ends in front of the bytes that are sent. -/
inductive ShowsStack (memory : Memory) (sock : sockaddr_in) (args : Bytes) : ClientCommand → Prop
  | login (username password : Bytes) (u : Nat) (permission : Permission)
    (hlogged : ∀ t, memory.SessionAt sock t → (memory.sessions.contents t).logged_in = 0)
    (hargs : sscanf args [.word USERNAME_SIZE, .space, .word PASSWORD_SIZE] =
      .ok [.string username, .string password])
    (huser : memory.find_user username = .ok (some u))
    (hip : (memory.clients.contents u).ip_string = inet_ntop sock.sin_addr)
    (hpassword : (memory.clients.contents u).password_string = cstr password)
    (hno : (memory.clients.contents u).flag permission ≠ 0)
    (hyes : (memory.clients.contents u).flag permission ≠ 1) :
    ShowsStack memory sock args .LOGIN
  | msg (client sender u selected : Nat) (username message : Bytes)
    (hclient : memory.SessionAt sock client)
    (hpermitted : memory.Permitted client .client_server sender)
    (hargs : sscanf args [.word USERNAME_SIZE, .space, .line BUFFER_SIZE, .literal 115] =
      .ok [.string username, .string message])
    (huser : memory.find_user username = .ok (some u))
    (hsession : memory.find_session u = .ok (some selected))
    (hshort : (memory.relay_text client sender message).length + 1 < BUFFER_SIZE) :
    ShowsStack memory sock args .MSG

/-- A command that does not show the stack does the same for the session of its address. -/
theorem Alike.client_cmd_functions (h : opened.Alike opened')
    (hopened : memory.Opened sock s opened) (hclean : ¬ memory.ShowsStack sock args command) :
    Result.Related SameOutputs (server.client_cmd_functions opened s args locals command)
      (server.client_cmd_functions opened' s args locals' command) := by
  cases command with
  | LOGIN =>
    apply h.cmd_login hopened.mem
    intro username password u hlogged hargs huser hip hpassword permission
    rw [hopened.find_user_eq] at huser
    rw [hopened.clients_eq] at hip hpassword ⊢
    by_contra hflag
    push Not at hflag
    obtain ⟨hno, hyes⟩ := hflag
    apply hclean
    have hstring := strcmp_eq_zero_iff.mp hip
    have hsecret := strcmp_eq_zero_iff.mp hpassword
    rw [hopened.ip, client_t.ip_string, cstr_cstr] at hstring
    rw [client_t.password_string, cstr_cstr] at hsecret
    refine .login username password u permission ?_ hargs huser hstring.symm hsecret hno hyes
    intro t ht
    obtain ⟨rfl, rfl⟩ := hopened.eq_of_sessionAt ht
    exact hlogged
  | MSG =>
    apply h.cmd_msg hopened.mem
    intro sender username message u selected hpermitted hargs huser
      hsession
    obtain rfl := hopened.same (hopened.permitted_old hpermitted).1
    by_contra hshort
    exact hclean (.msg s sender u selected username message hopened.sessionAt hpermitted hargs huser
      hsession (Nat.lt_of_not_le hshort))
  | P2P => exact h.cmd_p2p hopened.mem
  | CREATEMULTICAST => exact h.cmd_createmulticast hopened.mem
  | GETMULTICAST => exact h.cmd_getmulticast hopened.mem

/-- The log does the same for a session of memories that are alike. -/
theorem Alike.logged_username (h : opened.Alike opened') (hs : s ∈ opened.userSessions) :
    server.logged_username opened s = server.logged_username opened' s := by
  rw [server.logged_username, server.logged_username, (h.sessions s hs).client, h.clients_brk]
  cases (opened'.sessions.contents s).client with
  | none => rfl
  | some u =>
    by_cases hu : u < opened'.clients.brk
    · simp only [if_pos hu, h.clients u (h.clients_brk ▸ hu)]
    · simp only [if_neg hu]

/-- A datagram does the same in memories that are alike, if its session finds the same pointer
where it is new. -/
theorem Alike.udp_server_worker (h : memory.Alike memory')
    (hfresh : (∀ t, ¬ memory.SessionAt sock t) →
      memory.sessions.fresh.client = memory'.sessions.fresh.client)
    (hclean : ∀ command args, parse_line client_commands (line (datagram.take BUFFER_SIZE)) =
      some (command, args) → ¬ memory.ShowsStack sock args command) :
    Result.Related SameOutputs (server.udp_server_worker memory sock datagram locals)
      (server.udp_server_worker memory' sock datagram locals') := by
  obtain ⟨s, opened, opened', hinit, hinit', hopened, halike⟩ := h.init_client_session sock hfresh
  rw [udp_server_worker_eq_logged hinit (received_command_eq datagram locals),
    udp_server_worker_eq_logged hinit' (received_command_eq datagram locals'),
    halike.logged_username hopened.mem]
  apply Result.Related.bind_eq
  intro username _
  cases hparse : parse_line client_commands (line (datagram.take BUFFER_SIZE)) with
  | none => exact halike.answered hopened.mem _
  | some entry => exact halike.client_cmd_functions hopened (hclean entry.1 entry.2 hparse)

end Datagrams

end Memory

end rc_project.server
