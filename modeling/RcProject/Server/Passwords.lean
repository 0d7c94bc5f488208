import RcProject.Server.AlikeUsers
import RcProject.Server.SessionBlocks

open rc_project.avl_tree rc_project.blocks rc_project.c_string rc_project.scanf
open rc_project.transition

namespace rc_project.server

namespace Service

/-- The service without the passwords of its accounts. -/
def forget (service : Service) : Service :=
  { service with account := fun u => { service.account u with password := [] } }

/-- Two services that differ in passwords at most, and of these the guesses that are made are
right in both or in none. -/
structure Hides (guesses : Bytes → Bytes → Prop) (service service' : Service) : Prop where
  forget : service.forget = service'.forget
  judged : ∀ u guess, guesses (service.account u).username guess →
    ((service.account u).password = guess ↔ (service'.account u).password = guess)

variable {guesses : Bytes → Bytes → Prop} {service service' next next' : Service}
  {sock : sockaddr_in} {args : Bytes} {locals : Locals}

namespace Hides

section Fields

variable (h : Hides guesses service service')
include h

theorem accounts : service.accounts = service'.accounts := (congrArg Service.accounts h.forget :)

theorem created : service.created = service'.created := (congrArg Service.created h.forget :)

theorem sessions : service.sessions = service'.sessions := (congrArg Service.sessions h.forget :)

theorem groups : service.groups = service'.groups := (congrArg Service.groups h.forget :)

theorem current_group : service.current_group = service'.current_group :=
  (congrArg Service.current_group h.forget :)

theorem account (u : Nat) : { service.account u with password := [] } =
    { service'.account u with password := [] } :=
  congrFun (congrArg Service.account h.forget) u

theorem username (u : Nat) : (service.account u).username = (service'.account u).username :=
  (congrArg Account.username (h.account u) :)

theorem ip (u : Nat) : (service.account u).ip = (service'.account u).ip :=
  (congrArg Account.ip (h.account u) :)

theorem flag (u : Nat) : (service.account u).flag = (service'.account u).flag :=
  (congrArg Account.flag (h.account u) :)

theorem user_at (sock : sockaddr_in) : service.user_at sock = service'.user_at sock := by
  rw [Service.user_at, h.sessions, Service.user_at]

/-- A lookup of a session reads no password. -/
theorem find_session (u : Nat) : service.find_session u = service'.find_session u :=
  calc service.find_session u
    _ = service.forget.find_session u := rfl
    _ = service'.forget.find_session u := by rw [h.forget]
    _ = service'.find_session u := rfl

theorem message (u : Nat) (sock : sockaddr_in) (message : Bytes) :
    (service.account u).message sock message = (service'.account u).message sock message := by
  rw [Account.message, h.username, Account.message]

/-- A change that leaves the accounts as they are. -/
theorem of_account (hforget : next.forget = next'.forget) (hsame : next.account = service.account)
    (hsame' : next'.account = service'.account) : Hides guesses next next' where
  forget := hforget
  judged := by
    rw [hsame, hsame']
    exact h.judged

theorem opens (sock : sockaddr_in) : Hides guesses (service.opens sock) (service'.opens sock) := by
  unfold Service.opens
  rw [h.sessions]
  split
  · exact h.of_account (congrArg (fun service => { service with
      sessions := Function.update service'.sessions sock (some none) }) h.forget) rfl rfl
  · exact h

theorem login (sock : sockaddr_in) (u : Nat) :
    Hides guesses (service.login sock u) (service'.login sock u) where
  forget := by
    have hlogin (service : Service) :
        (service.login sock u).forget = service.forget.login sock u := by
      have haccount : (service.login sock u).forget.account =
          (service.forget.login sock u).account := by
        funext v
        by_cases hv : v = u
        · subst hv
          simp [Service.forget, Service.login]
        · simp [Service.forget, Service.login, Function.update_of_ne hv]
      simp only [Service.forget, Service.login, Service.mk.injEq, and_true, true_and] at *
      exact haccount
    rw [hlogin, hlogin, h.forget]
  judged v guess := by
    have hfields (service : Service) : ((service.login sock u).account v).username =
        (service.account v).username ∧ ((service.login sock u).account v).password =
          (service.account v).password := by
      rw [login_account]
      by_cases hv : v = u
      · subst hv
        simp
      · simp [Function.update_of_ne hv]
    rw [(hfields service).1, (hfields service).2, (hfields service').2]
    exact h.judged v guess

end Fields

section Commands

/-- What both services send is the same, and what they become differs in passwords at most. -/
def Same (guesses : Bytes → Bytes → Prop) (result result' : Service × List Sent) : Prop :=
  Hides guesses result.1 result'.1 ∧ result.2 = result'.2

theorem answers (h : Hides guesses service service') (sent : List Sent) :
    Result.Related (Same guesses) (pure (service, sent)) (pure (service', sent)) := .ok ⟨h, rfl⟩

/-- A login reads a password to compare it with a guess. -/
theorem cmd_login (h : Hides guesses service service') (hguess : ∀ username guess,
      sscanf args [.word USERNAME_SIZE, .space, .word PASSWORD_SIZE] =
        .ok [.string username, .string guess] → guesses (cstr username) (cstr guess))
    (hnames : ∀ username u, service.accounts username = some u →
      (service.account u).username = username) :
    Result.Related (Same guesses) (service.cmd_login sock args locals)
      (service'.cmd_login sock args locals) := by
  rw [Service.cmd_login, Service.cmd_login, ← h.user_at]
  split
  · exact h.answers _
  · refine Result.Related.bind_eq fun values hargs => ?_
    split
    · rename_i username guess
      rw [← h.accounts]
      cases hu : service.accounts (cstr username) with
      | none => exact h.answers _
      | some u =>
        have hjudged := h.judged u (cstr guess)
        rw [hnames _ u hu] at hjudged
        replace hjudged := hjudged (hguess username guess hargs)
        dsimp only
        rw [← h.ip, ← h.flag]
        split
        · exact h.answers _
        · by_cases hright : (service.account u).password = cstr guess
          · rw [if_pos hright, if_pos (hjudged.mp hright)]
            exact .ok ⟨h.login sock u, rfl⟩
          · rw [if_neg hright, if_neg (mt hjudged.mpr hright)]
            exact h.answers _
    · exact h.answers _

theorem cmd_msg (h : Hides guesses service service') : Result.Related (Same guesses)
    (service.cmd_msg sock args locals) (service'.cmd_msg sock args locals) := by
  rw [Service.cmd_msg, Service.cmd_msg, ← h.user_at]
  cases service.user_at sock with
  | none => exact h.answers _
  | some sender =>
    dsimp only
    rw [← h.flag]
    split
    · exact h.answers _
    · refine Result.Related.bind_eq fun values hargs => ?_
      split
      · rename_i username message
        rw [← h.accounts, ← h.message]
        cases service.accounts (cstr username) with
        | none => exact h.answers _
        | some u =>
          dsimp only
          rw [← h.find_session]
          refine Result.Related.bind_eq fun found hfound => ?_
          cases found with
          | none => exact h.answers _
          | some target => exact h.answers _
      · exact h.answers _

theorem cmd_p2p (h : Hides guesses service service') : Result.Related (Same guesses)
    (service.cmd_p2p sock args) (service'.cmd_p2p sock args) := by
  rw [Service.cmd_p2p, Service.cmd_p2p, ← h.user_at]
  cases service.user_at sock with
  | none => exact h.answers _
  | some sender =>
    dsimp only
    rw [← h.flag]
    split
    · exact h.answers _
    · refine Result.Related.bind_eq fun values hargs => ?_
      split
      · rename_i username
        rw [← h.accounts]
        cases service.accounts (cstr username) with
        | none => exact h.answers _
        | some u =>
          dsimp only
          rw [← h.find_session]
          refine Result.Related.bind_eq fun found hfound => ?_
          cases found with
          | none => exact h.answers _
          | some target => exact h.answers _
      · exact h.answers _

theorem cmd_createmulticast (h : Hides guesses service service') : Result.Related (Same guesses)
    (service.cmd_createmulticast sock args) (service'.cmd_createmulticast sock args) := by
  rw [Service.cmd_createmulticast, Service.cmd_createmulticast, ← h.user_at]
  cases service.user_at sock with
  | none => exact h.answers _
  | some sender =>
    dsimp only
    refine Result.Related.bind_eq fun values hargs => ?_
    split
    · rename_i group_name
      rw [← h.flag, ← h.groups, ← h.current_group]
      split
      · exact h.answers _
      split
      · exact h.answers _
      split
      · refine .ok ⟨h.of_account ?_ rfl rfl, rfl⟩
        exact congrArg (fun other : Service => { other with
          groups := Function.update service.groups (cstr group_name)
            (some (server.groups.getD service.current_group []))
          current_group := service.current_group + 1 }) h.forget
      · exact h.answers _
    · exact h.answers _

theorem cmd_getmulticast (h : Hides guesses service service') : Result.Related (Same guesses)
    (service.cmd_getmulticast sock args) (service'.cmd_getmulticast sock args) := by
  rw [Service.cmd_getmulticast, Service.cmd_getmulticast, ← h.user_at]
  cases service.user_at sock with
  | none => exact h.answers _
  | some sender =>
    dsimp only
    refine Result.Related.bind_eq fun values hargs => ?_
    split
    · rename_i group_name
      rw [← h.flag, ← h.groups]
      split
      · exact h.answers _
      · cases service.groups (cstr group_name) with
        | none => exact h.answers _
        | some ip => exact h.answers _
    · exact h.answers _

/-- The guess of a login is one of those that are made. -/
def Guessed (guesses : Bytes → Bytes → Prop) (command : Option (ClientCommand × Bytes)) : Prop :=
  ∀ args username guess, command = some (.LOGIN, args) →
    sscanf args [.word USERNAME_SIZE, .space, .word PASSWORD_SIZE] =
      .ok [.string username, .string guess] → guesses (cstr username) (cstr guess)

theorem serve (h : Hides guesses service service')
    (hnames : ∀ username u, service.accounts username = some u →
      (service.account u).username = username) {command : Option (ClientCommand × Bytes)}
    (hguessed : Guessed guesses command) : Result.Related (Same guesses)
      (service.serve sock locals command) (service'.serve sock locals command) := by
  have hopens := h.opens sock
  cases command with
  | none => exact hopens.answers _
  | some found =>
    obtain ⟨command, args⟩ := found
    cases command with
    | LOGIN =>
      refine hopens.cmd_login (fun username guess => hguessed args username guess rfl) ?_
      rw [opens_accounts, opens_account]
      exact hnames
    | MSG => exact hopens.cmd_msg
    | P2P => exact hopens.cmd_p2p
    | CREATEMULTICAST => exact hopens.cmd_createmulticast
    | GETMULTICAST => exact hopens.cmd_getmulticast

end Commands

end Hides

end Service

/-- Two records that differ in passwords at most, for which the guesses are right in both or in
none. -/
structure client_t.Hides (guesses : Bytes → Bytes → Prop) (client client' : client_t) : Prop where
  account : { client.toAccount with password := [] } = { client'.toAccount with password := [] }
  judged : ∀ guess, guesses client.username_string guess →
    (client.password_string = guess ↔ client'.password_string = guess)

theorem client_t.Hides.username {guesses : Bytes → Bytes → Prop} {client client' : client_t}
    (h : client.Hides guesses client') : client.username_string = client'.username_string :=
  (congrArg Account.username h.account :)

theorem client_t.Hides.refl (guesses : Bytes → Bytes → Prop) (client : client_t) :
    client.Hides guesses client := ⟨rfl, fun _ _ => Iff.rfl⟩

theorem Service.Hides.create {guesses : Bytes → Bytes → Prop} {service service' : Service}
    {client client' : client_t} (h : service.Hides guesses service')
    (hclient : client.Hides guesses client') :
    (service.create client.toAccount).Hides guesses (service'.create client'.toAccount) where
  forget := by
    have hcreate (service : Service) (client : client_t) :
        (service.create client.toAccount).forget =
          service.forget.create { client.toAccount with password := [] } := by
      have haccount : (service.create client.toAccount).forget.account =
          (service.forget.create { client.toAccount with password := [] }).account := by
        funext v
        by_cases hv : v = service.created
        · subst hv
          simp [Service.forget, Service.create]
        · simp [Service.forget, Service.create, Function.update_of_ne hv]
      simp only [Service.forget, Service.create, Service.mk.injEq, and_true, true_and] at *
      exact haccount
    rw [hcreate, hcreate, h.forget, hclient.account]
  judged v guess := by
    simp only [Service.create, h.created]
    by_cases hv : v = service'.created
    · subst hv
      simp only [Function.update_self]
      exact hclient.judged guess
    · simp only [Function.update_of_ne hv]
      exact h.judged v guess

namespace Memory

/-- Two memories that differ in passwords at most, and that hold their users in one tree. -/
structure Hides (guesses : Bytes → Bytes → Prop) (memory memory' : Memory) : Prop where
  valid : memory.Valid
  valid' : memory'.Valid
  user_list : ∃ tree, Represents memory.user_list tree ∧ Represents memory'.user_list tree
  service : memory.service.Hides guesses memory'.service
  fresh : ∀ u, memory.clients.brk ≤ u → memory.clients.contents u = memory'.clients.contents u

variable {guesses : Bytes → Bytes → Prop} {memory memory' next next' : Memory}
  {client client' : client_t} {u : Nat}

namespace Hides

variable (h : memory.Hides guesses memory')
include h

section Users

theorem brk : memory.clients.brk = memory'.clients.brk := h.service.created

theorem fresh_eq : memory.clients.fresh = memory'.clients.fresh := by
  rw [Blocks.fresh, Blocks.fresh, ← h.brk]
  exact h.fresh _ le_rfl

theorem username (u : Nat) : (memory.clients.contents u).username_string =
    (memory'.clients.contents u).username_string := h.service.username u

theorem sameNames : memory.SameNames memory' where
  valid := h.valid
  valid' := h.valid'
  user_list := h.user_list
  brk := h.brk
  username := fun u _ => h.username u

end Users

end Hides

section Changes

/-- One user that is added to both memories. -/
theorem Hides.add_user (h : memory.Hides guesses memory') (hclient : client.Hides guesses client')
    (free_data write_data : Bool) : ∃ res outputs outputs', ∃ next next' : Memory,
      memory.add_user client free_data write_data = .ok (res, next, outputs) ∧
        memory'.add_user client' free_data write_data = .ok (res, next', outputs') ∧
        next.Hides guesses next' ∧ outputs.filterMap Output.sent = [] ∧
        outputs'.filterMap Output.sent = [] := by
  have hwritten (client : client_t) : (if write_data then [Output.write client.bytes] else []).filterMap
      Output.sent = [] := by
    split <;> rfl
  cases h.sameNames.addedBoth hclient.username free_data write_data with
  | duplicated hadd hadd' => exact ⟨_, _, _, memory, memory', hadd, hadd', h, rfl, rfl⟩
  | added next next' tree hnew hnew' hadd hadd' hadded hadded' htree htree' =>
    refine ⟨_, _, _, next, next', hadd, hadd', ?_, hwritten client, hwritten client'⟩
    exact {
      valid := hadded.valid
      valid' := hadded'.valid
      user_list := ⟨tree, htree, htree'⟩
      service := by
        rw [hadded.service_eq h.valid hnew, hadded'.service_eq h.valid' hnew']
        exact h.service.create hclient
      fresh := by
        rw [hadded.rest, hadded'.rest]
        simp only [Blocks.alloc, ← h.brk]
        intro u hu
        have hne : u ≠ memory.clients.brk := by omega
        rw [Function.update_of_ne hne, Function.update_of_ne hne]
        exact h.fresh u (by omega) }

/-- Behind a removal the users that are left are found. -/
theorem Removed.service_users (hremoved : memory.Removed u next) : next.service =
    { memory.service with
      accounts := fun name => next.users.find? fun v =>
        (memory.clients.contents v).username_string = name } := by
  have hclients : next.clients = memory.clients := by rw [hremoved.rest]
  rw [← hclients]
  conv_lhs => rw [Memory.service, hremoved.rest]
  rw [Memory.service, hclients]
  rfl

/-- What is written to the file is sent to nobody. -/
theorem sent_rewrite (clients : Nat → client_t) (users : List Nat) :
    (Output.ftruncate :: users.map fun v => .write (clients v).bytes).filterMap Output.sent = [] := by
  rw [List.filterMap_eq_nil_iff]
  intro output houtput
  obtain rfl | hmem := List.mem_cons.mp houtput
  · rfl
  · obtain ⟨v, -, rfl⟩ := List.mem_map.mp hmem
    rfl

/-- A removal of one name. The records that are left are written with their passwords, to the file
only. -/
theorem Hides.remove_user (h : memory.Hides guesses memory')
    (hname : client.username_string = client'.username_string) : ∃ res outputs outputs',
      ∃ next next' : Memory, memory.remove_user client true true = .ok (res, next, outputs) ∧
        memory'.remove_user client' true true = .ok (res, next', outputs') ∧
        next.Hides guesses next' ∧ outputs.filterMap Output.sent = [] ∧
        outputs'.filterMap Output.sent = [] := by
  cases h.sameNames.removedBoth hname with
  | not_found hremove hremove' => exact ⟨_, _, _, memory, memory', hremove, hremove', h, rfl, rfl⟩
  | removed u v next next' tree hremove hremove' hremoved hremoved' htree htree' =>
    refine ⟨_, _, _, next, next', hremove, hremove', ?_, sent_rewrite _ _, sent_rewrite _ _⟩
    have husers : next'.users = next.users :=
      (elements_eq_users htree').symm.trans (elements_eq_users htree)
    exact {
      valid := hremoved.valid
      valid' := hremoved'.valid
      user_list := ⟨tree, htree, htree'⟩
      service := by
        refine h.service.of_account ?_ ?_ ?_
        · rw [hremoved.service_users, hremoved'.service_users, husers]
          simp only [← h.username]
          exact congrArg (fun service : Service => { service with
            accounts := fun name => next.users.find? fun u =>
              (memory.clients.contents u).username_string = name }) h.service.forget
        · rw [hremoved.service_users]
        · rw [hremoved'.service_users]
      fresh := by
        rw [hremoved.rest, hremoved'.rest]
        exact h.fresh }

end Changes

section Commands

variable {args : Bytes} {socket : Int}

/-- What both memories lead to: the same exit flag, and the same is sent. -/
def SameSent (guesses : Bytes → Bytes → Prop) (result result' : Memory × Int × List Output) : Prop :=
  result.1.Hides guesses result'.1 ∧ result.2.1 = result'.2.1 ∧
    result.2.2.filterMap Output.sent = result'.2.2.filterMap Output.sent

theorem Hides.cmd_list (h : memory.Hides guesses memory') (socket : Int) :
    Result.Related (SameSent guesses) (server.cmd_list memory socket)
      (server.cmd_list memory' socket) := by
  have hlist : memory.users.map (fun data => send_to_client socket (memory.clients.contents data)) =
      memory'.users.map fun data => send_to_client socket (memory'.clients.contents data) := by
    rw [← h.sameNames.users]
    apply List.map_congr_left
    intro u hu
    rw [send_to_client, h.username, send_to_client]
  rw [server.cmd_list, server.cmd_list, avl_print_client_stores h.valid.user_list.stores,
    avl_print_client_stores h.valid'.user_list.stores, hlist]
  exact .ok ⟨h, rfl, rfl⟩

theorem Hides.cmd_add (h : memory.Hides guesses memory') :
    Result.Related (SameSent guesses) (server.cmd_add memory socket args)
      (server.cmd_add memory' socket args) := by
  apply Result.Related.bind_eq
  intro values hargs
  split
  · rw [← h.fresh_eq]
    refine Result.Related.bind_eq fun client hclient => ?_
    obtain ⟨res, outputs, outputs', next, next', hadd, hadd', hnext, hsent, hsent'⟩ :=
      h.add_user (client_t.Hides.refl guesses client) true true
    rw [hadd, hadd', Result.ok_bind, Result.ok_bind]
    dsimp only
    split
    · exact .ok ⟨hnext, rfl, by rw [List.filterMap_append, List.filterMap_append, hsent, hsent']⟩
    · exact .ok ⟨hnext, rfl, by rw [List.filterMap_append, List.filterMap_append, hsent, hsent']⟩
  · exact .ok ⟨h, rfl, rfl⟩

theorem Hides.cmd_del (h : memory.Hides guesses memory') :
    Result.Related (SameSent guesses) (server.cmd_del memory socket args)
      (server.cmd_del memory' socket args) := by
  apply Result.Related.bind_eq
  intro values hargs
  split
  · rw [← h.fresh_eq]
    refine Result.Related.bind_eq fun client hclient => ?_
    obtain ⟨res, outputs, outputs', next, next', hremove, hremove', hnext, hsent, hsent'⟩ :=
      h.remove_user (rfl : client.username_string = _)
    rw [hremove, hremove', Result.ok_bind, Result.ok_bind]
    dsimp only
    split
    · exact .ok ⟨hnext, rfl, by rw [List.filterMap_append, List.filterMap_append, hsent, hsent']⟩
    · exact .ok ⟨hnext, rfl, by rw [List.filterMap_append, List.filterMap_append, hsent, hsent']⟩
  · exact .ok ⟨h, rfl, rfl⟩

theorem Hides.cmd_function (h : memory.Hides guesses memory') (command : Bytes) :
    Result.Related (fun r r' => r.1 = r'.1 ∧ Option.Rel (SameSent guesses) r.2 r'.2)
      (server.cmd_function memory socket command) (server.cmd_function memory' socket command) := by
  refine Result.Related.bind_eq fun found hfound => ?_
  obtain ⟨buffer, found⟩ := found
  cases found with
  | none => exact .ok ⟨rfl, .none⟩
  | some entry =>
    obtain ⟨function, args⟩ := entry
    have hrun : Result.Related (SameSent guesses) (cmd_functions memory socket args function)
        (cmd_functions memory' socket args function) := by
      cases function with
      | LIST => exact h.cmd_list socket
      | ADD => exact h.cmd_add
      | DEL => exact h.cmd_del
      | QUIT => exact .ok ⟨h, rfl, rfl⟩
    exact hrun.bind fun result result' _ _ hsame => .ok ⟨rfl, .some hsame⟩

/-- A read of the admin. -/
theorem Hides.handle_admin (h : memory.Hides guesses memory') (connection : Connection)
    (received : Bytes) :
    Result.Related (fun r r' => r.1.Hides guesses r'.1 ∧ r.2.1 = r'.2.1 ∧
        r.2.2.filterMap Output.sent = r'.2.2.filterMap Output.sent)
      (server.handle_admin memory connection received)
      (server.handle_admin memory' connection received) := by
  unfold server.handle_admin
  split
  · exact .ok ⟨h, rfl, rfl⟩
  · refine (h.cmd_function _).bind ?_
    rintro ⟨buffer, found⟩ ⟨buffer', found'⟩ - - ⟨rfl, hsame⟩
    cases hsame with
    | none => exact .ok ⟨h, rfl, rfl⟩
    | some hsame =>
      rename_i result result'
      obtain ⟨next, exit, outputs⟩ := result
      obtain ⟨next', exit', outputs'⟩ := result'
      obtain ⟨hnext, rfl, hsent⟩ := hsame
      exact .ok ⟨hnext, rfl, hsent⟩

end Commands

section Datagrams

variable {sock : sockaddr_in} {datagram : Bytes} {locals : Locals} {outputs : List Output}

/-- Of the users, at most ports are changed. -/
structure KeepsUsers (memory next : Memory) : Prop where
  user_list : next.user_list = memory.user_list
  records : next.records = memory.records
  brk : next.clients.brk = memory.clients.brk
  contents : ∀ u, next.clients.contents u =
    { memory.clients.contents u with port := (next.clients.contents u).port }

/-- A datagram changes of the users at most the port that one of them has logged in from. -/
theorem keepsUsers_of_served (h : Served memory sock datagram locals next outputs) :
    memory.KeepsUsers next := by
  have hsame {s : Nat} {opened : Memory} (hopened : memory.Opened sock s opened) :
      memory.KeepsUsers opened := by
    rw [hopened.rest]
    exact ⟨rfl, rfl, rfl, fun _ => rfl⟩
  cases h with
  | unknown opened s hopen => exact hsame hopen
  | command opened s hopen command args _ _ _ hperformed =>
    have hkeeps := hsame hopen
    cases hperformed with
    | refused | msg | p2p | get => exact hkeeps
    | create group_name sender group next _ _ _ _ _ hcreated =>
      rw [hcreated.rest]
      exact ⟨hkeeps.user_list, hkeeps.records, hkeeps.brk, hkeeps.contents⟩
    | login username password v =>
      refine ⟨hkeeps.user_list, hkeeps.records, hkeeps.brk, fun u => ?_⟩
      by_cases hu : u = v
      · rw [hu, bind, Blocks.store_self, hkeeps.contents v]
      · rw [bind, Blocks.store_of_ne _ hu]
        exact hkeeps.contents u

/-- A port is that of a user, so that what no user stands in stays as it is. -/
theorem fresh_of_served (hvalid : memory.Valid)
    (h : Served memory sock datagram locals next outputs) {u : Nat} (hu : memory.clients.brk ≤ u) :
    next.clients.contents u = memory.clients.contents u := by
  have hsame {s : Nat} {opened : Memory} (hopened : memory.Opened sock s opened) :
      opened.clients.contents u = memory.clients.contents u := by
    rw [hopened.rest]
  cases h with
  | unknown opened s hopen => exact hsame hopen
  | command opened s hopen command args _ _ _ hperformed =>
    have hcontents := hsame hopen
    cases hperformed with
    | refused | msg | p2p | get => exact hcontents
    | create group_name sender group next _ _ _ _ _ hcreated =>
      rw [hcreated.rest]
      exact hcontents
    | login username password v _ _ huser =>
      have hv : v ∈ memory.users :=
        (hvalid.find_user_eq_some_iff.mp (hopen.find_user_eq username ▸ huser)).2.1
      have hne : u ≠ v := ((hvalid.user_list.allocated v hv).trans_le hu).ne'
      rw [bind, Blocks.store_of_ne _ hne]
      exact hcontents

theorem valid_of_worker (hvalid : memory.Valid)
    (hrun : server.udp_server_worker memory sock datagram locals = .ok (next, outputs)) :
    next.Valid := by
  have hstep : step ⟨memory, none⟩ (.datagram sock datagram locals) = .ok (⟨next, none⟩, outputs) := by
    rw [step, hrun]
    rfl
  exact step_valid hvalid hstep

/-- A datagram whose guesses are those that are made. -/
theorem Hides.udp_server_worker (h : memory.Hides guesses memory')
    (hsessions : memory.SameSessions memory')
    (hguessed : ∀ command, received_command datagram locals = .ok command →
      Service.Hides.Guessed guesses command) :
    Result.Related (fun r r' => r.1.Hides guesses r'.1 ∧ r.1.SameSessions r'.1 ∧
        r.2.filterMap Output.sent = r'.2.filterMap Output.sent)
      (server.udp_server_worker memory sock datagram locals)
      (server.udp_server_worker memory' sock datagram locals) := by
  by_cases hpointed : memory.PointedFrom sock
  case neg =>
    have hpointed' : ¬ memory'.PointedFrom sock := fun hpointed' =>
      hpointed (hsessions.symm.pointedFrom h.brk.symm hpointed')
    have hwild : server.udp_server_worker memory sock datagram locals = .error .wild_pointer :=
      h.valid.udp_server_worker_error_iff.mpr (Or.inl ⟨rfl, hpointed⟩)
    have hwild' : server.udp_server_worker memory' sock datagram locals = .error .wild_pointer :=
      h.valid'.udp_server_worker_error_iff.mpr (Or.inl ⟨rfl, hpointed'⟩)
    rw [hwild, hwild']
    exact .error _
  have hservice : Result.Related (Service.Hides.Same guesses)
      ((server.udp_server_worker memory sock datagram locals).map asService)
      ((server.udp_server_worker memory' sock datagram locals).map asService) := by
    rw [h.valid.udp_server_worker_service datagram locals hpointed,
      h.valid'.udp_server_worker_service datagram locals (hsessions.pointedFrom h.brk hpointed)]
    refine Result.Related.bind_eq fun command hcommand => ?_
    refine h.service.serve (fun username u hu => ?_) (hguessed command hcommand)
    exact (h.valid.service_accounts.mp hu).2
  apply hservice.of_map.mono
  rintro ⟨next, outputs⟩ ⟨next', outputs'⟩ hrun hrun' ⟨hsame, hsent⟩
  have hserved := h.valid.served hrun
  have hserved' := h.valid'.served hrun'
  have hkeeps := keepsUsers_of_served hserved
  have hkeeps' := keepsUsers_of_served hserved'
  obtain ⟨tree, hrep, hrep'⟩ := h.user_list
  have hsame' := hsessions.served (valid_of_worker h.valid hrun) (valid_of_worker h.valid' hrun')
    hserved hserved' hsame.sessions
  exact ⟨{
    valid := valid_of_worker h.valid hrun
    valid' := valid_of_worker h.valid' hrun'
    user_list := ⟨tree, hkeeps.user_list ▸ hrep, hkeeps'.user_list ▸ hrep'⟩
    service := hsame
    fresh := fun u hu => by
      rw [hkeeps.brk] at hu
      rw [fresh_of_served h.valid hserved hu, fresh_of_served h.valid' hserved' (h.brk ▸ hu)]
      exact h.fresh u hu }, hsame', hsent⟩

end Datagrams

/-- The loop of `main` on two files. -/
theorem Hides.load (h : memory.Hides guesses memory') {records records' : List client_t}
    (hrecords : List.Forall₂ (client_t.Hides guesses) records records') {fuel : Nat}
    (hfuel : records.length < fuel) (client client' : client_t) : ∃ next next' : Memory,
      server.load fuel memory client (records.flatMap client_t.bytes) = .ok next ∧
        server.load fuel memory' client' (records'.flatMap client_t.bytes) = .ok next' ∧
        next.Hides guesses next' := by
  induction hrecords generalizing memory memory' fuel client client' with
  | nil =>
    obtain ⟨fuel, rfl⟩ := Nat.exists_eq_succ_of_ne_zero (Nat.ne_of_gt (Nat.zero_lt_of_lt hfuel))
    exact ⟨memory, memory', rfl, rfl, h⟩
  | @cons first first' records records' hfirst _ ih =>
    obtain ⟨fuel, rfl⟩ := Nat.exists_eq_succ_of_ne_zero (Nat.ne_of_gt (Nat.zero_lt_of_lt hfuel))
    obtain ⟨res, outputs, outputs', added, added', hadd, hadd', hadded, -⟩ :=
      h.add_user hfirst false false
    obtain ⟨next, next', hload, hload', hnext⟩ := ih hadded (Nat.lt_of_succ_lt_succ hfuel) first first'
    refine ⟨next, next', ?_, ?_, hnext⟩
    · rw [load_cons, hadd, Result.ok_bind]
      exact hload
    · rw [load_cons, hadd', Result.ok_bind]
      exact hload'

end Memory

section Runs

variable {guesses : Bytes → Bytes → Prop} {startup : Startup} {records records' : List client_t}
  {start start' server server' : Server} {event : Event} {events : List Event}

/-- Two servers that differ in passwords at most. -/
structure Server.Hides (guesses : Bytes → Bytes → Prop) (server server' : Server) : Prop where
  memory : server.memory.Hides guesses server'.memory
  sessions : server.memory.SameSessions server'.memory
  admin : server.admin = server'.admin

/-- What leaves the server in each step of a run. -/
def sends (outputs : List (List Output)) : List (List Sent) := outputs.map (List.filterMap Output.sent)

end Runs

end rc_project.server
