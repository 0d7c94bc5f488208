import RcProject.Server.Overflow
import RcProject.Server.Service

open rc_project.avl_tree rc_project.blocks rc_project.c_string rc_project.scanf

namespace rc_project.server

/-- What is behind a step of the server, as the service. -/
def asService (result : Memory × List Output) : Service × List Sent :=
  (result.1.service, result.2.filterMap Output.sent)

namespace Memory

variable {memory : Memory} {sock : sockaddr_in} {client u : Nat} {args : Bytes} {locals : Locals}

section Lookups

theorem Valid.sessionAt_of_mem (hvalid : memory.Valid) (ht : client ∈ memory.userSessions) :
    memory.SessionAt (memory.sessions.contents client).sock client := by
  obtain ⟨hip, hport⟩ := hvalid.addressed client ht
  exact ⟨ht, hip, hport⟩

theorem Valid.user_at_eq (hvalid : memory.Valid) (hat : memory.SessionAt sock client) :
    memory.service.user_at sock = (memory.sessions.contents client).user := by
  rw [Service.user_at, hvalid.service_sessions.mpr ⟨client, hat, rfl⟩, Option.join_some]

theorem Valid.user_at_none (hvalid : memory.Valid) (hat : memory.SessionAt sock client)
    (hlogged : (memory.sessions.contents client).logged_in = 0) :
    memory.service.user_at sock = none := by
  rw [hvalid.user_at_eq hat, client_session_t.user, if_neg (not_not.mpr hlogged)]

theorem Valid.user_at_some (hvalid : memory.Valid) (hat : memory.SessionAt sock client)
    (hlogged : (memory.sessions.contents client).logged_in ≠ 0) :
    ∃ sender, (memory.sessions.contents client).client = some sender ∧
      memory.service.user_at sock = some sender := by
  obtain ⟨sender, -, hsender⟩ := hvalid.bound client hat.mem hlogged
  exact ⟨sender, hsender, by rw [hvalid.user_at_eq hat, client_session_t.user, if_pos hlogged, hsender]⟩

theorem Valid.find_user_eq (hvalid : memory.Valid) {username : Bytes}
    (hfits : (cstr username).length < USERNAME_SIZE) :
    memory.find_user username = .ok (memory.service.accounts (cstr username)) := by
  obtain ⟨found, hfind, hfound⟩ := hvalid.find_user_spec hfits
  have hsame : found = memory.service.accounts (cstr username) := by
    ext u
    rw [hfound, hvalid.service_accounts]
  rw [hfind, hsame]

theorem Valid.locates_iff (hvalid : memory.Valid) :
    memory.service.Locates u sock ↔ ∃ t, memory.SessionAt sock t ∧
      cstr (memory.sessions.contents t).ip.bytes = (memory.clients.contents u).ip_string ∧
      (memory.sessions.contents t).port = (memory.clients.contents u).port := by
  constructor
  · rintro ⟨hsome, hip, hport⟩
    obtain ⟨user, hsession⟩ := Option.ne_none_iff_exists'.mp hsome
    obtain ⟨t, ht, -⟩ := hvalid.service_sessions.mp hsession
    exact ⟨t, ht, ht.ip.trans hip, ht.port.trans hport⟩
  · rintro ⟨t, ht, hip, hport⟩
    refine ⟨?_, ht.ip.symm.trans hip, ht.port.symm.trans hport⟩
    rw [hvalid.service_sessions.mpr ⟨t, ht, rfl⟩]
    exact Option.some_ne_none _

theorem locates_unique {service : Service} {sock' : sockaddr_in} (h : service.Locates u sock)
    (h' : service.Locates u sock') : sock = sock' :=
  sockaddr_in_eq (h.2.1.trans h'.2.1.symm) (h.2.2.trans h'.2.2.symm)

/-- The session of an account is found by the address that the account points to. -/
theorem Valid.find_session_eq (hvalid : memory.Valid) (u : Nat) :
    (memory.find_session u).map (Option.map fun t => (memory.sessions.contents t).sock) =
      memory.service.find_session u := by
  by_cases hfits : (memory.clients.contents u).ip_string.length < INET_ADDRSTRLEN
  · obtain ⟨found, hfind, hfound⟩ := hvalid.find_session_spec hfits
    have hroom : (memory.service.account u).ip.length < INET_ADDRSTRLEN := hfits
    rw [hfind, Service.find_session, if_pos hroom, Result.map_ok, Result.pure_eq_ok,
      Except.ok.injEq]
    cases found with
    | none =>
      rw [dif_neg]
      · rfl
      · rintro ⟨sock, hlocates⟩
        obtain ⟨t, ht, hip, hport⟩ := hvalid.locates_iff.mp hlocates
        cases (hfound t).mpr ⟨ht.mem, hip, hport⟩
    | some t =>
      obtain ⟨ht, hip, hport⟩ := (hfound t).mp rfl
      have hlocates : memory.service.Locates u (memory.sessions.contents t).sock :=
        hvalid.locates_iff.mpr ⟨t, hvalid.sessionAt_of_mem ht, hip, hport⟩
      have hexists : ∃ sock, memory.service.Locates u sock := ⟨_, hlocates⟩
      rw [dif_pos hexists, Option.map_some, locates_unique hlocates hexists.choose_spec]
  · have hfault := hvalid.find_session_error_iff.mpr ⟨rfl, Nat.not_lt.mp hfits⟩
    have hlong : ¬ (memory.service.account u).ip.length < INET_ADDRSTRLEN := hfits
    rw [hfault, Service.find_session, if_neg hlong]
    rfl

end Lookups

section Outputs

theorem Valid.sent_answer (hvalid : memory.Valid) (hat : memory.SessionAt sock client)
    (reply : Answer) :
    (memory.send_udp_message client reply).sent = some (answer sock reply) := by
  rw [send_udp_message, Output.sent, hvalid.sock_of_sessionAt hat]
  rfl

theorem Valid.asService_answer (hvalid : memory.Valid) (hat : memory.SessionAt sock client)
    (reply : Answer) : asService (memory, [memory.send_udp_message client reply]) =
      (memory.service, [answer sock reply]) := by
  rw [asService, List.filterMap_cons, hvalid.sent_answer hat, List.filterMap_nil]

/-- A message is relayed to the listener of the session. -/
theorem Valid.sent_relay (hvalid : memory.Valid) (hat : memory.SessionAt sock client)
    {sender selected : Nat} {username message : Bytes} (hselected : selected ∈ memory.userSessions) :
    (relay memory client sender username message selected locals).sent =
      some (.relay (memory.sessions.contents selected).sock.listener
        ((snprintf locals.send_message.bytes
          ((memory.service.account sender).message sock message)).take BUFFER_SIZE)) := by
  obtain ⟨-, hport⟩ := hvalid.addressed selected hselected
  rw [relay, Output.sent, hport, hat.ip, hat.port]
  rfl

end Outputs

section Login

theorem toAccount_port {record : client_t} (hnul : 0 ∈ record.ip.bytes) (port : BitVec 32) :
    ({ record with port } : client_t).toAccount = { record.toAccount with port } := by
  have hpassword : ({ record with port } : client_t).password_string = record.password_string := by
    have hdrop (record : client_t) : record.bytes.drop USERNAME_SIZE =
        record.password.bytes ++ record.ip.bytes ++ record.ints := by
      have hdrop := record.drop_username []
      rw [List.append_nil, List.append_nil, ← List.append_assoc] at hdrop
      exact hdrop
    have hmem : 0 ∈ record.password.bytes ++ record.ip.bytes := List.mem_append_right _ hnul
    rw [client_t.password_string, client_t.password_string, hdrop, hdrop, cstr_append_of_mem hmem,
      cstr_append_of_mem hmem]
  have hip : ({ record with port } : client_t).ip_string = record.ip_string := by
    rw [client_t.ip_string_eq, client_t.ip_string_eq, cstr_append_of_mem hnul,
      cstr_append_of_mem hnul]
  rw [client_t.toAccount, client_t.toAccount, record.username_string_port hnul, hpassword, hip]
  rfl

theorem Valid.bind_service (hvalid : memory.Valid) (hat : memory.SessionAt sock client)
    (hu : u ∈ memory.users) (hnul : 0 ∈ (memory.clients.contents u).ip.bytes) :
    (memory.bind client u).service = memory.service.login sock u := by
  have hbind : (memory.bind client u).Valid := hvalid.bind hu hnul
  have hsessionAt (sock' : sockaddr_in) (t : Nat) :
      (memory.bind client u).SessionAt sock' t ↔ memory.SessionAt sock' t := by
    obtain ⟨hip, hport, -⟩ := memory.bind_sessions_key client u t
    constructor
    · intro h
      exact ⟨h.mem, hip ▸ h.ip, hport ▸ h.port⟩
    · intro h
      exact ⟨h.mem, hip.symm ▸ h.ip, hport.symm ▸ h.port⟩
  have haccounts : (memory.bind client u).service.accounts = memory.service.accounts := by
    funext username
    simp only [service, bind_username hnul]
    rfl
  have haccount : (memory.bind client u).service.account =
      (memory.service.login sock u).account := by
    funext a
    by_cases ha : a = u
    · rw [ha, Service.login_account, Function.update_self, ← hat.port]
      exact (congrArg client_t.toAccount bind_clients_self).trans (toAccount_port hnul _)
    · rw [Service.login_account, Function.update_of_ne ha]
      exact congrArg client_t.toAccount (bind_clients_of_ne ha)
  have hsessions : (memory.bind client u).service.sessions =
      (memory.service.login sock u).sessions := by
    funext sock'
    ext user
    rw [hbind.service_sessions]
    simp only [hsessionAt]
    by_cases hsock : sock' = sock
    · rw [hsock, Service.login_sessions, Function.update_self, Option.some.injEq]
      have huser : ((memory.bind client u).sessions.contents client).user = some u := by
        rw [bind_sessions_self]
        rfl
      constructor
      · rintro ⟨t, ht, rfl⟩
        rw [hvalid.sessionAt_unique ht hat, huser]
      · rintro rfl
        exact ⟨client, hat, huser⟩
    · rw [Service.login_sessions, Function.update_of_ne hsock, hvalid.service_sessions]
      refine exists_congr fun t => and_congr_right fun ht => ?_
      have hne : t ≠ client := by
        rintro rfl
        exact hsock ((hvalid.sock_of_sessionAt ht).symm.trans (hvalid.sock_of_sessionAt hat))
      rw [bind_sessions_of_ne hne]
  calc (memory.bind client u).service
      = { (memory.bind client u).service with
          accounts := memory.service.accounts
          account := (memory.service.login sock u).account
          sessions := (memory.service.login sock u).sessions } := by
        rw [← haccounts, ← haccount, ← hsessions]
    _ = memory.service.login sock u := rfl

theorem Valid.cmd_login_service (hvalid : memory.Valid) (hat : memory.SessionAt sock client) :
    (cmd_login memory client args locals).map asService =
      memory.service.cmd_login sock args locals := by
  have hanswer := hvalid.asService_answer hat
  unfold cmd_login Service.cmd_login
  by_cases hlogged : (memory.sessions.contents client).logged_in = 0
  · rw [if_neg (not_not.mpr hlogged), if_neg (not_not.mpr (hvalid.user_at_none hat hlogged)),
      Result.map_bind]
    cases hargs : sscanf args [.word USERNAME_SIZE, .space, .word PASSWORD_SIZE] with
    | error e => rfl
    | ok values =>
      simp only [Result.ok_bind]
      split
      · rename_i username password
        have hfits : (cstr username).length < USERNAME_SIZE :=
          (length_cstr_le username).trans_lt (word_of_sscanf hargs).2
        rw [hvalid.find_user_eq hfits, Result.ok_bind]
        cases haccount : memory.service.accounts (cstr username) with
        | none =>
          simp only [haccount]
          exact congrArg Except.ok (hanswer _)
        | some u =>
          obtain ⟨hu, -⟩ := hvalid.service_accounts.mp haccount
          have hip : strcmp (memory.sessions.contents client).ip.bytes
              (memory.clients.contents u).ip_string = 0 ↔
                (memory.service.account u).ip = inet_ntop sock.sin_addr := by
            rw [strcmp_eq_zero_iff, hat.ip, client_t.ip_string, cstr_cstr, eq_comm]
            rfl
          have hpassword : strcmp (memory.clients.contents u).password_string password = 0 ↔
              (memory.service.account u).password = cstr password := by
            rw [strcmp_eq_zero_iff, client_t.password_string, cstr_cstr]
            rfl
          by_cases hsame : strcmp (memory.sessions.contents client).ip.bytes
              (memory.clients.contents u).ip_string = 0
          · by_cases hright : strcmp (memory.clients.contents u).password_string password = 0
            · obtain ⟨hnul, hlogin⟩ := hvalid.login_eq hat.mem hsame locals
              have hbind : (memory.bind client u).Valid := hvalid.bind hu hnul
              have hat' : (memory.bind client u).SessionAt sock client := by
                obtain ⟨hkey, hkey', -⟩ := memory.bind_sessions_key client u client
                exact ⟨hat.mem, hkey.symm ▸ hat.ip, hkey'.symm ▸ hat.port⟩
              simp only [haccount, hsame, hright, hlogin, ne_eq, not_true_eq_false, if_false, if_true,
                hip.mp hsame, hpassword.mp hright]
              simp only [Result.pure_eq_ok, Result.map_ok, asService, List.filterMap_cons,
                List.filterMap_nil, hbind.sent_answer hat', hvalid.bind_service hat hu hnul, hat.port]
              rfl
            · simp only [haccount, hsame, hright, ne_eq, not_true_eq_false, if_false, hip.mp hsame,
                mt hpassword.mpr hright]
              exact congrArg Except.ok (hanswer _)
          · simp only [haccount, hsame, ne_eq, not_false_eq_true, if_true, mt hip.mpr hsame]
            exact congrArg Except.ok (hanswer _)
      · rename_i hother
        try split
        all_goals first
          | exact absurd rfl (hother _ _)
          | exact congrArg Except.ok (hanswer _)
  · obtain ⟨sender, -, hsender⟩ := hvalid.user_at_some hat hlogged
    rw [if_pos hlogged, if_pos (by rw [hsender]; exact Option.some_ne_none _)]
    exact congrArg Except.ok (hanswer _)

end Login

section Requests

/-- A target that is looked up by its name, and its session by the account. -/
theorem Valid.locate_service (hvalid : memory.Valid) (hat : memory.SessionAt sock client)
    {username : Bytes} (hfits : (cstr username).length < USERNAME_SIZE)
    {located : Nat → List Output} {located' : Nat → sockaddr_in → List Sent}
    (hlocated : ∀ u selected, selected ∈ memory.userSessions →
      (located selected).filterMap Output.sent =
        located' u (memory.sessions.contents selected).sock) :
    (do
      match ← memory.find_user username with
      | none => return (memory, [memory.send_udp_message client .user_not_found])
      | some database_client =>
        match ← memory.find_session database_client with
        | none => return (memory, [memory.send_udp_message client .session_not_found])
        | some client_session => return (memory, located client_session) :
      Result (Memory × List Output)).map asService =
    (do
      match memory.service.accounts (cstr username) with
      | none => return (memory.service, [answer sock .user_not_found])
      | some u =>
        match ← memory.service.find_session u with
        | none => return (memory.service, [answer sock .session_not_found])
        | some target => return (memory.service, located' u target)) := by
  rw [hvalid.find_user_eq hfits, Result.ok_bind]
  cases memory.service.accounts (cstr username) with
  | none => exact congrArg Except.ok (hvalid.asService_answer hat _)
  | some u =>
    simp only
    rw [← hvalid.find_session_eq u]
    cases hfind : memory.find_session u with
    | error e => rfl
    | ok found =>
      cases found with
      | none => exact congrArg Except.ok (hvalid.asService_answer hat _)
      | some selected =>
        have hselected := (hvalid.find_session_eq_some_iff.mp hfind).1
        exact congrArg (fun sent => Except.ok (memory.service, sent)) (hlocated u selected hselected)

theorem Valid.cmd_msg_service (hvalid : memory.Valid) (hat : memory.SessionAt sock client) :
    (cmd_msg memory client args locals).map asService =
      memory.service.cmd_msg sock args locals := by
  unfold cmd_msg Service.cmd_msg
  by_cases hlogged : (memory.sessions.contents client).logged_in = 0
  · rw [if_pos hlogged, hvalid.user_at_none hat hlogged]
    exact congrArg Except.ok (hvalid.asService_answer hat _)
  · obtain ⟨sender, hclient, hsender⟩ := hvalid.user_at_some hat hlogged
    rw [if_neg hlogged, hsender, hclient, Result.deref_some, Result.ok_bind]
    by_cases hflag : (memory.clients.contents sender).client_server = 0
    · have hflag' : (memory.service.account sender).flag .client_server = 0 := hflag
      simp only [if_pos hflag, if_pos hflag']
      exact congrArg Except.ok (hvalid.asService_answer hat _)
    · have hflag' : (memory.service.account sender).flag .client_server ≠ 0 := hflag
      simp only [if_neg hflag, if_neg hflag', Result.map_bind]
      cases hargs : sscanf args [.word USERNAME_SIZE, .space, .line BUFFER_SIZE, .literal 115] with
      | error e => rfl
      | ok values =>
        simp only [Result.ok_bind]
        split
        · rename_i username message
          have hfits : (cstr username).length < USERNAME_SIZE :=
            (length_cstr_le username).trans_lt (word_of_sscanf hargs).2
          apply hvalid.locate_service hat hfits
          intro u selected hselected
          rw [List.filterMap_cons, hvalid.sent_relay hat hselected, List.filterMap_cons,
            hvalid.sent_answer hat, List.filterMap_nil]
        · rename_i hother
          try split
          all_goals first
            | exact absurd rfl (hother _ _)
            | exact congrArg Except.ok (hvalid.asService_answer hat _)

theorem Valid.cmd_p2p_service (hvalid : memory.Valid) (hat : memory.SessionAt sock client) :
    (cmd_p2p memory client args).map asService = memory.service.cmd_p2p sock args := by
  unfold cmd_p2p Service.cmd_p2p
  by_cases hlogged : (memory.sessions.contents client).logged_in = 0
  · rw [if_pos hlogged, hvalid.user_at_none hat hlogged]
    exact congrArg Except.ok (hvalid.asService_answer hat _)
  · obtain ⟨sender, hclient, hsender⟩ := hvalid.user_at_some hat hlogged
    rw [if_neg hlogged, hsender, hclient, Result.deref_some, Result.ok_bind]
    by_cases hflag : (memory.clients.contents sender).p2p = 0
    · have hflag' : (memory.service.account sender).flag .p2p = 0 := hflag
      simp only [if_pos hflag, if_pos hflag']
      exact congrArg Except.ok (hvalid.asService_answer hat _)
    · have hflag' : (memory.service.account sender).flag .p2p ≠ 0 := hflag
      simp only [if_neg hflag, if_neg hflag', Result.map_bind]
      cases hargs : sscanf args [.word USERNAME_SIZE] with
      | error e => rfl
      | ok values =>
        simp only [Result.ok_bind]
        split
        · rename_i username
          have hfits : (cstr username).length < USERNAME_SIZE :=
            (length_cstr_le username).trans_lt (word_of_sscanf hargs).2
          apply hvalid.locate_service hat hfits
          intro u selected hselected
          obtain ⟨hip, hport⟩ := hvalid.addressed selected hselected
          rw [List.filterMap_cons, hvalid.sent_answer hat, List.filterMap_nil, hip, hport]
          rfl
        · rename_i hother
          try split
          all_goals first
            | exact absurd rfl (hother _)
            | exact congrArg Except.ok (hvalid.asService_answer hat _)

end Requests

section Groups

theorem Valid.find_group_eq (hvalid : memory.Valid) {block group : group_t} {group_name : Bytes}
    (hnew : new_group block group_name [] = .ok group) :
    ∃ found, memory.find_group group = .ok found ∧
      memory.service.groups (cstr group_name) =
        found.map fun g => cstr (memory.group_blocks.contents g).ip.bytes := by
  obtain ⟨found, hfind, hfound⟩ := hvalid.find_group_spec group
  rw [name_of_new_group hnew] at hfound
  refine ⟨found, hfind, ?_⟩
  ext ip
  rw [hvalid.service_groups, Option.map_eq_some_iff]
  simp only [hfound, and_assoc]

theorem Created.service_eq (hvalid : memory.Valid) {group : group_t} {next : Memory}
    (hcreated : memory.Created group next)
    (hfresh : memory.service.groups (cstr group.name.bytes) = none) :
    next.service = { memory.service with
      groups := Function.update memory.service.groups (cstr group.name.bytes)
        (some (cstr group.ip.bytes))
      current_group := memory.current_group + 1 } := by
  have hblocks : next.group_blocks = memory.group_blocks.alloc group := by rw [hcreated.rest]
  have hold (g : Nat) (hg : g ∈ memory.multicastGroups) :
      next.group_blocks.contents g = memory.group_blocks.contents g := by
    rw [hblocks]
    exact memory.group_blocks.alloc_of_lt (hvalid.group_list.allocated g hg)
  have hbrk : next.group_blocks.contents memory.group_blocks.brk = group := by
    rw [hblocks]
    exact memory.group_blocks.alloc_self
  have hnone (g : Nat) (hg : g ∈ memory.multicastGroups) :
      cstr (memory.group_blocks.contents g).name.bytes ≠ cstr group.name.bytes := by
    intro hname
    cases hfresh.symm.trans (hvalid.service_groups.mpr ⟨g, hg, hname, rfl⟩)
  have hgroups : next.service.groups = Function.update memory.service.groups
      (cstr group.name.bytes) (some (cstr group.ip.bytes)) := by
    funext name
    ext ip
    rw [hcreated.valid.service_groups]
    by_cases hname : name = cstr group.name.bytes
    · rw [hname, Function.update_self, Option.some.injEq]
      constructor
      · rintro ⟨g, hg, hsame, rfl⟩
        obtain hg | rfl := (hcreated.mem_groups g).mp hg
        · exact absurd (hold g hg ▸ hsame) (hnone g hg)
        · rw [hbrk]
      · rintro rfl
        exact ⟨_, (hcreated.mem_groups _).mpr (Or.inr rfl), by rw [hbrk], by rw [hbrk]⟩
    · rw [Function.update_of_ne hname, hvalid.service_groups]
      constructor
      · rintro ⟨g, hg, hsame, hip⟩
        obtain hg | rfl := (hcreated.mem_groups g).mp hg
        · exact ⟨g, hg, hold g hg ▸ hsame, hold g hg ▸ hip⟩
        · rw [hbrk] at hsame
          exact absurd hsame.symm hname
      · rintro ⟨g, hg, hsame, hip⟩
        exact ⟨g, (hcreated.mem_groups g).mpr (Or.inl hg), (hold g hg).symm ▸ hsame,
          (hold g hg).symm ▸ hip⟩
  calc next.service
      = { next.service with
          groups := Function.update memory.service.groups (cstr group.name.bytes)
            (some (cstr group.ip.bytes)) } := by rw [← hgroups]
    _ = _ := by
        rw [hcreated.rest]
        rfl

theorem Valid.cmd_createmulticast_service (hvalid : memory.Valid)
    (hat : memory.SessionAt sock client) :
    (cmd_createmulticast memory client args).map asService =
      memory.service.cmd_createmulticast sock args := by
  unfold cmd_createmulticast Service.cmd_createmulticast
  by_cases hlogged : (memory.sessions.contents client).logged_in = 0
  · rw [if_pos hlogged, hvalid.user_at_none hat hlogged]
    exact congrArg Except.ok (hvalid.asService_answer hat _)
  · obtain ⟨sender, hclient, hsender⟩ := hvalid.user_at_some hat hlogged
    rw [if_neg hlogged, hsender, Result.map_bind]
    simp only
    cases hargs : sscanf args [.word MAX_GROUP_NAME] with
    | error e => rfl
    | ok values =>
      simp only [Result.ok_bind]
      split
      · rename_i group_name
        rw [hclient, Result.deref_some, Result.ok_bind]
        by_cases hflag : (memory.clients.contents sender).group = 0
        · have hflag' : (memory.service.account sender).flag .group = 0 := hflag
          simp only [if_pos hflag, if_pos hflag']
          exact congrArg Except.ok (hvalid.asService_answer hat _)
        · have hflag' : (memory.service.account sender).flag .group ≠ 0 := hflag
          obtain ⟨group, hnew⟩ := exists_new_group memory.group_blocks.fresh (word_of_sscanf hargs).2
          obtain ⟨found, hfind, hfound⟩ := hvalid.find_group_eq hnew
          simp only [if_neg hflag, if_neg hflag', hnew, hfind, hfound, Result.ok_bind]
          cases found with
          | some g => exact congrArg Except.ok (hvalid.asService_answer hat _)
          | none =>
            by_cases hroom : memory.current_group < max_groups
            · have hroom' : memory.service.current_group < max_groups := hroom
              have hname : cstr group.name.bytes = cstr group_name := name_of_new_group hnew
              have hfree : memory.service.groups (cstr group.name.bytes) = none := by
                rw [hname, hfound, Option.map_none]
              have hnone (g : Nat) (hg : g ∈ memory.multicastGroups) :
                  cstr (memory.group_blocks.contents g).name.bytes ≠ cstr group.name.bytes := by
                intro hsame
                cases hfree.symm.trans (hvalid.service_groups.mpr ⟨g, hg, hsame, rfl⟩)
              obtain ⟨ip, T, effects, hip, hstring, hadd, hcreated⟩ :=
                hvalid.create_group_room group hnone hroom
              have hservice := hcreated.service_eq hvalid hfree
              simp only [Option.map_none, ne_eq, not_true_eq_false, if_false, hroom, hroom', if_true,
                hip, hadd, Result.ok_bind, Result.pure_eq_ok, Result.map_ok,
                asService, hservice, List.filterMap_cons, List.filterMap_nil,
                hvalid.sent_answer hat]
              rw [hname, hstring]
              rfl
            · have hroom' : ¬ memory.service.current_group < max_groups := hroom
              simp only [Option.map_none, ne_eq, not_true_eq_false, if_false, hroom, hroom']
              exact congrArg Except.ok (hvalid.asService_answer hat _)
      · rename_i hother
        try split
        all_goals first
          | exact absurd rfl (hother _)
          | exact congrArg Except.ok (hvalid.asService_answer hat _)

theorem Valid.cmd_getmulticast_service (hvalid : memory.Valid)
    (hat : memory.SessionAt sock client) :
    (cmd_getmulticast memory client args).map asService =
      memory.service.cmd_getmulticast sock args := by
  unfold cmd_getmulticast Service.cmd_getmulticast
  by_cases hlogged : (memory.sessions.contents client).logged_in = 0
  · rw [if_pos hlogged, hvalid.user_at_none hat hlogged]
    exact congrArg Except.ok (hvalid.asService_answer hat _)
  · obtain ⟨sender, hclient, hsender⟩ := hvalid.user_at_some hat hlogged
    rw [if_neg hlogged, hsender, Result.map_bind]
    simp only
    cases hargs : sscanf args [.word MAX_GROUP_NAME] with
    | error e => rfl
    | ok values =>
      simp only [Result.ok_bind]
      split
      · rename_i group_name
        rw [hclient, Result.deref_some, Result.ok_bind]
        by_cases hflag : (memory.clients.contents sender).group = 0
        · have hflag' : (memory.service.account sender).flag .group = 0 := hflag
          simp only [if_pos hflag, if_pos hflag']
          exact congrArg Except.ok (hvalid.asService_answer hat _)
        · have hflag' : (memory.service.account sender).flag .group ≠ 0 := hflag
          obtain ⟨group, hnew⟩ :=
            exists_new_group memory.group_blocks.fresh (word_of_sscanf hargs).2
          obtain ⟨found, hfind, hfound⟩ := hvalid.find_group_eq hnew
          simp only [if_neg hflag, if_neg hflag', hnew, hfind, hfound, Result.ok_bind]
          cases found with
          | some g => exact congrArg Except.ok (hvalid.asService_answer hat _)
          | none => exact congrArg Except.ok (hvalid.asService_answer hat _)
      · rename_i hother
        try split
        all_goals first
          | exact absurd rfl (hother _)
          | exact congrArg Except.ok (hvalid.asService_answer hat _)

end Groups

section Datagrams

theorem Opened.service_eq {next : Memory} (hvalid : memory.Valid)
    (hopened : memory.Opened sock client next) : next.service = memory.service.opens sock := by
  by_cases hold : client ∈ memory.userSessions
  · obtain rfl := hopened.same hold
    have hsome : next.service.sessions sock ≠ none := by
      rw [hvalid.service_sessions.mpr ⟨client, hopened.sessionAt, rfl⟩]
      exact Option.some_ne_none _
    rw [Service.opens, if_neg hsome]
  · have hnone : memory.service.sessions sock = none := by
      rw [hvalid.service_sessions_eq_none]
      intro t ht
      have hsame := (hopened.eq_of_sessionAt ht).1
      exact hold (hsame ▸ ht.mem)
    have hsessions : next.service.sessions =
        Function.update memory.service.sessions sock (some none) := by
      funext sock'
      ext user
      rw [hopened.valid.service_sessions]
      by_cases hsock : sock' = sock
      · rw [hsock, Function.update_self, Option.some.injEq]
        have huser : (next.sessions.contents client).user = none := by
          obtain hmem | ⟨-, hlogged⟩ := hopened.new client hopened.mem
          · exact absurd hmem hold
          · rw [client_session_t.user, if_neg (not_not.mpr hlogged)]
        constructor
        · rintro ⟨t, ht, rfl⟩
          rw [hopened.valid.sessionAt_unique ht hopened.sessionAt, huser]
        · rintro rfl
          exact ⟨client, hopened.sessionAt, huser⟩
      · rw [Function.update_of_ne hsock, hvalid.service_sessions]
        have hat (t : Nat) : next.SessionAt sock' t ↔ memory.SessionAt sock' t := by
          rw [hopened.sessionAt_iff, or_iff_left fun hnew => hsock hnew.1]
        constructor
        · rintro ⟨t, ht, huser⟩
          have hold := (hat t).mp ht
          exact ⟨t, hold, (hopened.old t hold.mem).2 ▸ huser⟩
        · rintro ⟨t, ht, huser⟩
          exact ⟨t, (hat t).mpr ht, (hopened.old t ht.mem).2.symm ▸ huser⟩
    rw [Service.opens, if_pos hnone, ← hsessions]
    have hrest := congrArg Memory.service hopened.rest
    exact hrest

theorem Valid.client_cmd_functions_service (hvalid : memory.Valid)
    (hat : memory.SessionAt sock client) (command : ClientCommand) :
    (client_cmd_functions memory client args locals command).map asService =
      memory.service.commands sock args locals command := by
  cases command with
  | LOGIN => exact hvalid.cmd_login_service hat
  | MSG => exact hvalid.cmd_msg_service hat
  | P2P => exact hvalid.cmd_p2p_service hat
  | CREATEMULTICAST => exact hvalid.cmd_createmulticast_service hat
  | GETMULTICAST => exact hvalid.cmd_getmulticast_service hat

/-- A datagram that is served has found a pointer that the log may follow. -/
theorem Valid.pointedFrom_of_worker (hvalid : memory.Valid) {datagram : Bytes}
    {result : Memory × List Output}
    (hworker : udp_server_worker memory sock datagram locals = .ok result) :
    memory.PointedFrom sock := by
  by_contra hwild
  have hfault : udp_server_worker memory sock datagram locals = .error .wild_pointer :=
    hvalid.udp_server_worker_error_iff.mpr (Or.inl ⟨rfl, hwild⟩)
  rw [hfault] at hworker
  cases hworker

/-- The server does for a datagram what the service does for its command, up to the fault that both
run into, if the log may follow the pointer of the session. -/
theorem Valid.udp_server_worker_service (hvalid : memory.Valid) (datagram : Bytes)
    (locals : Locals) (hpointed : memory.PointedFrom sock) :
    (udp_server_worker memory sock datagram locals).map asService =
      received_command datagram locals >>= memory.service.serve sock locals := by
  obtain ⟨opened, client, hinit, hopened⟩ := hvalid.init_client_session_spec sock
  have hcommand := received_command_eq datagram locals
  rw [udp_server_worker_eq_served hinit ((hvalid.pointed_iff hinit).mpr hpointed) hcommand, hcommand,
    Result.ok_bind]
  cases parse_line client_commands (line (datagram.take BUFFER_SIZE)) with
  | none =>
    rw [Service.serve, ← hopened.service_eq hvalid]
    exact congrArg Except.ok (hopened.valid.asService_answer hopened.sessionAt _)
  | some found =>
    rw [Service.serve, ← hopened.service_eq hvalid]
    exact hopened.valid.client_cmd_functions_service hopened.sessionAt found.1

end Datagrams

end Memory

end rc_project.server
