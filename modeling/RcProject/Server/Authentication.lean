import RcProject.Server.Runs

open rc_project.avl_tree rc_project.blocks rc_project.c_string rc_project.scanf
open rc_project.transition

namespace rc_project.server

/-- The session and the permission that an output serves: a relayed message, a
disclosed address, or a group that is created or looked up. -/
def Output.service : Output → Option (Nat × Permission)
  | .relay client .. => some (client, .client_server)
  | .answer client (.p2p_address ..) .. => some (client, .p2p)
  | .answer client (.group_created ..) .. => some (client, .group)
  | .answer client (.group_address ..) .. => some (client, .group)
  | _ => none

/-- A refusal serves nobody. -/
theorem service_of_refusal {memory : Memory} {client : Nat} {answer : Answer}
    (hrefusal : answer.refusal = true) : (memory.send_udp_message client answer).service = none := by
  cases answer <;> first | rfl | cases hrefusal

/-- A `LOGIN` datagram from an address that names a stored record, with the
password of the record and from the address that the record is registered for. -/
inductive LoginRequest (memory : Memory) (ip : Bytes) (port : BitVec 32) (record : Nat) :
    Event → Prop
  | intro (sock : sockaddr_in) (datagram args username password : Bytes) (locals : Locals)
    (hip : inet_ntop sock.sin_addr = ip) (hport : sock.sin_port.setWidth 32 = port)
    (hcommand : received_command datagram locals = .ok (some (.LOGIN, args)))
    (hargs : sscanf args [.word USERNAME_SIZE, .space, .word PASSWORD_SIZE] =
      .ok [.string username, .string password])
    (huser : memory.find_user username = .ok (some record))
    (hpassword : (memory.clients.contents record).password_string = cstr password)
    (haddress : (memory.clients.contents record).ip_string = ip) :
    LoginRequest memory ip port record (.datagram sock datagram locals)

/-- Where the binding of a session comes from: an earlier datagram of its address
was a `LOGIN` to the record. The record is what it was but for its port, and it
is still stored unless it was deleted behind the login. -/
inductive Attributed (start : Server) (past : List Event) (memory : Memory) (t : Nat) : Nat → Prop
  | intro (earlier later : List Event) (login : Event) (before : Server) (record : Nat)
    (hpast : past = earlier ++ login :: later)
    (hreach : Reaches step start earlier before)
    (hlogin : LoginRequest before.memory (cstr (memory.sessions.contents t).ip.bytes)
      (memory.sessions.contents t).port record login)
    (hclient : (memory.sessions.contents t).client = some record)
    (hbrk : record < memory.clients.brk)
    (haccount : (memory.clients.contents record).account =
      (before.memory.clients.contents record).account)
    (hstored : record ∈ memory.users ∨ ∃ between event rest middle,
      later = between ++ event :: rest ∧
      Reaches step start (earlier ++ login :: between) middle ∧ middle.Deletes event record) :
    Attributed start past memory t record

variable {start server next : Server} {past events : List Event} {event : Event}
  {outputs : List Output}

theorem client_t.flag_eq_of_account {a b : client_t} (h : a.account = b.account)
    (permission : Permission) : a.flag permission = b.flag permission := by
  have hrest : { a with port := 0 } = ({ b with port := 0 } : client_t) := congrArg Prod.snd h
  cases permission with
  | client_server =>
    have hflag := congrArg client_t.client_server hrest
    exact hflag
  | p2p =>
    have hflag := congrArg client_t.p2p hrest
    exact hflag
  | group =>
    have hflag := congrArg client_t.group hrest
    exact hflag

/-- A stored record stays stored unless the step deletes it. -/
theorem Stepped.users_kept {next : Memory}
    (h : Stepped server event next outputs) {u : Nat} (hu : u ∈ server.memory.users) :
    u ∈ next.users ∨ server.Deletes event u := by
  cases h with
  | served sock datagram locals _ _ hserved =>
    left
    cases hserved with
    | unknown _ s hopened => rwa [hopened.users_eq]
    | command opened s hopened command args hcommand _ _ hperformed =>
      rw [← hopened.users_eq] at hu
      cases hperformed with
      | create _ _ _ _ _ _ _ _ _ hcreated =>
        rw [hcreated.rest]
        exact hu
      | _ => exact hu
  | handled connection hadmin received _ _ hhandled =>
    cases hhandled with
    | unknown => exact Or.inl hu
    | command hreceived command args hcommand _ _ hadministered =>
      cases hadministered with
      | answered => exact Or.inl hu
      | added _ _ _ _ _ _ _ _ _ _ _ hadded => exact Or.inl ((hadded.mem_users u).mpr (Or.inl hu))
      | removed username v _ hargs huser hremoved =>
        obtain hkept | rfl := hremoved.others u hu
        · exact Or.inl hkept
        · exact Or.inr (.intro connection received args username u hadmin hreceived hcommand hargs
            huser)
  | idle => exact Or.inl hu

/-- A step that leaves a session and the account of its record alone leaves the
attribution. -/
theorem Attributed.carry {memory : Memory} {t record : Nat}
    (h : Attributed start past server.memory t record)
    (hreach : Reaches step start past server)
    (hsession : memory.sessions.contents t = server.memory.sessions.contents t)
    (hbrk : server.memory.clients.brk ≤ memory.clients.brk)
    (haccount : ∀ a < server.memory.clients.brk, (memory.clients.contents a).account =
      (server.memory.clients.contents a).account)
    (husers : ∀ u ∈ server.memory.users, u ∈ memory.users ∨ server.Deletes event u) :
    Attributed start (past ++ [event]) memory t record := by
  cases h with
  | intro earlier later login before _ hpast hbefore hlogin hclient hlt hsame hstored =>
    subst hpast
    refine .intro earlier (later ++ [event]) login before record (by simp) hbefore ?_ ?_ ?_ ?_ ?_
    · rwa [hsession]
    · rw [hsession, hclient]
    · exact hlt.trans_le hbrk
    · exact (haccount record hlt).trans hsame
    · obtain hmem | ⟨between, deletion, rest, middle, hlater, hmiddle, hdeletes⟩ := hstored
      · obtain hkept | hdeletes := husers record hmem
        · exact Or.inl hkept
        · exact Or.inr ⟨later, event, [], server, rfl, hreach, hdeletes⟩
      · exact Or.inr ⟨between, deletion, rest ++ [event], middle, by simp [hlater], hmiddle,
          hdeletes⟩

/-- Every session that is logged in is attributed to a login of its address. -/
def AllAttributed (start : Server) (past : List Event) (server : Server) : Prop :=
  ∀ t ∈ server.memory.userSessions, (server.memory.sessions.contents t).logged_in ≠ 0 →
    ∃ record, Attributed start past server.memory t record

/-- The session of a login is attributed to this login, the others stay attributed. -/
theorem Memory.LogsIn.attributed {memory : Memory} {s u : Nat} (hvalid : server.memory.Valid)
    (hreach : Reaches step start past server) (hattributed : AllAttributed start past server)
    (husers : ∀ u ∈ server.memory.users, u ∈ memory.users ∨ server.Deletes event u)
    (h : server.memory.LogsIn event s u memory) :
    ∀ t ∈ memory.userSessions, (memory.sessions.contents t).logged_in ≠ 0 →
      ∃ record, Attributed start (past ++ [event]) memory t record := by
  intro t ht hlogged
  cases h with
  | intro sock datagram locals opened _ _ args username password hopened hcommand hunlogged hargs
      huser hip hpassword hnul =>
    have hnul' : 0 ∈ (opened.clients.contents u).ip.bytes := by rwa [hopened.clients_eq]
    have haccount (a : Nat) : ((opened.bind s u).clients.contents a).account =
        (server.memory.clients.contents a).account := by
      rw [Memory.bind_account hnul', hopened.clients_eq]
    by_cases hts : t = s
    · subst hts
      have hu := (hvalid.find_user_eq_some_iff.mp huser).2.1
      obtain ⟨hkeyip, hkeyport, -⟩ := opened.bind_sessions_key t u t
      refine ⟨u, .intro past [] _ server u rfl hreach ?_ ?_ ?_ (haccount u) ?_⟩
      · rw [hkeyip, hkeyport, hopened.ip, hopened.port]
        exact .intro sock datagram args username password locals rfl rfl hcommand hargs huser
          hpassword hip
      · rw [Memory.bind_sessions_self]
      · change u < opened.clients.brk
        rw [hopened.clients_eq]
        exact hvalid.user_list.allocated u hu
      · left
        change u ∈ opened.users
        rwa [hopened.users_eq]
    · have hsession : (opened.bind s u).sessions.contents t = opened.sessions.contents t :=
        Memory.bind_sessions_of_ne hts
      obtain hold | ⟨-, hnew⟩ := hopened.new t ht
      · have hsession' := hsession.trans (hopened.old t hold).2
        rw [hsession'] at hlogged
        obtain ⟨record, h⟩ := hattributed t hold hlogged
        refine ⟨record, h.carry hreach hsession' ?_ (fun a _ => haccount a) husers⟩
        exact Nat.le_of_eq (congrArg Blocks.brk hopened.clients_eq).symm
      · rw [hsession] at hlogged
        exact absurd hnew hlogged

theorem step_attributed (hvalid : server.memory.Valid) (hreach : Reaches step start past server)
    (hattributed : AllAttributed start past server)
    (hstep : step server event = .ok (next, outputs)) :
    AllAttributed start (past ++ [event]) next := by
  have hstepped := stepped_of_step hvalid hstep
  have husers (u : Nat) (hu : u ∈ server.memory.users) := hstepped.users_kept hu
  obtain ⟨hkeeps, -⟩ | ⟨s, u, hlogin, -⟩ := hstepped.keeps_or_login hvalid
  · intro t ht hlogged
    obtain hold | hnew := hkeeps.new t ht
    · have hsession := (hkeeps.sessions t hold).2
      rw [hsession] at hlogged
      obtain ⟨record, h⟩ := hattributed t hold hlogged
      exact ⟨record, h.carry hreach hsession hkeeps.brk
        (fun a ha => by rw [hkeeps.clients a ha]) husers⟩
    · exact absurd hnew hlogged
  · exact hlogin.attributed hvalid hreach hattributed husers

/-- In every state of a run that started without sessions, all logins are
attributed. -/
theorem reaches_attributed (hvalid : start.memory.Valid) (hnone : start.memory.userSessions = [])
    (hreach : Reaches step start past server) :
    server.memory.Valid ∧ AllAttributed start past server := by
  refine hreach.history (fun past server => server.memory.Valid ∧ AllAttributed start past server)
    ⟨hvalid, ?_⟩ ?_
  · intro t ht
    rw [hnone] at ht
    cases ht
  · intro past server event next outputs hpast h hstep
    exact ⟨step_valid h.1 hstep, step_attributed h.1 hpast h.2 hstep⟩

/-- An output that serves a session goes to the session of the datagram, which
is bound to a record that has the permission. -/
theorem Stepped.service_permitted {next : Memory} (h : Stepped server event next outputs)
    {output : Output} (houtput : output ∈ outputs) {client : Nat} {permission : Permission}
    (hservice : output.service = some (client, permission)) :
    ∃ sock datagram locals opened sender, event = .datagram sock datagram locals ∧
      server.memory.Opened sock client opened ∧ opened.Permitted client permission sender := by
  cases h with
  | served sock datagram locals _ _ hserved =>
    cases hserved with
    | unknown _ s hopened =>
      rw [List.mem_singleton.mp houtput] at hservice
      cases hservice
    | command opened s hopened command args hcommand _ _ hperformed =>
      refine ⟨sock, datagram, locals, opened, ?_⟩
      cases hperformed with
      | refused _ answer hrefusal =>
        rw [List.mem_singleton.mp houtput, service_of_refusal hrefusal] at hservice
        cases hservice
      | login =>
        simp only [List.mem_cons, List.not_mem_nil, or_false] at houtput
        obtain rfl | rfl | rfl := houtput <;> cases hservice
      | msg username message sender u selected hpermitted =>
        simp only [List.mem_cons, List.not_mem_nil, or_false] at houtput
        obtain rfl | rfl := houtput <;> cases hservice
        exact ⟨sender, rfl, hopened, hpermitted⟩
      | p2p username sender u selected hpermitted =>
        rw [List.mem_singleton.mp houtput] at hservice
        cases hservice
        exact ⟨sender, rfl, hopened, hpermitted⟩
      | create group_name sender group _ hpermitted =>
        rw [List.mem_singleton.mp houtput] at hservice
        cases hservice
        exact ⟨sender, rfl, hopened, hpermitted⟩
      | get group_name sender g hpermitted =>
        rw [List.mem_singleton.mp houtput] at hservice
        cases hservice
        exact ⟨sender, rfl, hopened, hpermitted⟩
  | handled connection hadmin received _ _ hhandled =>
    have hclient := hhandled.client_eq_none output houtput
    cases output with
    | answer => cases hclient
    | relay => cases hclient
    | _ => cases hservice
  | idle => cases houtput

/-- A session is logged in only behind a `LOGIN` datagram from its address that
named a stored record, with its password and from its registered address. What
the server relays, discloses or answers about groups, it does for a session
that such a datagram logged in to a record with the permission for it. -/
theorem services_authenticated {startup : Startup} {records : Bytes}
    (hmain : main startup records = .ok start) (hreach : Reaches step start past server) :
    (∀ t ∈ server.memory.userSessions, (server.memory.sessions.contents t).logged_in ≠ 0 →
      ∃ earlier login later before record, past = earlier ++ login :: later ∧
        Reaches step start earlier before ∧
        LoginRequest before.memory (cstr (server.memory.sessions.contents t).ip.bytes)
          (server.memory.sessions.contents t).port record login ∧
        (server.memory.sessions.contents t).client = some record) ∧
    ∀ event next outputs, step server event = .ok (next, outputs) →
      ∀ output ∈ outputs, ∀ client permission, output.service = some (client, permission) →
        ∃ sock datagram locals earlier login later before record,
          event = .datagram sock datagram locals ∧
          cstr (server.memory.sessions.contents client).ip.bytes = inet_ntop sock.sin_addr ∧
          (server.memory.sessions.contents client).port = sock.sin_port.setWidth 32 ∧
          past = earlier ++ login :: later ∧ Reaches step start earlier before ∧
          LoginRequest before.memory (inet_ntop sock.sin_addr) (sock.sin_port.setWidth 32) record
            login ∧
          (before.memory.clients.contents record).flag permission ≠ 0 ∧
          (server.memory.clients.contents record).flag permission ≠ 0 := by
  have hstarted := started_of_main hmain
  obtain ⟨hvalid, hattributed⟩ :=
    reaches_attributed hstarted.valid hstarted.no_sessions hreach
  constructor
  · intro t ht hlogged
    obtain ⟨record, hrecord⟩ := hattributed t ht hlogged
    cases hrecord with
    | intro earlier later login before _ hpast hbefore hlogin hclient =>
      exact ⟨earlier, login, later, before, record, hpast, hbefore, hlogin, hclient⟩
  · intro event next outputs hstep output houtput client permission hservice
    obtain ⟨sock, datagram, locals, opened, sender, rfl, hopened, hpermitted⟩ :=
      (stepped_of_step hvalid hstep).service_permitted houtput hservice
    obtain ⟨hold, hsame⟩ := hopened.permitted_old hpermitted
    have hlogged := hpermitted.logged_in
    have hsender := hpermitted.client_eq
    have hflag := hpermitted.flag
    have hip := hopened.ip
    have hport := hopened.port
    rw [hsame] at hlogged hsender hip hport
    rw [hopened.clients_eq] at hflag
    obtain ⟨record, hrecord⟩ := hattributed client hold hlogged
    cases hrecord with
    | intro earlier later login before _ hpast hbefore hlogin hclient hbrk haccount =>
      obtain rfl : sender = record := Option.some.inj (hsender.symm.trans hclient)
      rw [hip, hport] at hlogin
      refine ⟨sock, datagram, locals, earlier, login, later, before, sender, rfl, hip, hport, hpast,
        hbefore, hlogin, ?_, hflag⟩
      rwa [← client_t.flag_eq_of_account haccount]

theorem services_authenticated_witness : ∃ start server next outputs, main .blank [] = .ok start ∧
    Reaches step start loginRun server ∧
    step server (.datagram ⟨⟨10, 0, 0, 1⟩, 5000⟩ (text "MSG ana hi") .blank) =
      .ok (next, outputs) ∧
    outputs.map Output.service = [some (0, .client_server), none] ∧
    ∃ earlier login later before record, loginRun = earlier ++ login :: later ∧
      Reaches step start earlier before ∧
      LoginRequest before.memory (text "10.0.0.1") 5000 record login ∧
      (before.memory.clients.contents record).flag .client_server ≠ 0 ∧
      (server.memory.clients.contents record).flag .client_server ≠ 0 := by
  have hview : observe .blank [] loginRun (fun server _ => do
      let (_, outputs) ← step server
        (.datagram ⟨⟨10, 0, 0, 1⟩, 5000⟩ (text "MSG ana hi") .blank)
      return outputs.map Output.service) = .ok (.ok [some (0, .client_server), none]) := by
    decide +kernel
  obtain ⟨start, server, outputs, hmain, hrun, hstep⟩ := exists_of_observe hview
  obtain ⟨⟨next, outputs'⟩, hstep, houtputs⟩ := Result.bind_eq_ok_iff.mp hstep
  simp only [Result.pure_eq_ok, Except.ok.injEq] at houtputs
  refine ⟨start, server, next, outputs', hmain, ⟨outputs, hrun⟩, hstep, houtputs, ?_⟩
  have hserved : some (0, .client_server) ∈ outputs'.map Output.service := by
    rw [houtputs]
    exact List.mem_cons_self
  obtain ⟨output, houtput, hservice⟩ := List.mem_map.mp hserved
  obtain ⟨sock, datagram, locals, earlier, login, later, before, record, hevent, -, -, hpast, hbefore,
    hlogin, hflag, hflag'⟩ := (services_authenticated hmain ⟨outputs, hrun⟩).2 _ next outputs' hstep
      output houtput 0 .client_server hservice
  cases hevent
  have hip : inet_ntop ⟨10, 0, 0, 1⟩ = text "10.0.0.1" := by decide
  have hport : (5000 : BitVec 16).setWidth 32 = (5000 : BitVec 32) := by decide
  rw [hip, hport] at hlogin
  exact ⟨earlier, login, later, before, record, hpast, hbefore, hlogin, hflag, hflag'⟩

/-- A session that is logged in stays bound to the record that its `LOGIN`
named, and this record is what its name finds as long as it is not deleted,
whatever other users are added and deleted. -/
theorem login_binding_kept {startup : Startup} {records : Bytes}
    (hmain : main startup records = .ok start) (hreach : Reaches step start past server) :
    ∀ t ∈ server.memory.userSessions, (server.memory.sessions.contents t).logged_in ≠ 0 →
      ∃ earlier login later before record, past = earlier ++ login :: later ∧
        Reaches step start earlier before ∧
        LoginRequest before.memory (cstr (server.memory.sessions.contents t).ip.bytes)
          (server.memory.sessions.contents t).port record login ∧
        (server.memory.sessions.contents t).client = some record ∧
        ((∀ between deletion rest middle, later = between ++ deletion :: rest →
            Reaches step start (earlier ++ login :: between) middle →
            ¬ middle.Deletes deletion record) →
          server.memory.find_user (server.memory.clients.contents record).username_string =
            .ok (some record)) := by
  intro t ht hlogged
  have hstarted := started_of_main hmain
  obtain ⟨hvalid, hattributed⟩ :=
    reaches_attributed hstarted.valid hstarted.no_sessions hreach
  obtain ⟨record, hrecord⟩ := hattributed t ht hlogged
  cases hrecord with
  | intro earlier later login before _ hpast hbefore hlogin hclient hbrk haccount hstored =>
    refine ⟨earlier, login, later, before, record, hpast, hbefore, hlogin, hclient, ?_⟩
    intro hnever
    have hmem : record ∈ server.memory.users := by
      obtain hmem | ⟨between, deletion, rest, middle, hlater, hmiddle, hdeletes⟩ := hstored
      · exact hmem
      · exact absurd hdeletes (hnever between deletion rest middle hlater hmiddle)
    have hname : (server.memory.clients.contents record).username_string =
      (before.memory.clients.contents record).username_string := congrArg Prod.fst haccount
    rw [hvalid.find_user_eq_some_iff, client_t.username_string, cstr_cstr]
    refine ⟨?_, hmem, rfl⟩
    cases hlogin with
    | intro sock datagram args username password locals hip hport hcommand hargs huser =>
      have hbefore' := reaches_valid hstarted.valid hbefore
      obtain ⟨hfits, -, hnamed⟩ := hbefore'.find_user_eq_some_iff.mp huser
      rw [← client_t.username_string, hname, hnamed]
      exact hfits

theorem login_binding_kept_witness : ∃ start server record, main .blank [] = .ok start ∧
    Reaches step start loginRun server ∧
    (server.memory.sessions.contents 0).client = some record ∧
    ∃ earlier login later before, loginRun = earlier ++ login :: later ∧
      Reaches step start earlier before ∧
      LoginRequest before.memory (cstr (server.memory.sessions.contents 0).ip.bytes)
        (server.memory.sessions.contents 0).port record login := by
  have hview : observe .blank [] loginRun (fun server _ => decide
      (0 ∈ server.memory.userSessions ∧ (server.memory.sessions.contents 0).logged_in ≠ 0)) =
        .ok true := by
    decide +kernel
  obtain ⟨start, server, outputs, hmain, hrun, hsession⟩ := exists_of_observe hview
  obtain ⟨hmem, hlogged⟩ := of_decide_eq_true hsession
  obtain ⟨earlier, login, later, before, record, hpast, hbefore, hlogin, hclient, -⟩ :=
    login_binding_kept hmain ⟨outputs, hrun⟩ 0 hmem hlogged
  exact ⟨start, server, record, hmain, ⟨outputs, hrun⟩, hclient, earlier, login, later, before, hpast,
    hbefore, hlogin⟩

/-- Behind the deletion of its user a session stays logged in and is served. -/
theorem removed_user_still_served : ∃ start server next outputs, main .blank [] = .ok start ∧
    Reaches step start (loginRun ++ [.read (text "DEL ana\n")]) server ∧
    0 ∈ server.memory.userSessions ∧ (server.memory.sessions.contents 0).logged_in ≠ 0 ∧
    (server.memory.sessions.contents 0).client = some 0 ∧
    (server.memory.clients.contents 0).username_string = text "ana" ∧
    server.memory.find_user (text "ana") = .ok none ∧
    step server (.datagram ⟨⟨10, 0, 0, 1⟩, 5000⟩ (text "CREATEMULTICAST g") .blank) =
      .ok (next, outputs) ∧
    outputs.map Output.service = [some (0, .group)] := by
  have hview : observe .blank [] (loginRun ++ [.read (text "DEL ana\n")]) (fun server _ => do
      let found ← server.memory.find_user (text "ana")
      let (_, outputs) ← step server
        (.datagram ⟨⟨10, 0, 0, 1⟩, 5000⟩ (text "CREATEMULTICAST g") .blank)
      return (found, outputs.map Output.service, decide (0 ∈ server.memory.userSessions ∧
        (server.memory.sessions.contents 0).logged_in ≠ 0 ∧
        (server.memory.sessions.contents 0).client = some 0 ∧
        (server.memory.clients.contents 0).username_string = text "ana"))) =
          .ok (.ok (none, [some (0, .group)], true)) := by
    decide +kernel
  obtain ⟨start, server, outputs, hmain, hrun, hfind⟩ := exists_of_observe hview
  obtain ⟨found, hfind, hrest⟩ := Result.bind_eq_ok_iff.mp hfind
  obtain ⟨⟨next, outputs'⟩, hstep, hfacts⟩ := Result.bind_eq_ok_iff.mp hrest
  simp only [Result.pure_eq_ok, Except.ok.injEq, Prod.mk.injEq, decide_eq_true_eq] at hfacts
  obtain ⟨rfl, hservice, hmem, hlogged, hclient, hname⟩ := hfacts
  exact ⟨start, server, next, outputs', hmain, ⟨outputs, hrun⟩, hmem, hlogged, hclient, hname, hfind,
    hstep, hservice⟩

end rc_project.server
