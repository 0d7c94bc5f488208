import RcProject.Server.Runs

open rc_project.avl_tree rc_project.blocks rc_project.c_string rc_project.scanf
open rc_project.transition

namespace rc_project.server

/-- The session that a `MSG` or a `P2P` was served for, the user that it named
and the session that was selected for that user. -/
def Output.route : Output → Option (Nat × Bytes × Nat)
  | .relay client username selected .. => some (client, username, selected)
  | .answer client (.p2p_address username selected ..) .. => some (client, username, selected)
  | _ => none

namespace Memory

variable {memory next opened : Memory} {s t u : Nat}

/-- A session is logged in to a record. -/
structure Bound (memory : Memory) (s u : Nat) : Prop where
  mem : s ∈ memory.userSessions
  logged_in : (memory.sessions.contents s).logged_in ≠ 0
  client : (memory.sessions.contents s).client = some u
  allocated : u < memory.clients.brk

/-- A record holds the address and the port of a session. -/
structure Located (memory : Memory) (s u : Nat) : Prop where
  ip : cstr (memory.sessions.contents s).ip.bytes = (memory.clients.contents u).ip_string
  port : (memory.sessions.contents s).port = (memory.clients.contents u).port

/-- The lookup of a session selects the one that the record locates. -/
theorem Valid.find_session_eq_some_iff_located (hvalid : memory.Valid) :
    memory.find_session u = .ok (some t) ↔ t ∈ memory.userSessions ∧ memory.Located t u := by
  rw [hvalid.find_session_eq_some_iff]
  exact and_congr_right fun _ => ⟨fun h => ⟨h.1, h.2⟩, fun h => ⟨h.ip, h.port⟩⟩

theorem Valid.located_unique (hvalid : memory.Valid) (hs : s ∈ memory.userSessions)
    (ht : t ∈ memory.userSessions) (h : memory.Located s u) (h' : memory.Located t u) : s = t :=
  hvalid.session_unique hs ht (h.ip.trans h'.ip.symm) (h.port.trans h'.port.symm)

section Keeps

theorem Keeps.bound (hkeeps : memory.Keeps next) (h : memory.Bound s u) : next.Bound s u := by
  obtain ⟨hmem, hsame⟩ := hkeeps.sessions s h.mem
  refine ⟨hmem, ?_, ?_, h.allocated.trans_le hkeeps.brk⟩
  · rw [hsame]
    exact h.logged_in
  · rw [hsame]
    exact h.client

/-- No step but a login binds a session. -/
theorem Keeps.bound_old (hkeeps : memory.Keeps next) (hvalid : memory.Valid)
    (h : next.Bound s u) : memory.Bound s u := by
  obtain hold | hnew := hkeeps.new s h.mem
  · have hsame := (hkeeps.sessions s hold).2
    have hlogged := h.logged_in
    have hclient := h.client
    rw [hsame] at hlogged hclient
    obtain ⟨record, hlt, hrecord⟩ := hvalid.bound s hold hlogged
    obtain rfl : record = u := Option.some.inj (hrecord.symm.trans hclient)
    exact ⟨hold, hlogged, hclient, hlt⟩
  · exact absurd hnew h.logged_in

theorem Keeps.located (hkeeps : memory.Keeps next) (hs : s ∈ memory.userSessions)
    (hu : u < memory.clients.brk) (h : memory.Located s u) : next.Located s u := by
  have hsession := (hkeeps.sessions s hs).2
  have hrecord := hkeeps.clients u hu
  exact ⟨by rw [hsession, hrecord, h.ip], by rw [hsession, hrecord, h.port]⟩

end Keeps

section Login

/-- A login binds its session to its record, which then locates it. -/
theorem LogsIn.bound {event : Event} (hvalid : memory.Valid)
    (h : memory.LogsIn event s u next) : next.Bound s u ∧ next.Located s u := by
  cases h with
  | intro sock datagram locals opened _ _ args username password hopened hcommand hlogged hargs
      huser hip hpassword hnul =>
    obtain ⟨hkeyip, hkeyport, -⟩ := opened.bind_sessions_key s u s
    have hu := hvalid.user_list.allocated u (hvalid.find_user_eq_some_iff.mp huser).2.1
    have hclients : (opened.bind s u).clients.contents u =
        { opened.clients.contents u with port := (opened.sessions.contents s).port } :=
      bind_clients_self
    constructor
    · refine ⟨hopened.mem, ?_, ?_, ?_⟩
      · rw [bind_sessions_self]
        exact one_ne_zero
      · rw [bind_sessions_self]
      · change u < opened.clients.brk
        rwa [hopened.clients_eq]
    · constructor
      · have hstring : ((opened.bind s u).clients.contents u).ip_string =
            (memory.clients.contents u).ip_string := by
          rw [client_t.ip_string_eq, hclients, hopened.clients_eq, client_t.ip_string_eq,
            cstr_append_of_mem hnul, cstr_append_of_mem hnul]
        rw [hkeyip, hopened.ip, hstring, hip]
      · rw [hkeyport, hclients]

/-- A login leaves the other records and the sessions that were logged in. -/
theorem LogsIn.other {event : Event} {s' u' : Nat} (h : memory.LogsIn event s' u' next)
    (hbound : memory.Bound s u) :
    s ≠ s' ∧ next.Bound s u ∧ (u ≠ u' → memory.Located s u → next.Located s u) := by
  cases h with
  | intro sock datagram locals opened _ _ args username password hopened hcommand hlogged hargs
      huser hip hpassword hnul =>
    obtain ⟨hmem, hsame⟩ := hopened.old s hbound.mem
    have hne : s ≠ s' := by
      rintro rfl
      rw [hsame] at hlogged
      exact hbound.logged_in hlogged
    have hsession : (opened.bind s' u').sessions.contents s = memory.sessions.contents s :=
      (bind_sessions_of_ne hne).trans hsame
    refine ⟨hne, ⟨hmem, ?_, ?_, ?_⟩, ?_⟩
    · rw [hsession]
      exact hbound.logged_in
    · rw [hsession]
      exact hbound.client
    · change u < opened.clients.brk
      rw [hopened.clients_eq]
      exact hbound.allocated
    · intro hne' hlocated
      have hrecord : (opened.bind s' u').clients.contents u = memory.clients.contents u := by
        rw [bind_clients_of_ne hne', hopened.clients_eq]
      exact ⟨by rw [hsession, hrecord, hlocated.ip], by rw [hsession, hrecord, hlocated.port]⟩

/-- Only the session of a login is bound by it. -/
theorem LogsIn.bound_old {event : Event} {s' u' : Nat} (hvalid : memory.Valid)
    (h : memory.LogsIn event s' u' next) (hbound : next.Bound s u) (hne : s ≠ s') :
    memory.Bound s u := by
  cases h with
  | intro sock datagram locals opened _ _ args username password hopened hcommand hlogged hargs
      huser hip hpassword hnul =>
    have hsession : (opened.bind s' u').sessions.contents s = opened.sessions.contents s :=
      bind_sessions_of_ne hne
    have hlogged' := hbound.logged_in
    have hclient := hbound.client
    have hallocated : u < opened.clients.brk := hbound.allocated
    rw [hsession] at hlogged' hclient
    exact hopened.keeps.bound_old hvalid ⟨hbound.mem, hlogged', hclient, hallocated⟩

end Login

/-- A record that some session is logged in to locates one of these sessions. -/
def AllLocated (memory : Memory) : Prop :=
  ∀ u, (∃ s, memory.Bound s u) → ∃ s, memory.Bound s u ∧ memory.Located s u

end Memory

variable {start server next last : Server} {events : List Event} {event : Event}
  {outputs : List Output} {s u : Nat}

theorem step_allLocated (hvalid : server.memory.Valid) (hlocated : server.memory.AllLocated)
    (hstep : step server event = .ok (next, outputs)) : next.memory.AllLocated := by
  intro u ⟨s, hbound⟩
  obtain ⟨hkeeps, -⟩ | ⟨s', u', hlogin, -⟩ :=
    (stepped_of_step hvalid hstep).keeps_or_login hvalid
  · obtain ⟨t, ht, hat⟩ := hlocated u ⟨s, hkeeps.bound_old hvalid hbound⟩
    exact ⟨t, hkeeps.bound ht, hkeeps.located ht.mem ht.allocated hat⟩
  · obtain ⟨hbound', hat'⟩ := hlogin.bound hvalid
    by_cases hu : u = u'
    · subst hu
      exact ⟨s', hbound', hat'⟩
    · have hne : s ≠ s' := by
        rintro rfl
        exact hu (Option.some.inj (hbound.client.symm.trans hbound'.client))
      obtain ⟨t, ht, hat⟩ := hlocated u ⟨s, hlogin.bound_old hvalid hbound hne⟩
      obtain ⟨-, hkept, hstays⟩ := hlogin.other ht
      exact ⟨t, hkept, hstays hu hat⟩

theorem reaches_allLocated (hvalid : start.memory.Valid)
    (hnone : start.memory.userSessions = []) (hreach : Reaches step start events server) :
    server.memory.Valid ∧ server.memory.AllLocated := by
  refine hreach.invariant (fun server => server.memory.Valid ∧ server.memory.AllLocated)
    ⟨hvalid, ?_⟩ fun _ _ _ _ h hstep => ⟨step_valid h.1 hstep, step_allLocated h.1 h.2 hstep⟩
  rintro u ⟨s, hbound⟩
  have hmem := hbound.mem
  rw [hnone] at hmem
  cases hmem

section LastLogin

/-- A step that does not log anyone in to the record leaves the session where the
record locates it. -/
theorem step_last_login (hvalid : server.memory.Valid) (hbound : server.memory.Bound s u)
    (hlocated : server.memory.Located s u) (hstep : step server event = .ok (next, outputs))
    (hother : ∀ t, (t, u) ∉ outputs.filterMap Output.login) :
    next.memory.Bound s u ∧ next.memory.Located s u := by
  obtain ⟨hkeeps, -⟩ | ⟨s', u', hlogin, houtputs⟩ :=
    (stepped_of_step hvalid hstep).keeps_or_login hvalid
  · exact ⟨hkeeps.bound hbound, hkeeps.located hbound.mem hbound.allocated hlocated⟩
  · have hne : u ≠ u' := by
      rintro rfl
      apply hother s'
      rw [houtputs]
      exact List.mem_singleton_self _
    obtain ⟨-, hkept, hstays⟩ := hlogin.other hbound
    exact ⟨hkept, hstays hne hlocated⟩

theorem run_last_login {rest : List (List Output)} (hvalid : server.memory.Valid)
    (hbound : server.memory.Bound s u) (hlocated : server.memory.Located s u)
    (hrun : run step server events = .ok (last, rest))
    (hother : ∀ outputs ∈ rest, ∀ t, (t, u) ∉ outputs.filterMap Output.login) :
    last.memory.Valid ∧ last.memory.Bound s u ∧ last.memory.Located s u := by
  induction events generalizing server rest with
  | nil =>
    cases hrun
    exact ⟨hvalid, hbound, hlocated⟩
  | cons event events ih =>
    obtain ⟨next, outputs, rest', hstep, hrun', rfl⟩ := (run_cons_eq_ok_iff step).mp hrun
    obtain ⟨hbound', hlocated'⟩ := step_last_login hvalid hbound hlocated hstep
      (hother outputs List.mem_cons_self)
    exact ih (step_valid hvalid hstep) hbound' hlocated' hrun'
      fun outputs houtputs => hother outputs (List.mem_cons_of_mem _ houtputs)

end LastLogin

section Requests

variable {memory : Memory} {args : Bytes} {locals : Locals} {client sender : Nat}
  {username message : Bytes}

theorem cmd_msg_eq {selected : Nat} (hpermitted : memory.Permitted client .client_server sender)
    (hargs : sscanf args [.word USERNAME_SIZE, .space, .line BUFFER_SIZE, .literal 115] =
      .ok [.string username, .string message])
    (huser : memory.find_user username = .ok (some u))
    (hsession : memory.find_session u = .ok (some selected)) :
    cmd_msg memory client args locals =
      .ok (memory, [relay memory client sender username message selected locals,
        memory.send_udp_message client .message_sent]) := by
  have hflag : (memory.clients.contents sender).client_server ≠ 0 := hpermitted.flag
  simp only [cmd_msg, hpermitted.logged_in, if_false, hpermitted.client_eq, Result.deref_some,
    Result.ok_bind, hflag, hargs, huser, hsession, Result.pure_eq_ok]

theorem cmd_p2p_eq {selected : Nat} (hpermitted : memory.Permitted client .p2p sender)
    (hargs : sscanf args [.word USERNAME_SIZE] = .ok [.string username])
    (huser : memory.find_user username = .ok (some u))
    (hsession : memory.find_session u = .ok (some selected)) :
    cmd_p2p memory client args = .ok (memory, [memory.send_udp_message client
      (.p2p_address username selected (cstr (memory.sessions.contents selected).ip.bytes)
        (memory.sessions.contents selected).port)]) := by
  have hflag : (memory.clients.contents sender).p2p ≠ 0 := hpermitted.flag
  simp only [cmd_p2p, hpermitted.logged_in, if_false, hpermitted.client_eq, Result.deref_some,
    Result.ok_bind, hflag, hargs, huser, hsession, Result.pure_eq_ok]

end Requests

/-- Behind a login to a record, and until the next login to it, a permitted `MSG`
to its user is relayed to the session of that login, and a permitted `P2P` is
answered with the address of this session. -/
theorem routed_to_last_login {startup : Startup} {records : Bytes} {past between : List Event}
    {rest : List (List Output)} {username : Bytes}
    (hmain : main startup records = .ok start) (hreach : Reaches step start past server)
    (hstep : step server event = .ok (next, outputs))
    (hlogin : (s, u) ∈ outputs.filterMap Output.login)
    (hrun : run step next between = .ok (last, rest))
    (hlast : ∀ outputs ∈ rest, ∀ t, (t, u) ∉ outputs.filterMap Output.login)
    (huser : last.memory.find_user username = .ok (some u)) :
    last.memory.Bound s u ∧ ∀ client sender args locals request,
      (∀ message, last.memory.Requests client sender .client_server .MSG args locals request →
        sscanf args [.word USERNAME_SIZE, .space, .line BUFFER_SIZE, .literal 115] =
          .ok [.string username, .string message] →
        step last request =
          .ok (last, [relay last.memory client sender username message s locals,
            last.memory.send_udp_message client .message_sent])) ∧
      (last.memory.Requests client sender .p2p .P2P args locals request →
        sscanf args [.word USERNAME_SIZE] = .ok [.string username] →
        step last request =
          .ok (last, [last.memory.send_udp_message client (.p2p_address username s
            (cstr (last.memory.sessions.contents s).ip.bytes)
            (last.memory.sessions.contents s).port)])) := by
  have hvalid := reaches_valid (started_of_main hmain).valid hreach
  obtain ⟨-, hnone⟩ | ⟨s', u', hlogs, houtputs⟩ :=
    (stepped_of_step hvalid hstep).keeps_or_login hvalid
  · rw [hnone] at hlogin
    cases hlogin
  · rw [houtputs, List.mem_singleton] at hlogin
    cases hlogin
    obtain ⟨hbound, hlocated⟩ := hlogs.bound hvalid
    obtain ⟨hvalid', hbound', hlocated'⟩ :=
      run_last_login (step_valid hvalid hstep) hbound hlocated hrun hlast
    have hsession : last.memory.find_session u = .ok (some s) :=
      hvalid'.find_session_eq_some_iff_located.mpr ⟨hbound'.mem, hlocated'⟩
    refine ⟨hbound', fun client sender args locals request => ⟨?_, ?_⟩⟩
    · intro message hrequest hargs
      rw [hrequest.step_eq hvalid', client_cmd_functions,
        cmd_msg_eq hrequest.permitted hargs huser hsession]
      rfl
    · intro hrequest hargs
      rw [hrequest.step_eq hvalid', client_cmd_functions,
        cmd_p2p_eq hrequest.permitted hargs huser hsession]
      rfl

/-- Two users are added and the first of them logs in. -/
def addTwo : List Event :=
  [.accept .blank, .read (text "ADD ana 10.0.0.1 pw 1 1 1\n"),
    .read (text "ADD bob 10.0.0.2 pw 1 1 1\n"),
    .datagram ⟨⟨10, 0, 0, 1⟩, 5000⟩ (text "LOGIN ana pw") .blank]

theorem routed_to_last_login_witness : ∃ start server next last outputs rest,
    main .blank [] = .ok start ∧ Reaches step start addTwo server ∧
    step server (.datagram ⟨⟨10, 0, 0, 1⟩, 5001⟩ (text "LOGIN ana pw") .blank) =
      .ok (next, outputs) ∧
    run step next [.datagram ⟨⟨10, 0, 0, 2⟩, 5000⟩ (text "LOGIN bob pw") .blank] =
      .ok (last, rest) ∧
    step last (.datagram ⟨⟨10, 0, 0, 2⟩, 5000⟩ (text "MSG ana hi") .blank) =
      .ok (last, [relay last.memory 2 1 (text "ana") (text "hi") 1 .blank,
        last.memory.send_udp_message 2 .message_sent]) := by
  have hview : observe .blank [] addTwo (fun server _ => do
      let (next, outputs) ← step server
        (.datagram ⟨⟨10, 0, 0, 1⟩, 5001⟩ (text "LOGIN ana pw") .blank)
      let after ← run step next [.datagram ⟨⟨10, 0, 0, 2⟩, 5000⟩ (text "LOGIN bob pw") .blank]
      let found ← after.1.memory.find_user (text "ana")
      let client := after.1.memory.sessions.contents 2
      return (found, outputs.filterMap Output.login, after.2.map (List.filterMap Output.login),
        decide (2 ∈ after.1.memory.userSessions ∧
          cstr client.ip.bytes = inet_ntop ⟨10, 0, 0, 2⟩ ∧
          client.port = (5000 : BitVec 16).setWidth 32 ∧ client.logged_in ≠ 0 ∧
          client.client = some 1 ∧ (after.1.memory.clients.contents 1).client_server ≠ 0))) =
        .ok (.ok (some 0, [(1, 0)], [[(2, 1)]], true)) := by
    decide +kernel
  obtain ⟨start, server, _, hmain, hreach, hstep⟩ := exists_of_observe hview
  obtain ⟨⟨next, outputs⟩, hstep, hrun⟩ := Result.bind_eq_ok_iff.mp hstep
  obtain ⟨⟨last, rest⟩, hrun, huser⟩ := Result.bind_eq_ok_iff.mp hrun
  obtain ⟨found, huser, hfacts⟩ := Result.bind_eq_ok_iff.mp huser
  simp only [Result.pure_eq_ok, Except.ok.injEq, Prod.mk.injEq, decide_eq_true_eq] at hfacts
  obtain ⟨rfl, hlogin, hlast, hclient, hip, hport, hlogged, hsender, hflag⟩ := hfacts
  have hcommand : received_command (text "MSG ana hi") .blank =
      .ok (some (.MSG, text "ana hi")) := by
    decide +kernel
  have hargs : sscanf (text "ana hi") [.word USERNAME_SIZE, .space, .line BUFFER_SIZE,
      .literal 115] = .ok [.string (text "ana"), .string (text "hi")] := by
    decide +kernel
  have hother : ∀ outputs ∈ rest, ∀ t, (t, 0) ∉ outputs.filterMap Output.login := by
    intro outputs houtputs t hmem
    have hlogins : outputs.filterMap Output.login ∈ [[(2, 1)]] :=
      hlast ▸ List.mem_map_of_mem houtputs
    rw [List.mem_singleton.mp hlogins] at hmem
    simp at hmem
  have hmem : (1, 0) ∈ outputs.filterMap Output.login := by
    rw [hlogin]
    exact List.mem_cons_self
  have hrequest : last.memory.Requests 2 1 .client_server .MSG (text "ana hi") .blank
      (.datagram ⟨⟨10, 0, 0, 2⟩, 5000⟩ (text "MSG ana hi") .blank) :=
    .intro _ _ hclient hip hport ⟨hlogged, hsender, hflag⟩ hcommand
  obtain ⟨-, hrouted⟩ := routed_to_last_login hmain ⟨_, hreach⟩ hstep hmem hrun hother huser
  exact ⟨start, server, next, last, outputs, rest, hmain, ⟨_, hreach⟩, hstep, hrun,
    (hrouted 2 1 _ _ _).1 _ hrequest hargs⟩

section Targets

/-- The user that the arguments of a `MSG` or a `P2P` name, and the permission
that the command asks for. -/
inductive Targets (args : Bytes) : ClientCommand → Permission → Bytes → Prop
  | msg (username message : Bytes)
    (hargs : sscanf args [.word USERNAME_SIZE, .space, .line BUFFER_SIZE, .literal 115] =
      .ok [.string username, .string message]) :
    Targets args .MSG .client_server username
  | p2p (username : Bytes)
    (hargs : sscanf args [.word USERNAME_SIZE] = .ok [.string username]) :
    Targets args .P2P .p2p username

/-- A session that has the permission for it asks for the session of a user. -/
inductive Memory.AsksFor (memory : Memory) (username : Bytes) (event : Event) : Prop
  | intro (client sender : Nat) (permission : Permission) (command : ClientCommand) (args : Bytes)
    (locals : Locals)
    (hrequest : memory.Requests client sender permission command args locals event)
    (htargets : Targets args command permission username) :
    AsksFor memory username event

/-- Whoever asks for the session of a stored user asks for one that is logged in
or for one whose address nobody uses. -/
def Memory.TargetKnown (memory : Memory) (event : Event) : Prop :=
  ∀ username, memory.AsksFor username event → ∀ u ∈ memory.users,
    (memory.clients.contents u).username_string = cstr username →
    (∃ s, memory.Bound s u) ∨ ∀ t ∈ memory.userSessions, ¬ memory.Located t u

/-- The sessions that the outputs of a step select are logged in as the users
that they were selected for. -/
def Memory.RoutesToTargets (memory : Memory) (outputs : List Output) : Prop :=
  ∀ output ∈ outputs, ∀ client username t, output.route = some (client, username, t) →
    ∃ u ∈ memory.users, (memory.clients.contents u).username_string = cstr username ∧
      memory.Bound t u

/-- A name that is asked for fits the array of a record. -/
theorem Memory.AsksFor.fits {memory : Memory} {username : Bytes}
    (h : memory.AsksFor username event) : (cstr username).length < USERNAME_SIZE := by
  cases h with
  | intro _ _ _ _ _ _ _ htargets =>
    have hlength : username.length < USERNAME_SIZE := by
      cases htargets with
      | msg _ message hargs => exact (word_of_sscanf hargs).2
      | p2p _ hargs => exact (word_of_sscanf hargs).2
    exact (length_cstr_le username).trans_lt hlength

theorem route_of_refusal {memory : Memory} {client : Nat} {answer : Answer}
    (hrefusal : answer.refusal = true) : (memory.send_udp_message client answer).route = none := by
  cases answer <;> first | rfl | cases hrefusal

/-- What is routed was asked for, and goes to the session where the record of the
user locates it. -/
theorem Stepped.asked_for {memory : Memory} (h : Stepped server event memory outputs)
    {output : Output} (houtput : output ∈ outputs) {client t : Nat} {username : Bytes}
    (hroute : output.route = some (client, username, t)) :
    server.memory.AsksFor username event ∧ ∃ u, server.memory.find_user username = .ok (some u) ∧
      server.memory.find_session u = .ok (some t) := by
  cases h with
  | served sock datagram locals _ _ hserved =>
    cases hserved with
    | unknown =>
      rw [List.mem_singleton.mp houtput] at hroute
      cases hroute
    | command opened s hopened command args hcommand _ _ hperformed =>
      cases hperformed with
      | refused _ answer hrefusal =>
        rw [List.mem_singleton.mp houtput, route_of_refusal hrefusal] at hroute
        cases hroute
      | login =>
        simp only [List.mem_cons, List.not_mem_nil, or_false] at houtput
        obtain rfl | rfl | rfl := houtput <;> cases hroute
      | msg target message sender u selected hpermitted hargs huser hsession =>
        simp only [List.mem_cons, List.not_mem_nil, or_false] at houtput
        obtain rfl | rfl := houtput <;> cases hroute
        obtain ⟨rfl, hrequest⟩ := hopened.requests hpermitted hcommand
        exact ⟨.intro _ _ _ _ _ _ hrequest (.msg username message hargs), u, huser, hsession⟩
      | p2p target sender u selected hpermitted hargs huser hsession =>
        rw [List.mem_singleton.mp houtput] at hroute
        cases hroute
        obtain ⟨rfl, hrequest⟩ := hopened.requests hpermitted hcommand
        exact ⟨.intro _ _ _ _ _ _ hrequest (.p2p username hargs), u, huser, hsession⟩
      | create =>
        rw [List.mem_singleton.mp houtput] at hroute
        cases hroute
      | get =>
        rw [List.mem_singleton.mp houtput] at hroute
        cases hroute
  | handled connection hadmin received _ _ hhandled =>
    have hclient := hhandled.client_eq_none output houtput
    cases output with
    | answer => cases hclient
    | relay => cases hclient
    | _ => cases hroute
  | idle => cases houtput

/-- Whoever may ask for a session that can be found has it selected. -/
theorem Memory.AsksFor.routed {username : Bytes} (hvalid : server.memory.Valid)
    (h : server.memory.AsksFor username event)
    (huser : server.memory.find_user username = .ok (some u))
    (hsession : server.memory.find_session u = .ok (some s))
    (hstep : step server event = .ok (next, outputs)) :
    ∃ output ∈ outputs, ∃ client, output.route = some (client, username, s) := by
  cases h with
  | intro client sender permission command args locals hrequest htargets =>
    rw [hrequest.step_eq hvalid] at hstep
    cases htargets with
    | msg _ message hargs =>
      rw [client_cmd_functions, cmd_msg_eq hrequest.permitted hargs huser hsession] at hstep
      cases hstep
      exact ⟨_, List.mem_cons_self, client, rfl⟩
    | p2p _ hargs =>
      rw [client_cmd_functions, cmd_p2p_eq hrequest.permitted hargs huser hsession] at hstep
      cases hstep
      exact ⟨_, List.mem_cons_self, client, rfl⟩

end Targets

/-- In every run and at every step of it, a message or an address goes to a
session that is logged in as the user it is meant for, if and only if the step
does not ask for a user that nobody is logged in as while some session has the
address of the user's record. -/
theorem routes_to_targets_iff {startup : Startup} {records : Bytes} {past : List Event}
    (hmain : main startup records = .ok start) (hreach : Reaches step start past server)
    (hstep : step server event = .ok (next, outputs)) :
    server.memory.RoutesToTargets outputs ↔ server.memory.TargetKnown event := by
  have hstarted := started_of_main hmain
  obtain ⟨hvalid, hlocated⟩ := reaches_allLocated hstarted.valid hstarted.no_sessions hreach
  constructor
  · intro hroutes username hasks u hu hname
    by_cases hnone : ∀ t ∈ server.memory.userSessions, ¬ server.memory.Located t u
    · exact Or.inr hnone
    · push Not at hnone
      obtain ⟨t, ht, hat⟩ := hnone
      have huser := hvalid.find_user_eq_some_iff.mpr ⟨hasks.fits, hu, hname⟩
      have hsession := hvalid.find_session_eq_some_iff_located.mpr ⟨ht, hat⟩
      obtain ⟨output, houtput, client, hroute⟩ := hasks.routed hvalid huser hsession hstep
      obtain ⟨v, hv, hsame, hbound⟩ := hroutes output houtput client username t hroute
      obtain rfl : u = v := hvalid.user_unique hu hv (hname.trans hsame.symm)
      exact Or.inl ⟨t, hbound⟩
  · intro hknown output houtput client username t hroute
    obtain ⟨hasks, u, huser, hsession⟩ :=
      (stepped_of_step hvalid hstep).asked_for houtput hroute
    obtain ⟨-, hu, hname⟩ := hvalid.find_user_eq_some_iff.mp huser
    obtain ⟨ht, hat⟩ := hvalid.find_session_eq_some_iff_located.mp hsession
    refine ⟨u, hu, hname, ?_⟩
    obtain hbound | hnone := hknown username hasks u hu hname
    · obtain ⟨s, hbound, hats⟩ := hlocated u hbound
      obtain rfl : s = t := hvalid.located_unique hbound.mem ht hats hat
      exact hbound
    · exact absurd hat (hnone t ht)

/-- A run that leaves the port of a login in the records file. -/
def storesPort : List Event :=
  [.accept .blank, .read (text "ADD bob 10.0.0.2 pw 1 1 1\n"),
    .datagram ⟨⟨10, 0, 0, 2⟩, 5001⟩ (text "LOGIN bob pw") .blank,
    .read (text "ADD zed 10.0.0.9 pw 1 1 1\n"), .read (text "DEL zed\n")]

/-- Behind a restart somebody uses that port without a login. -/
def reusesPort : List Event :=
  [.accept .blank, .read (text "ADD ana 10.0.0.1 pw 1 1 1\n"),
    .datagram ⟨⟨10, 0, 0, 1⟩, 5000⟩ (text "LOGIN ana pw") .blank,
    .datagram ⟨⟨10, 0, 0, 2⟩, 5001⟩ (text "X") .blank]

theorem routes_to_targets_iff_witness : ∃ start server next outputs, main .blank [] = .ok start ∧
    Reaches step start addTwo server ∧
    step server (.datagram ⟨⟨10, 0, 0, 1⟩, 5000⟩ (text "MSG ana hi") .blank) =
      .ok (next, outputs) ∧
    outputs.map Output.route = [some (0, text "ana", 0), none] ∧
    (server.memory.RoutesToTargets outputs ↔ server.memory.TargetKnown
      (.datagram ⟨⟨10, 0, 0, 1⟩, 5000⟩ (text "MSG ana hi") .blank)) := by
  have hview : observe .blank [] addTwo (fun server _ => do
      let (_, outputs) ← step server
        (.datagram ⟨⟨10, 0, 0, 1⟩, 5000⟩ (text "MSG ana hi") .blank)
      return outputs.map Output.route) = .ok (.ok [some (0, text "ana", 0), none]) := by
    decide +kernel
  obtain ⟨start, server, outputs, hmain, hrun, hstep⟩ := exists_of_observe hview
  obtain ⟨⟨next, outputs'⟩, hstep, houtputs⟩ := Result.bind_eq_ok_iff.mp hstep
  simp only [Result.pure_eq_ok, Except.ok.injEq] at houtputs
  exact ⟨start, server, next, outputs', hmain, ⟨outputs, hrun⟩, hstep, houtputs,
    routes_to_targets_iff hmain ⟨outputs, hrun⟩ hstep⟩

/-- A message to a user whose port comes from the file reaches a session that
nobody logged in. -/
theorem routed_to_stranger : ∃ start stopped restarted server next outputs,
    main .blank [] = .ok start ∧ Reaches step start storesPort stopped ∧
    main .blank stopped.memory.records = .ok restarted ∧
    Reaches step restarted reusesPort server ∧
    step server (.datagram ⟨⟨10, 0, 0, 1⟩, 5000⟩ (text "MSG bob hi") .blank) =
      .ok (next, outputs) ∧
    outputs.map Output.route = [some (0, text "bob", 1), none] ∧
    (server.memory.sessions.contents 1).logged_in = 0 ∧
    ¬ server.memory.RoutesToTargets outputs := by
  have hview : observe .blank [] storesPort (fun stopped _ => decide
      (observe .blank stopped.memory.records reusesPort (fun server _ => do
        let (_, outputs) ← step server
          (.datagram ⟨⟨10, 0, 0, 1⟩, 5000⟩ (text "MSG bob hi") .blank)
        return decide (outputs.map Output.route = [some (0, text "bob", 1), none] ∧
          (server.memory.sessions.contents 1).logged_in = 0)) = .ok (.ok true))) = .ok true := by
    decide +kernel
  obtain ⟨start, stopped, outputs, hmain, hrun, hview⟩ := exists_of_observe hview
  obtain ⟨restarted, server, outputs', hmain', hrun', hstep⟩ :=
    exists_of_observe (of_decide_eq_true hview)
  obtain ⟨⟨next, routed⟩, hstep, hfacts⟩ := Result.bind_eq_ok_iff.mp hstep
  simp only [Result.pure_eq_ok, Except.ok.injEq, decide_eq_true_eq] at hfacts
  obtain ⟨hroutes, hlogged⟩ := hfacts
  refine ⟨start, stopped, restarted, server, next, routed, hmain, ⟨outputs, hrun⟩, hmain',
    ⟨outputs', hrun'⟩, hstep, hroutes, hlogged, ?_⟩
  intro htargets
  have hselected : some (0, text "bob", 1) ∈ routed.map Output.route := by
    rw [hroutes]
    exact List.mem_cons_self
  obtain ⟨output, houtput, hroute⟩ := List.mem_map.mp hselected
  obtain ⟨u, -, -, hbound⟩ := htargets output houtput 0 (text "bob") 1 hroute
  exact hbound.logged_in hlogged

end rc_project.server
