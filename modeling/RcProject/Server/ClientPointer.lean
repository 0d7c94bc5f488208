import RcProject.Server.Overflow

open rc_project.blocks rc_project.c_string rc_project.transition

namespace rc_project.server

namespace Memory

variable {memory opened next : Memory} {sock : sockaddr_in} {s : Nat} {logins : List (Nat × Nat)}

/-- The client pointer of a session in the list is null or one that a login of it has set. -/
def Guarded (memory : Memory) (logins : List (Nat × Nat)) : Prop :=
  ∀ t ∈ memory.userSessions, ∀ u, (memory.sessions.contents t).client = some u → (t, u) ∈ logins

theorem Guarded.of_unchanged (h : memory.Guarded logins)
    (husers : next.userSessions = memory.userSessions)
    (hsessions : next.sessions = memory.sessions) : next.Guarded logins := by
  intro t ht u hclient
  rw [husers] at ht
  rw [hsessions] at hclient
  exact h t ht u hclient

/-- A new session is guarded where its block holds a null pointer. -/
theorem Guarded.open_session (hvalid : memory.Valid) (h : memory.Guarded logins)
    (hinit : memory.init_client_session sock = .ok (opened, some s))
    (hnull : (∀ t, ¬ memory.SessionAt sock t) → memory.sessions.fresh.client = none) :
    opened.Guarded logins := by
  obtain ⟨hopened, ⟨rfl, -⟩ | ⟨hnone, rfl, hmem, hclient⟩⟩ :=
    hvalid.init_client_session_client hinit
  · exact h
  · intro t ht u hset
    obtain hold | rfl := (hmem t).mp ht
    · rw [(hopened.old t hold).2] at hset
      exact h t hold u hset
    · rw [hclient, hnull hnone] at hset
      cases hset

/-- A login sets the pointer of its session, and no other command sets one. -/
theorem Guarded.performed {args : Bytes} {locals : Locals} {command : ClientCommand}
    {outputs : List Output} (h : memory.Guarded logins)
    (hperformed : memory.Performed s args locals command next outputs) :
    next.Guarded (logins ++ outputs.filterMap Output.login) := by
  have hquiet (hnone : outputs.filterMap Output.login = [])
      (husers : next.userSessions = memory.userSessions)
      (hsessions : next.sessions = memory.sessions) :
      next.Guarded (logins ++ outputs.filterMap Output.login) := by
    rw [hnone, List.append_nil]
    exact h.of_unchanged husers hsessions
  cases hperformed with
  | refused _ answer hrefusal => exact hquiet (logins_of_refusal hrefusal) rfl rfl
  | login username password u hlogged hargs huser hip hpassword hnul =>
    have hlogin : [(memory.bind s u).send_udp_message s (.login_successful u),
        (memory.bind s u).send_udp_message s
          (.session_port (memory.sessions.contents s).port),
        (memory.bind s u).send_udp_message s (.permissions
          (locals.permission (memory.clients.contents u).client_server)
          (locals.permission (memory.clients.contents u).p2p)
          (locals.permission (memory.clients.contents u).group))].filterMap Output.login =
            [(s, u)] := rfl
    rw [hlogin]
    intro t ht u' hclient
    by_cases hsame : t = s
    · subst hsame
      rw [bind_sessions_self] at hclient
      cases hclient
      simp
    · rw [bind_sessions_of_ne hsame] at hclient
      exact List.mem_append_left _ (h t ht u' hclient)
  | msg => exact hquiet rfl rfl rfl
  | p2p => exact hquiet rfl rfl rfl
  | create _ _ _ _ _ _ _ _ _ hcreated =>
    refine hquiet rfl ?_ ?_
    · rw [hcreated.rest]
      rfl
    · rw [hcreated.rest]
  | get => exact hquiet rfl rfl rfl

theorem Guarded.handled {connection : Connection} {received : Bytes} {outputs : List Output}
    (h : memory.Guarded logins) (hhandled : Handled memory connection received next outputs) :
    next.Guarded (logins ++ outputs.filterMap Output.login) := by
  obtain ⟨husers, hsessions⟩ := hhandled.sessions
  rw [hhandled.filterMap_eq_nil login_eq_none, List.append_nil]
  exact h.of_unchanged husers hsessions

theorem LogsIn.listed {event : Event} {u t : Nat} (h : memory.LogsIn event s u next)
    (ht : t ∈ memory.userSessions) : t ∈ next.userSessions := by
  cases h with
  | intro _ _ _ _ _ _ _ _ _ hopened => exact (hopened.old t ht).1

end Memory

section Steps

variable {start server next : Server} {event : Event} {outputs : List Output}
  {logins : List (Nat × Nat)}

/-- A datagram opens a session in a block whose client pointer is null, if it opens one. -/
def Server.OpensNull (server : Server) (sock : sockaddr_in) : Prop :=
  (∀ t, ¬ server.memory.SessionAt sock t) → server.memory.sessions.fresh.client = none

/-- The client pointer of the session of a datagram, which the log of the dispatcher and the
handlers follow when it is not null. -/
inductive Server.Follows (server : Server) : Event → Nat → Nat → Prop
  | intro (sock : sockaddr_in) (datagram : Bytes) (locals : Locals) (opened : Memory) (s u : Nat)
    (hinit : server.memory.init_client_session sock = .ok (opened, some s))
    (hclient : (opened.sessions.contents s).client = some u) :
    server.Follows (.datagram sock datagram locals) s u

theorem step_guarded (hvalid : server.memory.Valid) (hguarded : server.memory.Guarded logins)
    (hnull : ∀ sock datagram locals, event = .datagram sock datagram locals →
      server.OpensNull sock)
    (hstep : step server event = .ok (next, outputs)) :
    next.memory.Guarded (logins ++ outputs.filterMap Output.login) := by
  cases event with
  | datagram sock datagram locals =>
    obtain ⟨opened, s, hinit, hopened⟩ := hvalid.init_client_session_spec sock
    have hguarded' := hguarded.open_session hvalid hinit (hnull sock datagram locals rfl)
    obtain ⟨⟨memory, outputs'⟩, hserve, hstep⟩ := Result.bind_eq_ok_iff.mp hstep
    cases hstep
    have hcommand := received_command_eq datagram locals
    rw [udp_server_worker_eq_served hinit (pointed_of_worker hinit hcommand hserve) hcommand]
      at hserve
    cases hfound : parse_line client_commands (line (datagram.take BUFFER_SIZE)) with
    | none =>
      rw [hfound] at hserve
      cases hserve
      have hnone : [opened.send_udp_message s .command_not_found].filterMap Output.login = [] := rfl
      rw [hnone, List.append_nil]
      exact hguarded'
    | some entry =>
      rw [hfound] at hserve
      exact hguarded'.performed
        (hopened.valid.client_cmd_functions_performed hopened.mem hserve)
  | accept connection =>
    rw [step] at hstep
    split at hstep <;> cases hstep <;> simpa using hguarded
  | read received =>
    rw [step] at hstep
    split at hstep
    · cases hstep
      simpa using hguarded
    · obtain ⟨⟨memory, admin, outputs'⟩, hhandle, hstep⟩ := Result.bind_eq_ok_iff.mp hstep
      cases hstep
      exact hguarded.handled (hvalid.handled hhandle)

theorem started_guarded {startup : Startup} {records : Bytes}
    (hmain : main startup records = .ok start) : start.memory.Guarded [] := by
  intro t ht
  rw [(started_of_main hmain).no_sessions] at ht
  cases ht

/-- A login is one of a session in the list. -/
theorem run_logins_listed {events : List Event} {outputs : List (List Output)}
    (hvalid : start.memory.Valid) (hrun : run step start events = .ok (server, outputs)) :
    server.memory.Valid ∧ ∀ login ∈ outputs.flatten.filterMap Output.login,
      login.1 ∈ server.memory.userSessions := by
  refine run_history (fun _ before server => server.memory.Valid ∧
    ∀ login ∈ before.flatten.filterMap Output.login, login.1 ∈ server.memory.userSessions)
    ⟨hvalid, by simp⟩ ?_ hrun
  rintro past before state event next output - ⟨hvalid, hlisted⟩ hstep
  refine ⟨step_valid hvalid hstep, ?_⟩
  rw [List.flatten_append, List.filterMap_append, List.flatten_singleton]
  intro login hmem
  obtain ⟨hkeeps, hnone⟩ | ⟨s, u, hlogs, hlogin⟩ :=
    (stepped_of_step hvalid hstep).keeps_or_login hvalid
  · rw [hnone, List.append_nil] at hmem
    exact (hkeeps.sessions _ (hlisted login hmem)).1
  · obtain hmem | hlast := List.mem_append.mp hmem
    · exact hlogs.listed (hlisted login hmem)
    · rw [hlogin] at hlast
      cases List.mem_singleton.mp hlast
      exact (hlogs.bound hvalid).1.mem

/-- In every run whose new sessions find a null pointer, the pointers are those that logins
have set. -/
theorem run_guarded {startup : Startup} {records : Bytes} {events : List Event}
    {outputs : List (List Output)} (hmain : main startup records = .ok start)
    (hnull : ∀ past sock datagram locals rest server,
      events = past ++ .datagram sock datagram locals :: rest → Reaches step start past server →
        server.OpensNull sock)
    (hrun : run step start events = .ok (server, outputs)) :
    server.memory.Valid ∧ server.memory.Guarded (outputs.flatten.filterMap Output.login) := by
  refine run_history_when (fun _ before server => server.memory.Valid ∧
    server.memory.Guarded (before.flatten.filterMap Output.login))
    (fun server event => ∀ sock datagram locals, event = .datagram sock datagram locals →
      server.OpensNull sock) ?_ ?_ ?_ (List.append_nil _).symm hrun
  · rintro past _ rest state heq hreach sock datagram locals rfl
    exact hnull past sock datagram locals rest state heq hreach
  · exact ⟨(started_of_main hmain).valid, started_guarded hmain⟩
  · rintro past before state event next output - ⟨hvalid, hguarded⟩ hopens hstep
    refine ⟨step_valid hvalid hstep, ?_⟩
    rw [List.flatten_append, List.filterMap_append, List.flatten_singleton]
    exact step_guarded hvalid hguarded hopens hstep

/-- In every run, a session without a successful login has a null pointer in every state, and
the dispatcher and the handlers follow only a pointer that a login of the session has set, if
and only if every datagram that opens a new session finds a null pointer in the memory that
the session is built in. -/
theorem pointers_guarded_iff {startup : Startup} {records : Bytes} {events : List Event}
    (hmain : main startup records = .ok start) :
    (∀ past rest server outputs, events = past ++ rest →
      run step start past = .ok (server, outputs) →
        (∀ t ∈ server.memory.userSessions,
          (∀ u, (t, u) ∉ outputs.flatten.filterMap Output.login) →
            (server.memory.sessions.contents t).client = none) ∧
        ∀ event behind s u, rest = event :: behind → server.Follows event s u →
          (s, u) ∈ outputs.flatten.filterMap Output.login) ↔
    ∀ past sock datagram locals rest server,
      events = past ++ .datagram sock datagram locals :: rest → Reaches step start past server →
        server.OpensNull sock := by
  constructor
  · rintro hset past sock datagram locals rest server heq ⟨outputs, hrun⟩ hnew
    by_contra hgarbage
    obtain ⟨u, hu⟩ := Option.ne_none_iff_exists'.mp hgarbage
    obtain ⟨hvalid, hlisted⟩ := run_logins_listed (started_of_main hmain).valid hrun
    obtain ⟨opened, s, hinit, -⟩ := hvalid.init_client_session_spec sock
    obtain ⟨-, ⟨-, hsession⟩ | ⟨-, rfl, -, hclient⟩⟩ := hvalid.init_client_session_client hinit
    · exact hnew s hsession
    · have hlogin := (hset past _ server outputs heq hrun).2 _ rest _ u rfl
        (.intro sock datagram locals opened _ u hinit (hclient.trans hu))
      exact Nat.lt_irrefl _ (hvalid.user_session_list.allocated _ (hlisted _ hlogin))
  · intro hnull past rest server outputs heq hrun
    have hnull' : ∀ before sock datagram locals behind state,
        past = before ++ .datagram sock datagram locals :: behind →
          Reaches step start before state → state.OpensNull sock := by
      rintro before sock datagram locals behind state rfl hreach
      exact hnull before sock datagram locals (behind ++ rest) state (by simp [heq]) hreach
    obtain ⟨hvalid, hguarded⟩ := run_guarded hmain hnull' hrun
    refine ⟨?_, ?_⟩
    · intro t ht hnever
      cases hclient : (server.memory.sessions.contents t).client with
      | none => rfl
      | some u => exact absurd (hguarded t ht u hclient) (hnever u)
    · rintro event behind s u rfl ⟨sock, datagram, locals, opened, _, _, hinit, hclient⟩
      have hopen := hguarded.open_session hvalid hinit
        (hnull past sock datagram locals behind server heq ⟨outputs, hrun⟩)
      exact hopen s (hvalid.init_client_session_client hinit).1.mem u hclient

/-- A user logs in from blank memory. -/
theorem pointers_guarded_iff_witness : ∃ start, main .blank [] = .ok start ∧
    ∀ past rest server outputs, loginRun = past ++ rest →
      run step start past = .ok (server, outputs) →
        (∀ t ∈ server.memory.userSessions,
          (∀ u, (t, u) ∉ outputs.flatten.filterMap Output.login) →
            (server.memory.sessions.contents t).client = none) ∧
        ∀ event behind s u, rest = event :: behind → server.Follows event s u →
          (s, u) ∈ outputs.flatten.filterMap Output.login := by
  have hview : observe .blank [] (loginRun.take 2) (fun server _ =>
      server.memory.sessions.fresh.client) = .ok none := by
    decide +kernel
  obtain ⟨start, opened, outputs, hmain, hrun, hfresh⟩ := exists_of_observe hview
  refine ⟨start, hmain, (pointers_guarded_iff hmain).mpr ?_⟩
  intro past sock datagram locals rest server heq hreach _
  -- the only datagram of the run comes behind the first two events
  obtain rfl : past = loginRun.take 2 := by
    rcases past with _ | ⟨first, _ | ⟨second, _ | ⟨third, past⟩⟩⟩
    · cases heq
    · cases heq
    · cases heq
      rfl
    · simp [loginRun] at heq
  rw [hreach.unique ⟨outputs, hrun⟩]
  exact hfresh

/-- Memory in which every session is built on a pointer that is not null. -/
def Startup.garbage : Startup :=
  { Startup.blank with sessions := fun a => { Startup.blank.sessions a with client := some 7 } }

/-- The first datagram of an address makes the log follow a pointer that nobody has set, to where
there is no record. -/
theorem garbage_pointer_followed : ∃ start, main .garbage [] = .ok start ∧
    start.Follows (.datagram ⟨⟨10, 0, 0, 1⟩, 5000⟩ (text "HELP") .blank) 0 7 ∧
    step start (.datagram ⟨⟨10, 0, 0, 1⟩, 5000⟩ (text "HELP") .blank) = .error .wild_pointer := by
  have hview : observe .garbage [] [] (fun server _ => do
      let opened ← server.memory.init_client_session ⟨⟨10, 0, 0, 1⟩, 5000⟩
      return (opened.2, (opened.1.sessions.contents 0).client,
        (step server (.datagram ⟨⟨10, 0, 0, 1⟩, 5000⟩ (text "HELP") .blank)).map Prod.snd)) =
        .ok (.ok (some 0, some 7, .error .wild_pointer)) := by
    decide +kernel
  obtain ⟨start, server, outputs, hmain, hrun, hview⟩ := exists_of_observe hview
  obtain ⟨rfl, -⟩ : start = server ∧ [] = outputs := by simpa using hrun
  obtain ⟨⟨opened, client_session⟩, hinit, hview⟩ := Result.bind_eq_ok_iff.mp hview
  simp only [Result.pure_eq_ok, Except.ok.injEq, Prod.mk.injEq] at hview
  obtain ⟨rfl, hclient, hstep⟩ := hview
  refine ⟨start, hmain, .intro _ _ _ opened 0 7 hinit hclient, ?_⟩
  cases hresult : step start (.datagram ⟨⟨10, 0, 0, 1⟩, 5000⟩ (text "HELP") .blank) with
  | error e =>
    rw [hresult] at hstep
    cases hstep
    rfl
  | ok result =>
    rw [hresult] at hstep
    cases hstep

end Steps

end rc_project.server
