import RcProject.Server.AdminStream

open rc_project.blocks rc_project.c_string rc_project.transition

namespace rc_project.server

section Steps

variable {server next : Server} {connection : Connection} {received : Bytes} {event : Event}
  {outputs : List Output}

/-- What a read leaves of the connection, by the command that was looked up for it. -/
inductive ReadOutcome (connection : Connection) (received : Bytes) : Option Connection → Prop
  | closed (hend : received = []) : ReadOutcome connection received none
  | unknown (hreceived : received ≠ []) (hcommand : connection.received_command received = .ok none)
    (hexit : connection.exit = 0) (left : Connection) (hleft : left.exit = 0) :
    ReadOutcome connection received (some left)
  | dropped (hreceived : received ≠ []) (hcommand : connection.received_command received = .ok none)
    (hexit : connection.exit ≠ 0) : ReadOutcome connection received none
  | command (hreceived : received ≠ []) (command : AdminCommand) (args : Bytes)
    (hcommand : connection.received_command received = .ok (some (command, args)))
    (hquit : command ≠ .QUIT) (left : Connection) (hleft : left.exit = 0) :
    ReadOutcome connection received (some left)
  | quit (hreceived : received ≠ []) (args : Bytes)
    (hcommand : connection.received_command received = .ok (some (.QUIT, args))) :
    ReadOutcome connection received none

theorem step_read_outcome (hadmin : server.admin = some connection)
    (hstep : step server (.read received) = .ok (next, outputs)) :
    ReadOutcome connection received next.admin := by
  by_cases hend : received = []
  · simp only [step, hadmin, handle_admin, if_pos hend] at hstep
    cases hstep
    exact .closed hend
  · cases hdispatch : dispatch commands (connection.read received) with
    | error e =>
      simp only [step, hadmin, handle_admin, if_neg hend, cmd_function, hdispatch] at hstep
      cases hstep
    | ok result =>
      obtain ⟨buffer, found⟩ := result
      have hcommand : connection.received_command received = .ok found := by
        simp only [Connection.received_command, hdispatch, Result.ok_bind, Result.pure_eq_ok]
      rw [step_read_eq hadmin hend hdispatch] at hstep
      obtain ⟨⟨memory, exit, outputs'⟩, hanswered, hstep⟩ := Result.bind_eq_ok_iff.mp hstep
      cases hstep
      cases found with
      | none =>
        cases hanswered
        by_cases hexit : connection.exit = 0
        · rw [if_neg (not_not.mpr hexit)]
          exact .unknown hend hcommand hexit _ hexit
        · rw [if_pos hexit]
          exact .dropped hend hcommand hexit
      | some entry =>
        obtain ⟨command, args⟩ := entry
        have hexit := cmd_functions_exit hanswered
        by_cases hquit : command = .QUIT
        · subst hquit
          rw [if_pos rfl] at hexit
          rw [hexit, if_pos Int.one_ne_zero]
          exact .quit hend args hcommand
        · rw [if_neg hquit] at hexit
          rw [hexit, if_neg (not_not.mpr rfl)]
          exact .command hend command args hcommand hquit _ rfl

/-- What is no read leaves the connection as it is. -/
theorem step_admin_eq (hadmin : server.admin = some connection)
    (hread : ∀ received, event ≠ .read received)
    (hstep : step server event = .ok (next, outputs)) : next.admin = some connection := by
  cases event with
  | datagram sock datagram locals =>
    obtain ⟨_, -, hstep⟩ := Result.bind_eq_ok_iff.mp hstep
    cases hstep
    exact hadmin
  | accept other =>
    have hbusy : ¬ (server.admin = none ∧ other.socket > 0) := by simp [hadmin]
    rw [step, if_neg hbusy] at hstep
    cases hstep
    exact hadmin
  | read received => exact absurd rfl (hread received)

/-- The connection is left behind a read exactly when the read was the end or was dispatched
as a `QUIT`. -/
def LeavesWithQuit (connection : Connection) (received : Bytes) (next : Server) : Prop :=
  next.admin = none ↔
    received = [] ∨ ∃ args, connection.received_command received = .ok (some (.QUIT, args))

/-- The only read that goes wrong is one of an unknown command with the exit flag set. -/
theorem leavesWithQuit_iff (hadmin : server.admin = some connection)
    (hstep : step server (.read received) = .ok (next, outputs)) :
    LeavesWithQuit connection received next ↔
      ¬ (received ≠ [] ∧ connection.received_command received = .ok none ∧ connection.exit ≠ 0) := by
  have houtcome := step_read_outcome hadmin hstep
  unfold LeavesWithQuit
  generalize next.admin = admin at houtcome
  cases houtcome with
  | closed hend => simp [hend]
  | unknown hreceived hcommand hexit => simp [hreceived, hcommand, hexit]
  | dropped hreceived hcommand hexit => simp [hreceived, hcommand, hexit]
  | command hreceived command args hcommand hquit => simp [hreceived, hcommand, hquit]
  | quit hreceived args hcommand => simp [hreceived, hcommand]

end Steps

section Session

variable {server opened current : Server} {connection : Connection} {before session : List Event}

/-- The connection is open in every state of a run. -/
def StaysOpen (opened : Server) (events : List Event) : Prop :=
  ∀ before rest state, events = before ++ rest → Reaches step opened before state →
    state.admin ≠ none

theorem StaysOpen.init {event : Event} (h : StaysOpen opened (before ++ [event])) :
    StaysOpen opened before := by
  rintro first rest state rfl hreach
  exact h first (rest ++ [event]) state (by rw [List.append_assoc]) hreach

/-- As long as the connection is open, it is as it was accepted, or a command has cleared its
exit flag. -/
theorem StaysOpen.exit_flag (hadmin : opened.admin = some connection)
    (hreach : Reaches step opened before current) (hopen : StaysOpen opened before) :
    ∃ left, current.admin = some left ∧ ((∀ received, .read received ∉ before) → left = connection) ∧
      ((∃ received, .read received ∈ before) → left.exit = 0) := by
  refine hreach.history (fun before current => StaysOpen opened before → ∃ left,
    current.admin = some left ∧ ((∀ received, .read received ∉ before) → left = connection) ∧
      ((∃ received, .read received ∈ before) → left.exit = 0)) ?_ ?_ hopen
  · exact fun _ => ⟨connection, hadmin, fun _ => rfl, by simp⟩
  · intro past state event next outputs hpast ih hstep hopen
    obtain ⟨left, hleft, hnone, hsome⟩ := ih hopen.init
    by_cases hread : ∃ received, event = .read received
    · obtain ⟨received, rfl⟩ := hread
      have hmem : Event.read received ∈ past ++ [.read received] := by simp
      have hnext : next.admin ≠ none :=
        hopen (past ++ [.read received]) [] next (by simp) (hpast.snoc hstep)
      have houtcome := step_read_outcome hleft hstep
      cases hadmin' : next.admin with
      | none => exact absurd hadmin' hnext
      | some left' =>
        rw [hadmin'] at houtcome
        have hexit : left'.exit = 0 := by
          cases houtcome with
          | unknown _ _ _ _ hexit => exact hexit
          | command _ _ _ _ _ _ hexit => exact hexit
        exact ⟨left', rfl, fun hnoread => absurd hmem (hnoread received), fun _ => hexit⟩
    · have hother : ∀ received, event ≠ .read received := fun received h => hread ⟨received, h⟩
      refine ⟨left, step_admin_eq hleft hother hstep, ?_, ?_⟩
      · intro hnoread
        exact hnone fun received hmem => hnoread received (List.mem_append_left _ hmem)
      · rintro ⟨received, hmem⟩
        obtain hmem | hlast := List.mem_append.mp hmem
        · exact hsome ⟨received, hmem⟩
        · exact absurd (List.mem_singleton.mp hlast).symm (hother received)

/-- Before the first read the connection stays open. -/
theorem staysOpen_of_no_read (hadmin : opened.admin = some connection)
    (hnoread : ∀ received, .read received ∉ before) : StaysOpen opened before := by
  rintro first rest state rfl hreach
  have hstate : state.admin = some connection := by
    refine hreach.history (fun past state => (∀ received, .read received ∉ past) →
      state.admin = some connection) (fun _ => hadmin) ?_
      fun received hmem => hnoread received (List.mem_append_left _ hmem)
    intro past state event next outputs _ ih hstep hnone
    refine step_admin_eq (ih fun received hmem => hnone received (List.mem_append_left _ hmem)) ?_ hstep
    rintro received rfl
    exact hnone received (by simp)
  simp [hstate]

/-- In every run behind the accept of a connection, it is left exactly at the end of the
reads and at the commands that are dispatched as `QUIT`, if and only if the stack held 0 for
its exit flag or its first read, if it is not the end, does not hold an unknown command. -/
theorem session_ends_with_quit_iff {last : Server} {outputs : List Output}
    (hidle : server.admin = none) (hsocket : connection.socket > 0)
    (haccept : step server (.accept connection) = .ok (opened, outputs))
    (hrun : Reaches step opened session last) :
    (∀ before received rest current left next outputs, session = before ++ .read received :: rest →
      StaysOpen opened before → Reaches step opened before current → current.admin = some left →
        step current (.read received) = .ok (next, outputs) →
          LeavesWithQuit left received next) ↔
    (connection.exit = 0 ∨ ∀ before received rest, session = before ++ .read received :: rest →
      (∀ other, .read other ∉ before) → received ≠ [] →
        connection.received_command received ≠ .ok none) := by
  have hadmin : opened.admin = some connection := by
    rw [step, if_pos ⟨hidle, hsocket⟩] at haccept
    cases haccept
    rfl
  constructor
  · intro hquit
    by_cases hexit : connection.exit = 0
    · exact Or.inl hexit
    · right
      intro before received rest heq hnoread hreceived hunknown
      rw [heq] at hrun
      obtain ⟨outputs', hrun⟩ := hrun
      obtain ⟨current, _, _, hbefore, hafter, -⟩ := (run_append_eq_ok_iff step).mp hrun
      obtain ⟨next, _, _, hstep, -, -⟩ := (run_cons_eq_ok_iff step).mp hafter
      have hreach : Reaches step opened before current := ⟨_, hbefore⟩
      have hopen := staysOpen_of_no_read hadmin hnoread
      obtain ⟨left, hleft, hfirst, -⟩ := hopen.exit_flag hadmin hreach
      obtain rfl := hfirst hnoread
      exact (leavesWithQuit_iff hleft hstep).mp
        (hquit before received rest current left next _ heq hopen hreach hleft hstep)
        ⟨hreceived, hunknown, hexit⟩
  · intro hfirst before received rest current left next outputs heq hopen hreach hleft hstep
    rw [leavesWithQuit_iff hleft hstep]
    rintro ⟨hreceived, hunknown, hexit⟩
    obtain ⟨left', hleft', hsame, hcleared⟩ := hopen.exit_flag hadmin hreach
    obtain rfl : left = left' := Option.some.inj (hleft.symm.trans hleft')
    by_cases hread : ∃ other, Event.read other ∈ before
    · exact hexit (hcleared hread)
    · have hnoread : ∀ other, Event.read other ∉ before := fun other hmem => hread ⟨other, hmem⟩
      obtain rfl := hsame hnoread
      obtain hzero | hknown := hfirst
      · exact hexit hzero
      · exact hknown before received rest heq hnoread hreceived hunknown

/-- A connection whose exit flag holds what the stack held. -/
def Connection.garbage : Connection := { Connection.blank with exit := 1 }

theorem accept_garbage {start : Server} (hmain : main .blank [] = .ok start) :
    start.admin = none ∧
      step start (.accept .garbage) = .ok ({ start with admin := some .garbage }, []) := by
  have hidle := (started_of_main hmain).admin
  refine ⟨hidle, ?_⟩
  rw [step, if_pos ⟨hidle, by decide⟩]
  rfl

/-- A `LIST` clears the flag, and an unknown command behind it does not end the session. -/
theorem session_ends_with_quit_iff_witness : ∃ start opened last,
    main .blank [] = .ok start ∧ step start (.accept .garbage) = .ok (opened, []) ∧
    Reaches step opened [.read (text "LIST\n"), .read (text "HELP\n")] last ∧
    ∀ before received rest current left next outputs,
      [.read (text "LIST\n"), .read (text "HELP\n")] = before ++ Event.read received :: rest →
        StaysOpen opened before → Reaches step opened before current → current.admin = some left →
          step current (.read received) = .ok (next, outputs) →
            LeavesWithQuit left received next := by
  have hview : observe .blank [] [.accept .garbage, .read (text "LIST\n"), .read (text "HELP\n")]
      (fun _ _ => ()) = .ok () := by
    decide +kernel
  obtain ⟨start, last, outputs, hmain, hrun, -⟩ := exists_of_observe hview
  obtain ⟨hidle, haccept⟩ := accept_garbage hmain
  obtain ⟨opened, output, rest, hopened, hrest, -⟩ := (run_cons_eq_ok_iff step).mp hrun
  rw [haccept, Except.ok.injEq, Prod.mk.injEq] at hopened
  obtain ⟨rfl, -⟩ := hopened
  have hknown : Connection.garbage.received_command (text "LIST\n") = .ok (some (.LIST, [])) := by
    decide +kernel
  refine ⟨start, _, last, hmain, haccept, ⟨rest, hrest⟩,
    (session_ends_with_quit_iff hidle (by decide) haccept ⟨rest, hrest⟩).mpr (Or.inr ?_)⟩
  intro before received rest heq hnoread _ hunknown
  cases before with
  | nil =>
    cases heq
    rw [hknown] at hunknown
    cases hunknown
  | cons first before =>
    obtain ⟨rfl, -⟩ := List.cons.inj heq
    exact hnoread _ List.mem_cons_self

/-- The first read holds an unknown command and ends the session. -/
theorem unknown_command_ends_session : ∃ start opened next outputs,
    main .blank [] = .ok start ∧ step start (.accept .garbage) = .ok (opened, []) ∧
    opened.admin = some .garbage ∧ step opened (.read (text "HELP\n")) = .ok (next, outputs) ∧
    next.admin = none ∧ ¬ LeavesWithQuit .garbage (text "HELP\n") next := by
  have hview : observe .blank [] [.accept .garbage, .read (text "HELP\n")]
      (fun server _ => server.admin) = .ok none := by
    decide +kernel
  obtain ⟨start, last, outputs, hmain, hrun, hclosed⟩ := exists_of_observe hview
  obtain ⟨hidle, haccept⟩ := accept_garbage hmain
  obtain ⟨opened, output, rest, hopened, hrest, -⟩ := (run_cons_eq_ok_iff step).mp hrun
  rw [haccept, Except.ok.injEq, Prod.mk.injEq] at hopened
  obtain ⟨rfl, -⟩ := hopened
  obtain ⟨next, answers, _, hstep, hnil, -⟩ := (run_cons_eq_ok_iff step).mp hrest
  obtain ⟨rfl, -⟩ : next = last ∧ [] = _ := by simpa using hnil
  have hunknown : Connection.garbage.received_command (text "HELP\n") = .ok none := by
    decide +kernel
  refine ⟨start, _, next, answers, hmain, haccept, rfl, hstep, hclosed, ?_⟩
  rw [leavesWithQuit_iff rfl hstep]
  exact fun h => h ⟨by decide, hunknown, by decide⟩

end Session

end rc_project.server
