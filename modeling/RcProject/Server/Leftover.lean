import RcProject.Server.AdminBuffer
import RcProject.Server.AlikeUsers
import RcProject.Server.ClientPointer

open rc_project.avl_tree rc_project.blocks rc_project.c_string rc_project.scanf
open rc_project.transition

namespace rc_project.server

section Connections

/-- What is known of the locals of a connection, whatever the stack held before: how many
bytes of its buffer were received, and whether a command has set its exit flag. -/
structure Known where
  extent : Nat
  exit : Bool
  deriving DecidableEq, Repr

/-- The bytes of the buffer that are known behind a read. -/
def Known.reads (known : Known) (received : Bytes) : Nat :=
  max known.extent (received.take BUFFER_SIZE).length

/-- What is known behind an event. -/
def Known.after (known : Known) (server : Server) : Event → Known
  | .datagram .. => known
  | .accept connection =>
    if server.admin = none ∧ connection.socket > 0 then { extent := 0, exit := false } else known
  | .read received =>
    match server.admin with
    | none => known
    | some connection =>
      { extent := known.reads received
        exit := known.exit || (parse_line commands (line (connection.read received))).isSome }

/-- Two connections that differ at most in what is not known of them. -/
structure Connection.Alike (known : Known) (connection connection' : Connection) : Prop where
  socket : connection.socket = connection'.socket
  extent : known.extent ≤ BUFFER_SIZE
  buffer : connection.buffer.bytes.take known.extent = connection'.buffer.bytes.take known.extent
  exit : known.exit = true → connection.exit = connection'.exit

variable {known : Known} {connection connection' : Connection} {received : Bytes}

theorem Known.reads_le (hextent : known.extent ≤ BUFFER_SIZE) :
    known.reads received ≤ BUFFER_SIZE :=
  max_le hextent (List.length_take_le _ _)

theorem Connection.length_read (connection : Connection) (received : Bytes) :
    (connection.read received).length = BUFFER_SIZE := by
  have hle : (received.take BUFFER_SIZE).length ≤ BUFFER_SIZE := List.length_take_le _ _
  rw [read, List.length_append, List.length_drop, connection.buffer.length_eq]
  omega

/-- The known bytes are the same behind a read. -/
theorem Connection.Alike.take_read (h : connection.Alike known connection') (received : Bytes) :
    (connection.read received).take (known.reads received) =
      (connection'.read received).take (known.reads received) := by
  have hbuffer := h.buffer
  have hextent := h.extent
  simp only [read, Known.reads]
  generalize received.take BUFFER_SIZE = received at *
  rw [List.take_append, List.take_append]
  congr 1
  rw [List.take_drop, List.take_drop]
  by_cases hmore : known.extent ≤ received.length
  · rw [max_eq_right hmore, Nat.sub_self, Nat.add_zero, List.drop_eq_nil_of_le (List.length_take_le _ _),
      List.drop_eq_nil_of_le (List.length_take_le _ _)]
  · have hless : received.length ≤ known.extent := Nat.le_of_not_le hmore
    rw [max_eq_left hless, Nat.add_sub_cancel' hless, hbuffer]

/-- A read whose line ends in the known bytes is dispatched alike, and leaves buffers that
are alike. -/
theorem Connection.Alike.dispatch (h : connection.Alike known connection')
    (hends : ∃ c ∈ (connection.read received).take (known.reads received), endsLine c = true) :
    ∃ buffer buffer', server.dispatch commands (connection.read received) =
        .ok (buffer, parse_line commands (line (connection.read received))) ∧
      server.dispatch commands (connection'.read received) =
        .ok (buffer', parse_line commands (line (connection.read received))) ∧
      (CharArray.ofBytes BUFFER_SIZE buffer).bytes.take (known.reads received) =
        (CharArray.ofBytes BUFFER_SIZE buffer').bytes.take (known.reads received) := by
  obtain ⟨left, hlength, hdispatch⟩ := dispatch_append commands_names hends
  have hknown : known.reads received ≤ BUFFER_SIZE := Known.reads_le h.extent
  have hleft : left.length = known.reads received := by
    rw [hlength, List.length_take, connection.length_read]
    omega
  have hline : line (connection.read received) =
      line ((connection.read received).take (known.reads received)) := by
    rw [← (line_append_of_mem hends ((connection.read received).drop (known.reads received))).1,
      List.take_append_drop]
  have hfirst := hdispatch ((connection.read received).drop (known.reads received))
  have hsecond := hdispatch ((connection'.read received).drop (known.reads received))
  rw [List.take_append_drop] at hfirst
  rw [h.take_read, List.take_append_drop, ← h.take_read] at hsecond
  have htake (rest : Bytes) :
      (CharArray.ofBytes BUFFER_SIZE (left ++ rest)).bytes.take (known.reads received) = left := by
    rw [CharArray.ofBytes, List.take_take, min_eq_left hknown, List.append_assoc, ← hleft,
      List.take_left']
    rfl
  refine ⟨_, _, hline ▸ hfirst, hline ▸ hsecond, ?_⟩
  rw [htake, htake]

end Connections

section Steps

/-- Two events with one input, whatever the stack holds when they happen. -/
inductive Event.SameInput : Event → Event → Prop
  | datagram (sock : sockaddr_in) (datagram : Bytes) (locals locals' : Locals) :
    SameInput (.datagram sock datagram locals) (.datagram sock datagram locals')
  | accept (connection connection' : Connection) (hsocket : connection.socket = connection'.socket) :
    SameInput (.accept connection) (.accept connection')
  | read (received : Bytes) : SameInput (.read received) (.read received)

/-- Two servers that differ at most in what their memory held before. -/
structure Server.Alike (known : Known) (server server' : Server) : Prop where
  memory : server.memory.Alike server'.memory
  admin : Option.Rel (Connection.Alike known) server.admin server'.admin

/-- A step reads what its memory held before: a command shows the stack, a line does not
end in what was received, a user is added, or the exit flag was never set. -/
inductive Server.Leaks (server : Server) (known : Known) : Event → Prop
  | shown (sock : sockaddr_in) (datagram : Bytes) (locals : Locals) (command : ClientCommand)
    (args : Bytes)
    (hparse : parse_line client_commands (line (datagram.take BUFFER_SIZE)) = some (command, args))
    (hshows : server.memory.ShowsStack sock args command) :
    server.Leaks known (.datagram sock datagram locals)
  | unended (connection : Connection) (received : Bytes) (hadmin : server.admin = some connection)
    (hreceived : received ≠ [])
    (hnone : ∀ c ∈ (connection.read received).take (known.reads received), endsLine c = false) :
    server.Leaks known (.read received)
  | added (connection : Connection) (received : Bytes) (command : AdminCommand) (args : Bytes)
    (hadmin : server.admin = some connection) (hreceived : received ≠ [])
    (hparse : parse_line commands (line (connection.read received)) = some (command, args))
    (hadds : server.memory.AddsUser args command) :
    server.Leaks known (.read received)
  | unset (connection : Connection) (received : Bytes) (hadmin : server.admin = some connection)
    (hreceived : received ≠ [])
    (hparse : parse_line commands (line (connection.read received)) = none)
    (hexit : known.exit = false) :
    server.Leaks known (.read received)

/-- A step of a server, and what is known behind it. -/
def tracked : Machine (Server × Known) Event (List Output) := ghost step Known.after

variable {server server' : Server} {known : Known} {event event' : Event}

/-- A read that leaks nothing does the same for two servers that are alike. -/
theorem Server.Alike.read (h : server.Alike known server') (received : Bytes)
    (hclean : ¬ server.Leaks known (.read received)) :
    Result.Related (fun r r' => r.1.Alike (known.after server (.read received)) r'.1 ∧ r.2 = r'.2)
      (step server (.read received)) (step server' (.read received)) := by
  obtain ⟨memory, admin⟩ := server
  obtain ⟨memory', admin'⟩ := server'
  have hadmin := h.admin
  cases hadmin with
  | none => exact .ok ⟨h, rfl⟩
  | @some connection connection' hconnection =>
    by_cases hend : received = []
    · simp only [step, handle_admin, if_pos hend]
      exact .ok ⟨⟨h.memory, .none⟩, rfl⟩
    · have hends : ∃ c ∈ (connection.read received).take (known.reads received),
          endsLine c = true := by
        by_contra hnone
        push Not at hnone
        exact hclean (.unended connection received rfl hend (by simpa using hnone))
      obtain ⟨buffer, buffer', hdispatch, hdispatch', hbuffer⟩ := hconnection.dispatch hends
      have hsocket := hconnection.socket
      have hanswered : Result.Related Memory.SameAnswers
          (answered memory connection (parse_line commands (line (connection.read received))))
          (answered memory' connection' (parse_line commands (line (connection.read received)))) := by
        cases hparse : parse_line commands (line (connection.read received)) with
        | none =>
          have hexit : known.exit = true := by
            by_contra hunset
            exact hclean (.unset connection received rfl hend hparse (by simpa using hunset))
          rw [answered, answered, hsocket, hconnection.exit hexit]
          exact .ok ⟨h.memory, rfl⟩
        | some entry =>
          rw [answered, answered, hsocket]
          exact h.memory.cmd_functions fun hadds =>
            hclean (.added connection received entry.1 entry.2 rfl hend hparse hadds)
      simp only [step, handle_admin_eq hend hdispatch, handle_admin_eq hend hdispatch']
      refine (hanswered.bind (S := fun r r' => r.1.Alike r'.1 ∧
        Option.Rel (Connection.Alike (known.after ⟨memory, some connection⟩ (.read received)))
          r.2.1 r'.2.1 ∧ r.2.2 = r'.2.2) ?_).bind ?_
      · rintro ⟨next, exit, outputs⟩ ⟨next', exit', outputs'⟩ - - ⟨halike, hsame⟩
        cases hsame
        refine .ok ⟨halike, ?_, rfl⟩
        by_cases hexit : exit ≠ 0
        · rw [if_pos hexit, if_pos hexit]
          exact .none
        · rw [if_neg hexit, if_neg hexit]
          exact .some ⟨hsocket, Known.reads_le hconnection.extent, hbuffer, fun _ => rfl⟩
      · rintro ⟨next, admin, outputs⟩ ⟨next', admin', outputs'⟩ - - ⟨halike, hadmin, rfl⟩
        exact .ok ⟨⟨halike, hadmin⟩, rfl⟩

/-- A datagram that opens a session finds a null pointer. -/
def Server.Nulls (server : Server) : Event → Prop
  | .datagram sock _ _ => server.OpensNull sock
  | _ => True

/-- The step lemma: a step that leaks nothing does the same for two servers that are alike, if it
finds a null pointer in both where it opens a session. -/
theorem step_alike (h : server.Alike known server') (hinput : event.SameInput event')
    (hclean : ¬ server.Leaks known event) (hnull : server.Nulls event)
    (hnull' : server'.Nulls event') :
    Result.Related (fun r r' => r.1.Alike (known.after server event) r'.1 ∧ r.2 = r'.2)
      (step server event) (step server' event') := by
  cases hinput with
  | datagram sock datagram locals locals' =>
    have hworker : Result.Related Memory.SameOutputs
        (udp_server_worker server.memory sock datagram locals)
        (udp_server_worker server'.memory sock datagram locals') := by
      refine h.memory.udp_server_worker (fun hnone => ?_) fun command args hparse hshows =>
        hclean (.shown sock datagram locals command args hparse hshows)
      have hnone' (t : Nat) : ¬ server'.memory.SessionAt sock t := fun hat =>
        hnone t (h.memory.sessionAt_iff.mpr hat)
      exact (hnull hnone).trans (hnull' hnone').symm
    apply hworker.bind
    rintro ⟨next, outputs⟩ ⟨next', outputs'⟩ - - ⟨halike, hsame⟩
    exact .ok ⟨⟨halike, h.admin⟩, hsame⟩
  | accept connection connection' hsocket =>
    have hnone : server.admin = none ↔ server'.admin = none := by
      have hadmin := h.admin
      generalize server.admin = admin, server'.admin = admin' at hadmin
      cases hadmin <;> simp
    simp only [step, Known.after, ← hnone, ← hsocket]
    by_cases hserved : server.admin = none ∧ connection.socket > 0
    · rw [if_pos hserved, if_pos hserved, if_pos hserved]
      refine .ok ⟨⟨h.memory, .some ⟨hsocket, Nat.zero_le _, rfl, ?_⟩⟩, rfl⟩
      intro hunset
      cases hunset
    · rw [if_neg hserved, if_neg hserved, if_neg hserved]
      exact .ok ⟨h, rfl⟩
  | read received => exact h.read received hclean

end Steps

section Runs

variable {startup startup' : Startup} {records : Bytes} {start start' : Server}
  {events events' : List Event}

/-- In front of the first connection nothing is known of one. -/
def Known.nothing : Known := { extent := 0, exit := false }

/-- A run in which no step reads what the memory held before. -/
def Clean (start : Server) (events : List Event) : Prop :=
  ∀ past event rest server known, events = past ++ event :: rest →
    Reaches tracked (start, .nothing) past (server, known) → ¬ server.Leaks known event

/-- A run in which every datagram that opens a session finds a null pointer. -/
def FindsNull (start : Server) (events : List Event) : Prop :=
  ∀ past event rest server, events = past ++ event :: rest → Reaches step start past server →
    server.Nulls event

/-- The bytes that a run emits, and those of the records file behind it. -/
def emitted (result : Server × List (List Output)) : Bytes × List (List Output) :=
  (result.1.memory.records, result.2)

/-- Outputs depend only on inputs: two processes that read the same records and get the
same datagrams and lines emit the same bytes, whatever their memory held before, where no
step of the run reads it and new sessions find a null pointer. -/
theorem outputs_determined (hmain : main startup records = .ok start)
    (hmain' : main startup' records = .ok start') (hsocket : startup.udp_socket = startup'.udp_socket)
    (hrecords : records = [] ∨ client_t.size ≤ records.length)
    (hevents : List.Forall₂ Event.SameInput events events') (hclean : Clean start events)
    (hnull : FindsNull start events) (hnull' : FindsNull start' events') :
    (run step start events).map emitted = (run step start' events').map emitted := by
  have hadmin := (started_of_main hmain).admin
  have hadmin' := (started_of_main hmain').admin
  have hstart : start.Alike .nothing start' :=
    ⟨main_alike hsocket hrecords hmain hmain', by rw [hadmin, hadmin']; exact .none⟩
  have hrelated : Result.Related
      (fun (r : (Server × Known) × List (List Output)) (r' : Server × List (List Output)) =>
        r.1.1.Alike r.1.2 r'.1 ∧ r.2 = r'.2)
      (run tracked (start, .nothing) events) (run step start' events') := by
    refine run_related (fun (state : Server × Known) server' => state.1.Alike state.2 server')
      Event.SameInput (fun state event => ¬ state.1.Leaks state.2 event ∧ state.1.Nulls event)
      Server.Nulls ?_ hstart hevents ?_ hnull'
    · rintro ⟨server, known⟩ server' event event' halike hinput ⟨hclean, hnull⟩ hnull'
      have hstep := step_alike halike hinput hclean hnull hnull'
      simp only [tracked, ghost]
      generalize step server event = result, step server' event' = result' at hstep
      cases hstep with
      | error e => exact .error e
      | ok hsame => exact .ok hsame
    · rintro past event rest ⟨server, known⟩ heq hreach
      exact ⟨hclean past event rest server known heq hreach,
        hnull past event rest server heq (reaches_of_ghost hreach)⟩
  have hemitted : (run tracked (start, .nothing) events).map (fun r => emitted (r.1.1, r.2)) =
      (run step start' events').map emitted := by
    apply hrelated.map_eq
    rintro ⟨⟨server, known⟩, outputs⟩ ⟨server', outputs'⟩ ⟨halike, rfl⟩
    rw [emitted, emitted, halike.memory.records]
  rw [← hemitted, ← run_ghost Known.after start .nothing events]
  rw [tracked]
  cases run (ghost step Known.after) (start, Known.nothing) events <;> rfl

end Runs

section Play

/-- A process whose memory holds other bytes before it is used. -/
def Startup.stained : Startup :=
  { Startup.blank with
    clients := fun _ => client_t.ofBytes (List.replicate client_t.size 120)
    nodes := fun _ => { height := 7, data := 7, left := some 7, right := some 7 }
    client := client_t.ofBytes (List.replicate client_t.size 120) }

def Locals.stained : Locals where
  buffer := CharArray.ofBytes _ (List.replicate BUFFER_SIZE 120)
  send_message := CharArray.ofBytes _ (List.replicate (BUFFER_SIZE + 100) 120)
  answer _ := text "x"

def Connection.stained : Connection where
  socket := 5
  buffer := CharArray.ofBytes _ (List.replicate BUFFER_SIZE 120)
  exit := 1

/-- A user logs in, and the admin lists the users and deletes the other one. -/
def deleteRun (locals : Locals) (connection : Connection) : List Event :=
  [.datagram ⟨⟨10, 0, 0, 1⟩, 5000⟩ (text "LOGIN ana pw") locals, .accept connection,
    .read (text "LIST\n"), .read (text "DEL bob\n")]

variable {server : Server} {known : Known}

theorem not_leaks_accept (connection : Connection) : ¬ server.Leaks known (.accept connection) := by
  intro hleak
  cases hleak

/-- A whole line with another command than `ADD` leaks nothing. -/
theorem not_leaks_line {received args : Bytes} {command : AdminCommand}
    (hshort : received.length ≤ BUFFER_SIZE) (hends : ∃ c ∈ received, endsLine c = true)
    (hparse : parse_line commands (line received) = some (command, args))
    (hcommand : command ≠ .ADD) : ¬ server.Leaks known (.read received) := by
  have hline (connection : Connection) :
      parse_line commands (line (connection.read received)) = some (command, args) := by
    rw [connection.read_eq hshort, (line_append_of_mem hends _).1, hparse]
  intro hleak
  cases hleak with
  | unended connection _ hadmin hreceived hnone =>
    obtain ⟨c, hc, hend⟩ := hends
    have hknown : received.length ≤ known.reads received := by
      rw [Known.reads, List.take_of_length_le hshort]
      exact le_max_right _ _
    have hmem : c ∈ (connection.read received).take (known.reads received) := by
      rw [connection.read_eq hshort, List.take_append, List.take_of_length_le hknown]
      exact List.mem_append_left _ hc
    rw [hnone c hmem] at hend
    cases hend
  | added connection _ command' args' hadmin hreceived hparse' hadds =>
    obtain ⟨rfl, rfl⟩ : command = command' ∧ args = args' := by
      simpa using (hline connection).symm.trans hparse'
    cases hadds
    exact hcommand rfl
  | unset connection _ hadmin hreceived hnone hexit =>
    cases (hline connection).symm.trans hnone

/-- A login to records whose flags are all set leaks nothing. -/
theorem not_leaks_login {sock : sockaddr_in} {datagram args : Bytes} {locals : Locals}
    (hvalid : server.memory.Valid)
    (hparse : parse_line client_commands (line (datagram.take BUFFER_SIZE)) = some (.LOGIN, args))
    (hflags : ∀ record ∈ server.memory.stored, ∀ permission, record.flag permission = 1) :
    ¬ server.Leaks known (.datagram sock datagram locals) := by
  intro hleak
  cases hleak with
  | shown _ _ _ command args' hparse' hshows =>
    obtain ⟨rfl, rfl⟩ : ClientCommand.LOGIN = command ∧ args = args' := by
      simpa using hparse.symm.trans hparse'
    cases hshows with
    | login username password u permission hlogged hargs huser hip hpassword hno hyes =>
      have hu := (hvalid.find_user_eq_some_iff.mp huser).2.1
      exact hyes (hflags _ (Memory.mem_stored_iff.mpr ⟨u, hu, rfl⟩) permission)

theorem deleteRun_clean {start : Server}
    (hmain : main .blank ([anaRecord, bobRecord].flatMap client_t.bytes) = .ok start) :
    Clean start (deleteRun .blank .blank) := by
  obtain ⟨start', hmain', hvalid, hstored⟩ := exists_main_records .blank [anaRecord, bobRecord]
  obtain rfl : start = start' := by simpa using hmain.symm.trans hmain'
  have hlogin : parse_line client_commands (line ((text "LOGIN ana pw").take BUFFER_SIZE)) =
      some (.LOGIN, text "ana pw") := by
    decide
  have hlist : parse_line commands (line (text "LIST\n")) = some (.LIST, []) := by decide
  have hdel : parse_line commands (line (text "DEL bob\n")) = some (.DEL, text "bob") := by decide
  rintro past event rest server known heq hreach
  obtain _ | ⟨_, _ | ⟨_, _ | ⟨_, _ | ⟨_, past⟩⟩⟩⟩ := past
  · cases heq
    cases reaches_nil_iff.mp hreach
    apply not_leaks_login hvalid hlogin
    intro record hrecord permission
    have hmem := List.mem_of_find?_eq_some ((hstored record).mp hrecord)
    obtain rfl | rfl : record = anaRecord ∨ record = bobRecord := by simpa using hmem
    · cases permission <;> rfl
    · cases permission <;> rfl
  · cases heq
    exact not_leaks_accept _
  · cases heq
    exact not_leaks_line (by decide) (by decide) hlist (by decide)
  · cases heq
    exact not_leaks_line (by decide) (by decide) hdel (by decide)
  · simp [deleteRun] at heq

/-- Only the first event of this run opens a session. -/
theorem deleteRun_findsNull {start : Server} {locals : Locals} {connection : Connection}
    (hnull : start.memory.sessions.fresh.client = none) :
    FindsNull start (deleteRun locals connection) := by
  rintro past event rest server heq hreach
  obtain _ | ⟨_, _ | ⟨_, _ | ⟨_, _ | ⟨_, past⟩⟩⟩⟩ := past
  · cases heq
    cases reaches_nil_iff.mp hreach
    exact fun _ => hnull
  · cases heq
    trivial
  · cases heq
    trivial
  · cases heq
    trivial
  · simp [deleteRun] at heq

theorem outputs_determined_witness : ∃ start start' outputs,
    main .blank ([anaRecord, bobRecord].flatMap client_t.bytes) = .ok start ∧
      main .stained ([anaRecord, bobRecord].flatMap client_t.bytes) = .ok start' ∧
      (run step start (deleteRun .blank .blank)).map emitted =
        .ok ({ anaRecord with port := 5000 }.bytes, outputs) ∧
      (run step start (deleteRun .blank .blank)).map emitted =
        (run step start' (deleteRun .stained .stained)).map emitted := by
  have hview : observe .blank ([anaRecord, bobRecord].flatMap client_t.bytes)
      (deleteRun .blank .blank) (fun server _ => server.memory.records) =
        .ok { anaRecord with port := 5000 }.bytes := by
    decide +kernel
  obtain ⟨start, server, outputs, hmain, hrun, hrecords⟩ := exists_of_observe hview
  have hfresh : observe .blank ([anaRecord, bobRecord].flatMap client_t.bytes) []
      (fun server _ => server.memory.sessions.fresh.client) = .ok none := by
    decide +kernel
  have hfresh' : observe .stained ([anaRecord, bobRecord].flatMap client_t.bytes) []
      (fun server _ => server.memory.sessions.fresh.client) = .ok none := by
    decide +kernel
  obtain ⟨_, _, _, hblank, hstays, hnull⟩ := exists_of_observe hfresh
  obtain ⟨start', _, _, hmain', hstays', hnull'⟩ := exists_of_observe hfresh'
  obtain rfl := Except.ok.inj (hmain.symm.trans hblank)
  cases hstays
  cases hstays'
  have hevents :
      List.Forall₂ Event.SameInput (deleteRun .blank .blank) (deleteRun .stained .stained) :=
    .cons (.datagram _ _ _ _) (.cons (.accept _ _ rfl) (.cons (.read _) (.cons (.read _) .nil)))
  refine ⟨start, start', outputs, hmain, hmain', ?_, ?_⟩
  · rw [hrun]
    exact congrArg Except.ok (Prod.ext hrecords rfl)
  · exact outputs_determined hmain hmain' rfl (Or.inr (by decide +kernel)) hevents
      (deleteRun_clean hmain) (deleteRun_findsNull hnull) (deleteRun_findsNull hnull')

/-- A user is added, logs in and sends a message. -/
def addRun (locals : Locals) (connection : Connection) : List Event :=
  [.accept connection, .read (text "ADD ana 10.0.0.1 pw 1 1 1\n"),
    .datagram ⟨⟨10, 0, 0, 1⟩, 5000⟩ (text "LOGIN ana pw") locals,
    .datagram ⟨⟨10, 0, 0, 1⟩, 5000⟩ (text "MSG ana hi") locals]

/-- The bytes that are relayed. -/
def Output.relayed_bytes : Output → Option Bytes
  | .relay _ _ _ _ message _ => some message
  | _ => none

/-- What the memory held before is written to the file, with a record that is added, and
sent to another client, behind a message. -/
theorem leftovers_emitted : ∃ start start' server server' outputs outputs',
    main .blank [] = .ok start ∧ main .stained [] = .ok start' ∧
      List.Forall₂ Event.SameInput (addRun .blank .blank) (addRun .stained .stained) ∧
      run step start (addRun .blank .blank) = .ok (server, outputs) ∧
      run step start' (addRun .stained .stained) = .ok (server', outputs') ∧
      server.memory.records ≠ server'.memory.records ∧
      outputs.flatten.filterMap Output.relayed_bytes ≠
        outputs'.flatten.filterMap Output.relayed_bytes := by
  have hview : observe .blank [] (addRun .blank .blank) (fun server outputs =>
      (server.memory.records.drop 64, outputs.flatten.filterMap fun output =>
        output.relayed_bytes.map (List.drop 990))) =
      .ok (int_bytes 0 ++ int_bytes 1 ++ int_bytes 1 ++ int_bytes 1, [List.replicate 10 0]) := by
    decide +kernel
  have hview' : observe .stained [] (addRun .stained .stained) (fun server outputs =>
      (server.memory.records.drop 64, outputs.flatten.filterMap fun output =>
        output.relayed_bytes.map (List.drop 990))) =
      .ok (int_bytes 2021161080 ++ int_bytes 1 ++ int_bytes 1 ++ int_bytes 1,
        [List.replicate 10 120]) := by
    decide +kernel
  obtain ⟨start, server, outputs, hmain, hrun, hseen⟩ := exists_of_observe hview
  obtain ⟨start', server', outputs', hmain', hrun', hseen'⟩ := exists_of_observe hview'
  have hevents : List.Forall₂ Event.SameInput (addRun .blank .blank) (addRun .stained .stained) :=
    .cons (.accept _ _ rfl) (.cons (.read _) (.cons (.datagram _ _ _ _)
      (.cons (.datagram _ _ _ _) .nil)))
  refine ⟨start, start', server, server', outputs, outputs', hmain, hmain', hevents, hrun, hrun',
    ?_, ?_⟩
  · intro hsame
    have hport : server.memory.records.drop 64 = _ := congrArg Prod.fst hseen
    have hport' : server'.memory.records.drop 64 = _ := congrArg Prod.fst hseen'
    rw [hsame, hport'] at hport
    exact absurd hport (by decide)
  · intro hsame
    have htail := congrArg (List.map (List.drop 990)) hsame
    rw [List.map_filterMap, List.map_filterMap] at htail
    have hsent := (congrArg Prod.snd hseen).symm.trans (htail.trans (congrArg Prod.snd hseen'))
    exact absurd hsent (by decide)

end Play

end rc_project.server
