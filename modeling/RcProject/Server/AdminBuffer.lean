import RcProject.Server.CommandLine
import RcProject.Server.Runs

open rc_project.avl_tree rc_project.blocks rc_project.c_string rc_project.scanf
open rc_project.transition

namespace rc_project.server

theorem commands_names : Names commands := by
  unfold Names
  decide

section Read

variable {connection : Connection} {received : Bytes}

theorem Connection.read_eq (connection : Connection) (hshort : received.length ≤ BUFFER_SIZE) :
    connection.read received = received ++ connection.buffer.bytes.drop received.length := by
  rw [Connection.read, List.take_of_length_le hshort]

/-- A read whose line ends is dispatched by its line, whatever the buffer held. -/
theorem Connection.received_command_eq
    (hends : ∃ c ∈ connection.read received, endsLine c = true) :
    connection.received_command received =
      .ok (parse_line commands (line (connection.read received))) := by
  obtain ⟨left, hdispatch⟩ := dispatch_eq commands_names (line_append_of_mem hends []).2
  rw [Connection.received_command, hdispatch]
  rfl

theorem Connection.received_command_error
    (hnone : ∀ c ∈ connection.read received, endsLine c = false) :
    connection.received_command received = .error .out_of_bounds := by
  rw [Connection.received_command, dispatch_error hnone]
  rfl

theorem Connection.dispatch_of_line_end (connection : Connection)
    (hshort : received.length ≤ BUFFER_SIZE) (hends : ∃ c ∈ received, endsLine c = true) :
    ∃ left, dispatch commands (connection.read received) =
      .ok (left, parse_line commands (line received)) := by
  obtain ⟨c, hc, hend⟩ := hends
  have hread := connection.read_eq hshort
  have hmem : ∃ c ∈ connection.read received, endsLine c = true :=
    ⟨c, hread ▸ List.mem_append_left _ hc, hend⟩
  obtain ⟨left, hdispatch⟩ := dispatch_eq commands_names (line_append_of_mem hmem []).2
  rw [hread, (line_append_of_mem ⟨c, hc, hend⟩ _).1, ← hread] at hdispatch
  exact ⟨left, hdispatch⟩

/-- A read with a line end is dispatched by its own line. -/
theorem Connection.received_command_of_line_end (connection : Connection)
    (hshort : received.length ≤ BUFFER_SIZE) (hends : ∃ c ∈ received, endsLine c = true) :
    connection.received_command received = .ok (parse_line commands (line received)) := by
  obtain ⟨left, hdispatch⟩ := connection.dispatch_of_line_end hshort hends
  rw [Connection.received_command, hdispatch]
  rfl

/-- A read whose line does not end goes on with what the buffer held. -/
theorem Connection.received_command_eq_ok_iff (hshort : received.length ≤ BUFFER_SIZE)
    (hnone : ∀ c ∈ received, endsLine c = false) {found : Option (AdminCommand × Bytes)} :
    connection.received_command received = .ok found ↔
      (∃ c ∈ connection.buffer.bytes.drop received.length, endsLine c = true) ∧
        found = parse_line commands
          (received ++ line (connection.buffer.bytes.drop received.length)) := by
  have hread := connection.read_eq hshort
  by_cases hstale : ∃ c ∈ connection.buffer.bytes.drop received.length, endsLine c = true
  · have hmem : ∃ c ∈ connection.read received, endsLine c = true := by
      obtain ⟨c, hc, hend⟩ := hstale
      exact ⟨c, hread ▸ List.mem_append_right _ hc, hend⟩
    rw [Connection.received_command_eq hmem, hread, line_append_of_not hnone, Except.ok.injEq,
      eq_comm]
    exact (and_iff_right hstale).symm
  · have hall : ∀ c ∈ connection.read received, endsLine c = false := by
      intro c hc
      rw [hread, List.mem_append] at hc
      obtain hc | hc := hc
      · exact hnone c hc
      · by_contra hend
        exact hstale ⟨c, hc, by simpa using hend⟩
    rw [Connection.received_command_error hall]
    exact iff_of_false (by simp) fun h => hstale h.1

end Read

section History

variable {server : Server} {connection : Connection}

/-- A `LIST` keeps the connection open, whatever its exit flag held. -/
theorem step_list (hvalid : server.memory.Valid) (hadmin : server.admin = some connection) :
    ∃ left, left.exit = 0 ∧ ∃ outputs, step server (.read (text "LIST\n")) =
      .ok ({ server with admin := some left }, outputs) := by
  have hshort : (text "LIST\n").length ≤ BUFFER_SIZE := by decide
  have hends : ∃ c ∈ text "LIST\n", endsLine c = true := by decide
  obtain ⟨buffer, hdispatch⟩ := connection.dispatch_of_line_end hshort hends
  have hline : parse_line commands (line (text "LIST\n")) = some (.LIST, []) := by decide
  rw [hline] at hdispatch
  refine ⟨{ connection with buffer := CharArray.ofBytes _ buffer, exit := 0 }, rfl, ?_⟩
  simp only [step, hadmin, handle_admin, cmd_function, hdispatch, cmd_functions, cmd_list,
    avl_print_client_stores hvalid.user_list.stores]
  exact ⟨_, rfl⟩

/-- An empty line in front of a full buffer leaves the rest of the buffer as it
was sent. -/
theorem step_stale (hadmin : server.admin = some connection) (hexit : connection.exit = 0)
    {tail : Bytes} (hlength : tail.length + 1 = BUFFER_SIZE) :
    ∃ left, left.buffer.bytes = 0 :: tail ∧ ∃ outputs, step server (.read (10 :: tail)) =
      .ok ({ server with admin := some left }, outputs) := by
  have hlength' : (10 :: tail : Bytes).length = BUFFER_SIZE := hlength
  have hread : connection.read (10 :: tail) = 10 :: tail := by
    rw [connection.read_eq hlength'.le, hlength', List.drop_eq_nil_of_le, List.append_nil]
    exact connection.buffer.length_eq.le
  have hfind : (commands.find? fun entry => parse_cmd (0 :: tail) entry.1) = none := by
    rw [List.find?_eq_none]
    intro entry hentry
    obtain ⟨hne, hnul, -⟩ := commands_names entry hentry
    rw [parse_cmd, decide_eq_true_eq, strcmp_eq_zero_iff, cstr_cons, if_pos rfl, cstr_eq_self hnul]
    exact hne.symm
  have hdispatch : dispatch commands (10 :: tail) = .ok (0 :: tail, none) := by
    have hline : remove_end_line (10 :: tail) = .ok (0 :: tail) := rfl
    have hstrtok : strtok_r (0 :: tail) = (0 :: tail, 0) := rfl
    simp only [dispatch, hline, Result.ok_bind, hstrtok, hfind, Option.map_none,
      Result.pure_eq_ok]
  refine ⟨{ connection with buffer := CharArray.ofBytes _ (0 :: tail) }, ?_, ?_⟩
  · exact List.take_left' hlength
  · simp only [step, hadmin, handle_admin, cmd_function, hread, hdispatch]
    simp only [Result.ok_bind, Result.pure_eq_ok, Option.getD_none, hexit]
    exact ⟨_, rfl⟩

/-- Some reads leave any bytes in the buffer behind its first one. -/
theorem exists_stale (hvalid : server.memory.Valid) (hadmin : server.admin = some connection)
    {tail : Bytes} (hlength : tail.length + 1 = BUFFER_SIZE) :
    ∃ (reads : List Bytes) (next : Server) (left : Connection),
      Reaches step server (reads.map Event.read) next ∧ next.admin = some left ∧
        left.buffer.bytes = 0 :: tail := by
  obtain ⟨opened, hexit, outputs, hlist⟩ := step_list hvalid hadmin
  have hopened : ({ server with admin := some opened } : Server).admin = some opened := rfl
  obtain ⟨left, hbuffer, outputs', hstale⟩ := step_stale hopened hexit hlength
  exact ⟨[text "LIST\n", 10 :: tail], _, left,
    ((Reaches.refl step server).snoc hlist).snoc hstale, rfl, hbuffer⟩

end History

section Isolation

/-- The admin connection that is open behind some reads. -/
def Server.LeadsTo (server : Server) (connection : Connection) : Prop :=
  ∃ (reads : List Bytes) (next : Server),
    Reaches step server (reads.map Event.read) next ∧ next.admin = some connection

/-- What is dispatched for a read is the same whatever was read before. -/
def Server.Isolates (server : Server) (received : Bytes) : Prop :=
  ∀ connection connection', server.LeadsTo connection → server.LeadsTo connection' →
    connection.received_command received = connection'.received_command received

/-- What is dispatched for a read is the same whatever was read before, as long
as the line ends in the buffer. -/
def Server.DispatchesAlike (server : Server) (received : Bytes) : Prop :=
  ∀ connection connection' found found', server.LeadsTo connection →
    server.LeadsTo connection' → connection.received_command received = .ok found →
    connection'.received_command received = .ok found' → found = found'

def LineEnd (received : Bytes) : Prop := 13 ∈ received ∨ 10 ∈ received

/-- Some line that begins with the bytes holds a command. -/
def BeginsCommand (received : Bytes) : Prop :=
  ∃ entry ∈ commands, received <+: entry.1 ∨ entry.1 ++ [32] <+: received

variable {server : Server} {connection : Connection} {received : Bytes}

theorem LineEnd.exists_mem (h : LineEnd received) : ∃ c ∈ received, endsLine c = true := by
  obtain hmem | hmem := h
  · exact ⟨13, hmem, rfl⟩
  · exact ⟨10, hmem, rfl⟩

theorem endsLine_eq_false_of_not_lineEnd (hnul : 0 ∉ received) (h : ¬ LineEnd received) :
    ∀ c ∈ received, endsLine c = false := by
  intro c hc
  by_contra hend
  rw [Bool.not_eq_false] at hend
  obtain (rfl | rfl) | rfl : (c = 0 ∨ c = 13) ∨ c = 10 := by simpa [endsLine] using hend
  · exact hnul hc
  · exact h (Or.inl hc)
  · exact h (Or.inr hc)

/-- Any bytes can be what follows a read in the buffer. -/
theorem exists_leadsTo (hvalid : server.memory.Valid) (hadmin : server.admin = some connection)
    (hsome : received ≠ []) {stale : Bytes}
    (hlength : received.length + stale.length = BUFFER_SIZE) :
    ∃ left, server.LeadsTo left ∧ left.buffer.bytes.drop received.length = stale := by
  have hpos : 0 < received.length := List.length_pos_iff.mpr hsome
  have htail : (List.replicate (received.length - 1) 0 ++ stale).length + 1 = BUFFER_SIZE := by
    rw [List.length_append, List.length_replicate]
    omega
  obtain ⟨reads, next, left, hreach, hleft, hbuffer⟩ := exists_stale hvalid hadmin htail
  refine ⟨left, ⟨reads, next, hreach, hleft⟩, ?_⟩
  obtain ⟨n, hn⟩ : ∃ n, received.length = n + 1 := ⟨received.length - 1, by omega⟩
  rw [hbuffer, hn, List.drop_succ_cons, Nat.add_sub_cancel]
  exact List.drop_left' (List.length_replicate ..)

/-- A line that starts like the read and ends before the buffer is what the read
is taken for behind some history. -/
theorem exists_dispatched (hvalid : server.memory.Valid) (hadmin : server.admin = some connection)
    (hsome : received ≠ []) (hnone : ∀ c ∈ received, endsLine c = false) {rest : Bytes}
    (hrest : ∀ c ∈ rest, endsLine c = false)
    (hlength : received.length + rest.length < BUFFER_SIZE) :
    ∃ left, server.LeadsTo left ∧
      left.received_command received = .ok (parse_line commands (received ++ rest)) := by
  have hstale : received.length + (rest ++ 0 :: List.replicate
      (BUFFER_SIZE - 1 - received.length - rest.length) 0).length = BUFFER_SIZE := by
    rw [List.length_append, List.length_cons, List.length_replicate]
    omega
  obtain ⟨left, hleads, hbuffer⟩ := exists_leadsTo hvalid hadmin hsome hstale
  refine ⟨left, hleads, (Connection.received_command_eq_ok_iff (by omega) hnone).mpr ?_⟩
  have hline (padding : Bytes) : line (rest ++ 0 :: padding) = rest := by
    rw [line_append_of_not hrest, line_cons, if_pos (by decide), List.append_nil]
  rw [hbuffer, hline]
  exact ⟨⟨0, List.mem_append_right _ List.mem_cons_self, rfl⟩, rfl⟩

/-- Behind some history a read without a line end runs over the buffer. -/
theorem exists_overrun (hvalid : server.memory.Valid) (hadmin : server.admin = some connection)
    (hsome : received ≠ []) (hnone : ∀ c ∈ received, endsLine c = false)
    (hshort : received.length ≤ BUFFER_SIZE) :
    ∃ left, server.LeadsTo left ∧ left.received_command received = .error .out_of_bounds := by
  have hstale : received.length + (List.replicate (BUFFER_SIZE - received.length)
      (65 : UInt8)).length = BUFFER_SIZE := by
    rw [List.length_replicate]
    omega
  obtain ⟨left, hleads, hbuffer⟩ := exists_leadsTo hvalid hadmin hsome hstale
  refine ⟨left, hleads, Connection.received_command_error ?_⟩
  intro c hc
  rw [left.read_eq hshort, hbuffer, List.mem_append] at hc
  obtain hc | hc := hc
  · exact hnone c hc
  · rw [List.eq_of_mem_replicate hc]
    rfl

/-- Behind the name of a command and a space, a line is its arguments. -/
theorem exists_parse_line {entry : Bytes × AdminCommand} (hentry : entry ∈ commands) :
    ∃ command, ∀ args, parse_line commands (entry.1 ++ 32 :: args) = some (command, args) := by
  obtain ⟨-, -, hspace⟩ := commands_names entry hentry
  have hword (args : Bytes) : word (entry.1 ++ 32 :: args) = entry.1 := by
    rw [word_append hspace]
    exact List.append_nil _
  obtain ⟨first, hfirst⟩ : ∃ first, commands.find? (fun other => other.1 = entry.1) = some first :=
    Option.isSome_iff_exists.mp (List.find?_isSome.mpr ⟨entry, hentry, by simp⟩)
  refine ⟨first.2, fun args => ?_⟩
  rw [parse_line, hword, hfirst, Option.map_some]
  simp [List.drop_append]

/-- A line whose start begins no command holds none. -/
theorem parse_line_eq_none (hbegins : ¬ BeginsCommand received) (rest : Bytes) :
    parse_line commands (received ++ rest) = none := by
  rw [parse_line, Option.map_eq_none_iff, List.find?_eq_none]
  intro entry hentry hword
  rw [decide_eq_true_eq] at hword
  apply hbegins
  refine ⟨entry, hentry, ?_⟩
  have hprefix : entry.1 <+: received ++ rest := hword ▸ List.takeWhile_prefix _
  obtain hshort | ⟨tail, htail⟩ :=
    List.prefix_or_prefix_of_prefix (List.prefix_append received rest) hprefix
  · exact Or.inl hshort
  · cases tail with
    | nil =>
      rw [List.append_nil] at htail
      exact Or.inl (htail ▸ List.prefix_rfl)
    | cons c tail =>
      right
      obtain ⟨-, -, hspace⟩ := commands_names entry hentry
      have hc : c = 32 := by
        by_contra hc
        rw [← htail, List.append_assoc, word_append hspace] at hword
        simp [word, hc] at hword
      exact ⟨tail, by rw [← htail, hc, List.append_assoc]; rfl⟩

theorem endsLine_append_singleton {c : UInt8} (hnone : ∀ c ∈ received, endsLine c = false)
    (hc : endsLine c = false) : ∀ d ∈ received ++ [c], endsLine d = false := by
  intro d hd
  obtain hd | hd := List.mem_append.mp hd
  · exact hnone d hd
  · rw [List.mem_singleton.mp hd]
    exact hc

/-- A read that begins a command can be completed to two commands that differ. -/
theorem exists_two_lines (hbegins : BeginsCommand received)
    (hlength : received.length + 1 < BUFFER_SIZE) :
    ∃ rest rest', (∀ c ∈ rest, endsLine c = false) ∧ (∀ c ∈ rest', endsLine c = false) ∧
      received.length + rest.length < BUFFER_SIZE ∧
      received.length + rest'.length < BUFFER_SIZE ∧
      parse_line commands (received ++ rest) ≠ parse_line commands (received ++ rest') := by
  have hdiffer {name args : Bytes} {entry : Bytes × AdminCommand} (hentry : entry ∈ commands)
      (hname : name = entry.1 ++ 32 :: args) :
      parse_line commands name ≠ parse_line commands (name ++ [65]) := by
    obtain ⟨command, hparse⟩ := exists_parse_line hentry
    rw [hname, List.append_assoc, List.cons_append, hparse, hparse]
    simp
  obtain ⟨entry, hentry, ⟨tail, htail⟩ | ⟨args, hargs⟩⟩ := hbegins
  · have hnames : ∀ entry ∈ commands, entry.1.length ≤ 4 ∧ ∀ c ∈ entry.1, endsLine c = false := by
      decide +kernel
    obtain ⟨hshort, hnone⟩ := hnames entry hentry
    have hends : ∀ c ∈ tail ++ [32], endsLine c = false :=
      endsLine_append_singleton (fun c hc => hnone c (htail ▸ List.mem_append_right _ hc)) rfl
    have hsum : received.length + tail.length ≤ 4 := by
      rw [← List.length_append, htail]
      exact hshort
    refine ⟨tail ++ [32], tail ++ [32] ++ [65], hends, endsLine_append_singleton hends rfl, ?_, ?_,
      ?_⟩
    · simp only [List.length_append, List.length_singleton, BUFFER_SIZE]
      omega
    · simp only [List.length_append, List.length_singleton, BUFFER_SIZE]
      omega
    · rw [← List.append_assoc, ← List.append_assoc, ← List.append_assoc, htail]
      exact hdiffer hentry rfl
  · have hempty : ∀ c ∈ ([] : Bytes), endsLine c = false := by simp
    refine ⟨[], [65], hempty, endsLine_append_singleton hempty rfl, ?_, hlength, ?_⟩
    · simp only [List.length_nil]
      omega
    · have hname : received = entry.1 ++ 32 :: args := by
        rw [← hargs, List.append_assoc]
        rfl
      rw [List.append_nil]
      exact hdiffer hentry hname

theorem isolates_iff (hvalid : server.memory.Valid) (hadmin : server.admin = some connection)
    (hsome : received ≠ []) (hshort : received.length < BUFFER_SIZE) (hnul : 0 ∉ received) :
    server.Isolates received ↔ LineEnd received := by
  constructor
  · intro hisolates
    by_contra hline
    have hnone := endsLine_eq_false_of_not_lineEnd hnul hline
    have hempty : ∀ c ∈ ([] : Bytes), endsLine c = false := by simp
    obtain ⟨c, hleads, hdispatch⟩ :=
      exists_dispatched hvalid hadmin hsome hnone hempty hshort
    obtain ⟨c', hleads', hoverrun⟩ := exists_overrun hvalid hadmin hsome hnone hshort.le
    have hsame := hisolates c c' hleads hleads'
    rw [hdispatch, hoverrun] at hsame
    cases hsame
  · intro hline c c' _ _
    rw [c.received_command_of_line_end hshort.le hline.exists_mem,
      c'.received_command_of_line_end hshort.le hline.exists_mem]

/-- The line ends right behind a read that leaves one byte of the buffer. -/
theorem Connection.line_of_full_read (connection : Connection)
    (hlength : received.length + 1 = BUFFER_SIZE)
    (hends : ∃ c ∈ connection.buffer.bytes.drop received.length, endsLine c = true) :
    line (connection.buffer.bytes.drop received.length) = [] := by
  have hlt := (line_append_of_mem hends []).2
  rw [List.length_drop, connection.buffer.length_eq] at hlt
  apply List.length_eq_zero_iff.mp
  omega

theorem dispatchesAlike_iff (hvalid : server.memory.Valid)
    (hadmin : server.admin = some connection) (hsome : received ≠ [])
    (hshort : received.length < BUFFER_SIZE) (hnul : 0 ∉ received) :
    server.DispatchesAlike received ↔
      LineEnd received ∨ received.length + 1 = BUFFER_SIZE ∨ ¬ BeginsCommand received := by
  by_cases hline : LineEnd received
  · refine iff_of_true (fun c c' found found' _ _ hfound hfound' => ?_) (Or.inl hline)
    rw [c.received_command_of_line_end hshort.le hline.exists_mem] at hfound
    rw [c'.received_command_of_line_end hshort.le hline.exists_mem] at hfound'
    exact Except.ok.inj (hfound.symm.trans hfound')
  · have hnone := endsLine_eq_false_of_not_lineEnd hnul hline
    constructor
    · intro halike
      right
      by_contra hcond
      rw [not_or, not_not] at hcond
      obtain ⟨hlength, hbegins⟩ := hcond
      obtain ⟨rest, rest', hrest, hrest', hfits, hfits', hdiffer⟩ :=
        exists_two_lines hbegins (by omega)
      obtain ⟨c, hleads, hdispatch⟩ := exists_dispatched hvalid hadmin hsome hnone hrest hfits
      obtain ⟨c', hleads', hdispatch'⟩ :=
        exists_dispatched hvalid hadmin hsome hnone hrest' hfits'
      exact hdiffer (halike c c' _ _ hleads hleads' hdispatch hdispatch')
    · intro hcond c c' found found' _ _ hfound hfound'
      obtain ⟨hends, rfl⟩ := (c.received_command_eq_ok_iff hshort.le hnone).mp hfound
      obtain ⟨hends', rfl⟩ := (c'.received_command_eq_ok_iff hshort.le hnone).mp hfound'
      obtain hend | hlength | hbegins := hcond
      · exact absurd hend hline
      · rw [c.line_of_full_read hlength hends, c'.line_of_full_read hlength hends']
      · rw [parse_line_eq_none hbegins, parse_line_eq_none hbegins]

/-- The same read dispatches the same command with the same arguments behind all
histories exactly if it holds a line end. Behind the histories for which the line
ends in the buffer it does so also if it fills the buffer up to one byte, or if
it begins no command. -/
theorem admin_read_isolated_iff {startup : Startup} {records : Bytes} {start : Server}
    {past : List Event} (hmain : main startup records = .ok start)
    (hreach : Reaches step start past server) (hadmin : server.admin = some connection)
    (hsome : received ≠ []) (hshort : received.length < BUFFER_SIZE) (hnul : 0 ∉ received) :
    (server.Isolates received ↔ LineEnd received) ∧
      (server.DispatchesAlike received ↔ LineEnd received ∨
        received.length + 1 = BUFFER_SIZE ∨ ¬ BeginsCommand received) := by
  have hvalid := reaches_valid (started_of_main hmain).valid hreach
  constructor
  · exact isolates_iff hvalid hadmin hsome hshort hnul
  · exact dispatchesAlike_iff hvalid hadmin hsome hshort hnul

theorem admin_read_isolated_iff_witness : ∃ start server connection, main .blank [] = .ok start ∧
    Reaches step start [.accept .blank] server ∧ server.admin = some connection ∧
    (server.Isolates (text "DEL ana") ↔ LineEnd (text "DEL ana")) ∧
    (server.DispatchesAlike (text "DEL ana") ↔ LineEnd (text "DEL ana") ∨
      (text "DEL ana").length + 1 = BUFFER_SIZE ∨ ¬ BeginsCommand (text "DEL ana")) := by
  have hview : observe .blank [] [.accept .blank] (fun server _ => server.admin) =
      .ok (some .blank) := by
    decide +kernel
  obtain ⟨start, server, outputs, hmain, hrun, hadmin⟩ := exists_of_observe hview
  have hsome : text "DEL ana" ≠ [] := by decide
  exact ⟨start, server, .blank, hmain, ⟨outputs, hrun⟩, hadmin,
    admin_read_isolated_iff hmain ⟨outputs, hrun⟩ hadmin hsome (by decide) (by decide)⟩

/-- A `DEL` without a line end acts on the longer name of the command before it. -/
theorem stale_name_deleted : ∃ start server server' connection connection',
    main .blank [] = .ok start ∧ Reaches step start [.accept .blank] server ∧
    Reaches step start [.accept .blank, .read (text "DEL anabel\n")] server' ∧
    server.admin = some connection ∧ server'.admin = some connection' ∧
    connection.received_command (text "DEL ana") = .ok (some (.DEL, text "ana")) ∧
    connection'.received_command (text "DEL ana") = .ok (some (.DEL, text "anabel")) := by
  have hview : observe .blank [] [.accept .blank] (fun server _ => server.admin.map fun c =>
      c.received_command (text "DEL ana")) = .ok (some (.ok (some (.DEL, text "ana")))) := by
    decide +kernel
  have hview' : observe .blank [] [.accept .blank, .read (text "DEL anabel\n")] (fun server _ =>
      server.admin.map fun c => c.received_command (text "DEL ana")) =
        .ok (some (.ok (some (.DEL, text "anabel")))) := by
    decide +kernel
  obtain ⟨start, server, outputs, hmain, hrun, hadmin⟩ := exists_of_observe hview
  obtain ⟨start', server', outputs', hmain', hrun', hadmin'⟩ := exists_of_observe hview'
  obtain rfl : start = start' := Except.ok.inj (hmain.symm.trans hmain')
  obtain ⟨connection, hconnection, hcommand⟩ := Option.map_eq_some_iff.mp hadmin
  obtain ⟨connection', hconnection', hcommand'⟩ := Option.map_eq_some_iff.mp hadmin'
  exact ⟨start, server, server', connection, connection', hmain, ⟨outputs, hrun⟩,
    ⟨outputs', hrun'⟩, hconnection, hconnection', hcommand, hcommand'⟩

end Isolation

end rc_project.server
