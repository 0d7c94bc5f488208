import RcProject.Server.AdminBuffer

open rc_project.avl_tree rc_project.blocks rc_project.c_string rc_project.scanf
open rc_project.transition

namespace rc_project.server

section Lines

/-- A command line as it stands in a stream, without the line feed behind it. -/
structure IsLine (l : Bytes) : Prop where
  no_feed : 10 ∉ l
  no_nul : 0 ∉ l
  short : l.length < BUFFER_SIZE

/-- The bytes of a sequence of lines. -/
def stream (lines : List Bytes) : Bytes := lines.flatMap fun l => l ++ [10]

/-- The command that a line is executed as. -/
def line_command (l : Bytes) : Option AdminCommand := (parse_line commands (line l)).map Prod.fst

/-- The lines up to the one that ends the connection. -/
def upToQuit : List Bytes → List Bytes
  | [] => []
  | l :: lines => if line_command l = some .QUIT then [l] else l :: upToQuit lines

/-- Every read up to the `QUIT` returns one whole line. -/
def WholeLines : List Bytes → List Bytes → Prop
  | [], _ => True
  | _ :: _, [] => False
  | l :: lines, received :: reads =>
    if line_command l = some .QUIT then l ++ [10] <+: received
    else received = l ++ [10] ∧ WholeLines lines reads

/-- The flag of a connection, which nothing sets before the first command, does not
end the connection behind the first line. -/
def FlagClear (connection : Connection) (lines : List Bytes) : Prop :=
  connection.exit = 0 ∨ ∀ l next rest, lines = l :: next :: rest → line_command l ≠ none

/-- One line a read is a way to split any stream. -/
theorem wholeLines_map (lines : List Bytes) : WholeLines lines (lines.map (· ++ [10])) := by
  induction lines with
  | nil => trivial
  | cons l lines ih =>
    rw [List.map_cons, WholeLines]
    split
    · exact List.prefix_rfl
    · exact ⟨rfl, ih⟩

theorem line_append_feed (l : Bytes) : line (l ++ [10]) = line l := by
  by_cases hends : ∃ c ∈ l, endsLine c = true
  · exact (line_append_of_mem hends [10]).1
  · have hnone : ∀ c ∈ l, endsLine c = false := fun c hc => by
      by_contra hend
      exact hends ⟨c, hc, by simpa using hend⟩
    have hself := line_append_of_not hnone []
    rw [List.append_nil] at hself
    rw [line_append_of_not hnone, hself]
    rfl

theorem line_feed (l behind : Bytes) : line (l ++ 10 :: behind) = line l := by
  have hends : ∃ c ∈ l ++ [10], endsLine c = true := ⟨10, by simp, rfl⟩
  rw [show l ++ 10 :: behind = (l ++ [10]) ++ behind by simp, (line_append_of_mem hends behind).1,
    line_append_feed]

/-- Without a carriage return a line is executed as it is. -/
theorem IsLine.line_eq {l : Bytes} (h : IsLine l) (hreturn : 13 ∉ l) : line l = l := by
  have hnone : ∀ c ∈ l, endsLine c = false :=
    endsLine_eq_false_of_not_lineEnd h.no_nul (by simp [LineEnd, hreturn, h.no_feed])
  have hself := line_append_of_not hnone []
  rw [List.append_nil] at hself
  exact hself.trans (List.append_nil l)

theorem stream_cons (l : Bytes) (lines : List Bytes) :
    stream (l :: lines) = l ++ 10 :: stream lines := by
  simp [stream]

theorem count_stream {lines : List Bytes} (hlines : ∀ l ∈ lines, IsLine l) :
    (stream lines).count 10 = lines.length := by
  induction lines with
  | nil => rfl
  | cons l lines ih =>
    have hnone := List.count_eq_zero.mpr (hlines l List.mem_cons_self).no_feed
    rw [stream_cons, List.count_append, List.count_cons_self, hnone,
      ih fun l' hl' => hlines l' (List.mem_cons_of_mem _ hl'), List.length_cons]
    omega

/-- A part of the bytes that holds a line feed starts with the first line. -/
theorem line_prefix {l received rest behind : Bytes} (hl : 10 ∉ l) (hmem : 10 ∈ received)
    (h : received ++ rest = l ++ 10 :: behind) : ∃ head, received = l ++ 10 :: head := by
  have hlong : (l ++ [10]).length ≤ received.length := by
    by_contra hshort
    have hhead : received <+: l := by
      apply List.prefix_of_prefix_length_le (List.prefix_append received rest)
      · rw [h]
        exact List.prefix_append _ _
      · simp at hshort
        omega
    exact hl (hhead.subset hmem)
  have hhead : l ++ [10] <+: received := by
    apply List.prefix_of_prefix_length_le _ (List.prefix_append received rest) hlong
    rw [h]
    exact ⟨behind, by simp⟩
  obtain ⟨head, rfl⟩ := hhead
  exact ⟨head, by simp⟩

end Lines

section Executed

variable {server next last : Server} {connection : Connection} {received : Bytes}
  {outputs : List Output}

/-- The line that `handle_admin` takes from the buffer behind a read. -/
def Server.dispatched (server : Server) (received : Bytes) : List Bytes :=
  (server.admin.map fun connection => line (connection.read received)).toList

/-- The lines that `handle_admin` executes for a sequence of reads. -/
def executed : Server → List Bytes → List Bytes
  | _, [] => []
  | server, received :: reads =>
    server.dispatched received ++ match step server (.read received) with
      | .ok (next, _) => executed next reads
      | .error _ => []

/-- After any number of reads the lines that came in completely so far, up to the
`QUIT`, are what was executed. -/
def KeepsPace (server : Server) (lines reads : List Bytes) : Prop :=
  ∀ n, executed server (reads.take n) =
    ((upToQuit lines).take ((reads.take n).flatten.count 10)).map line

theorem executed_cons (hstep : step server (.read received) = .ok (next, outputs))
    (reads : List Bytes) :
    executed server (received :: reads) = server.dispatched received ++ executed next reads := by
  simp only [executed, hstep]

theorem step_read_closed (hadmin : server.admin = none) :
    step server (.read received) = .ok (server, []) := by
  simp only [step, hadmin, Result.pure_eq_ok]

/-- Nothing is executed when no connection is open. -/
theorem executed_closed (hadmin : server.admin = none) (reads : List Bytes) :
    executed server reads = [] := by
  induction reads with
  | nil => rfl
  | cons received reads ih =>
    rw [executed_cons (step_read_closed hadmin), ih, Server.dispatched, hadmin]
    rfl

theorem cmd_functions_exit {memory next : Memory} {socket exit : Int} {args : Bytes}
    {command : AdminCommand}
    (hcmd : cmd_functions memory socket args command = .ok (next, exit, outputs)) :
    exit = if command = .QUIT then 1 else 0 := by
  cases command with
  | LIST =>
    obtain ⟨_, -, hcmd⟩ := Result.bind_eq_ok_iff.mp hcmd
    cases hcmd
    rfl
  | ADD =>
    obtain ⟨values, -, hcmd⟩ := Result.bind_eq_ok_iff.mp hcmd
    split at hcmd
    · obtain ⟨_, -, hcmd⟩ := Result.bind_eq_ok_iff.mp hcmd
      obtain ⟨⟨res, _, _⟩, -, hcmd⟩ := Result.bind_eq_ok_iff.mp hcmd
      by_cases hres : res = AVL_DUPLICATED_KEY
      · simp only [hres, if_true] at hcmd
        cases hcmd
        rfl
      · simp only [hres, if_false] at hcmd
        cases hcmd
        rfl
    · cases hcmd
      rfl
  | DEL =>
    obtain ⟨values, -, hcmd⟩ := Result.bind_eq_ok_iff.mp hcmd
    split at hcmd
    · obtain ⟨_, -, hcmd⟩ := Result.bind_eq_ok_iff.mp hcmd
      obtain ⟨⟨res, _, _⟩, -, hcmd⟩ := Result.bind_eq_ok_iff.mp hcmd
      by_cases hres : res = AVL_KEY_NOT_FOUND
      · simp only [hres, if_true] at hcmd
        cases hcmd
        rfl
      · simp only [hres, if_false] at hcmd
        cases hcmd
        rfl
    · cases hcmd
      rfl
  | QUIT =>
    cases hcmd
    rfl

/-- What a read that begins with a line leaves of the connection. -/
inductive ReadLine (connection : Connection) (l : Bytes) : Option Connection → Prop
  | quit (hcommand : line_command l = some .QUIT) : ReadLine connection l none
  | command (left : Connection) (hknown : line_command l ≠ none)
    (hcommand : line_command l ≠ some .QUIT) (hexit : left.exit = 0) :
    ReadLine connection l (some left)
  | unknown (left : Connection) (hcommand : line_command l = none) (hflag : connection.exit = 0)
    (hexit : left.exit = 0) : ReadLine connection l (some left)
  | dropped (hcommand : line_command l = none) (hflag : connection.exit ≠ 0) :
    ReadLine connection l none

theorem read_line (hadmin : server.admin = some connection) {l head : Bytes}
    (hshort : (l ++ 10 :: head).length ≤ BUFFER_SIZE)
    (hstep : step server (.read (l ++ 10 :: head)) = .ok (next, outputs)) :
    server.dispatched (l ++ 10 :: head) = [line l] ∧ ReadLine connection l next.admin := by
  have hends : ∃ c ∈ l ++ 10 :: head, endsLine c = true := ⟨10, by simp, rfl⟩
  have hbuffer : line (connection.read (l ++ 10 :: head)) = line l := by
    rw [connection.read_eq hshort, (line_append_of_mem hends _).1, line_feed]
  obtain ⟨left, hdispatch⟩ := connection.dispatch_of_line_end hshort hends
  rw [line_feed] at hdispatch
  refine ⟨by simp [Server.dispatched, hadmin, hbuffer], ?_⟩
  have hne : l ++ 10 :: head ≠ [] := by simp
  simp only [step, hadmin, handle_admin_eq hne hdispatch] at hstep
  obtain ⟨⟨memory, admin, outputs'⟩, hhandle, hnext⟩ := Result.bind_eq_ok_iff.mp hstep
  obtain ⟨⟨memory', exit, outputs''⟩, hanswered, hleft⟩ := Result.bind_eq_ok_iff.mp hhandle
  cases hleft
  cases hnext
  cases hfound : parse_line commands (line l) with
  | none =>
    have hcommand : line_command l = none := by rw [line_command, hfound]; rfl
    rw [hfound] at hanswered
    cases hanswered
    by_cases hflag : connection.exit = 0
    · rw [if_neg (not_not.mpr hflag)]
      exact .unknown _ hcommand hflag hflag
    · rw [if_pos hflag]
      exact .dropped hcommand hflag
  | some entry =>
    have hcommand : line_command l = some entry.1 := by rw [line_command, hfound]; rfl
    rw [hfound] at hanswered
    have hexit := cmd_functions_exit hanswered
    by_cases hquit : entry.1 = .QUIT
    · rw [if_pos hquit] at hexit
      rw [hexit, if_pos Int.one_ne_zero]
      exact .quit (hcommand.trans (congrArg some hquit))
    · rw [if_neg hquit] at hexit
      rw [hexit, if_neg (not_not.mpr rfl)]
      refine .command _ ?_ ?_ rfl
      · rw [hcommand]
        exact Option.some_ne_none _
      · rw [hcommand]
        exact fun h => hquit (Option.some.inj h)

end Executed

section Framing

variable {server next last : Server} {connection : Connection} {lines reads : List Bytes}
  {received : Bytes} {outputs : List Output}

theorem reads_eq_nil (hreads : ∀ received ∈ reads, received ≠ []) (hnone : reads.flatten = []) :
    reads = [] := by
  cases reads with
  | nil => rfl
  | cons received reads =>
    rw [List.flatten_cons, List.append_eq_nil_iff] at hnone
    exact absurd hnone.1 (hreads received List.mem_cons_self)

theorem upToQuit_of_quit {l : Bytes} (hquit : line_command l = some .QUIT) (lines : List Bytes) :
    upToQuit (l :: lines) = [l] := by
  rw [upToQuit, if_pos hquit]

theorem upToQuit_of_ne {l : Bytes} (hquit : line_command l ≠ some .QUIT) (lines : List Bytes) :
    upToQuit (l :: lines) = l :: upToQuit lines := by
  rw [upToQuit, if_neg hquit]

theorem exists_upToQuit_cons (l : Bytes) (lines : List Bytes) :
    ∃ rest, upToQuit (l :: lines) = l :: rest := by
  by_cases hquit : line_command l = some .QUIT
  · exact ⟨[], upToQuit_of_quit hquit lines⟩
  · exact ⟨_, upToQuit_of_ne hquit lines⟩

theorem length_upToQuit_le (lines : List Bytes) : (upToQuit lines).length ≤ lines.length := by
  induction lines with
  | nil => exact Nat.le_refl _
  | cons l lines ih =>
    by_cases hquit : line_command l = some .QUIT
    · simp [upToQuit_of_quit hquit]
    · simpa [upToQuit_of_ne hquit] using ih

/-- As long as every read returns one whole line, the lines are executed as they come. -/
theorem keepsPace_of_wholeLines (hlines : ∀ l ∈ lines, IsLine l)
    (hreads : ∀ received ∈ reads, received ≠ [] ∧ received.length ≤ BUFFER_SIZE)
    (hstream : reads.flatten = stream lines)
    (hreach : Reaches step server (reads.map .read) last)
    (hadmin : server.admin = some connection) (hwhole : WholeLines lines reads)
    (hflag : FlagClear connection lines) : KeepsPace server lines reads := by
  induction lines generalizing server connection reads with
  | nil =>
    obtain rfl : reads = [] := reads_eq_nil (fun r hr => (hreads r hr).1) hstream
    intro n
    simp [executed, upToQuit]
  | cons l lines ih =>
    cases reads with
    | nil => exact hwhole.elim
    | cons received reads =>
      obtain ⟨hsome, hshort⟩ := hreads received List.mem_cons_self
      have hfeed := (hlines l List.mem_cons_self).no_feed
      obtain ⟨next, outputs, hstep, hrest⟩ := reaches_cons_iff.mp hreach
      have hbegins : ∃ head, received = l ++ 10 :: head := by
        rw [WholeLines] at hwhole
        split at hwhole
        · obtain ⟨head, rfl⟩ := hwhole
          exact ⟨head, by simp⟩
        · exact ⟨[], hwhole.1⟩
      obtain ⟨head, rfl⟩ := hbegins
      obtain ⟨hdispatched, hleft⟩ := read_line hadmin hshort hstep
      intro n
      cases n with
      | zero => simp [executed]
      | succ n =>
        rw [List.take_succ_cons, executed_cons hstep, hdispatched, List.flatten_cons,
          List.count_append, List.count_append, List.count_cons_self]
        by_cases hquit : line_command l = some .QUIT
        · have hclosed : next.admin = none := by
            generalize next.admin = admin at hleft
            cases hleft with
            | quit => rfl
            | command _ _ hcommand => exact absurd hquit hcommand
            | unknown _ hcommand => simp [hquit] at hcommand
            | dropped => rfl
          rw [executed_closed hclosed, upToQuit_of_quit hquit, List.take_of_length_le]
          · simp
          · simp only [List.length_singleton]
            omega
        · rw [WholeLines, if_neg hquit] at hwhole
          obtain ⟨heq, hwhole⟩ := hwhole
          obtain rfl : head = [] := by simpa using heq
          have hstream' : reads.flatten = stream lines := by
            simpa [stream_cons] using hstream
          have hpace : executed next (reads.take n) =
              ((upToQuit lines).take ((reads.take n).flatten.count 10)).map line := by
            generalize hnext : next.admin = admin at hleft
            cases hleft with
            | quit hcommand => exact absurd hcommand hquit
            | command left _ _ hexit | unknown left _ _ hexit =>
              exact ih (fun l' hl' => hlines l' (List.mem_cons_of_mem _ hl'))
                (fun r hr => hreads r (List.mem_cons_of_mem _ hr)) hstream' hrest hnext hwhole
                (Or.inl hexit) n
            | dropped hcommand hset =>
              have hlast : lines = [] := by
                cases lines with
                | nil => rfl
                | cons l' rest =>
                  exact absurd hcommand ((hflag.resolve_left hset) l l' rest rfl)
              rw [executed_closed hnext, hlast]
              simp [upToQuit]
          rw [hpace, upToQuit_of_ne hquit, List.count_eq_zero.mpr hfeed, List.count_nil,
            show 0 + (0 + 1) + (reads.take n).flatten.count 10 =
              (reads.take n).flatten.count 10 + 1 by omega, List.take_succ_cons]
          rfl

theorem KeepsPace.first (hpace : KeepsPace server lines (received :: reads))
    (hstep : step server (.read received) = .ok (next, outputs)) :
    server.dispatched received = ((upToQuit lines).take (received.count 10)).map line := by
  have hone := hpace 1
  rw [List.take_succ_cons, List.take_zero, executed_cons hstep, executed, List.append_nil,
    List.flatten_singleton] at hone
  exact hone

theorem KeepsPace.rest {l : Bytes} (hpace : KeepsPace server (l :: lines) ((l ++ [10]) :: reads))
    (hstep : step server (.read (l ++ [10])) = .ok (next, outputs))
    (hdispatched : server.dispatched (l ++ [10]) = [line l]) (hfeed : 10 ∉ l)
    (hquit : line_command l ≠ some .QUIT) : KeepsPace next lines reads := by
  intro n
  have hmore := hpace (n + 1)
  rw [List.take_succ_cons, executed_cons hstep, hdispatched, upToQuit_of_ne hquit,
    List.flatten_cons, List.count_append, List.count_append, List.count_eq_zero.mpr hfeed,
    List.count_singleton_self, Nat.zero_add, Nat.add_comm 1, List.take_succ_cons,
    List.map_cons] at hmore
  exact List.tail_eq_of_cons_eq hmore

/-- A line behind which the connection ends is the last one. -/
theorem KeepsPace.eq_nil_of_closed {l head : Bytes}
    (hpace : KeepsPace server (l :: lines) ((l ++ 10 :: head) :: reads))
    (hstep : step server (.read (l ++ 10 :: head)) = .ok (next, outputs))
    (hdispatched : server.dispatched (l ++ 10 :: head) = [line l]) (hclosed : next.admin = none)
    (hquit : line_command l ≠ some .QUIT) (hstream : head ++ reads.flatten = stream lines) :
    lines = [] := by
  cases lines with
  | nil => rfl
  | cons l' lines =>
    exfalso
    obtain ⟨rest, hrest⟩ := exists_upToQuit_cons l' lines
    have hcount : 0 < (head ++ reads.flatten).count 10 := by
      rw [hstream]
      exact List.count_pos_iff.mpr (by simp [stream_cons])
    have hall := congrArg List.length (hpace (reads.length + 1))
    rw [List.take_succ_cons, List.take_length, executed_cons hstep, hdispatched,
      executed_closed hclosed, upToQuit_of_ne hquit, hrest, List.flatten_cons, List.append_assoc,
      List.cons_append, List.cons_append, List.count_append, List.count_cons_self,
      List.length_map, List.length_take] at hall
    simp only [List.append_nil, List.length_cons, List.length_nil] at hall
    omega

/-- A read that goes on behind the feed of a line cuts the next line short. -/
theorem KeepsPace.head_eq_nil {l head : Bytes} {lines reads : List Bytes} {left : Connection}
    (hlines : ∀ l ∈ lines, IsLine l) (hreturn : ∀ l ∈ lines, 13 ∉ l)
    (hreads : ∀ received ∈ reads, received ≠ [] ∧ received.length ≤ BUFFER_SIZE)
    (hstream : head ++ reads.flatten = stream lines)
    (hreach : Reaches step next (reads.map .read) last) (hnext : next.admin = some left)
    (hquit : line_command l ≠ some .QUIT)
    (hstep : step server (.read (l ++ 10 :: head)) = .ok (next, outputs))
    (hdispatched : server.dispatched (l ++ 10 :: head) = [line l]) (hfeed : 10 ∉ l)
    (hpace : KeepsPace server (l :: lines) ((l ++ 10 :: head) :: reads)) : head = [] := by
  by_contra hsome
  cases lines with
  | nil =>
    rw [stream, List.flatMap_nil, List.append_eq_nil_iff] at hstream
    exact hsome hstream.1
  | cons l' lines =>
    have hl' := hlines l' List.mem_cons_self
    have hreturn' := hreturn l' List.mem_cons_self
    obtain ⟨rest, hrest⟩ := exists_upToQuit_cons l' lines
    -- the first read holds one feed only, as it is executed as one line
    have hnone : 10 ∉ head := by
      intro hmem
      have hcount : 0 < head.count 10 := List.count_pos_iff.mpr hmem
      have hone := congrArg List.length (hpace.first hstep)
      rw [hdispatched, upToQuit_of_ne hquit, hrest, List.count_append, List.count_cons_self,
        List.length_map, List.length_take] at hone
      simp only [List.length_cons, List.length_nil] at hone
      omega
    cases reads with
    | nil =>
      have hmem : 10 ∈ stream (l' :: lines) := by simp [stream_cons]
      rw [← hstream, List.flatten_nil, List.append_nil] at hmem
      exact hnone hmem
    | cons received reads =>
      obtain ⟨-, hshort'⟩ := hreads received List.mem_cons_self
      obtain ⟨next', outputs', hstep', -⟩ := reaches_cons_iff.mp hreach
      have hsecond : next.dispatched received =
          ((l' :: rest).take (received.count 10)).map line := by
        have htwo := hpace 2
        rw [List.take_succ_cons, List.take_succ_cons, List.take_zero, executed_cons hstep,
          executed_cons hstep', executed, List.append_nil, hdispatched, upToQuit_of_ne hquit,
          hrest] at htwo
        simp only [List.flatten_cons, List.flatten_nil, List.append_nil, List.count_append,
          List.count_cons_self, List.count_eq_zero.mpr hfeed, List.count_eq_zero.mpr hnone,
          Nat.zero_add] at htwo
        rw [Nat.add_comm 1, List.take_succ_cons, List.map_cons] at htwo
        exact List.tail_eq_of_cons_eq htwo
      have hmem : 10 ∈ received := by
        by_contra hfree
        rw [List.count_eq_zero.mpr hfree, Server.dispatched, hnext] at hsecond
        cases hsecond
      rw [List.flatten_cons, stream_cons] at hstream
      obtain ⟨tail, rfl, htail⟩ : ∃ tail, l' = head ++ tail ∧
          received ++ reads.flatten = tail ++ 10 :: stream lines := by
        obtain ⟨tail, hl', htail⟩ | ⟨tail, hhead, htail⟩ := List.append_eq_append_iff.mp hstream
        · exact ⟨tail, hl', htail⟩
        · cases tail with
          | nil => exact ⟨[], by simpa using hhead.symm, by simpa using htail.symm⟩
          | cons c tail =>
            obtain ⟨rfl, -⟩ := List.cons.inj htail
            exact absurd (hhead ▸ by simp) hnone
      have hfree : 10 ∉ tail := fun h => hl'.no_feed (List.mem_append_right head h)
      obtain ⟨head', rfl⟩ := line_prefix hfree hmem htail
      obtain ⟨hdispatched', -⟩ := read_line hnext hshort' hstep'
      rw [hdispatched', List.count_append, List.count_cons_self, ← Nat.add_assoc,
        List.take_succ_cons, List.map_cons, hl'.line_eq hreturn', List.cons.injEq] at hsecond
      have hlength : (line tail).length ≤ tail.length := (List.takeWhile_sublist _).length_le
      rw [hsecond.1, List.length_append] at hlength
      exact hsome (List.length_eq_zero_iff.mp (by omega))

/-- The lines are executed as they come only if every read returns one whole line. -/
theorem KeepsPace.wholeLines (hlines : ∀ l ∈ lines, IsLine l) (hreturn : ∀ l ∈ lines, 13 ∉ l)
    (hreads : ∀ received ∈ reads, received ≠ [] ∧ received.length ≤ BUFFER_SIZE)
    (hstream : reads.flatten = stream lines)
    (hreach : Reaches step server (reads.map .read) last)
    (hadmin : server.admin = some connection) (hpace : KeepsPace server lines reads) :
    WholeLines lines reads ∧ FlagClear connection lines := by
  induction lines generalizing server connection reads with
  | nil => exact ⟨trivial, Or.inr nofun⟩
  | cons l lines ih =>
    cases reads with
    | nil => simp [stream_cons] at hstream
    | cons received reads =>
      obtain ⟨-, hshort⟩ := hreads received List.mem_cons_self
      have hfeed := (hlines l List.mem_cons_self).no_feed
      have hlines' (l') (hl' : l' ∈ lines) := hlines l' (List.mem_cons_of_mem _ hl')
      have hreturn' (l') (hl' : l' ∈ lines) := hreturn l' (List.mem_cons_of_mem _ hl')
      have hreads' (r) (hr : r ∈ reads) := hreads r (List.mem_cons_of_mem _ hr)
      obtain ⟨next, outputs, hstep, hrest⟩ := reaches_cons_iff.mp hreach
      have hmem : 10 ∈ received := by
        by_contra hfree
        have hone := hpace.first hstep
        rw [List.count_eq_zero.mpr hfree, Server.dispatched, hadmin] at hone
        cases hone
      rw [List.flatten_cons, stream_cons] at hstream
      obtain ⟨head, rfl⟩ := line_prefix hfeed hmem hstream
      obtain ⟨hdispatched, hleft⟩ := read_line hadmin hshort hstep
      rw [WholeLines]
      by_cases hquit : line_command l = some .QUIT
      · rw [if_pos hquit]
        refine ⟨⟨head, by simp⟩, Or.inr ?_⟩
        rintro _ _ _ ⟨⟩
        rw [hquit]
        exact Option.some_ne_none _
      · rw [if_neg hquit]
        have hstream' : head ++ reads.flatten = stream lines := by simpa using hstream
        generalize hnext : next.admin = admin at hleft
        cases hleft with
        | quit hcommand => exact absurd hcommand hquit
        | command left hknown _ hexit =>
          obtain rfl := hpace.head_eq_nil hlines' hreturn' hreads' hstream' hrest hnext hquit hstep
            hdispatched hfeed
          obtain ⟨hwhole, -⟩ := ih hlines' hreturn' hreads' hstream' hrest hnext
            (hpace.rest hstep hdispatched hfeed hquit)
          refine ⟨⟨rfl, hwhole⟩, Or.inr ?_⟩
          rintro _ _ _ ⟨⟩
          exact hknown
        | unknown left _ hflag hexit =>
          obtain rfl := hpace.head_eq_nil hlines' hreturn' hreads' hstream' hrest hnext hquit hstep
            hdispatched hfeed
          obtain ⟨hwhole, -⟩ := ih hlines' hreturn' hreads' hstream' hrest hnext
            (hpace.rest hstep hdispatched hfeed hquit)
          exact ⟨⟨rfl, hwhole⟩, Or.inl hflag⟩
        | dropped =>
          have hlast : lines = [] := hpace.eq_nil_of_closed hstep hdispatched hnext hquit hstream'
          subst hlast
          rw [stream, List.flatMap_nil, List.append_eq_nil_iff] at hstream'
          obtain ⟨rfl, -⟩ := hstream'
          exact ⟨⟨rfl, trivial⟩, Or.inr nofun⟩

theorem step_quit {l head : Bytes} (hadmin : server.admin = some connection)
    (hshort : (l ++ 10 :: head).length ≤ BUFFER_SIZE) (hquit : line_command l = some .QUIT) :
    step server (.read (l ++ 10 :: head)) = .ok ({ server with admin := none }, []) := by
  have hends : ∃ c ∈ l ++ 10 :: head, endsLine c = true := ⟨10, by simp, rfl⟩
  obtain ⟨left, hdispatch⟩ := connection.dispatch_of_line_end hshort hends
  obtain ⟨⟨command, args⟩, hfound, rfl⟩ := Option.map_eq_some_iff.mp hquit
  have hne : l ++ 10 :: head ≠ [] := by simp
  rw [line_feed, hfound] at hdispatch
  simp only [step, hadmin, handle_admin_eq hne hdispatch]
  rfl

/-- Reads behind the end of a connection do nothing. -/
theorem run_closed {outputs : List (List Output)} (hclosed : server.admin = none)
    (hrun : run step server (reads.map .read) = .ok (last, outputs)) :
    last = server ∧ outputs.flatten = [] := by
  induction reads generalizing outputs with
  | nil =>
    cases hrun
    exact ⟨rfl, rfl⟩
  | cons received reads ih =>
    obtain ⟨next, output, rest, hstep, hrest, rfl⟩ := (run_cons_eq_ok_iff step).mp hrun
    rw [step_read_closed hclosed] at hstep
    cases hstep
    obtain ⟨rfl, hnone⟩ := ih hrest
    exact ⟨rfl, by simp [hnone]⟩

/-- Two ways to split a stream into whole lines have the same effects. -/
theorem whole_lines_same {reads' : List Bytes} {last' : Server}
    {outputs outputs' : List (List Output)}
    (hreads : ∀ received ∈ reads, received ≠ [] ∧ received.length ≤ BUFFER_SIZE)
    (hreads' : ∀ received ∈ reads', received ≠ [] ∧ received.length ≤ BUFFER_SIZE)
    (hstream : reads.flatten = stream lines) (hstream' : reads'.flatten = stream lines)
    (hwhole : WholeLines lines reads) (hwhole' : WholeLines lines reads')
    (hrun : run step server (reads.map .read) = .ok (last, outputs))
    (hrun' : run step server (reads'.map .read) = .ok (last', outputs')) :
    last.memory = last'.memory ∧ outputs.flatten = outputs'.flatten := by
  induction lines generalizing server reads reads' outputs outputs' with
  | nil =>
    obtain rfl : reads = [] := reads_eq_nil (fun r hr => (hreads r hr).1) hstream
    obtain rfl : reads' = [] := reads_eq_nil (fun r hr => (hreads' r hr).1) hstream'
    cases hrun
    cases hrun'
    exact ⟨rfl, rfl⟩
  | cons l lines ih =>
    cases reads with
    | nil => exact hwhole.elim
    | cons received reads =>
      cases reads' with
      | nil => exact hwhole'.elim
      | cons received' reads' =>
        obtain ⟨next, output, rest, hstep, hrest, rfl⟩ := (run_cons_eq_ok_iff step).mp hrun
        obtain ⟨next', output', rest', hstep', hrest', rfl⟩ := (run_cons_eq_ok_iff step).mp hrun'
        rw [WholeLines] at hwhole hwhole'
        by_cases hquit : line_command l = some .QUIT
        · rw [if_pos hquit] at hwhole hwhole'
          cases hadmin : server.admin with
          | none =>
            obtain ⟨rfl, hnone⟩ := run_closed hadmin hrun
            obtain ⟨rfl, hnone'⟩ := run_closed hadmin hrun'
            exact ⟨rfl, hnone.trans hnone'.symm⟩
          | some connection =>
            obtain ⟨head, rfl⟩ := hwhole
            obtain ⟨head', rfl⟩ := hwhole'
            have hshort := (hreads _ List.mem_cons_self).2
            have hshort' := (hreads' _ List.mem_cons_self).2
            rw [List.append_assoc, List.singleton_append] at hstep hstep' hshort hshort'
            rw [step_quit hadmin hshort hquit] at hstep
            rw [step_quit hadmin hshort' hquit] at hstep'
            cases hstep
            cases hstep'
            obtain ⟨rfl, hnone⟩ := run_closed rfl hrest
            obtain ⟨rfl, hnone'⟩ := run_closed rfl hrest'
            exact ⟨rfl, by simp [hnone, hnone']⟩
        · rw [if_neg hquit] at hwhole hwhole'
          obtain ⟨rfl, hwhole⟩ := hwhole
          obtain ⟨rfl, hwhole'⟩ := hwhole'
          rw [hstep, Except.ok.injEq, Prod.mk.injEq] at hstep'
          obtain ⟨rfl, rfl⟩ := hstep'
          have htail : reads.flatten = stream lines := by simpa [stream_cons] using hstream
          have htail' : reads'.flatten = stream lines := by simpa [stream_cons] using hstream'
          obtain ⟨hmemory, houtputs⟩ := ih (fun r hr => hreads r (List.mem_cons_of_mem _ hr))
            (fun r hr => hreads' r (List.mem_cons_of_mem _ hr)) htail htail' hwhole hwhole' hrest
            hrest'
          exact ⟨hmemory, by rw [List.flatten_cons, List.flatten_cons, houtputs]⟩

end Framing

/-- The lines of a stream are executed in order, each once and as soon as it has
come in, if every read returns one whole line and the flag of the connection does not
end it behind an unknown command. Then they have the same effects in every way to split
the stream so. For lines without carriage returns it is the only way. -/
theorem admin_stream_framed {server last : Server} {connection : Connection}
    {lines reads : List Bytes} {outputs : List (List Output)}
    (hadmin : server.admin = some connection) (hlines : ∀ l ∈ lines, IsLine l)
    (hreads : ∀ received ∈ reads, received ≠ [] ∧ received.length ≤ BUFFER_SIZE)
    (hstream : reads.flatten = stream lines)
    (hrun : run step server (reads.map .read) = .ok (last, outputs)) :
    (WholeLines lines reads ∧ FlagClear connection lines →
      KeepsPace server lines reads ∧ executed server reads = (upToQuit lines).map line ∧
      ∀ reads' last' outputs', (∀ received ∈ reads', received ≠ [] ∧ received.length ≤ BUFFER_SIZE) →
        reads'.flatten = stream lines → WholeLines lines reads' →
        run step server (reads'.map .read) = .ok (last', outputs') →
        last'.memory = last.memory ∧ outputs'.flatten = outputs.flatten) ∧
    ((∀ l ∈ lines, 13 ∉ l) → KeepsPace server lines reads →
      WholeLines lines reads ∧ FlagClear connection lines) := by
  constructor
  · rintro ⟨hwhole, hflag⟩
    have hpace := keepsPace_of_wholeLines hlines hreads hstream ⟨outputs, hrun⟩ hadmin hwhole hflag
    refine ⟨hpace, ?_, ?_⟩
    · have hall := hpace reads.length
      rw [List.take_length, hstream, count_stream hlines,
        List.take_of_length_le (length_upToQuit_le lines)] at hall
      exact hall
    · intro reads' last' outputs' hreads' hstream' hwhole' hrun'
      exact whole_lines_same hreads' hreads hstream' hstream hwhole' hwhole hrun' hrun
  · intro hreturn hpace
    exact hpace.wholeLines hlines hreturn hreads hstream ⟨outputs, hrun⟩ hadmin

/-- Two additions of users. -/
def twoAdditions : List Bytes := [text "ADD ana 10.0.0.1 pw 1 1 1", text "ADD bob 10.0.0.2 pw 1 1 1"]

theorem twoAdditions_isLine : ∀ l ∈ twoAdditions, IsLine l := by
  have hall : ∀ l ∈ twoAdditions, 10 ∉ l ∧ 0 ∉ l ∧ l.length < BUFFER_SIZE := by decide +kernel
  intro l hl
  obtain ⟨hfeed, hnul, hshort⟩ := hall l hl
  exact ⟨hfeed, hnul, hshort⟩

theorem admin_stream_framed_witness : ∃ start server last outputs,
    main .blank [] = .ok start ∧ Reaches step start [.accept .blank] server ∧
    run step server ((twoAdditions.map (· ++ [10])).map .read) = .ok (last, outputs) ∧
    KeepsPace server twoAdditions (twoAdditions.map (· ++ [10])) ∧
    executed server (twoAdditions.map (· ++ [10])) = (upToQuit twoAdditions).map line := by
  have hview : observe .blank [] [.accept .blank] (fun server _ => (server.admin, do
      let result ← run step server ((twoAdditions.map (· ++ [10])).map .read)
      return result.1.memory.users)) = .ok (some .blank, .ok [0, 1]) := by
    decide +kernel
  obtain ⟨start, server, before, hmain, hrun, hview⟩ := exists_of_observe hview
  obtain ⟨hadmin, hreads⟩ := Prod.mk.inj hview
  obtain ⟨⟨last, outputs⟩, hreads, -⟩ := Result.bind_eq_ok_iff.mp hreads
  obtain ⟨hframed, -⟩ := admin_stream_framed hadmin twoAdditions_isLine (by decide +kernel) rfl
    hreads
  obtain ⟨hpace, hexecuted, -⟩ := hframed ⟨wholeLines_map twoAdditions, Or.inl rfl⟩
  exact ⟨start, server, last, outputs, hmain, ⟨before, hrun⟩, hreads, hpace, hexecuted⟩

/-- Two lines that come in with one read are executed as the first of them. -/
theorem second_line_dropped : ∃ start server last last' outputs outputs',
    main .blank [] = .ok start ∧ Reaches step start [.accept .blank] server ∧
    run step server [.read (stream twoAdditions)] = .ok (last, outputs) ∧
    run step server ((twoAdditions.map (· ++ [10])).map .read) = .ok (last', outputs') ∧
    executed server [stream twoAdditions] = twoAdditions.take 1 ∧
    executed server (twoAdditions.map (· ++ [10])) = twoAdditions ∧
    last.memory.users = [0] ∧ last'.memory.users = [0, 1] ∧
    last.memory.records ≠ last'.memory.records := by
  have hview : observe .blank [] [.accept .blank] (fun server _ => do
      let one ← run step server [.read (stream twoAdditions)]
      let two ← run step server ((twoAdditions.map (· ++ [10])).map .read)
      return decide (executed server [stream twoAdditions] = twoAdditions.take 1 ∧
        executed server (twoAdditions.map (· ++ [10])) = twoAdditions ∧
        one.1.memory.users = [0] ∧ two.1.memory.users = [0, 1] ∧
        one.1.memory.records ≠ two.1.memory.records)) = .ok (.ok true) := by
    decide +kernel
  obtain ⟨start, server, before, hmain, hrun, hview⟩ := exists_of_observe hview
  obtain ⟨⟨last, outputs⟩, hone, hview⟩ := Result.bind_eq_ok_iff.mp hview
  obtain ⟨⟨last', outputs'⟩, htwo, hview⟩ := Result.bind_eq_ok_iff.mp hview
  simp only [Result.pure_eq_ok, Except.ok.injEq, decide_eq_true_eq] at hview
  exact ⟨start, server, last, last', outputs, outputs', hmain, ⟨before, hrun⟩, hone, htwo, hview⟩

end rc_project.server
