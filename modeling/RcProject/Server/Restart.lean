import RcProject.Server.Records

open rc_project.avl_tree rc_project.blocks rc_project.c_string rc_project.transition

namespace rc_project.server

variable {startup : Startup} {start server next : Server} {events : List Event} {event : Event}
  {outputs : List Output} (records : List client_t)

theorem mirrored_of_main (hmain : main startup (records.flatMap client_t.bytes) = .ok start) :
    start.memory.Mirrored := by
  obtain ⟨server, hmain', -, hlookup⟩ := Memory.exists_main_lookup startup records
  rw [hmain, Except.ok.injEq] at hmain'
  subst hmain'
  exact ⟨records, (started_of_main hmain).records_eq, fun username => (hlookup username).symm⟩

theorem mirrored_of_reaches (hmain : main startup (records.flatMap client_t.bytes) = .ok start)
    (hreach : Reaches step start events server) :
    server.memory.Valid ∧ server.memory.Mirrored :=
  reaches_mirrored (started_of_main hmain).valid (mirrored_of_main records hmain) hreach

/-- Between any two steps of a run that started from a file of complete records,
a restart from the current file has the users of the memory, with the same
names, passwords, addresses and permissions. -/
theorem restart_same_accounts (hmain : main startup (records.flatMap client_t.bytes) = .ok start)
    (hreach : Reaches step start events server) (restarted : Startup) :
    ∃ rebuilt, main restarted server.memory.records = .ok rebuilt ∧
      rebuilt.memory.SameAccounts server.memory := by
  obtain ⟨hvalid, hmirrored⟩ := mirrored_of_reaches records hmain hreach
  exact hmirrored.restart hvalid restarted

/-- Two users are added, one logs in and the other is deleted. -/
def exampleRun : List Event :=
  [.accept .blank, .read (text "ADD ana 10.0.0.1 pw 1 0 1\n"),
    .read (text "ADD bob 10.0.0.2 pw 1 1 1\n"),
    .datagram ⟨⟨10, 0, 0, 1⟩, 5000⟩ (text "LOGIN ana pw") .blank, .read (text "DEL bob\n")]

theorem restart_same_accounts_witness : ∃ start server rebuilt, main .blank [] = .ok start ∧
    Reaches step start exampleRun server ∧
    server.memory.stored.map client_t.username_string = [text "ana"] ∧
    main .blank server.memory.records = .ok rebuilt ∧
      rebuilt.memory.SameAccounts server.memory := by
  have hview : observe .blank [] exampleRun (fun server _ =>
      server.memory.stored.map client_t.username_string) = .ok [text "ana"] := by
    decide +kernel
  obtain ⟨start, server, outputs, hmain, hrun, hstored⟩ := exists_of_observe hview
  obtain ⟨rebuilt, hrebuilt, hsame⟩ :=
    restart_same_accounts [] hmain ⟨outputs, hrun⟩ .blank
  exact ⟨start, server, rebuilt, hmain, ⟨outputs, hrun⟩, hstored, hrebuilt, hsame⟩

section Crash

/-- An output that is a system call on the records file. -/
def Output.isFile : Output → Bool
  | .write _ | .ftruncate => true
  | _ => false

/-- The records file when the server stops behind the first `k` outputs of a step. -/
def crashed (server : Server) (outputs : List Output) (k : Nat) : Bytes :=
  (outputs.take k).foldl Output.onRecords server.memory.records

theorem foldl_onRecords_quiet {outputs : List Output}
    (hquiet : ∀ output ∈ outputs, output.isFile = false) (before : Bytes) :
    outputs.foldl Output.onRecords before = before := by
  induction outputs with
  | nil => rfl
  | cons output outputs ih =>
    have hhead : output.onRecords before = before := by
      have hfile := hquiet output List.mem_cons_self
      cases output <;> simp_all [Output.onRecords, Output.isFile]
    rw [List.foldl_cons, hhead]
    exact ih fun output houtput => hquiet output (List.mem_cons_of_mem _ houtput)

/-- What a step does to the records file: nothing, one append, or one
truncation with an append for every user that remains. -/
inductive FileChange (server : Server) (event : Event) (next : Memory) (outputs : List Output) :
    Prop
  | unchanged (hquiet : ∀ output ∈ outputs, output.isFile = false)
  | append (record : Bytes) (answer : Output) (hanswer : answer.isFile = false)
    (houtputs : outputs = [.write record, answer])
    (hrecords : next.records = server.memory.records ++ record)
  | rewrite (u : Nat) (answer : Output) (hdeletes : server.Deletes event u)
    (hanswer : answer.isFile = false)
    (houtputs : outputs =
      .ftruncate :: (next.stored.map fun record => .write record.bytes) ++ [answer])

theorem AnswersOnly.quiet {socket : Int} (h : AnswersOnly socket outputs) :
    ∀ output ∈ outputs, output.isFile = false := by
  intro output houtput
  obtain ⟨message, rfl⟩ := h output houtput
  rfl

theorem Served.quiet {memory next : Memory} {sock : sockaddr_in} {datagram : Bytes}
    {locals : Locals} (h : Served memory sock datagram locals next outputs) :
    ∀ output ∈ outputs, output.isFile = false := by
  cases h with
  | unknown => simp [Memory.send_udp_message, Output.isFile]
  | command _ _ _ _ _ _ _ _ hperformed =>
    cases hperformed <;> simp [Memory.send_udp_message, relay, Output.isFile]

theorem Stepped.fileChange {next : Memory} (h : Stepped server event next outputs) :
    FileChange server event next outputs := by
  cases h with
  | served sock datagram locals _ _ hserved => exact .unchanged hserved.quiet
  | handled connection hadmin received _ _ hhandled =>
    cases hhandled with
    | unknown _ hquiet => exact .unchanged hquiet.quiet
    | command hreceived command args hcommand _ _ hadministered =>
      cases hadministered with
      | answered _ _ hquiet => exact .unchanged hquiet.quiet
      | added _ _ _ _ _ _ client _ _ _ _ hadded =>
        exact .append client.bytes _ rfl rfl (by rw [hadded.rest])
      | removed username u _ hargs huser hremoved =>
        refine .rewrite u (write_fd connection.socket (text "User " ++ username ++
          text " deleted.\n")) (.intro connection received args username u hadmin hreceived hcommand
          hargs huser) rfl ?_
        have hclients : next.clients = server.memory.clients := by rw [hremoved.rest]
        rw [Memory.stored, List.map_map, hclients]
        rfl
  | idle => exact .unchanged (by simp)

/-- What is in the file when a rewrite stops is the first part of the traversal. -/
theorem foldl_onRecords_take (stored : List client_t) (answer : Output)
    (hanswer : answer.isFile = false) (m : Nat) :
    (((stored.map fun record => Output.write record.bytes) ++ [answer]).take m).foldl
      Output.onRecords [] = (stored.take m).flatMap client_t.bytes := by
  have hlast : ∀ output ∈ [answer].take (m - (stored.map fun record =>
      Output.write record.bytes).length), output.isFile = false := by
    intro output houtput
    rw [List.mem_singleton.mp (List.mem_of_mem_take houtput)]
    exact hanswer
  have hwrites : (stored.map fun record => Output.write record.bytes).take m =
      ((stored.take m).map client_t.bytes).map Output.write := by
    rw [← List.map_take, List.map_map]
    rfl
  rw [List.take_append, List.foldl_append, foldl_onRecords_quiet hlast, hwrites,
    Memory.foldl_onRecords_map, List.nil_append, List.flatMap_def]

/-- Behind an append the file has the new record at its end. -/
theorem crashed_append {record : Bytes} {answer : Output} (hanswer : answer.isFile = false)
    (houtputs : outputs = [.write record, answer]) (m : Nat) :
    crashed server outputs (m + 1) = server.memory.records ++ record := by
  have hlast : ∀ output ∈ [answer].take m, output.isFile = false := by
    intro output houtput
    rw [List.mem_singleton.mp (List.mem_of_mem_take houtput)]
    exact hanswer
  rw [crashed, houtputs, List.take_succ_cons, List.foldl_cons, foldl_onRecords_quiet hlast]
  rfl

/-- Behind a truncation and `m` writes the file has the first `m` records. -/
theorem crashed_rewrite {stored : List client_t} {answer : Output}
    (hanswer : answer.isFile = false)
    (houtputs : outputs =
      .ftruncate :: (stored.map fun record => .write record.bytes) ++ [answer]) (m : Nat) :
    crashed server outputs (m + 1) = (stored.take m).flatMap client_t.bytes := by
  rw [crashed, houtputs, List.cons_append, List.take_succ_cons, List.foldl_cons,
    Output.onRecords, foldl_onRecords_take _ _ hanswer]

/-- Only a rewrite truncates the file. -/
theorem ftruncate_not_mem_append {record : Bytes} {answer : Output}
    (hanswer : answer.isFile = false) (houtputs : outputs = [.write record, answer]) (k : Nat) :
    .ftruncate ∉ outputs.take k := by
  intro hmem
  have hfile := List.mem_of_mem_take hmem
  simp only [houtputs, List.mem_cons, reduceCtorEq, List.not_mem_nil, or_false,
    false_or] at hfile
  rw [← hfile] at hanswer
  cases hanswer

/-- What a restart finds when a step stops behind its first `k` outputs: the users before the
step, or those behind it, or the first of those that a deletion leaves. -/
inductive CrashOutcome (server : Server) (event : Event) (next : Memory) (outputs : List Output)
    (k : Nat) (rebuilt : Memory) : Prop
  | before (hquiet : ∀ output ∈ outputs.take k, output.isFile = false)
    (hsame : rebuilt.SameAccounts server.memory)
  | behind (record : Bytes) (hwrite : .write record ∈ outputs.take k)
    (hnone : .ftruncate ∉ outputs.take k) (hsame : rebuilt.SameAccounts next)
  | part (u : Nat) (hdeletes : server.Deletes event u) (htruncates : .ftruncate ∈ outputs.take k)
    (hstored : ∀ record, record ∈ rebuilt.stored ↔ record ∈ next.stored.take (k - 1))

/-- A restart from a file that mirrors a memory has its users, and is mirrored again. -/
theorem Memory.Mirrored.restarted {memory : Memory} (hmirrored : memory.Mirrored)
    (hvalid : memory.Valid) (restarted : Startup) :
    ∃ rebuilt, main restarted memory.records = .ok rebuilt ∧ rebuilt.memory.Mirrored ∧
      rebuilt.memory.SameAccounts memory := by
  obtain ⟨rebuilt, hmain, hsame⟩ := hmirrored.restart hvalid restarted
  obtain ⟨records, hrecords, -⟩ := hmirrored
  exact ⟨rebuilt, hmain, mirrored_of_main records (hrecords ▸ hmain), hsame⟩

/-- Whatever the step was, the server starts again. -/
theorem crash_outcome (hvalid : server.memory.Valid) (hmirrored : server.memory.Mirrored)
    (hstep : step server event = .ok (next, outputs)) (k : Nat) (restarted : Startup) :
    ∃ rebuilt, main restarted (crashed server outputs k) = .ok rebuilt ∧
      rebuilt.memory.Mirrored ∧
      CrashOutcome server event next.memory outputs k rebuilt.memory := by
  have hstepped := stepped_of_step hvalid hstep
  have hvalid' := step_valid hvalid hstep
  obtain ⟨before, hbefore, hmirrors, hsame⟩ := hmirrored.restarted hvalid restarted
  cases hstepped.fileChange with
  | unchanged hquiet =>
    have htake : ∀ output ∈ outputs.take k, output.isFile = false :=
      fun output houtput => hquiet output (List.mem_of_mem_take houtput)
    refine ⟨before, ?_, hmirrors, .before htake hsame⟩
    rw [crashed, foldl_onRecords_quiet htake]
    exact hbefore
  | append record answer hanswer houtputs hrecords =>
    cases k with
    | zero => exact ⟨before, hbefore, hmirrors, .before (by simp) hsame⟩
    | succ m =>
      obtain ⟨behind, hbehind, hmirrors', hsame'⟩ :=
        (hstepped.mirrored hvalid hmirrored).restarted hvalid' restarted
      have hwrite : Output.write record ∈ outputs.take (m + 1) := by
        rw [houtputs, List.take_succ_cons]
        exact List.mem_cons_self
      refine ⟨behind, ?_, hmirrors', .behind record hwrite
        (ftruncate_not_mem_append hanswer houtputs _) hsame'⟩
      rw [crashed_append hanswer houtputs, ← hrecords]
      exact hbehind
  | rewrite u answer hdeletes hanswer houtputs =>
    cases k with
    | zero => exact ⟨before, hbefore, hmirrors, .before (by simp) hsame⟩
    | succ m =>
      obtain ⟨rebuilt, hrebuilt, hstored⟩ :=
        hvalid'.restart_part (List.take_subset m next.memory.stored) restarted
      have htruncates : Output.ftruncate ∈ outputs.take (m + 1) := by
        rw [houtputs, List.cons_append, List.take_succ_cons]
        exact List.mem_cons_self
      refine ⟨rebuilt, ?_, mirrored_of_main _ hrebuilt, .part u hdeletes htruncates hstored⟩
      rw [crashed_rewrite hanswer houtputs]
      exact hrebuilt

/-- A step that stops behind its first `k` outputs leaves a file that is loaded
back as the users before or behind the step, as long as it does not truncate.
Only a `DEL` of a stored user truncates; behind the truncation and `m` writes
the file is loaded back as the first `m` of the users that remain. -/
theorem crash_restart (hmain : main startup (records.flatMap client_t.bytes) = .ok start)
    (hreach : Reaches step start events server) (hstep : step server event = .ok (next, outputs))
    (k : Nat) (restarted : Startup) :
    (.ftruncate ∈ outputs.take k → ∃ u, server.Deletes event u) ∧
      ∃ rebuilt, main restarted (crashed server outputs k) = .ok rebuilt ∧
        if .ftruncate ∈ outputs.take k then
          ∀ record, record ∈ rebuilt.memory.stored ↔ record ∈ next.memory.stored.take (k - 1)
        else
          rebuilt.memory.SameAccounts server.memory ∨ rebuilt.memory.SameAccounts next.memory := by
  obtain ⟨hvalid, hmirrored⟩ := mirrored_of_reaches records hmain hreach
  obtain ⟨rebuilt, hrebuilt, -, houtcome⟩ := crash_outcome hvalid hmirrored hstep k restarted
  cases houtcome with
  | before hquiet hsame =>
    have hnone : Output.ftruncate ∉ outputs.take k := by
      intro hmem
      cases hquiet _ hmem
    refine ⟨fun hmem => absurd hmem hnone, rebuilt, hrebuilt, ?_⟩
    rw [if_neg hnone]
    exact Or.inl hsame
  | behind record hwrite hnone hsame =>
    refine ⟨fun hmem => absurd hmem hnone, rebuilt, hrebuilt, ?_⟩
    rw [if_neg hnone]
    exact Or.inr hsame
  | part u hdeletes htruncates hstored =>
    refine ⟨fun _ => ⟨u, hdeletes⟩, rebuilt, hrebuilt, ?_⟩
    rw [if_pos htruncates]
    exact hstored

/-- The users that the example leaves when `DEL` is cut off. -/
def twoUsers : List Event :=
  [.accept .blank, .read (text "ADD ana 10.0.0.1 pw 1 0 1\n"),
    .read (text "ADD bob 10.0.0.2 pw 1 1 1\n")]

theorem crash_restart_witness : ∃ start server next outputs rebuilt, main .blank [] = .ok start ∧
    Reaches step start twoUsers server ∧
    step server (.read (text "DEL bob\n")) = .ok (next, outputs) ∧
    main .blank (crashed server outputs 1) = .ok rebuilt ∧
    if .ftruncate ∈ outputs.take 1 then
      ∀ record, record ∈ rebuilt.memory.stored ↔ record ∈ next.memory.stored.take 0
    else
      rebuilt.memory.SameAccounts server.memory ∨ rebuilt.memory.SameAccounts next.memory := by
  have hview : observe .blank [] twoUsers (fun server _ => do
      let _ ← step server (.read (text "DEL bob\n"))
      return ()) = .ok (.ok ()) := by
    decide +kernel
  obtain ⟨start, server, outputs, hmain, hrun, hstep⟩ := exists_of_observe hview
  obtain ⟨⟨next, outputs'⟩, hstep, -⟩ := Result.bind_eq_ok_iff.mp hstep
  obtain ⟨-, rebuilt, hrebuilt, hcrash⟩ :=
    crash_restart [] hmain ⟨outputs, hrun⟩ hstep 1 .blank
  exact ⟨start, server, next, outputs', rebuilt, hmain, ⟨outputs, hrun⟩, hstep, hrebuilt, hcrash⟩

/-- A `DEL` of one user that stops behind the truncation loses the other. -/
theorem crash_loses_users : ∃ start server next outputs rebuilt, main .blank [] = .ok start ∧
    Reaches step start twoUsers server ∧
    step server (.read (text "DEL bob\n")) = .ok (next, outputs) ∧
    main .blank (crashed server outputs 1) = .ok rebuilt ∧
    ¬ (rebuilt.memory.SameAccounts server.memory ∨ rebuilt.memory.SameAccounts next.memory) ∧
    next.memory.stored.map client_t.username_string = [text "ana"] ∧
    rebuilt.memory.stored = [] := by
  have hview : observe .blank [] twoUsers (fun server _ => do
      let (next, outputs) ← step server (.read (text "DEL bob\n"))
      let rebuilt ← main .blank (crashed server outputs 1)
      return (server.memory.stored.length, next.memory.stored.map client_t.username_string,
        rebuilt.memory.stored)) = .ok (.ok (2, [text "ana"], [])) := by
    decide +kernel
  obtain ⟨start, server, outputs, hmain, hrun, hstep⟩ := exists_of_observe hview
  obtain ⟨⟨next, outputs'⟩, hstep, hrebuilt⟩ := Result.bind_eq_ok_iff.mp hstep
  obtain ⟨rebuilt, hrebuilt, hnames⟩ := Result.bind_eq_ok_iff.mp hrebuilt
  simp only [Result.pure_eq_ok, Except.ok.injEq, Prod.mk.injEq] at hnames
  obtain ⟨hserver, hnext, hempty⟩ := hnames
  have hlost {memory : Memory} (hsome : memory.stored ≠ []) :
      ¬ rebuilt.memory.SameAccounts memory := by
    intro hsame
    obtain ⟨record, hrecord⟩ := List.exists_mem_of_ne_nil _ hsome
    have := (hsame record.account).mpr (List.mem_map_of_mem hrecord)
    simp [hempty] at this
  refine ⟨start, server, next, outputs', rebuilt, hmain, ⟨outputs, hrun⟩, hstep, hrebuilt, ?_, hnext,
    hempty⟩
  rintro (hsame | hsame)
  · refine hlost ?_ hsame
    intro hnil
    simp [hnil] at hserver
  · refine hlost ?_ hsame
    intro hnil
    simp [hnil] at hnext

end Crash

end rc_project.server
