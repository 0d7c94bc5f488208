import RcProject.Server.AdminBuffer
import RcProject.Server.Authentication
import RcProject.Server.Refusals
import RcProject.Server.Restart

open rc_project.avl_tree rc_project.blocks rc_project.c_string rc_project.scanf
open rc_project.transition

namespace rc_project.server

section Happenings

/-- What happens to the server over its lives: an event, a new start from the file, or an event
behind whose first `k` outputs it stops and starts again. -/
inductive Happening
  | event (event : Event)
  | restart (startup : Startup)
  | stop (event : Event) (k : Nat) (startup : Startup)

/-- The lives of the server. Only the records file outlives a stop. -/
def live : Machine Server Happening (List Output)
  | server, .event event => step server event
  | server, .restart startup => do
    let rebuilt ← main startup server.memory.records
    return (rebuilt, [])
  | server, .stop event k startup => do
    let (_, outputs) ← step server event
    let rebuilt ← main startup (crashed server outputs k)
    return (rebuilt, outputs.take k)

variable {server next : Server} {outputs : List Output} {happening : Happening}

theorem live_stop_eq_ok_iff {event : Event} {k : Nat} {startup : Startup} :
    live server (.stop event k startup) = .ok (next, outputs) ↔
      ∃ behind written, step server event = .ok (behind, written) ∧
        main startup (crashed server written k) = .ok next ∧ outputs = written.take k := by
  simp only [live, Result.bind_eq_ok_iff, Prod.exists, Result.pure_eq_ok, Except.ok.injEq,
    Prod.mk.injEq]
  constructor
  · rintro ⟨behind, written, hstep, rebuilt, hmain, rfl, rfl⟩
    exact ⟨behind, written, hstep, hmain, rfl⟩
  · rintro ⟨behind, written, hstep, hmain, rfl⟩
    exact ⟨behind, written, hstep, next, hmain, rfl, rfl⟩

/-- What a happening leaves of the users: those behind a step, or those of a restart. -/
inductive Lived (server : Server) : Happening → Server → Prop
  | stepped (event : Event) (next : Server) (outputs : List Output)
    (hstep : step server event = .ok (next, outputs)) : Lived server (.event event) next
  | restarted (startup : Startup) (rebuilt : Server)
    (hsame : rebuilt.memory.SameAccounts server.memory) :
    Lived server (.restart startup) rebuilt
  | stopped (event : Event) (k : Nat) (startup : Startup) (next rebuilt : Server)
    (outputs : List Output) (hstep : step server event = .ok (next, outputs))
    (houtcome : CrashOutcome server event next.memory outputs k rebuilt.memory) :
    Lived server (.stop event k startup) rebuilt

/-- Every happening keeps the file in agreement with the user list. -/
theorem live_mirrored (hvalid : server.memory.Valid) (hmirrored : server.memory.Mirrored)
    (hlive : live server happening = .ok (next, outputs)) :
    next.memory.Valid ∧ next.memory.Mirrored ∧ Lived server happening next := by
  cases happening with
  | event event =>
    exact ⟨step_valid hvalid hlive, (stepped_of_step hvalid hlive).mirrored hvalid hmirrored,
      .stepped event next outputs hlive⟩
  | restart startup =>
    obtain ⟨rebuilt, hmain, hrest⟩ := Result.bind_eq_ok_iff.mp hlive
    cases hrest
    obtain ⟨rebuilt, hmain', hmirrored', hsame⟩ := hmirrored.restarted hvalid startup
    rw [hmain, Except.ok.injEq] at hmain'
    subst hmain'
    exact ⟨(started_of_main hmain).valid, hmirrored', .restarted startup _ hsame⟩
  | stop event k startup =>
    obtain ⟨behind, written, hstep, hmain, rfl⟩ := live_stop_eq_ok_iff.mp hlive
    obtain ⟨rebuilt, hmain', hmirrored', houtcome⟩ :=
      crash_outcome hvalid hmirrored hstep k startup
    rw [hmain, Except.ok.injEq] at hmain'
    subst hmain'
    exact ⟨(started_of_main hmain).valid, hmirrored',
      .stopped event k startup behind _ written hstep houtcome⟩

theorem reaches_live_mirrored {start : Server} {happenings : List Happening}
    (hvalid : start.memory.Valid) (hmirrored : start.memory.Mirrored)
    (hreach : Reaches live start happenings server) :
    server.memory.Valid ∧ server.memory.Mirrored :=
  hreach.invariant (fun server => server.memory.Valid ∧ server.memory.Mirrored)
    ⟨hvalid, hmirrored⟩ fun _ _ _ _ h hlive =>
      ⟨(live_mirrored h.1 h.2 hlive).1, (live_mirrored h.1 h.2 hlive).2.1⟩

end Happenings

section Flags

/-- The index is one of the two entries of `answer` in `cmd_login`. -/
def InAnswer (flag : BitVec 32) : Prop := 0 ≤ flag.toInt ∧ flag.toInt < 2

theorem inAnswer_of_flag {flag : BitVec 32} (hflag : flag = 0 ∨ flag = 1) : InAnswer flag := by
  obtain rfl | rfl := hflag
  · exact ⟨by decide, by decide⟩
  · exact ⟨by decide, by decide⟩

/-- The flags of every stored record are 0 or 1. -/
def Memory.StoresFlags (memory : Memory) : Prop :=
  ∀ record ∈ memory.stored, ∀ permission,
    record.flag permission = 0 ∨ record.flag permission = 1

/-- The flags are 0 or 1, and whoever logs in next is answered with entries of the array. -/
structure Memory.FlagsInRange (memory : Memory) : Prop where
  stored : memory.StoresFlags
  logins : ∀ event s u next, memory.LogsIn event s u next →
    ∀ permission, InAnswer ((memory.clients.contents u).flag permission)

/-- A read holds an `ADD` of a new user, with `flag` among its three numbers. -/
inductive Server.AddsFlag (server : Server) (flag : BitVec 32) : Event → Prop
  | intro (connection : Connection) (received args username ip password : Bytes)
    (client_server p2p group : BitVec 32)
    (hadmin : server.admin = some connection) (hreceived : received ≠ [])
    (hcommand : connection.received_command received = .ok (some (.ADD, args)))
    (hargs : sscanf args [.word USERNAME_SIZE, .space, .word INET_ADDRSTRLEN, .space,
      .word PASSWORD_SIZE, .space, .int, .space, .int, .space, .int] =
        .ok [.string username, .string ip, .string password, .int client_server, .int p2p,
          .int group])
    (hnew : ∀ u ∈ server.memory.users,
      (server.memory.clients.contents u).username_string ≠ cstr username)
    (hflag : flag ∈ [client_server, p2p, group]) :
    server.AddsFlag flag (.read received)

/-- A new user is written to the file with a flag other than 0 and 1. -/
inductive Server.AddsOutside (server : Server) : Happening → Prop
  | event (event : Event) (flag : BitVec 32) (hadds : server.AddsFlag flag event)
    (hflag : ¬ (flag = 0 ∨ flag = 1)) : server.AddsOutside (.event event)
  | stop (event : Event) (k : Nat) (startup : Startup) (flag : BitVec 32)
    (hadds : server.AddsFlag flag event) (hflag : ¬ (flag = 0 ∨ flag = 1)) (hk : 0 < k) :
    server.AddsOutside (.stop event k startup)

variable {memory other : Memory} {server next : Server} {event : Event} {outputs : List Output}

theorem Memory.Valid.flagsInRange_iff (hvalid : memory.Valid) :
    memory.FlagsInRange ↔ memory.StoresFlags := by
  constructor
  · exact Memory.FlagsInRange.stored
  · intro hstored
    refine ⟨hstored, ?_⟩
    intro event s u next hlogs permission
    cases hlogs with
    | intro _ _ _ _ _ _ _ _ _ _ _ _ _ huser =>
      have hu := (hvalid.find_user_eq_some_iff.mp huser).2.1
      exact inAnswer_of_flag (hstored _ (mem_stored_iff.mpr ⟨u, hu, rfl⟩) permission)

theorem Memory.SameAccounts.symm (h : memory.SameAccounts other) : other.SameAccounts memory :=
  fun account => (h account).symm

theorem Memory.SameAccounts.exists_flag (h : memory.SameAccounts other) {record : client_t}
    (hrecord : record ∈ memory.stored) (permission : Permission) :
    ∃ old ∈ other.stored, old.flag permission = record.flag permission := by
  obtain ⟨old, hold, haccount⟩ := List.mem_map.mp ((h _).mp (List.mem_map_of_mem hrecord))
  exact ⟨old, hold, client_t.flag_eq_of_account haccount permission⟩

theorem Memory.SameAccounts.storesFlags (h : memory.SameAccounts other)
    (hstored : other.StoresFlags) : memory.StoresFlags := by
  intro record hrecord permission
  obtain ⟨old, hold, hflag⟩ := h.exists_flag hrecord permission
  rw [← hflag]
  exact hstored old hold permission

theorem Memory.bind_exists_flag {s u : Nat} (hnul : 0 ∈ (memory.clients.contents u).ip.bytes)
    {record : client_t} (hrecord : record ∈ (memory.bind s u).stored) (permission : Permission) :
    ∃ old ∈ memory.stored, old.flag permission = record.flag permission := by
  obtain ⟨v, hv, rfl⟩ := Memory.mem_stored_iff.mp hrecord
  exact ⟨memory.clients.contents v, Memory.mem_stored_iff.mpr ⟨v, hv, rfl⟩,
    client_t.flag_eq_of_account (Memory.bind_account hnul v).symm permission⟩

/-- Every flag behind a datagram was there before. -/
theorem Served.exists_flag {next : Memory} {sock : sockaddr_in} {datagram : Bytes}
    {locals : Locals} (h : Served memory sock datagram locals next outputs) {record : client_t}
    (hrecord : record ∈ next.stored) (permission : Permission) :
    ∃ old ∈ memory.stored, old.flag permission = record.flag permission := by
  cases h with
  | unknown _ _ hopened => exact ⟨record, hopened.stored_eq ▸ hrecord, rfl⟩
  | command opened _ hopened _ _ _ _ _ hperformed =>
    rw [← hopened.stored_eq]
    cases hperformed with
    | login _ _ _ _ _ _ _ _ hnul => exact Memory.bind_exists_flag hnul hrecord permission
    | create _ _ _ _ _ _ _ _ _ hcreated => exact ⟨record, hcreated.stored_eq ▸ hrecord, rfl⟩
    | refused | msg | p2p | get => exact ⟨record, hrecord, rfl⟩

/-- Every flag behind a step was there before, or an `ADD` brought it. -/
theorem Stepped.exists_flag {next : Memory} (hvalid : server.memory.Valid)
    (h : Stepped server event next outputs) {record : client_t} (hrecord : record ∈ next.stored)
    (permission : Permission) :
    (∃ old ∈ server.memory.stored, old.flag permission = record.flag permission) ∨
      server.AddsFlag (record.flag permission) event := by
  cases h with
  | served _ _ _ _ _ hserved => exact Or.inl (hserved.exists_flag hrecord permission)
  | handled connection hadmin received _ _ hhandled =>
    cases hhandled with
    | unknown => exact Or.inl ⟨record, hrecord, rfl⟩
    | command hreceived command args hcommand _ _ hadministered =>
      cases hadministered with
      | answered => exact Or.inl ⟨record, hrecord, rfl⟩
      | added username ip password client_server p2p group client _ hargs hclient hnew hadded =>
        obtain hold | rfl := (hadded.mem_stored hvalid).mp hrecord
        · exact Or.inl ⟨record, hold, rfl⟩
        · rw [username_string_of_new_client hclient] at hnew
          refine Or.inr (.intro connection received args username ip password client_server p2p
            group hadmin hreceived hcommand hargs (fun u hu => (hnew u hu).symm) ?_)
          obtain ⟨_, _, _, -, -, -, rfl⟩ := new_client_eq_ok_iff.mp hclient
          cases permission <;> simp [client_t.flag]
      | removed _ _ _ _ _ hremoved =>
        exact Or.inl ⟨record, hremoved.stored_sublist.subset hrecord, rfl⟩
  | idle => exact Or.inl ⟨record, hrecord, rfl⟩

theorem Server.AddsFlag.exists_step (hvalid : server.memory.Valid) {flag : BitVec 32}
    (h : server.AddsFlag flag event) : ∃ next outputs, step server event = .ok (next, outputs) := by
  cases h with
  | intro connection received args _ _ _ _ _ _ hadmin hreceived hcommand hargs =>
    obtain ⟨buffer, hdispatch⟩ := exists_dispatch hcommand
    obtain ⟨result, hadd⟩ : ∃ result, answered server.memory connection (some (.ADD, args)) =
      .ok result := hvalid.exists_cmd_functions (fits_of_sscanf_add hargs)
    rw [step_read_eq hadmin hreceived hdispatch, hadd]
    exact ⟨_, _, rfl⟩

/-- An `ADD` of a new user is carried out, and stores its three numbers. -/
theorem Server.AddsFlag.carried_out (hvalid : server.memory.Valid) {flag : BitVec 32}
    (h : server.AddsFlag flag event) (hstep : step server event = .ok (next, outputs)) :
    (∃ record ∈ next.memory.stored, ∃ permission, record.flag permission = flag) ∧
      ∃ bytes answer, answer.isFile = false ∧ outputs = [.write bytes, answer] := by
  cases h with
  | intro connection received args username ip password client_server p2p group hadmin hreceived
      hcommand hargs hnew hflag =>
    obtain ⟨buffer, hdispatch⟩ := exists_dispatch hcommand
    rw [step_read_eq hadmin hreceived hdispatch] at hstep
    obtain ⟨⟨memory, exit, answered⟩, hadd, hstep⟩ := Result.bind_eq_ok_iff.mp hstep
    cases hstep
    have houtcome : server.memory.AddOutcome connection.socket args memory outputs :=
      hvalid.cmd_add_outcome hadd
    cases houtcome with
    | usage hnone => exact absurd hargs (hnone _ _ _ _ _ _)
    | taken _ _ _ _ _ _ u hargs' huser =>
      cases hargs.symm.trans hargs'
      obtain ⟨-, hu, hname⟩ := hvalid.find_user_eq_some_iff.mp huser
      exact absurd hname (hnew u hu)
    | created _ _ _ _ _ _ client _ hargs' hclient _ hadded =>
      cases hargs.symm.trans hargs'
      refine ⟨⟨client, (hadded.mem_stored hvalid).mpr (Or.inr rfl), ?_⟩, _, _, rfl, rfl⟩
      obtain ⟨_, _, _, -, -, -, rfl⟩ := new_client_eq_ok_iff.mp hclient
      simp only [List.mem_cons, List.not_mem_nil, or_false] at hflag
      obtain rfl | rfl | rfl := hflag
      · exact ⟨.client_server, rfl⟩
      · exact ⟨.p2p, rfl⟩
      · exact ⟨.group, rfl⟩

/-- A step that adds no other flag leaves the flags in range. -/
theorem step_storesFlags (hvalid : server.memory.Valid) (hflags : server.memory.StoresFlags)
    (hinside : ∀ flag, server.AddsFlag flag event → flag = 0 ∨ flag = 1)
    (hstep : step server event = .ok (next, outputs)) : next.memory.StoresFlags := by
  intro record hrecord permission
  obtain ⟨old, hold, hflag⟩ | hadds :=
    (stepped_of_step hvalid hstep).exists_flag hvalid hrecord permission
  · rw [← hflag]
    exact hflags old hold permission
  · exact hinside _ hadds

/-- A restart behind the first outputs of a step has the flags from before it, or those from
behind it if there was an output. -/
theorem CrashOutcome.storesFlags {k : Nat} {next rebuilt : Memory}
    (h : CrashOutcome server event next outputs k rebuilt) (hflags : server.memory.StoresFlags)
    (hnext : 0 < k → next.StoresFlags) : rebuilt.StoresFlags := by
  have hpos {output : Output} (hmem : output ∈ outputs.take k) : 0 < k := by
    apply Nat.pos_of_ne_zero
    rintro rfl
    simp at hmem
  cases h with
  | before _ hsame => exact hsame.storesFlags hflags
  | behind _ hwrite _ hsame => exact hsame.storesFlags (hnext (hpos hwrite))
  | part _ _ htruncates hstored =>
    intro record hrecord
    exact hnext (hpos htruncates) record (List.mem_of_mem_take ((hstored record).mp hrecord))

/-- A record that was written to the file is there again behind a restart. -/
theorem CrashOutcome.exists_flag {k : Nat} {next rebuilt : Memory}
    (h : CrashOutcome server event next outputs k rebuilt) {bytes : Bytes} {answer : Output}
    (hanswer : answer.isFile = false) (houtputs : outputs = [.write bytes, answer]) (hk : 0 < k)
    {record : client_t} (hrecord : record ∈ next.stored) (permission : Permission) :
    ∃ old ∈ rebuilt.stored, old.flag permission = record.flag permission := by
  cases h with
  | before hquiet =>
    obtain ⟨m, rfl⟩ := Nat.exists_eq_succ_of_ne_zero (Nat.ne_of_gt hk)
    have hwrite : Output.write bytes ∈ outputs.take (m + 1) := by
      rw [houtputs, List.take_succ_cons]
      exact List.mem_cons_self
    cases hquiet _ hwrite
  | behind _ _ _ hsame => exact hsame.symm.exists_flag hrecord permission
  | part _ _ htruncates => exact absurd htruncates (ftruncate_not_mem_append hanswer houtputs k)

/-- An `ADD` with a number other than 0 and 1 leaves a record with this flag, and every other
happening leaves the flags in range. -/
theorem Lived.flagsInRange_iff (hvalid : server.memory.Valid) (hvalid' : next.memory.Valid)
    {happening : Happening} (h : Lived server happening next)
    (hflags : server.memory.FlagsInRange) :
    next.memory.FlagsInRange ↔ ¬ server.AddsOutside happening := by
  rw [hvalid'.flagsInRange_iff]
  constructor
  · intro hstored houtside
    cases houtside with
    | event event flag hadds hflag =>
      cases h with
      | stepped _ _ outputs hstep =>
        obtain ⟨⟨record, hrecord, permission, rfl⟩, -⟩ := hadds.carried_out hvalid hstep
        exact hflag (hstored record hrecord permission)
    | stop event k startup flag hadds hflag hk =>
      cases h with
      | stopped _ _ _ behind _ outputs hstep houtcome =>
        obtain ⟨⟨record, hrecord, permission, rfl⟩, bytes, answer, hanswer, houtputs⟩ :=
          hadds.carried_out hvalid hstep
        obtain ⟨old, hold, hsame⟩ :=
          houtcome.exists_flag hanswer houtputs hk hrecord permission
        exact hflag (hsame ▸ hstored old hold permission)
  · intro hinside
    cases h with
    | stepped event _ outputs hstep =>
      refine step_storesFlags hvalid hflags.stored ?_ hstep
      intro flag hadds
      by_contra hflag
      exact hinside (.event event flag hadds hflag)
    | restarted startup _ hsame => exact hsame.storesFlags hflags.stored
    | stopped event k startup behind _ outputs hstep houtcome =>
      refine houtcome.storesFlags hflags.stored ?_
      intro hk
      refine step_storesFlags hvalid hflags.stored ?_ hstep
      intro flag hadds
      by_contra hflag
      exact hinside (.stop event k startup flag hadds hflag hk)

theorem Server.AddsOutside.exists_live (hvalid : server.memory.Valid) {happening : Happening}
    (h : server.AddsOutside happening) :
    ∃ next outputs, live server happening = .ok (next, outputs) := by
  cases h with
  | event event flag hadds hflag => exact hadds.exists_step hvalid
  | stop event k startup flag hadds hflag hk =>
    obtain ⟨behind, written, hstep⟩ := hadds.exists_step hvalid
    obtain ⟨rebuilt, hmain, -⟩ := exists_main startup (crashed server written k)
    exact ⟨rebuilt, _, live_stop_eq_ok_iff.mpr ⟨behind, written, hstep, hmain, rfl⟩⟩

/-- An empty file has no users. -/
theorem storesFlags_of_main {startup : Startup} {start : Server}
    (hmain : main startup [] = .ok start) : start.memory.StoresFlags := by
  obtain ⟨start', hmain', -, hstored⟩ := exists_main_records startup []
  rw [List.flatMap_nil, hmain, Except.ok.injEq] at hmain'
  subst hmain'
  intro record hrecord
  cases (hstored record).mp hrecord

/-- Over all lives of a server whose file was empty, the flags are 0 or 1 in every state and
every login reads entries of `answer`, if and only if no `ADD` of a new user that reaches the
file has a number other than 0 and 1. -/
theorem flags_in_range_iff {startup : Startup} {start : Server} {happenings : List Happening}
    (hmain : main startup [] = .ok start) :
    (∀ past rest server, happenings = past ++ rest → Reaches live start past server →
      server.memory.FlagsInRange) ↔
    ∀ past happening rest server, happenings = past ++ happening :: rest →
      Reaches live start past server → ¬ server.AddsOutside happening := by
  have hvalid := (started_of_main hmain).valid
  have hmirrored := mirrored_of_main [] hmain
  constructor
  · intro hflags past happening rest server hpast hreach houtside
    obtain ⟨hvalid', hmirrored'⟩ := reaches_live_mirrored hvalid hmirrored hreach
    obtain ⟨next, outputs, hlive⟩ := houtside.exists_live hvalid'
    obtain ⟨hvalid'', -, hlived⟩ := live_mirrored hvalid' hmirrored' hlive
    have hnext := hflags (past ++ [happening]) rest next (by simp [hpast]) (hreach.snoc hlive)
    exact (hlived.flagsInRange_iff hvalid' hvalid'' (hflags _ _ _ hpast hreach)).mp hnext houtside
  · intro hinside past rest server hpast hreach
    refine Reaches.history_when (fun _ server => server.memory.FlagsInRange)
      (fun server happening => ¬ server.AddsOutside happening) hinside ?_ ?_ hpast hreach
    · exact hvalid.flagsInRange_iff.mpr (storesFlags_of_main hmain)
    · intro past state happening next outputs hreach hflags hclean hlive
      obtain ⟨hvalid', hmirrored'⟩ := reaches_live_mirrored hvalid hmirrored hreach
      obtain ⟨hvalid'', -, hlived⟩ := live_mirrored hvalid' hmirrored' hlive
      exact (hlived.flagsInRange_iff hvalid' hvalid'' hflags).mpr hclean

/-- The admin adds a user with the given numbers and the server is started anew. -/
def flagLives (line : Bytes) : List Happening :=
  [.event (.accept .blank), .event (.read line), .restart .blank]

/-- Only what a line adds can be out of range. -/
theorem not_addsOutside_line {server : Server} {received args username ip password : Bytes}
    {client_server p2p group : BitVec 32} (hshort : received.length ≤ BUFFER_SIZE)
    (hends : ∃ c ∈ received, endsLine c = true)
    (hparse : parse_line commands (line received) = some (.ADD, args))
    (hargs : sscanf args [.word USERNAME_SIZE, .space, .word INET_ADDRSTRLEN, .space,
      .word PASSWORD_SIZE, .space, .int, .space, .int, .space, .int] =
        .ok [.string username, .string ip, .string password, .int client_server, .int p2p,
          .int group])
    (hinside : ∀ flag ∈ [client_server, p2p, group], flag = 0 ∨ flag = 1) :
    ¬ server.AddsOutside (.event (.read received)) := by
  intro houtside
  cases houtside with
  | event _ flag hadds hflag =>
    cases hadds with
    | intro connection _ _ _ _ _ _ _ _ hadmin hreceived hcommand hargs' hnew hmem =>
      rw [connection.received_command_of_line_end hshort hends, hparse, Except.ok.injEq] at hcommand
      cases hcommand
      cases hargs.symm.trans hargs'
      exact hflag (hinside flag hmem)

theorem flags_in_range_iff_witness : ∃ start server, main .blank [] = .ok start ∧
    Reaches live start (flagLives (text "ADD ana 10.0.0.1 pw 1 0 1\n")) server ∧
    server.memory.stored.map client_t.username_string = [text "ana"] ∧
    server.memory.FlagsInRange := by
  have hview : (do
      let start ← main .blank []
      let last ← run live start (flagLives (text "ADD ana 10.0.0.1 pw 1 0 1\n"))
      return last.1.memory.stored.map client_t.username_string) = Except.ok [text "ana"] := by
    decide +kernel
  obtain ⟨start, hmain, hview⟩ := Result.bind_eq_ok_iff.mp hview
  obtain ⟨⟨server, outputs⟩, hrun, hview⟩ := Result.bind_eq_ok_iff.mp hview
  refine ⟨start, server, hmain, ⟨outputs, hrun⟩, Except.ok.inj hview, ?_⟩
  refine (flags_in_range_iff hmain).mpr ?_ _ [] server (List.append_nil _).symm ⟨outputs, hrun⟩
  have hparse : parse_line commands (line (text "ADD ana 10.0.0.1 pw 1 0 1\n")) =
      some (.ADD, text "ana 10.0.0.1 pw 1 0 1") := by
    decide +kernel
  have hargs : sscanf (text "ana 10.0.0.1 pw 1 0 1") [.word USERNAME_SIZE, .space,
      .word INET_ADDRSTRLEN, .space, .word PASSWORD_SIZE, .space, .int, .space, .int, .space,
      .int] = .ok [.string (text "ana"), .string (text "10.0.0.1"), .string (text "pw"), .int 1,
        .int 0, .int 1] := by
    decide +kernel
  intro past happening rest server heq _
  obtain _ | ⟨_, _ | ⟨_, _ | ⟨_, past⟩⟩⟩ := past
  · cases heq
    rintro ⟨_, _, ⟨⟩⟩
  · cases heq
    exact not_addsOutside_line (by decide) (by decide) hparse hargs (by simp)
  · cases heq
    rintro ⟨⟩
  · simp [flagLives] at heq

/-- The admin may add the flag 7. It outlives a restart, and the login of its user reads
behind the array. -/
theorem flag_outside_answer : ∃ start server s u next, main .blank [] = .ok start ∧
    Reaches live start (flagLives (text "ADD ana 10.0.0.1 pw 7 1 1\n")) server ∧
    server.memory.LogsIn (.datagram ⟨⟨10, 0, 0, 1⟩, 5000⟩ (text "LOGIN ana pw") .blank) s u next ∧
    ¬ InAnswer ((server.memory.clients.contents u).flag .client_server) := by
  have hview : (do
      let start ← main .blank []
      let last ← run live start (flagLives (text "ADD ana 10.0.0.1 pw 7 1 1\n"))
      let login ← step last.1 (.datagram ⟨⟨10, 0, 0, 1⟩, 5000⟩ (text "LOGIN ana pw") .blank)
      return (login.2.filterMap Output.login, (last.1.memory.clients.contents 0).client_server)) =
        Except.ok ([(0, 0)], 7) := by
    decide +kernel
  obtain ⟨start, hmain, hview⟩ := Result.bind_eq_ok_iff.mp hview
  obtain ⟨⟨server, outputs⟩, hrun, hview⟩ := Result.bind_eq_ok_iff.mp hview
  obtain ⟨⟨next, answers⟩, hstep, hview⟩ := Result.bind_eq_ok_iff.mp hview
  simp only [Result.pure_eq_ok, Except.ok.injEq, Prod.mk.injEq] at hview
  obtain ⟨hlogin, hflag⟩ := hview
  have hvalid := (reaches_live_mirrored (started_of_main hmain).valid (mirrored_of_main [] hmain)
    ⟨outputs, hrun⟩).1
  obtain ⟨-, hnone⟩ | ⟨s, u, hlogs, hone⟩ := (stepped_of_step hvalid hstep).keeps_or_login hvalid
  · rw [hnone] at hlogin
    cases hlogin
  · rw [hone] at hlogin
    cases hlogin
    refine ⟨start, server, 0, 0, next.memory, hmain, ⟨outputs, hrun⟩, hlogs, ?_⟩
    rw [client_t.flag, hflag]
    rintro ⟨-, hbound⟩
    exact absurd hbound (by decide)

end Flags

end rc_project.server
