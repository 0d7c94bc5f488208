import RcProject.Server.Routing
import RcProject.Server.Sessions

open rc_project.blocks rc_project.c_string rc_project.scanf rc_project.transition

namespace rc_project.server

/-- The address of the listener of a client: its port has the two bytes exchanged. -/
def sockaddr_in.listener (sock : sockaddr_in) : sockaddr_in :=
  { sock with sin_port := htons (sock.sin_port.setWidth 32) }

/-- The address that a datagram comes from. -/
def Event.source : Event → Option sockaddr_in
  | .datagram sock .. => some sock
  | _ => none

namespace Memory

variable {memory opened next : Memory} {sock : sockaddr_in} {s : Nat}

/-- A session has its requests from an address. -/
def HasSource (memory : Memory) (sock : sockaddr_in) : Prop :=
  ∃ t ∈ memory.userSessions, (memory.sessions.contents t).sock = sock

theorem Opened.hasSource_iff (h : memory.Opened sock s opened) {sock' : sockaddr_in} :
    opened.HasSource sock' ↔ memory.HasSource sock' ∨ sock' = sock := by
  have hsock : (opened.sessions.contents s).sock = sock := by
    obtain ⟨hip, hport⟩ := h.valid.addressed s h.mem
    exact sockaddr_in_eq (hip.symm.trans h.ip) (hport.symm.trans h.port)
  constructor
  · rintro ⟨t, ht, rfl⟩
    obtain hold | ⟨rfl, -⟩ := h.new t ht
    · exact Or.inl ⟨t, hold, by rw [(h.old t hold).2]⟩
    · exact Or.inr hsock
  · rintro (⟨t, ht, rfl⟩ | rfl)
    · obtain ⟨hmem, hsame⟩ := h.old t ht
      exact ⟨t, hmem, by rw [hsame]⟩
    · exact ⟨s, h.mem, hsock⟩

/-- No command opens another session. -/
theorem Performed.hasSource_iff {args : Bytes} {locals : Locals} {command : ClientCommand}
    {outputs : List Output} (h : memory.Performed s args locals command next outputs) :
    next.HasSource sock ↔ memory.HasSource sock := by
  cases h with
  | login _ _ u =>
    have hsock (t : Nat) := (memory.bind_sessions_key s u t).2.2
    simp only [HasSource, hsock]
    rfl
  | create _ _ _ _ _ _ _ _ _ hcreated =>
    rw [hcreated.rest]
    rfl
  | _ => rfl

end Memory

variable {start server next : Server} {past : List Event} {event : Event} {outputs : List Output}
  {sock : sockaddr_in}

/-- The admin opens no session. -/
theorem Handled.hasSource_iff {memory next : Memory} {connection : Connection} {received : Bytes}
    (h : Handled memory connection received next outputs) :
    next.HasSource sock ↔ memory.HasSource sock := by
  obtain ⟨husers, hsessions⟩ := h.sessions
  rw [Memory.HasSource, Memory.HasSource, husers, hsessions]

theorem step_hasSource_iff (hvalid : server.memory.Valid)
    (hstep : step server event = .ok (next, outputs)) :
    next.memory.HasSource sock ↔ server.memory.HasSource sock ∨ event.source = some sock := by
  cases event with
  | datagram sock' datagram locals =>
    obtain ⟨⟨memory, outputs'⟩, hserve, hnext⟩ := Result.bind_eq_ok_iff.mp hstep
    cases hnext
    rw [Event.source, Option.some.injEq, @eq_comm _ sock']
    cases hvalid.served hserve with
    | unknown _ s hopened => exact hopened.hasSource_iff
    | command opened s hopened command args hcommand _ _ hperformed =>
      rw [hperformed.hasSource_iff, hopened.hasSource_iff]
  | accept connection =>
    rw [step] at hstep
    split at hstep <;> cases hstep <;> simp [Event.source]
  | read received =>
    have hstepped := stepped_of_step hvalid hstep
    generalize next.memory = memory at hstepped
    rw [show (Event.read received).source = none from rfl, or_iff_left (by simp)]
    cases hstepped with
    | handled connection hadmin received _ _ hhandled => exact hhandled.hasSource_iff
    | idle => rfl

/-- The sessions have their requests from the sources of the datagrams so far. -/
theorem reaches_hasSource_iff (hvalid : start.memory.Valid)
    (hnone : start.memory.userSessions = []) (hreach : Reaches step start past server) :
    server.memory.HasSource sock ↔ sock ∈ past.filterMap Event.source := by
  have hhistory := hreach.history (fun past state => state.memory.Valid ∧
    (state.memory.HasSource sock ↔ sock ∈ past.filterMap Event.source))
    ⟨hvalid, by simp [Memory.HasSource, hnone]⟩ ?_
  · exact hhistory.2
  · rintro past state event next outputs - ⟨hvalid, hsources⟩ hstep
    refine ⟨step_valid hvalid hstep, ?_⟩
    rw [step_hasSource_iff hvalid hstep, hsources, List.filterMap_append, List.mem_append]
    simp [eq_comm]

section Relays

/-- A datagram asks to relay a message to the client at an address: its session may use
`MSG`, and the record of the user that it names locates the session of the address. -/
inductive Memory.RelaysTo (memory : Memory) (event : Event) (target : sockaddr_in) : Prop
  | intro (client sender : Nat) (args username message : Bytes) (locals : Locals) (u t : Nat)
    (hrequest : memory.Requests client sender .client_server .MSG args locals event)
    (hargs : sscanf args [.word USERNAME_SIZE, .space, .line BUFFER_SIZE, .literal 115] =
      .ok [.string username, .string message])
    (hu : u ∈ memory.users) (hname : (memory.clients.contents u).username_string = cstr username)
    (ht : t ∈ memory.userSessions) (hlocated : memory.Located t u)
    (hsock : (memory.sessions.contents t).sock = target) :
    RelaysTo memory event target

/-- The address that a message is relayed to. -/
def Output.relayed : Output → Option sockaddr_in
  | .relay _ _ _ _ _ dest => some dest
  | _ => none

/-- The destination of a message is the listener of the session that is selected. -/
theorem relayed_relay (hvalid : server.memory.Valid) {client sender t : Nat}
    {username message : Bytes} {locals : Locals} (ht : t ∈ server.memory.userSessions) :
    (relay server.memory client sender username message t locals).relayed =
      some (server.memory.sessions.contents t).sock.listener := by
  have hport := (hvalid.addressed t ht).port
  simp only [relay, Output.relayed, sockaddr_in.listener, hport]

theorem Stepped.relays_to {memory : Memory} (hvalid : server.memory.Valid)
    (h : Stepped server event memory outputs) {dest : sockaddr_in}
    (hdest : dest ∈ outputs.filterMap Output.relayed) :
    ∃ target, server.memory.RelaysTo event target ∧ dest = target.listener := by
  cases h with
  | served sock datagram locals _ _ hserved =>
    cases hserved with
    | unknown => cases hdest
    | command opened s hopened command args hcommand _ _ hperformed =>
      cases hperformed with
      | msg username message sender u selected hpermitted hargs huser hsession =>
        obtain ⟨rfl, hrequest⟩ := hopened.requests hpermitted hcommand
        obtain ⟨-, hu, hname⟩ := hvalid.find_user_eq_some_iff.mp huser
        obtain ⟨ht, hlocated⟩ := hvalid.find_session_eq_some_iff_located.mp hsession
        rw [List.filterMap_cons, relayed_relay hvalid ht] at hdest
        obtain rfl : dest = _ := List.mem_singleton.mp hdest
        exact ⟨_, .intro s sender args username message locals u selected hrequest hargs hu hname ht
          hlocated rfl, rfl⟩
      | _ => cases hdest
  | handled connection hadmin received _ _ hhandled =>
    have hnil : outputs.filterMap Output.relayed = [] := by
      apply hhandled.filterMap_eq_nil
      intro output hclient
      cases output <;> first | rfl | cases hclient
    rw [hnil] at hdest
    cases hdest
  | idle => cases hdest

/-- A message is relayed to the listener of the client that it is for. -/
theorem relayed_iff (hvalid : server.memory.Valid)
    (hstep : step server event = .ok (next, outputs)) {dest : sockaddr_in} :
    dest ∈ outputs.filterMap Output.relayed ↔
      ∃ target, server.memory.RelaysTo event target ∧ dest = target.listener := by
  constructor
  · exact (stepped_of_step hvalid hstep).relays_to hvalid
  · rintro ⟨target, ⟨client, sender, args, username, message, locals, u, t, hrequest, hargs, hu, hname,
      ht, hlocated, hsock⟩, rfl⟩
    have hfits : (cstr username).length < USERNAME_SIZE :=
      (length_cstr_le username).trans_lt (word_of_sscanf hargs).2
    have huser := hvalid.find_user_eq_some_iff.mpr ⟨hfits, hu, hname⟩
    have hsession := hvalid.find_session_eq_some_iff_located.mpr ⟨ht, hlocated⟩
    rw [hrequest.step_eq hvalid, client_cmd_functions,
      cmd_msg_eq hrequest.permitted hargs huser hsession] at hstep
    cases hstep
    rw [List.filterMap_cons, relayed_relay hvalid ht, hsock]
    exact List.mem_cons_self

/-- What a step relays goes to the address of no session's requests. -/
def Server.Separated (next : Server) (outputs : List Output) : Prop :=
  ∀ dest ∈ outputs.filterMap Output.relayed, ¬ next.memory.HasSource dest

/-- What a step relays is separated from the requests exactly if no datagram so far came
from the listener that it is for. -/
theorem step_separated_iff (hvalid : start.memory.Valid)
    (hnone : start.memory.userSessions = []) (hreach : Reaches step start past server)
    (hstep : step server event = .ok (next, outputs)) :
    next.Separated outputs ↔ ∀ target, server.memory.RelaysTo event target →
      target.listener ∉ (past ++ [event]).filterMap Event.source := by
  have hvalid' := reaches_valid hvalid hreach
  have hsources (dest : sockaddr_in) : next.memory.HasSource dest ↔
      dest ∈ (past ++ [event]).filterMap Event.source :=
    reaches_hasSource_iff hvalid hnone (hreach.snoc hstep)
  constructor
  · intro hseparated target hrelays hmem
    have hdest := (relayed_iff hvalid' hstep).mpr ⟨target, hrelays, rfl⟩
    exact hseparated _ hdest ((hsources _).mpr hmem)
  · intro hnone' dest hdest hsource
    obtain ⟨target, hrelays, rfl⟩ := (relayed_iff hvalid' hstep).mp hdest
    exact hnone' target hrelays ((hsources _).mp hsource)

/-- A message that may be relayed is relayed. -/
theorem Memory.RelaysTo.exists_step {target : sockaddr_in} (hvalid : server.memory.Valid)
    (h : server.memory.RelaysTo event target) :
    ∃ next outputs, step server event = .ok (next, outputs) := by
  cases h with
  | intro client sender args username message locals u t hrequest hargs hu hname ht hlocated =>
    have hfits : (cstr username).length < USERNAME_SIZE :=
      (length_cstr_le username).trans_lt (word_of_sscanf hargs).2
    have huser := hvalid.find_user_eq_some_iff.mpr ⟨hfits, hu, hname⟩
    have hsession := hvalid.find_session_eq_some_iff_located.mpr ⟨ht, hlocated⟩
    rw [hrequest.step_eq hvalid, client_cmd_functions,
      cmd_msg_eq hrequest.permitted hargs huser hsession]
    exact ⟨_, _, rfl⟩

/-- In every run, no message is relayed to an address that requests come from if and only
if, whenever a message is to be relayed to a client, no datagram so far has come from the
host of the client and its port with the two bytes exchanged. -/
theorem relays_separated_iff {startup : Startup} {records : Bytes} {events : List Event}
    (hmain : main startup records = .ok start) :
    (∀ past event rest server next outputs, events = past ++ event :: rest →
      Reaches step start past server → step server event = .ok (next, outputs) →
        next.Separated outputs) ↔
    ∀ past event rest server, events = past ++ event :: rest → Reaches step start past server →
      ∀ target, server.memory.RelaysTo event target →
        target.listener ∉ (past ++ [event]).filterMap Event.source := by
  have hstarted := started_of_main hmain
  constructor
  · intro hseparated past event rest server heq hreach target hrelays
    have hvalid := reaches_valid hstarted.valid hreach
    obtain ⟨next, outputs, hstep⟩ := hrelays.exists_step hvalid
    have hnext := hseparated past event rest server next outputs heq hreach hstep
    exact (step_separated_iff hstarted.valid hstarted.no_sessions hreach hstep).mp hnext
      target hrelays
  · intro hsources past event rest server next outputs heq hreach hstep
    rw [step_separated_iff hstarted.valid hstarted.no_sessions hreach hstep]
    exact hsources past event rest server heq hreach

/-- No run relays a message to requests in which no datagram comes from a listener of a
source. -/
theorem listener_not_mem {startup : Startup} {records : Bytes} {events : List Event}
    (hmain : main startup records = .ok start)
    (hsources : ∀ sock ∈ events.filterMap Event.source,
      sock.listener ∉ events.filterMap Event.source)
    {rest : List Event} (heq : events = past ++ event :: rest)
    (hreach : Reaches step start past server) {target : sockaddr_in}
    (hrelays : server.memory.RelaysTo event target) :
    target.listener ∉ (past ++ [event]).filterMap Event.source := by
  have hstarted := started_of_main hmain
  have hsplit : events.filterMap Event.source = (past ++ [event]).filterMap Event.source ++
      rest.filterMap Event.source := by
    rw [← List.filterMap_append, heq, List.append_assoc, List.singleton_append]
  cases hrelays with
  | intro client sender args username message locals u t hrequest hargs hu hname ht hlocated hsock =>
    have hpast := (reaches_hasSource_iff hstarted.valid hstarted.no_sessions hreach).mp
      ⟨t, ht, hsock⟩
    have htarget : target ∈ events.filterMap Event.source := by
      rw [heq, List.filterMap_append]
      exact List.mem_append_left _ hpast
    intro hmem
    apply hsources target htarget
    rw [hsplit]
    exact List.mem_append_left _ hmem

/-- `ana` logs in at a port and sends a message to herself. -/
def messageRun (sin_port : BitVec 16) : List Event :=
  [.accept .blank, .read (text "ADD ana 10.0.0.1 pw 1 1 1\n"),
    .datagram ⟨⟨10, 0, 0, 1⟩, sin_port⟩ (text "LOGIN ana pw") .blank,
    .datagram ⟨⟨10, 0, 0, 1⟩, sin_port⟩ (text "MSG ana hi") .blank]

theorem relays_separated_iff_witness : ∃ start last outputs, main .blank [] = .ok start ∧
    run step start (messageRun 5000) = .ok (last, outputs) ∧
    outputs.flatten.filterMap Output.relayed = [⟨⟨10, 0, 0, 1⟩, 34835⟩] ∧
    ∀ past event rest server next outputs, messageRun 5000 = past ++ event :: rest →
      Reaches step start past server → step server event = .ok (next, outputs) →
        next.Separated outputs := by
  have hview : observe .blank [] (messageRun 5000)
      (fun _ outputs => outputs.flatten.filterMap Output.relayed) =
        .ok [⟨⟨10, 0, 0, 1⟩, 34835⟩] := by
    decide +kernel
  obtain ⟨start, last, outputs, hmain, hrun, hdest⟩ := exists_of_observe hview
  refine ⟨start, last, outputs, hmain, hrun, hdest, (relays_separated_iff hmain).mpr ?_⟩
  intro past event rest server heq hreach target hrelays
  exact listener_not_mem hmain (by decide +kernel) heq hreach hrelays

/-- The port 20560 has two equal bytes: a message arrives where its receiver waits for its
replies. -/
theorem relayed_to_requests : ∃ start server next outputs, main .blank [] = .ok start ∧
    Reaches step start ((messageRun 20560).take 3) server ∧
    step server (.datagram ⟨⟨10, 0, 0, 1⟩, 20560⟩ (text "MSG ana hi") .blank) =
      .ok (next, outputs) ∧
    outputs.filterMap Output.relayed = [⟨⟨10, 0, 0, 1⟩, 20560⟩] ∧
    next.memory.HasSource ⟨⟨10, 0, 0, 1⟩, 20560⟩ ∧ ¬ next.Separated outputs := by
  have hview : observe .blank [] ((messageRun 20560).take 3) (fun server _ => do
      let result ← step server
        (.datagram ⟨⟨10, 0, 0, 1⟩, 20560⟩ (text "MSG ana hi") .blank)
      return (result.2.filterMap Output.relayed, result.1.memory.userSessions,
        (result.1.memory.sessions.contents 0).sock)) =
      .ok (.ok ([⟨⟨10, 0, 0, 1⟩, 20560⟩], [0], ⟨⟨10, 0, 0, 1⟩, 20560⟩)) := by
    decide +kernel
  obtain ⟨start, server, outputs, hmain, hrun, hstep⟩ := exists_of_observe hview
  obtain ⟨⟨next, relayed⟩, hstep, hfacts⟩ := Result.bind_eq_ok_iff.mp hstep
  simp only [Result.pure_eq_ok, Except.ok.injEq, Prod.mk.injEq] at hfacts
  obtain ⟨hdest, hsessions, hsock⟩ := hfacts
  have hsource : next.memory.HasSource ⟨⟨10, 0, 0, 1⟩, 20560⟩ :=
    ⟨0, by rw [hsessions]; exact List.mem_cons_self, hsock⟩
  refine ⟨start, server, next, relayed, hmain, ⟨outputs, hrun⟩, hstep, hdest, hsource, ?_⟩
  intro hseparated
  exact hseparated _ (by rw [hdest]; exact List.mem_cons_self) hsource

end Relays

end rc_project.server
