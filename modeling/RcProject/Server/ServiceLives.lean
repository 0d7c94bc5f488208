import RcProject.Server.ServiceAdmin

open rc_project.blocks rc_project.c_string rc_project.scanf rc_project.transition

namespace rc_project.server

namespace Service

/-- What is asked of the service. -/
inductive Request
  | datagram (sock : sockaddr_in) (command : Option (ClientCommand × Bytes)) (locals : Locals)
  | admin (socket : Int) (command : Option (AdminCommand × Bytes))

/-- A request, with what is sent for it. -/
inductive Serves : Spec Service (Request × List Sent)
  | datagram {service next : Service} {sock : sockaddr_in}
    {command : Option (ClientCommand × Bytes)} {locals : Locals} {sent : List Sent}
    (hserve : service.serve sock locals command = .ok (next, sent)) :
    Serves service (.datagram sock command locals, sent) next
  | admin {service next : Service} {socket : Int} {command : Option (AdminCommand × Bytes)}
    {sent : List Sent} (hhandles : service.Handles socket command sent next) :
    Serves service (.admin socket command, sent) next

/-- An account without its port, by the name of its user. -/
def lookup (service : Service) (name : Bytes) : Option Account :=
  (service.accounts name).map fun u => { service.account u with port := 0 }

/-- A service that has just been started, with some of the accounts of another. -/
structure Rescues (next service : Service) : Prop where
  sessions : ∀ sock, next.sessions sock = none
  groups : ∀ name, next.groups name = none
  current_group : next.current_group = 0
  accounts : ∀ name account, next.lookup name = some account → service.lookup name = some account

/-- A service that has just been started, with the accounts of another. -/
structure Restarts (next service : Service) : Prop extends next.Rescues service where
  all : ∀ name, next.lookup name = service.lookup name

/-- What happens to the service: it serves a request, or it is stopped and started again,
also in the middle of a request. -/
inductive Episode
  | serves (request : Request) (sent : List Sent)
  | restart
  | crash (request : Request) (sent : List Sent)

/-- A crash leaves the accounts as they were in front of the request or behind it. Behind a
part of a deletion only some of them are left. -/
inductive Lives : Spec Service Episode
  | serves {service next : Service} {request : Request} {sent : List Sent}
    (hserves : Serves service (request, sent) next) : Lives service (.serves request sent) next
  | restart {service next : Service} (hrestarts : next.Restarts service) :
    Lives service .restart next
  | crash {service behind next : Service} {request : Request} {sent all : List Sent}
    (hserves : Serves service (request, all) behind) (hsent : sent <+: all)
    (hrestarts : next.Restarts service ∨ next.Restarts behind ∨
      (∃ socket args, request = .admin socket (some (.DEL, args))) ∧ next.Rescues behind) :
    Lives service (.crash request sent) next

end Service

/-- What an event asks of the server. -/
def Server.request (server : Server) : Event → Option Service.Request
  | .datagram sock datagram locals =>
    (received_command datagram locals).toOption.map fun command =>
      .datagram sock command locals
  | .accept _ => none
  | .read received =>
    match server.admin with
    | none => none
    | some connection =>
      if received = [] then none
      else (connection.received_command received).toOption.map fun command =>
        .admin connection.socket command

/-- What is seen of the server while something happens to it. -/
def Server.episodes (server : Server) : Happening → List Output → List Service.Episode
  | .event event, outputs =>
    (server.request event).toList.map fun request =>
      .serves request (outputs.filterMap Output.sent)
  | .restart _, _ => [.restart]
  | .stop event _ _, outputs =>
    match server.request event with
    | none => [.restart]
    | some request => [.crash request (outputs.filterMap Output.sent)]

section Steps

variable {server next : Server} {event : Event} {outputs : List Output}

theorem Stepped.client_eq_none {next : Memory} {received : Bytes}
    (h : Stepped server (.read received) next outputs) :
    ∀ output ∈ outputs, output.client = none := by
  cases h with
  | handled _ _ _ _ _ hhandled => exact hhandled.client_eq_none
  | idle => simp

/-- A read is no request, or the command in it is answered. -/
theorem read_cases {received : Bytes} (hstep : step server (.read received) = .ok (next, outputs)) :
    (server.request (.read received) = none ∧ next.memory = server.memory ∧ outputs = []) ∨
      ∃ connection found exit, server.admin = some connection ∧
        server.request (.read received) = some (.admin connection.socket found) ∧
        answered server.memory connection found = .ok (next.memory, exit, outputs) := by
  cases hadmin : server.admin with
  | none =>
    rw [step, hadmin] at hstep
    cases hstep
    exact Or.inl ⟨by rw [Server.request, hadmin], rfl, rfl⟩
  | some connection =>
    by_cases hend : received = []
    · simp only [step, hadmin, handle_admin, if_pos hend, Result.pure_eq_ok, Result.ok_bind,
        Except.ok.injEq, Prod.mk.injEq] at hstep
      obtain ⟨rfl, rfl⟩ := hstep
      exact Or.inl ⟨by simp only [Server.request, hadmin, if_pos hend], rfl, rfl⟩
    · cases hdispatch : dispatch commands (connection.read received) with
      | error e =>
        simp only [step, hadmin, handle_admin, if_neg hend, cmd_function, hdispatch,
          Result.error_bind] at hstep
        cases hstep
      | ok result =>
        obtain ⟨buffer, found⟩ := result
        rw [step_read_eq hadmin hend hdispatch] at hstep
        obtain ⟨⟨memory, exit, outputs'⟩, hanswered, hstep⟩ := Result.bind_eq_ok_iff.mp hstep
        cases hstep
        have hcommand : connection.received_command received = .ok found := by
          simp only [Connection.received_command, hdispatch, Result.ok_bind, Result.pure_eq_ok]
        refine Or.inr ⟨connection, found, exit, rfl, ?_, hanswered⟩
        simp only [Server.request, hadmin, if_neg hend, hcommand]
        rfl

end Steps

section Restarts

namespace Memory

variable {memory next : Memory}

/-- No address in a record runs on into its port. -/
def Terminated (memory : Memory) : Prop := ∀ record ∈ memory.stored, 0 ∈ record.ip.bytes

/-- Records that differ in their port only are one account. -/
theorem toAccount_congr {record other : client_t} (hnul : 0 ∈ record.ip.bytes)
    (hsame : record.account = other.account) :
    0 ∈ other.ip.bytes ∧ ({ record.toAccount with port := 0 } : Account) =
      { other.toAccount with port := 0 } := by
  have hrecord : ({ record with port := 0 } : client_t) = { other with port := 0 } :=
    congrArg Prod.snd hsame
  have hip : record.ip = other.ip := (client_t.mk.inj hrecord).2.2.1
  have hnul' : 0 ∈ other.ip.bytes := hip ▸ hnul
  exact ⟨hnul', by rw [← toAccount_port hnul, ← toAccount_port hnul', hrecord]⟩

theorem Terminated.bind {s u : Nat} (hterminated : memory.Terminated)
    (hnul : 0 ∈ (memory.clients.contents u).ip.bytes) : (memory.bind s u).Terminated := by
  intro record hrecord
  obtain ⟨v, hv, rfl⟩ := mem_stored_iff.mp hrecord
  exact (toAccount_congr (hterminated _ (mem_stored_iff.mpr ⟨v, hv, rfl⟩))
    (bind_account hnul v).symm).1

end Memory

variable {server next : Server} {event : Event} {outputs : List Output}

/-- A server that was just started has no sessions and no groups. -/
theorem Started.fresh {startup : Startup} {records : Bytes} (hstarted : Started startup records next)
    {service : Service} (haccounts : ∀ name account, next.memory.service.lookup name = some account →
      service.lookup name = some account) : next.memory.service.Rescues service where
  sessions sock := by
    rw [hstarted.valid.service_sessions_eq_none]
    intro t ht
    have hmem := ht.mem
    rw [hstarted.no_sessions] at hmem
    cases hmem
  groups name := by
    rw [Option.eq_none_iff_forall_ne_some]
    intro ip hip
    obtain ⟨g, hg, -⟩ := hstarted.valid.service_groups.mp hip
    rw [hstarted.no_groups] at hg
    cases hg
  current_group := by
    have hpool := hstarted.valid.pool.length_eq
    have hbound := hstarted.valid.pool_bound
    rw [hstarted.no_groups, List.length_map, List.length_take] at hpool
    have hsmall : next.memory.current_group = 0 := by
      simp only [List.length_nil, max_groups] at hpool hbound
      omega
    exact hsmall
  accounts := haccounts

theorem Server.Deletes.request {u : Nat} (hdeletes : server.Deletes event u) :
    ∃ socket args, server.request event = some (.admin socket (some (.DEL, args))) := by
  cases hdeletes with
  | intro connection received args username _ hadmin hreceived hcommand =>
    refine ⟨connection.socket, args, ?_⟩
    simp only [Server.request, hadmin, if_neg hreceived, hcommand]
    rfl

variable {startup : Startup} {start : Server} {records : List client_t}

end Restarts

end rc_project.server
