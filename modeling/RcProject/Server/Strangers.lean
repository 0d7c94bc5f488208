import RcProject.Server.Passwords
import RcProject.Server.ServiceStrangers

open rc_project.blocks rc_project.c_string rc_project.scanf rc_project.transition

namespace rc_project.server

namespace Memory

/-- The memory with the users of another. -/
def onUsers (memory users : Memory) : Memory :=
  { memory with
    user_list := users.user_list
    clients := users.clients
    records := users.records }

theorem onUsers_service (memory users : Memory) : (memory.onUsers users).service =
    { memory.service with
      accounts := users.service.accounts
      account := users.service.account
      created := users.service.created } := rfl

variable {memory next other : Memory} {connection : Connection} {received : Bytes}
  {outputs : List Output}

section Admin

/-- What is done to the users of a memory is done to those of another one. -/
def SameUsers {α : Type} (other : Memory) (result result' : Memory × α) : Prop :=
  result' = (other.onUsers result.1, result.2)

theorem add_user_onUsers (client : client_t) (free_data write_data : Bool) :
    Result.Related (fun r r' => r' = (r.1, other.onUsers r.2.1, r.2.2))
      (memory.add_user client free_data write_data)
      ((other.onUsers memory).add_user client free_data write_data) := by
  unfold add_user
  refine Result.Related.bind_eq fun added _ => ?_
  exact .ite Iff.rfl (fun _ => .ok rfl) fun _ => .ok rfl

theorem remove_user_onUsers (client : client_t) (free_data write_data : Bool) :
    Result.Related (fun r r' => r' = (r.1, other.onUsers r.2.1, r.2.2))
      (memory.remove_user client free_data write_data)
      ((other.onUsers memory).remove_user client free_data write_data) := by
  unfold remove_user
  exact Result.Related.bind_eq fun removed _ => .ok rfl

theorem cmd_functions_onUsers (socket : Int) (args : Bytes) (command : AdminCommand) :
    Result.Related (SameUsers other) (cmd_functions memory socket args command)
      (cmd_functions (other.onUsers memory) socket args command) := by
  cases command with
  | LIST => exact Result.Related.bind_eq fun outputs _ => .ok rfl
  | ADD =>
    refine Result.Related.bind_eq fun values _ => ?_
    split
    · refine Result.Related.bind_eq fun client _ => ?_
      apply (add_user_onUsers client true true).bind
      rintro ⟨res, next, outputs⟩ _ - - rfl
      exact .ite Iff.rfl (fun _ => .ok rfl) fun _ => .ok rfl
    · exact .ok rfl
  | DEL =>
    refine Result.Related.bind_eq fun values _ => ?_
    split
    · refine Result.Related.bind_eq fun client _ => ?_
      apply (remove_user_onUsers client true true).bind
      rintro ⟨res, next, outputs⟩ _ - - rfl
      exact .ite Iff.rfl (fun _ => .ok rfl) fun _ => .ok rfl
    · exact .ok rfl
  | QUIT => exact .ok rfl

/-- The admin thread reads and writes the users only. -/
theorem handle_admin_onUsers (memory other : Memory) (connection : Connection) (received : Bytes) :
    Result.Related (SameUsers other) (handle_admin memory connection received)
      (handle_admin (other.onUsers memory) connection received) := by
  unfold handle_admin
  refine .ite Iff.rfl (fun _ => .ok rfl) fun _ => ?_
  have hfunction : Result.Related
      (fun r r' => r' = (r.1, r.2.map fun result => (other.onUsers result.1, result.2)))
      (cmd_function memory connection.socket (connection.read received))
      (cmd_function (other.onUsers memory) connection.socket (connection.read received)) := by
    refine Result.Related.bind_eq fun found _ => ?_
    obtain ⟨buffer, found⟩ := found
    cases found with
    | none => exact .ok rfl
    | some entry =>
      apply (cmd_functions_onUsers connection.socket entry.2 entry.1).bind
      rintro result _ - - rfl
      exact .ok rfl
  apply hfunction.bind
  rintro ⟨buffer, found⟩ _ - - rfl
  cases found <;> exact .ok rfl

end Admin

section Datagrams

/-- The same users with the same ports. -/
theorem KeepsUsers.onUsers_eq {memory' next' : Memory} (h : memory.KeepsUsers next)
    (h' : memory'.KeepsUsers next') (husers : memory'.onUsers memory = memory')
    (hports : next'.service.account = next.service.account) : next'.onUsers next = next' := by
  have hclients' : memory'.clients = memory.clients := by rw [← husers, onUsers]
  have hclients : next.clients = next'.clients := by
    have hcontents : next.clients.contents = next'.clients.contents := by
      funext u
      have hport : (next'.clients.contents u).port = (next.clients.contents u).port :=
        congrArg Account.port (congrFun hports u)
      rw [h.contents, h'.contents, hclients', hport]
    have hbrk : next.clients.brk = next'.clients.brk := by rw [h.brk, h'.brk, hclients']
    exact congrArg₂ Blocks.mk hcontents hbrk
  have hlist : next.user_list = next'.user_list := by
    rw [h.user_list, h'.user_list, ← husers, onUsers]
  have hrecords : next.records = next'.records := by
    rw [h.records, h'.records, ← husers, onUsers]
  rw [onUsers, hlist, hclients, hrecords]

end Datagrams

end Memory

section Runs

variable {strangers : sockaddr_in → Bool} {startup : Startup} {records : Bytes}
  {start server server' next last : Server} {event : Event} {events : List Event}
  {output : List Output} {outputs : List (List Output)}

/-- The peer that sends a datagram. -/
def Event.sender : Event → Option sockaddr_in
  | .datagram sock _ _ => some sock
  | .accept _ | .read _ => none

/-- A server, and one that has not heard of the strangers. -/
structure Server.Misses (strangers : sockaddr_in → Bool) (server server' : Server) : Prop where
  valid : server.memory.Valid
  valid' : server'.memory.Valid
  pointers : server'.memory.NullPointers
  users : server'.memory.onUsers server.memory = server'.memory
  service : server'.memory.service = server.memory.service.without strangers
  admin : server'.admin = server.admin

/-- What a datagram does, as the service does it. -/
theorem step_datagram (hvalid : server.memory.Valid) {sock : sockaddr_in} {datagram : Bytes}
    {locals : Locals} (hstep : step server (.datagram sock datagram locals) = .ok (next, output)) :
    Served server.memory sock datagram locals next.memory output ∧ next.admin = server.admin ∧
      ∃ command, received_command datagram locals = .ok command ∧
        server.memory.service.serve sock locals command =
          .ok (next.memory.service, output.filterMap Output.sent) := by
  obtain ⟨⟨memory, output⟩, hserve, hstep⟩ := Result.bind_eq_ok_iff.mp hstep
  cases hstep
  have hservice :=
    hvalid.udp_server_worker_service datagram locals (hvalid.pointedFrom_of_worker hserve)
  rw [hserve] at hservice
  exact ⟨hvalid.served hserve, rfl, Result.bind_eq_ok_iff.mp hservice.symm⟩

/-- What an admin asks for is done to the users. -/
theorem step_read {received : Bytes} (hstep : step server (.read received) = .ok (next, output))
    (other : Memory) : ∃ next' : Server,
      step { server with memory := other.onUsers server.memory } (.read received) =
          .ok (next', output) ∧
        next'.memory = other.onUsers next.memory ∧ next'.admin = next.admin := by
  cases hadmin : server.admin with
  | none =>
    rw [step, hadmin] at hstep
    cases hstep
    refine ⟨⟨other.onUsers server.memory, none⟩, ?_, rfl, hadmin.symm⟩
    rw [step]
    rfl
  | some connection =>
    rw [step, hadmin] at hstep
    obtain ⟨⟨memory, admin, outputs⟩, hhandle, hstep⟩ := Result.bind_eq_ok_iff.mp hstep
    cases hstep
    have hframe := Memory.handle_admin_onUsers server.memory other connection received
    rw [hhandle] at hframe
    obtain ⟨result, hhandle', hsame⟩ := hframe.exists_of_ok
    subst hsame
    refine ⟨⟨other.onUsers memory, admin⟩, ?_, rfl, rfl⟩
    simp only [step, hhandle', Result.ok_bind, Result.pure_eq_ok]

theorem step_read_users {received : Bytes}
    (hstep : step server (.read received) = .ok (next, output)) :
    server.memory.onUsers next.memory = next.memory := by
  obtain ⟨next', hstep', hmemory, -⟩ := step_read hstep server.memory
  have hsame : step server (.read received) = .ok (next', output) := hstep'
  rw [hstep, Except.ok.injEq, Prod.mk.injEq] at hsame
  rw [← hmemory, ← hsame.1]

/-- The datagram of another peer is served. -/
theorem Server.Misses.datagram (h : server.Misses strangers server')
    (hspurns : server.memory.service.Spurns strangers) {sock : sockaddr_in} {datagram : Bytes}
    {locals : Locals} (hsock : strangers sock = false)
    (hstep : step server (.datagram sock datagram locals) = .ok (next, output)) :
    ∃ next' output', step server' (.datagram sock datagram locals) = .ok (next', output') ∧
      next.Misses strangers next' ∧
      output'.filterMap Output.sent = output.filterMap Output.sent ∧
      ∀ s ∈ output.filterMap Output.sent, ∀ dest, s.answered = some dest → dest = sock := by
  obtain ⟨hserved, hadmin, command, hcommand, hserve⟩ := step_datagram h.valid hstep
  have houtcome := Service.serve_outcome hserve
  have hkeeps := Memory.keepsUsers_of_served hserved
  have hwithout := Service.serve_without hsock hspurns locals command
  have hservice :=
    h.valid'.udp_server_worker_service datagram locals (h.pointers.pointedFrom h.valid' sock)
  rw [hserve] at hwithout
  rw [hcommand, Result.ok_bind, h.service] at hservice
  obtain ⟨-, hserve', rfl⟩ := hwithout.exists_of_ok
  rw [hserve'] at hservice
  cases hworker : udp_server_worker server'.memory sock datagram locals with
  | error e =>
    rw [hworker] at hservice
    cases hservice
  | ok result =>
    obtain ⟨memory', output'⟩ := result
    rw [hworker] at hservice
    obtain ⟨hservice', hsent⟩ := Prod.mk.inj (Except.ok.inj hservice)
    have hstep' : step server' (.datagram sock datagram locals) =
        .ok ({ server' with memory := memory' }, output') := by
      rw [step, hworker]
      rfl
    have hserved' := h.valid'.served hworker
    have hkeeps' := Memory.keepsUsers_of_served hserved'
    refine ⟨_, output', hstep', {
      valid := step_valid h.valid hstep
      valid' := step_valid h.valid' hstep'
      pointers := h.pointers.served hserved'
      users := hkeeps.onUsers_eq hkeeps' h.users ?_
      service := hservice'
      admin := h.admin.trans hadmin.symm }, hsent, fun s hs dest hdest =>
        houtcome.answered hs hdest⟩
    rw [hservice', Service.without_account]

/-- What the admin asks for is done. -/
theorem Server.Misses.read (h : server.Misses strangers server') {received : Bytes}
    (hstep : step server (.read received) = .ok (next, output)) :
    ∃ next', step server' (.read received) = .ok (next', output) ∧ next.Misses strangers next' := by
  obtain ⟨next', hstep', hmemory, hadmin⟩ := step_read hstep server'.memory
  have hserver' : server' = { server with memory := server'.memory.onUsers server.memory } := by
    rw [h.users, ← h.admin]
  rw [← hserver'] at hstep'
  have hnext := step_read_users hstep
  have hstepped := stepped_of_step h.valid' hstep'
  have hpointers : next'.memory.NullPointers := by
    generalize next'.memory = memory at hstepped
    cases hstepped with
    | handled _ _ _ _ _ hhandled => exact h.pointers.handled hhandled
    | idle => exact h.pointers
  exact ⟨next', hstep', {
    valid := step_valid h.valid hstep
    valid' := step_valid h.valid' hstep'
    pointers := hpointers
    users := by rw [hmemory]; rfl
    service := by
      rw [hmemory, Memory.onUsers_service, h.service, ← hnext, Memory.onUsers_service]
      rfl
    admin := hadmin }⟩

/-- A step that is not a stranger's. -/
theorem Server.Misses.other (h : server.Misses strangers server')
    (hspurns : server.memory.service.Spurns strangers)
    (hevent : event.sender.any strangers = false) (hstep : step server event = .ok (next, output)) :
    ∃ next' output', step server' event = .ok (next', output') ∧ next.Misses strangers next' ∧
      output'.filterMap Output.sent =
        (output.filterMap Output.sent).filter fun sent => !sent.answered.any strangers := by
  cases event with
  | datagram sock datagram locals =>
    obtain ⟨next', output', hstep', hnext, hsent, hanswered⟩ := h.datagram hspurns hevent hstep
    refine ⟨next', output', hstep', hnext, hsent.trans (Eq.symm ?_)⟩
    rw [List.filter_eq_self]
    intro s hs
    cases hdest : s.answered with
    | none => rfl
    | some dest =>
      obtain rfl := hanswered s hs dest hdest
      have hsock : strangers dest = false := hevent
      simp [hsock]
  | accept connection =>
    rw [step] at hstep
    by_cases hopen : server.admin = none ∧ connection.socket > 0
    · rw [if_pos hopen] at hstep
      cases hstep
      refine ⟨{ server' with admin := some connection }, [], ?_, { h with admin := rfl }, rfl⟩
      rw [step, h.admin, if_pos hopen]
      rfl
    · rw [if_neg hopen] at hstep
      cases hstep
      refine ⟨server', [], ?_, h, rfl⟩
      rw [step, h.admin, if_neg hopen]
      rfl
  | read received =>
    obtain ⟨next', hstep', hnext⟩ := h.read hstep
    refine ⟨next', output, hstep', hnext, Eq.symm ?_⟩
    rw [List.filter_eq_self]
    intro s hs
    obtain ⟨o, ho, hsent⟩ := List.mem_filterMap.mp hs
    have hclient := (stepped_of_step h.valid hstep).client_eq_none o ho
    have hanswered : s.answered = none := by
      cases o <;> cases hclient <;> cases hsent
      rfl
    rw [hanswered]
    rfl

end Runs

end rc_project.server
