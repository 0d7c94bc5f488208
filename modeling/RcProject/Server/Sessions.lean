import RcProject.Server.Datagram
import RcProject.Server.Runs

open rc_project.avl_tree rc_project.blocks rc_project.c_string rc_project.scanf
open rc_project.transition

namespace rc_project.server

section Addresses

/-- A separator that neither of two first parts holds tells them apart from the
second parts. -/
theorem append_cons_inj {first first' second second' : Bytes} {c : UInt8} (hfirst : c ∉ first)
    (hfirst' : c ∉ first') (h : first ++ c :: second = first' ++ c :: second') :
    first = first' ∧ second = second' := by
  have htake (part rest : Bytes) (hpart : c ∉ part) :
      (part ++ c :: rest).takeWhile (· ≠ c) = part := by
    rw [List.takeWhile_append_of_pos]
    · simp
    · intro d hd
      simpa using ne_of_mem_of_not_mem hd hpart
  have hsame : first = first' := by
    rw [← htake first second hfirst, h, htake first' second' hfirst']
  subst hsame
  simpa using h

theorem inet_ntop_injective : Function.Injective inet_ntop := by
  have hdigits (c : UInt8) : 46 ∉ decimal c.toNat := by
    intro hmem
    exact absurd (isdigit_of_mem_decimal hmem) (by decide)
  have hbyte {c d : UInt8} (h : decimal c.toNat = decimal d.toNat) : c = d :=
    UInt8.toNat_inj.mp (decimal_injective h)
  have hdot : text "." = [46] := by decide
  rintro ⟨a, b, c, d⟩ ⟨a', b', c', d'⟩ h
  simp only [inet_ntop, hdot, List.append_assoc, List.cons_append, List.nil_append] at h
  obtain ⟨ha, h⟩ := append_cons_inj (hdigits a) (hdigits a') h
  obtain ⟨hb, h⟩ := append_cons_inj (hdigits b) (hdigits b') h
  obtain ⟨hc, hd⟩ := append_cons_inj (hdigits c) (hdigits c') h
  rw [hbyte ha, hbyte hb, hbyte hc, hbyte hd]

/-- Two peers with one address in text and one port are the same. -/
theorem sockaddr_in_eq {sock sock' : sockaddr_in}
    (hip : inet_ntop sock.sin_addr = inet_ntop sock'.sin_addr)
    (hport : sock.sin_port.setWidth 32 = sock'.sin_port.setWidth 32) : sock = sock' := by
  obtain ⟨addr, port⟩ := sock
  obtain ⟨addr', port'⟩ := sock'
  obtain rfl : addr = addr' := inet_ntop_injective hip
  have hport' := congrArg (BitVec.setWidth 16) hport
  rw [BitVec.setWidth_setWidth_of_le _ (by decide), BitVec.setWidth_setWidth_of_le _ (by decide),
    BitVec.setWidth_eq, BitVec.setWidth_eq] at hport'
  exact congrArg (sockaddr_in.mk addr) hport'

end Addresses

namespace Memory

variable {memory opened next : Memory} {s t : Nat} {sock : sockaddr_in}

/-- What later steps leave of a session: it stays in the list, under its address,
and if it is logged in they do not touch it. -/
structure KeepsSession (memory next : Memory) (t : Nat) : Prop where
  mem : t ∈ next.userSessions
  ip : (next.sessions.contents t).ip = (memory.sessions.contents t).ip
  port : (next.sessions.contents t).port = (memory.sessions.contents t).port
  sock : (next.sessions.contents t).sock = (memory.sessions.contents t).sock
  bound : (memory.sessions.contents t).logged_in ≠ 0 →
    next.sessions.contents t = memory.sessions.contents t

theorem KeepsSession.of_same (ht : t ∈ next.userSessions)
    (hsame : next.sessions.contents t = memory.sessions.contents t) :
    memory.KeepsSession next t where
  mem := ht
  ip := by rw [hsame]
  port := by rw [hsame]
  sock := by rw [hsame]
  bound _ := hsame

theorem KeepsSession.trans {last : Memory} (h : memory.KeepsSession next t)
    (h' : next.KeepsSession last t) : memory.KeepsSession last t where
  mem := h'.mem
  ip := h'.ip.trans h.ip
  port := h'.port.trans h.port
  sock := h'.sock.trans h.sock
  bound hlogged := by
    have hsame := h.bound hlogged
    rw [← hsame] at hlogged
    exact (h'.bound hlogged).trans hsame

theorem Keeps.keepsSession (h : memory.Keeps next) (ht : t ∈ memory.userSessions) :
    memory.KeepsSession next t := by
  obtain ⟨hmem, hsame⟩ := h.sessions t ht
  exact .of_same hmem hsame

/-- A login binds a session that was not logged in, and leaves the others. -/
theorem keepsSession_bind {u : Nat} (ht : t ∈ memory.userSessions)
    (hlogged : (memory.sessions.contents s).logged_in = 0) :
    memory.KeepsSession (memory.bind s u) t := by
  obtain ⟨hip, hport, hsock⟩ := memory.bind_sessions_key s u t
  refine ⟨ht, hip, hport, hsock, fun hbound => ?_⟩
  apply bind_sessions_of_ne
  rintro rfl
  exact hbound hlogged

theorem Performed.keepsSession {args : Bytes} {locals : Locals} {command : ClientCommand}
    {outputs : List Output} (h : memory.Performed s args locals command next outputs)
    (ht : t ∈ memory.userSessions) : memory.KeepsSession next t := by
  cases h with
  | login _ _ _ hlogged => exact keepsSession_bind ht hlogged
  | create _ _ _ _ _ _ _ _ _ hcreated =>
    refine .of_same ?_ ?_
    · rw [hcreated.rest]
      exact ht
    · rw [hcreated.rest]
  | _ => exact .of_same ht rfl

/-- A datagram is served for the session that `init_client_session` hands out, and
leaves it under its address. -/
theorem Valid.served_session (hvalid : memory.Valid)
    (hinit : memory.init_client_session sock = .ok (opened, some s)) {datagram : Bytes}
    {locals : Locals} {outputs : List Output}
    (hstep : udp_server_worker memory sock datagram locals = .ok (next, outputs)) :
    memory.Opened sock s opened ∧ opened.KeepsSession next s := by
  obtain ⟨opened', s', hinit', hopened⟩ := hvalid.init_client_session_spec sock
  rw [hinit', Except.ok.injEq, Prod.mk.injEq, Option.some.injEq] at hinit
  obtain ⟨rfl, rfl⟩ := hinit
  refine ⟨hopened, ?_⟩
  have hcommand := received_command_eq datagram locals
  rw [udp_server_worker_eq_served hinit' (pointed_of_worker hinit' hcommand hstep) hcommand] at hstep
  cases hparse : parse_line client_commands (line (datagram.take BUFFER_SIZE)) with
  | none =>
    rw [hparse] at hstep
    cases hstep
    exact .of_same hopened.mem rfl
  | some entry =>
    rw [hparse] at hstep
    exact (hopened.valid.client_cmd_functions_performed hopened.mem hstep).keepsSession hopened.mem

end Memory

variable {start server next last : Server} {past later : List Event} {event : Event}
  {outputs : List Output} {t : Nat}

theorem step_keepsSession (hvalid : server.memory.Valid) (ht : t ∈ server.memory.userSessions)
    (hstep : step server event = .ok (next, outputs)) :
    server.memory.KeepsSession next.memory t := by
  obtain ⟨hkeeps, -⟩ | ⟨s, u, hlogin, -⟩ := (stepped_of_step hvalid hstep).keeps_or_login hvalid
  · exact hkeeps.keepsSession ht
  · generalize next.memory = memory at hlogin
    cases hlogin with
    | intro sock datagram locals opened _ _ args username password hopened hcommand hlogged =>
      exact (hopened.keeps.keepsSession ht).trans
        (Memory.keepsSession_bind (hopened.old t ht).1 hlogged)

/-- No run loses a session, or touches one that is logged in. -/
theorem reaches_keepsSession (hvalid : server.memory.Valid) (ht : t ∈ server.memory.userSessions)
    (hreach : Reaches step server later last) : server.memory.KeepsSession last.memory t := by
  have hkept := hreach.invariant
    (fun state => state.memory.Valid ∧ server.memory.KeepsSession state.memory t)
    ⟨hvalid, .of_same ht rfl⟩ fun _ _ _ _ h hstep =>
      ⟨step_valid h.1 hstep, h.2.trans (step_keepsSession h.1 h.2.mem hstep)⟩
  exact hkept.2

/-- In every state that a run reaches a datagram gets a session, two datagrams get
the same session exactly if their source addresses are the same, no session is lost or,
once it is logged in, touched, and a lookup finds a session exactly if its address
and its port are those of the key. -/
theorem session_identity {startup : Startup} {records : Bytes}
    (hmain : main startup records = .ok start) (hreach : Reaches step start past server) :
    (∀ sock, ∃ opened s, server.memory.init_client_session sock = .ok (opened, some s) ∧
      ∀ t ∈ server.memory.userSessions, t ∈ opened.userSessions ∧
        opened.sessions.contents t = server.memory.sessions.contents t) ∧
    (∀ sock datagram locals next outputs later last sock' opened opened' s s',
      server.memory.init_client_session sock = .ok (opened, some s) →
      step server (.datagram sock datagram locals) = .ok (next, outputs) →
      Reaches step next later last →
      last.memory.init_client_session sock' = .ok (opened', some s') → (s = s' ↔ sock = sock')) ∧
    (∀ t ∈ server.memory.userSessions, ∀ later last, Reaches step server later last →
      server.memory.KeepsSession last.memory t) ∧
    ∀ key, ∃ found, server.memory.get_session key = .ok found ∧ ∀ t, found = some t ↔
      t ∈ server.memory.userSessions ∧
        cstr (server.memory.sessions.contents t).ip.bytes = cstr key.ip.bytes ∧
        (server.memory.sessions.contents t).port = key.port := by
  have hvalid := reaches_valid (started_of_main hmain).valid hreach
  refine ⟨?_, ?_, ?_, hvalid.get_session_spec⟩
  · intro sock
    obtain ⟨opened, s, hinit, hopened⟩ := hvalid.init_client_session_spec sock
    exact ⟨opened, s, hinit, hopened.old⟩
  · intro sock datagram locals next outputs later last sock' opened opened' s s' hinit hstep hlater
      hinit'
    obtain ⟨⟨memory, outputs'⟩, hserve, hnext⟩ := Result.bind_eq_ok_iff.mp hstep
    cases hnext
    obtain ⟨hopened, hserved⟩ := hvalid.served_session hinit hserve
    have hvalid' := step_valid hvalid hstep
    have hvalid'' := reaches_valid hvalid' hlater
    have hkept := hserved.trans (reaches_keepsSession hvalid' hserved.mem hlater)
    obtain ⟨opened'', s'', hinit'', hopened'⟩ := hvalid''.init_client_session_spec sock'
    rw [hinit'', Except.ok.injEq, Prod.mk.injEq, Option.some.injEq] at hinit'
    obtain ⟨rfl, rfl⟩ := hinit'
    obtain ⟨hmem, hsame⟩ := hopened'.old s hkept.mem
    have hip : cstr (opened''.sessions.contents s).ip.bytes = inet_ntop sock.sin_addr := by
      rw [hsame, hkept.ip, hopened.ip]
    have hport : (opened''.sessions.contents s).port = sock.sin_port.setWidth 32 := by
      rw [hsame, hkept.port, hopened.port]
    constructor
    · rintro rfl
      exact sockaddr_in_eq (hip.symm.trans hopened'.ip) (hport.symm.trans hopened'.port)
    · rintro rfl
      exact hopened'.valid.session_unique hmem hopened'.mem (hip.trans hopened'.ip.symm)
        (hport.trans hopened'.port.symm)
  · intro t ht later last hlater
    exact reaches_keepsSession hvalid ht hlater

theorem session_identity_witness : ∃ start server, main .blank [] = .ok start ∧
    Reaches step start loginRun server ∧
    (∀ t ∈ server.memory.userSessions, ∀ later last, Reaches step server later last →
      server.memory.KeepsSession last.memory t) := by
  have hview : observe .blank [] loginRun (fun server _ => server.memory.userSessions) =
      .ok [0] := by
    decide +kernel
  obtain ⟨start, server, outputs, hmain, hrun, -⟩ := exists_of_observe hview
  obtain ⟨-, -, hkept, -⟩ := session_identity hmain ⟨outputs, hrun⟩
  exact ⟨start, server, hmain, ⟨outputs, hrun⟩, hkept⟩

end rc_project.server
