import RcProject.Server.ServiceLives

open rc_project.blocks rc_project.c_string rc_project.transition

namespace rc_project.server

namespace Memory

variable {memory memory' opened opened' next next' : Memory} {sock peer : sockaddr_in} {s t a : Nat}
  {args datagram : Bytes} {locals locals' : Locals} {command : ClientCommand}
  {outputs outputs' : List Output}

/-- Somebody is logged in to the session in a block. -/
def LoggedIn (memory : Memory) (a : Nat) : Prop :=
  a ∈ memory.userSessions ∧ (memory.sessions.contents a).logged_in ≠ 0

section Opened

theorem Opened.not_mem (h : memory.Opened sock s opened) (hnone : ∀ t, ¬ memory.SessionAt sock t) :
    s ∉ memory.userSessions := by
  intro hold
  obtain rfl := h.same hold
  exact hnone s h.sessionAt

/-- The client pointers of all blocks are what they were, also that of a new session. -/
theorem Opened.client_eq (h : memory.Opened sock s opened) (a : Nat) :
    (opened.sessions.contents a).client = (memory.sessions.contents a).client := by
  obtain hold | ⟨rfl, session, hsessions, hclient⟩ := h.built
  · rw [h.same hold]
  · rw [hsessions]
    by_cases ha : a = memory.sessions.brk
    · rw [ha, Blocks.alloc_self, hclient, Blocks.fresh]
    · have hother : (memory.sessions.alloc session).contents a = memory.sessions.contents a :=
        Function.update_of_ne ha _ _
      rw [hother]

theorem Opened.loggedIn (h : memory.Opened sock s opened) (ha : memory.LoggedIn a) :
    opened.LoggedIn a := by
  obtain ⟨hmem, hsame⟩ := h.old a ha.1
  exact ⟨hmem, hsame ▸ ha.2⟩

end Opened

section Performed

/-- A login writes to the block of its own session, and no command builds one. -/
theorem Performed.sessions (h : memory.Performed s args locals command next outputs)
    (hs : s ∈ memory.userSessions) : next.userSessions = memory.userSessions ∧
      next.sessions.brk = memory.sessions.brk ∧ ∀ a,
        (next.sessions.contents a).ip = (memory.sessions.contents a).ip ∧
        (next.sessions.contents a).port = (memory.sessions.contents a).port ∧
        (next.sessions.contents a = memory.sessions.contents a ∨ next.LoggedIn a) := by
  cases h with
  | login username password u =>
    refine ⟨rfl, rfl, fun a => ?_⟩
    obtain ⟨hip, hport, -⟩ := memory.bind_sessions_key s u a
    refine ⟨hip, hport, ?_⟩
    by_cases ha : a = s
    · subst ha
      refine Or.inr ⟨hs, ?_⟩
      rw [bind_sessions_self]
      exact one_ne_zero
    · exact Or.inl (bind_sessions_of_ne ha)
  | create _ _ _ _ _ _ _ _ _ hcreated =>
    rw [hcreated.rest]
    exact ⟨rfl, rfl, fun a => ⟨rfl, rfl, Or.inl rfl⟩⟩
  | _ => exact ⟨rfl, rfl, fun a => ⟨rfl, rfl, Or.inl rfl⟩⟩

theorem Performed.sessionAt_iff (h : memory.Performed s args locals command next outputs)
    (hs : s ∈ memory.userSessions) : next.SessionAt peer t ↔ memory.SessionAt peer t := by
  obtain ⟨hmem, -, hblocks⟩ := h.sessions hs
  obtain ⟨hip, hport, -⟩ := hblocks t
  constructor
  · rintro ⟨ht, hsame, hsame'⟩
    exact ⟨hmem ▸ ht, hip ▸ hsame, hport ▸ hsame'⟩
  · rintro ⟨ht, hsame, hsame'⟩
    exact ⟨hmem ▸ ht, hip ▸ hsame, hport ▸ hsame'⟩

end Performed

section Served

/-- A datagram is served in a memory in which its session is open, and which it changes as far as a
login does. -/
theorem exists_opened_of_served (h : Served memory sock datagram locals next outputs) :
    ∃ s opened, memory.Opened sock s opened ∧ next.sessions.brk = opened.sessions.brk ∧
      (∀ peer t, next.SessionAt peer t ↔ opened.SessionAt peer t) ∧
      ∀ a, next.sessions.contents a = opened.sessions.contents a ∨ next.LoggedIn a := by
  cases h with
  | unknown opened s hopened =>
    exact ⟨s, _, hopened, rfl, fun _ _ => Iff.rfl, fun a => Or.inl rfl⟩
  | command opened s hopened command args _ _ _ hperformed =>
    obtain ⟨-, hbrk, hblocks⟩ := hperformed.sessions hopened.mem
    exact ⟨s, opened, hopened, hbrk, fun _ _ => hperformed.sessionAt_iff hopened.mem,
      fun a => (hblocks a).2.2⟩

/-- A block whose pointer is not what it was is that of somebody who is logged in. -/
theorem client_of_served (h : Served memory sock datagram locals next outputs) (a : Nat) :
    (next.sessions.contents a).client = (memory.sessions.contents a).client ∨ next.LoggedIn a := by
  obtain ⟨s, opened, hopened, -, -, hblocks⟩ := exists_opened_of_served h
  refine (hblocks a).imp_left fun hsame => ?_
  rw [hsame, hopened.client_eq]

theorem loggedIn_of_served (h : Served memory sock datagram locals next outputs)
    (ha : memory.LoggedIn a) : next.LoggedIn a := by
  obtain ⟨s, opened, hopened, -, hsessionAt, hblocks⟩ := exists_opened_of_served h
  obtain hsame | hlogged := hblocks a
  · have hopen := hopened.loggedIn ha
    have hat := (hsessionAt _ a).mpr (hopened.valid.sessionAt_of_mem hopen.1)
    exact ⟨hat.mem, hsame ▸ hopen.2⟩
  · exact hlogged

end Served

section Null

/-- All pointers are null but those that logins have set, also those of the blocks that sessions are
still to be built in. -/
def NullPointers (memory : Memory) : Prop :=
  ∀ a, (memory.sessions.contents a).client = none ∨ memory.LoggedIn a

/-- The log may follow the pointer that any datagram finds. -/
theorem NullPointers.pointedFrom (hvalid : memory.Valid) (h : memory.NullPointers)
    (sock : sockaddr_in) : memory.PointedFrom sock := by
  by_cases hexists : ∃ t, memory.SessionAt sock t
  · obtain ⟨t, ht⟩ := hexists
    obtain hnull | hlogged := h t
    · refine .old t ht fun u hu => ?_
      rw [hnull] at hu
      cases hu
    · exact .old t ht (hvalid.pointed ht.mem hlogged.2)
  · have hnone (t : Nat) : ¬ memory.SessionAt sock t := fun ht => hexists ⟨t, ht⟩
    obtain hnull | hlogged := h memory.sessions.brk
    · refine .new hnone fun u hu => ?_
      rw [Blocks.fresh, hnull] at hu
      cases hu
    · exact absurd (hvalid.user_session_list.allocated _ hlogged.1) (Nat.lt_irrefl _)

theorem NullPointers.served (h : memory.NullPointers)
    (hserved : Served memory sock datagram locals next outputs) : next.NullPointers := by
  intro a
  obtain hsame | hlogged := client_of_served hserved a
  · obtain hnull | hlogged := h a
    · exact Or.inl (hsame.trans hnull)
    · exact Or.inr (loggedIn_of_served hserved hlogged)
  · exact Or.inr hlogged

end Null

section Same

/-- Two memories with the same sessions in the same blocks, and the same client pointers in all
blocks. -/
structure SameSessions (memory memory' : Memory) : Prop where
  brk : memory.sessions.brk = memory'.sessions.brk
  sessionAt : ∀ sock t, memory.SessionAt sock t ↔ memory'.SessionAt sock t
  client : ∀ a, (memory.sessions.contents a).client = (memory'.sessions.contents a).client

theorem SameSessions.symm (h : memory.SameSessions memory') : memory'.SameSessions memory :=
  ⟨h.brk.symm, fun sock t => (h.sessionAt sock t).symm, fun a => (h.client a).symm⟩

theorem SameSessions.pointedFrom (h : memory.SameSessions memory')
    (hbrk : memory.clients.brk = memory'.clients.brk) (hpointed : memory.PointedFrom sock) :
    memory'.PointedFrom sock := by
  obtain ⟨t, ht, hpointed⟩ | ⟨hnone, hfresh⟩ := hpointed
  · refine .old t ((h.sessionAt sock t).mp ht) fun u hu => ?_
    rw [← h.client t] at hu
    exact hbrk ▸ hpointed u hu
  · refine .new (fun t ht => hnone t ((h.sessionAt sock t).mpr ht)) fun u hu => ?_
    rw [Blocks.fresh, ← h.brk, ← h.client] at hu
    exact hbrk ▸ hfresh u hu

/-- A datagram opens the same session in both. -/
theorem SameSessions.init_client_session (h : memory.SameSessions memory')
    (hopened : memory.Opened sock s opened) (hopened' : memory'.Opened sock t opened') :
    opened.SameSessions opened' := by
  have hclient (a : Nat) : (opened.sessions.contents a).client =
      (opened'.sessions.contents a).client := by
    rw [hopened.client_eq, hopened'.client_eq, h.client]
  by_cases hexists : ∃ a, memory.SessionAt sock a
  · obtain ⟨a, ha⟩ := hexists
    obtain ⟨-, rfl⟩ := hopened.eq_of_sessionAt ha
    obtain ⟨-, rfl⟩ := hopened'.eq_of_sessionAt ((h.sessionAt sock a).mp ha)
    exact h
  · have hnone (a : Nat) : ¬ memory.SessionAt sock a := fun ha => hexists ⟨a, ha⟩
    have hnone' (a : Nat) : ¬ memory'.SessionAt sock a := fun ha =>
      hnone a ((h.sessionAt sock a).mpr ha)
    obtain hold | ⟨hs, session, hsessions, -⟩ := hopened.built
    · exact absurd hold (hopened.not_mem hnone)
    obtain hold' | ⟨ht, session', hsessions', -⟩ := hopened'.built
    · exact absurd hold' (hopened'.not_mem hnone')
    refine ⟨?_, fun peer a => ?_, hclient⟩
    · rw [hsessions, hsessions', Blocks.alloc_brk, Blocks.alloc_brk, h.brk]
    · rw [hopened.sessionAt_iff, hopened'.sessionAt_iff, h.sessionAt, hs, ht, h.brk]

/-- Where the same users are logged in, the pointers of their sessions are the same ones. -/
theorem client_eq_of_loggedIn (hvalid : memory.Valid) (hvalid' : memory'.Valid)
    (hsessions : memory.service.sessions = memory'.service.sessions)
    (hsessionAt : ∀ sock t, memory.SessionAt sock t ↔ memory'.SessionAt sock t)
    (hlogged : memory.LoggedIn a) :
    (memory.sessions.contents a).client = (memory'.sessions.contents a).client := by
  have hat := hvalid.sessionAt_of_mem hlogged.1
  have hat' := (hsessionAt _ a).mp hat
  obtain ⟨sender, hclient, huser⟩ := hvalid.user_at_some hat hlogged.2
  rw [Service.user_at, hsessions, ← Service.user_at] at huser
  by_cases hlogged' : (memory'.sessions.contents a).logged_in = 0
  · rw [hvalid'.user_at_none hat' hlogged'] at huser
    cases huser
  · obtain ⟨sender', hclient', huser'⟩ := hvalid'.user_at_some hat' hlogged'
    rw [hclient, hclient', ← huser, ← huser']

/-- A datagram that is served in both leaves them with the same sessions, if it leaves the same users
logged in. -/
theorem SameSessions.served (h : memory.SameSessions memory') (hvalid : next.Valid)
    (hvalid' : next'.Valid) (hserved : Served memory sock datagram locals next outputs)
    (hserved' : Served memory' sock datagram locals' next' outputs')
    (hsessions : next.service.sessions = next'.service.sessions) : next.SameSessions next' := by
  obtain ⟨s, opened, hopened, hbrk, hsessionAt, -⟩ := exists_opened_of_served hserved
  obtain ⟨s', opened', hopened', hbrk', hsessionAt', -⟩ := exists_opened_of_served hserved'
  have hopen := h.init_client_session hopened hopened'
  have hat (peer : sockaddr_in) (t : Nat) : next.SessionAt peer t ↔ next'.SessionAt peer t := by
    rw [hsessionAt, hsessionAt', hopen.sessionAt]
  refine ⟨by rw [hbrk, hbrk', hopen.brk], hat, fun a => ?_⟩
  obtain hsame | hlogged := client_of_served hserved a
  · obtain hsame' | hlogged' := client_of_served hserved' a
    · rw [hsame, hsame', h.client]
    · exact (client_eq_of_loggedIn hvalid' hvalid hsessions.symm (fun peer t => (hat peer t).symm)
        hlogged').symm
  · exact client_eq_of_loggedIn hvalid hvalid' hsessions hat hlogged

theorem sessionAt_congr (hmem : next.userSessions = memory.userSessions)
    (hsessions : next.sessions = memory.sessions) :
    next.SessionAt sock t ↔ memory.SessionAt sock t := by
  constructor
  · rintro ⟨ht, hip, hport⟩
    exact ⟨hmem ▸ ht, hsessions ▸ hip, hsessions ▸ hport⟩
  · rintro ⟨ht, hip, hport⟩
    exact ⟨hmem.symm ▸ ht, hsessions.symm ▸ hip, hsessions.symm ▸ hport⟩

theorem NullPointers.handled (h : memory.NullPointers) {connection : Connection} {received : Bytes}
    (hhandled : Handled memory connection received next outputs) : next.NullPointers := by
  obtain ⟨hmem, hsessions⟩ := hhandled.sessions
  intro a
  rw [LoggedIn, hmem, hsessions]
  exact h a

theorem SameSessions.handled (h : memory.SameSessions memory') {connection connection' : Connection}
    {received received' : Bytes} (hhandled : Handled memory connection received next outputs)
    (hhandled' : Handled memory' connection' received' next' outputs') :
    next.SameSessions next' := by
  obtain ⟨hmem, hsessions⟩ := hhandled.sessions
  obtain ⟨hmem', hsessions'⟩ := hhandled'.sessions
  refine ⟨by rw [hsessions, hsessions', h.brk], fun sock t => ?_, fun a => ?_⟩
  · rw [sessionAt_congr hmem hsessions, sessionAt_congr hmem' hsessions', h.sessionAt]
  · rw [hsessions, hsessions', h.client]

end Same

end Memory

end rc_project.server
