import RcProject.Library.Relational
import RcProject.Server.ServiceAdmin

open rc_project.blocks rc_project.c_string rc_project.scanf

namespace rc_project.server

/-- The peer that is answered. -/
def Sent.answered : Sent → Option sockaddr_in
  | .reply dest _ => some dest
  | .relay .. | .admin .. => none

namespace Service

/-- An account points to the peer at an address. -/
structure Points (service : Service) (u : Nat) (sock : sockaddr_in) : Prop where
  ip : inet_ntop sock.sin_addr = (service.account u).ip
  port : sock.sin_port.setWidth 32 = (service.account u).port

/-- No user is looked for at a stranger. -/
def Spurns (service : Service) (strangers : sockaddr_in → Bool) : Prop :=
  ∀ name u sock, service.accounts name = some u → strangers sock = true → ¬ service.Points u sock

/-- The service that has heard of no stranger. -/
def without (service : Service) (strangers : sockaddr_in → Bool) : Service :=
  { service with sessions := fun sock => if strangers sock then none else service.sessions sock }

/-- What a peer can do: it is told something, it logs in, or it is logged in. -/
inductive Outcome (service : Service) (sock : sockaddr_in) : List Sent → Service → Prop
  | told (reply : Answer) : Outcome service sock [answer sock reply] service
  | login (name : Bytes) (u : Nat) (sent : List Sent)
    (haccount : service.accounts name = some u)
    (hip : (service.account u).ip = inet_ntop sock.sin_addr)
    (hsent : ∀ s ∈ sent, s.answered = some sock) : Outcome service sock sent (service.login sock u)
  | serves (sent : List Sent) (groups : Bytes → Option Bytes) (current_group : Nat)
    (hlogged : service.user_at sock ≠ none)
    (hsent : ∀ s ∈ sent, ∀ dest, s.answered = some dest → dest = sock) :
    Outcome service sock sent { service with groups, current_group }

variable {service next : Service} {sock : sockaddr_in} {args : Bytes} {locals : Locals}
  {sent : List Sent} {strangers : sockaddr_in → Bool}

section Outcomes

theorem answered_answer {s : Sent} {reply : Answer} (hs : s ∈ [answer sock reply]) :
    s.answered = some sock := by
  rw [List.mem_singleton.mp hs]
  rfl

theorem cmd_login_outcome (hcmd : service.cmd_login sock args locals = .ok (next, sent)) :
    service.Outcome sock sent next := by
  unfold cmd_login at hcmd
  split at hcmd
  · cases hcmd
    exact .told _
  · obtain ⟨values, -, hcmd⟩ := Result.bind_eq_ok_iff.mp hcmd
    split at hcmd
    · rename_i username password
      split at hcmd
      · cases hcmd
        exact .told _
      · rename_i u haccount
        dsimp only at hcmd
        split at hcmd
        · cases hcmd
          exact .told _
        · rename_i hip
          split at hcmd
          · cases hcmd
            refine .login _ u _ haccount (not_not.mp hip) fun s hs => ?_
            simp only [List.mem_cons, List.not_mem_nil, or_false] at hs
            obtain rfl | rfl | rfl := hs <;> rfl
          · cases hcmd
            exact .told _
    · cases hcmd
      exact .told _

theorem cmd_msg_outcome (hcmd : service.cmd_msg sock args locals = .ok (next, sent)) :
    service.Outcome sock sent next := by
  unfold cmd_msg at hcmd
  split at hcmd
  · cases hcmd
    exact .told _
  · rename_i sender hlogged
    split at hcmd
    · cases hcmd
      exact .told _
    · obtain ⟨values, -, hcmd⟩ := Result.bind_eq_ok_iff.mp hcmd
      split at hcmd
      · split at hcmd
        · cases hcmd
          exact .told _
        · obtain ⟨found, -, hcmd⟩ := Result.bind_eq_ok_iff.mp hcmd
          split at hcmd
          · cases hcmd
            exact .told _
          · cases hcmd
            refine .serves _ _ _ (hlogged ▸ Option.some_ne_none sender) fun s hs dest hdest => ?_
            obtain rfl | hs := List.mem_cons.mp hs
            · cases hdest
            · exact Option.some.inj (hdest.symm.trans (answered_answer hs))
      · cases hcmd
        exact .told _

theorem cmd_p2p_outcome (hcmd : service.cmd_p2p sock args = .ok (next, sent)) :
    service.Outcome sock sent next := by
  unfold cmd_p2p at hcmd
  split at hcmd
  · cases hcmd
    exact .told _
  · split at hcmd
    · cases hcmd
      exact .told _
    · obtain ⟨values, -, hcmd⟩ := Result.bind_eq_ok_iff.mp hcmd
      split at hcmd
      · split at hcmd
        · cases hcmd
          exact .told _
        · obtain ⟨found, -, hcmd⟩ := Result.bind_eq_ok_iff.mp hcmd
          split at hcmd <;> cases hcmd <;> exact .told _
      · cases hcmd
        exact .told _

theorem cmd_createmulticast_outcome
    (hcmd : service.cmd_createmulticast sock args = .ok (next, sent)) :
    service.Outcome sock sent next := by
  unfold cmd_createmulticast at hcmd
  split at hcmd
  · cases hcmd
    exact .told _
  · rename_i sender hlogged
    obtain ⟨values, -, hcmd⟩ := Result.bind_eq_ok_iff.mp hcmd
    split at hcmd
    · split at hcmd
      · cases hcmd
        exact .told _
      split at hcmd
      · cases hcmd
        exact .told _
      split at hcmd
      · cases hcmd
        exact .serves _ _ _ (hlogged ▸ Option.some_ne_none sender) fun s hs dest hdest =>
          Option.some.inj (hdest.symm.trans (answered_answer hs))
      · cases hcmd
        exact .told _
    · cases hcmd
      exact .told _

theorem cmd_getmulticast_outcome (hcmd : service.cmd_getmulticast sock args = .ok (next, sent)) :
    service.Outcome sock sent next := by
  unfold cmd_getmulticast at hcmd
  split at hcmd
  · cases hcmd
    exact .told _
  · obtain ⟨values, -, hcmd⟩ := Result.bind_eq_ok_iff.mp hcmd
    split at hcmd
    · split at hcmd
      · cases hcmd
        exact .told _
      · split at hcmd <;> cases hcmd <;> exact .told _
    · cases hcmd
      exact .told _

theorem serve_outcome {command : Option (ClientCommand × Bytes)}
    (hserve : service.serve sock locals command = .ok (next, sent)) :
    (service.opens sock).Outcome sock sent next := by
  cases command with
  | none =>
    cases hserve
    exact .told _
  | some entry =>
    obtain ⟨command, args⟩ := entry
    cases command with
    | LOGIN => exact cmd_login_outcome hserve
    | MSG => exact cmd_msg_outcome hserve
    | P2P => exact cmd_p2p_outcome hserve
    | CREATEMULTICAST => exact cmd_createmulticast_outcome hserve
    | GETMULTICAST => exact cmd_getmulticast_outcome hserve

/-- Whoever is logged in stays logged in. -/
theorem Outcome.user_at (h : service.Outcome sock sent next) {peer : sockaddr_in}
    (hlogged : service.user_at peer ≠ none) : next.user_at peer ≠ none := by
  cases h with
  | told reply => exact hlogged
  | login name u _ haccount hip hsent =>
    by_cases hpeer : peer = sock
    · rw [hpeer, Service.user_at, login_sessions, Function.update_self]
      exact Option.some_ne_none u
    · rwa [Service.user_at, login_sessions, Function.update_of_ne hpeer]
  | serves _ groups current_group hsender hsent => exact hlogged

theorem Outcome.answered (h : service.Outcome sock sent next) {s : Sent} (hs : s ∈ sent)
    {dest : sockaddr_in} (hdest : s.answered = some dest) : dest = sock := by
  cases h with
  | told reply => exact Option.some.inj (hdest.symm.trans (answered_answer hs))
  | login name u _ haccount hip hsent => exact Option.some.inj (hdest.symm.trans (hsent s hs))
  | serves _ groups current_group hlogged hsent => exact hsent s hs dest hdest

end Outcomes

theorem Spurns.opens (h : service.Spurns strangers) (sock : sockaddr_in) :
    (service.opens sock).Spurns strangers := by
  intro name u peer hname hpeer hpoints
  rw [opens_accounts] at hname
  refine h name u peer hname hpeer ⟨?_, ?_⟩
  · rw [hpoints.ip, opens_account]
  · rw [hpoints.port, opens_account]

section Others

@[simp] theorem without_accounts : (service.without strangers).accounts = service.accounts := rfl

@[simp] theorem without_account : (service.without strangers).account = service.account := rfl

@[simp] theorem without_groups : (service.without strangers).groups = service.groups := rfl

@[simp] theorem without_current_group :
    (service.without strangers).current_group = service.current_group := rfl

variable (hsock : strangers sock = false)
include hsock

theorem sessions_without : (service.without strangers).sessions sock = service.sessions sock := by
  simp [without, hsock]

theorem user_at_without : (service.without strangers).user_at sock = service.user_at sock :=
  congrArg Option.join (sessions_without hsock)

theorem update_without (user : Option (Option Nat)) :
    Function.update (service.without strangers).sessions sock user = fun peer =>
      if strangers peer then none else Function.update service.sessions sock user peer := by
  funext peer
  by_cases hpeer : peer = sock
  · rw [hpeer, Function.update_self, Function.update_self, hsock]
    rfl
  · rw [Function.update_of_ne hpeer, Function.update_of_ne hpeer]
    rfl

theorem opens_without :
    (service.without strangers).opens sock = (service.opens sock).without strangers := by
  rw [opens, opens, sessions_without hsock, update_without hsock]
  split <;> rfl

theorem login_without (u : Nat) :
    (service.without strangers).login sock u = (service.login sock u).without strangers := by
  rw [login, update_without hsock]
  rfl

end Others

open Classical in
/-- No stranger is found where a user is looked for. -/
theorem find_session_without (hspurns : service.Spurns strangers) {name : Bytes} {u : Nat}
    (hname : service.accounts name = some u) :
    (service.without strangers).find_session u = service.find_session u := by
  have hlocates : (service.without strangers).Locates u = service.Locates u := by
    funext peer
    apply propext
    unfold Locates
    by_cases hpeer : strangers peer = true
    · exact iff_of_false (fun h => hspurns name u peer hname hpeer ⟨h.2.1, h.2.2⟩)
        fun h => hspurns name u peer hname hpeer ⟨h.2.1, h.2.2⟩
    · simp [without, hpeer]
  have hfound {P Q : sockaddr_in → Prop} (hsame : P = Q) :
      (if h : ∃ peer, P peer then some h.choose else none) =
        if h : ∃ peer, Q peer then some h.choose else none := by
    subst hsame
    rfl
  unfold find_session
  rw [hfound hlocates]
  rfl

section Commands

/-- What is done without the strangers. -/
def SameWithout (strangers : sockaddr_in → Bool) (result result' : Service × List Sent) : Prop :=
  result' = (result.1.without strangers, result.2)

variable (hsock : strangers sock = false)
include hsock

theorem cmd_login_without : Result.Related (SameWithout strangers)
    (service.cmd_login sock args locals)
    ((service.without strangers).cmd_login sock args locals) := by
  rw [cmd_login, cmd_login, user_at_without hsock]
  refine .ite Iff.rfl (fun _ => .ok rfl) fun _ => ?_
  refine Result.Related.bind_eq fun values _ => ?_
  simp only [without_accounts, without_account, login_without hsock]
  split
  · split
    · exact .ok rfl
    · refine .ite Iff.rfl (fun _ => .ok rfl) fun _ => ?_
      exact .ite Iff.rfl (fun _ => .ok rfl) fun _ => .ok rfl
  · exact .ok rfl

theorem cmd_msg_without (hspurns : service.Spurns strangers) :
    Result.Related (SameWithout strangers) (service.cmd_msg sock args locals)
      ((service.without strangers).cmd_msg sock args locals) := by
  rw [cmd_msg, cmd_msg, user_at_without hsock]
  split
  · exact .ok rfl
  · refine .ite Iff.rfl (fun _ => .ok rfl) fun _ => ?_
    refine Result.Related.bind_eq fun values _ => ?_
    simp only [without_accounts, without_account]
    split
    · split
      · exact .ok rfl
      · rename_i u haccount
        rw [find_session_without hspurns haccount]
        refine Result.Related.bind_eq fun found _ => ?_
        split <;> exact .ok rfl
    · exact .ok rfl

theorem cmd_p2p_without (hspurns : service.Spurns strangers) :
    Result.Related (SameWithout strangers) (service.cmd_p2p sock args)
      ((service.without strangers).cmd_p2p sock args) := by
  rw [cmd_p2p, cmd_p2p, user_at_without hsock]
  split
  · exact .ok rfl
  · refine .ite Iff.rfl (fun _ => .ok rfl) fun _ => ?_
    refine Result.Related.bind_eq fun values _ => ?_
    simp only [without_accounts]
    split
    · split
      · exact .ok rfl
      · rename_i u haccount
        rw [find_session_without hspurns haccount]
        refine Result.Related.bind_eq fun found _ => ?_
        split <;> exact .ok rfl
    · exact .ok rfl

theorem cmd_createmulticast_without : Result.Related (SameWithout strangers)
    (service.cmd_createmulticast sock args)
    ((service.without strangers).cmd_createmulticast sock args) := by
  rw [cmd_createmulticast, cmd_createmulticast, user_at_without hsock]
  split
  · exact .ok rfl
  · refine Result.Related.bind_eq fun values _ => ?_
    split
    · refine .ite Iff.rfl (fun _ => .ok rfl) fun _ => ?_
      refine .ite Iff.rfl (fun _ => .ok rfl) fun _ => ?_
      exact .ite Iff.rfl (fun _ => .ok rfl) fun _ => .ok rfl
    · exact .ok rfl

theorem cmd_getmulticast_without : Result.Related (SameWithout strangers)
    (service.cmd_getmulticast sock args)
    ((service.without strangers).cmd_getmulticast sock args) := by
  rw [cmd_getmulticast, cmd_getmulticast, user_at_without hsock]
  split
  · exact .ok rfl
  · refine Result.Related.bind_eq fun values _ => ?_
    simp only [without_groups]
    split
    · refine .ite Iff.rfl (fun _ => .ok rfl) fun _ => ?_
      split <;> exact .ok rfl
    · exact .ok rfl

theorem serve_without (hspurns : service.Spurns strangers) (locals : Locals)
    (command : Option (ClientCommand × Bytes)) :
    Result.Related (SameWithout strangers) (service.serve sock locals command)
      ((service.without strangers).serve sock locals command) := by
  have hspurns' := hspurns.opens sock
  cases command with
  | none =>
    rw [serve, serve, opens_without hsock]
    exact .ok rfl
  | some entry =>
    obtain ⟨command, args⟩ := entry
    rw [serve, serve, opens_without hsock]
    cases command with
    | LOGIN => exact cmd_login_without hsock
    | MSG => exact cmd_msg_without hsock hspurns'
    | P2P => exact cmd_p2p_without hsock hspurns'
    | CREATEMULTICAST => exact cmd_createmulticast_without hsock
    | GETMULTICAST => exact cmd_getmulticast_without hsock

end Commands

end Service

end rc_project.server
