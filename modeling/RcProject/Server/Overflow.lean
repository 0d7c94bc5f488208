import RcProject.Server.AdminBuffer
import RcProject.Server.Datagram
import RcProject.Server.Groups
import RcProject.Server.Routing
import RcProject.Server.Sessions

open rc_project.avl_tree rc_project.blocks rc_project.c_string rc_project.scanf
open rc_project.transition

namespace rc_project.server

/-- The sizes of the arrays that the words of the arguments are stored in. -/
def ClientCommand.sizes : ClientCommand → List Nat
  | .LOGIN => [USERNAME_SIZE, PASSWORD_SIZE]
  | .MSG | .P2P => [USERNAME_SIZE]
  | .CREATEMULTICAST | .GETMULTICAST => [MAX_GROUP_NAME]

def AdminCommand.sizes : AdminCommand → List Nat
  | .ADD => [USERNAME_SIZE, INET_ADDRSTRLEN, PASSWORD_SIZE]
  | .DEL => [USERNAME_SIZE]
  | .LIST | .QUIT => []

section Formats

variable {limit size : Nat}

theorem checks_word (hsize : 0 < size) : Checks limit [.word size] [size] :=
  (checks_nil limit).word (by simp) hsize

theorem checks_login : Checks limit [.word USERNAME_SIZE, .space, .word PASSWORD_SIZE]
    [USERNAME_SIZE, PASSWORD_SIZE] :=
  (checks_word (by decide)).space.word (by decide) (by decide)

/-- The message of a `MSG` has room for what is left of a datagram. -/
theorem checks_msg : Checks BUFFER_SIZE [.word USERNAME_SIZE, .space, .line BUFFER_SIZE, .literal 115]
    [USERNAME_SIZE] := by
  have hline : Checks BUFFER_SIZE [.line BUFFER_SIZE, .literal 115] [] :=
    ((checks_nil BUFFER_SIZE).literal 115).line (Nat.le_refl _)
  exact hline.space.word (by simp) (by decide)

theorem checks_add : Checks limit [.word USERNAME_SIZE, .space, .word INET_ADDRSTRLEN, .space,
    .word PASSWORD_SIZE, .space, .int, .space, .int, .space, .int]
    [USERNAME_SIZE, INET_ADDRSTRLEN, PASSWORD_SIZE] := by
  have hints : Checks limit [.space, .int, .space, .int, .space, .int] [] :=
    (checks_nil limit).int.space.int.space.int.space
  have hpassword : Checks limit [.word PASSWORD_SIZE, .space, .int, .space, .int, .space, .int]
      [PASSWORD_SIZE] := hints.word (by simp) (by decide)
  have hip : Checks limit (.word INET_ADDRSTRLEN :: .space :: _) [INET_ADDRSTRLEN, PASSWORD_SIZE] :=
    hpassword.space.word (by decide) (by decide)
  exact hip.space.word (by decide) (by decide)

end Formats

namespace Memory

variable {memory opened : Memory} {sock : sockaddr_in} {client : Nat} {args : Bytes}
  {locals : Locals} {command : ClientCommand} {e : Fault}

/-- The session of an address. -/
structure SessionAt (memory : Memory) (sock : sockaddr_in) (t : Nat) : Prop where
  mem : t ∈ memory.userSessions
  ip : cstr (memory.sessions.contents t).ip.bytes = inet_ntop sock.sin_addr
  port : (memory.sessions.contents t).port = sock.sin_port.setWidth 32

theorem Opened.sessionAt (h : memory.Opened sock client opened) : opened.SessionAt sock client :=
  ⟨h.mem, h.ip, h.port⟩

/-- The session of an address is answered at this address. -/
theorem Valid.sock_of_sessionAt (hvalid : memory.Valid) (hat : memory.SessionAt sock client) :
    (memory.sessions.contents client).sock = sock := by
  obtain ⟨hip, hport⟩ := hvalid.addressed client hat.mem
  exact sockaddr_in_eq (hip.symm.trans hat.ip) (hport.symm.trans hat.port)

/-- A session that its address had before is the one that is opened. -/
theorem Opened.eq_of_sessionAt (h : memory.Opened sock client opened) {t : Nat}
    (ht : memory.SessionAt sock t) : t = client ∧ opened = memory := by
  obtain ⟨hmem, hsame⟩ := h.old t ht.mem
  have heq : t = client := h.valid.session_unique hmem h.mem (by rw [hsame, ht.ip, h.ip])
    (by rw [hsame, ht.port, h.port])
  exact ⟨heq, h.same (heq ▸ ht.mem)⟩

/-- A datagram opens no session but that of its address. -/
theorem Opened.sessionAt_iff (h : memory.Opened sock client opened) {peer : sockaddr_in} {t : Nat} :
    opened.SessionAt peer t ↔ memory.SessionAt peer t ∨ peer = sock ∧ t = client := by
  constructor
  · intro ht
    obtain hold | ⟨rfl, -⟩ := h.new t ht.mem
    · have hsame := (h.old t hold).2
      exact Or.inl ⟨hold, hsame ▸ ht.ip, hsame ▸ ht.port⟩
    · exact Or.inr ⟨(h.valid.sock_of_sessionAt ht).symm.trans (h.valid.sock_of_sessionAt h.sessionAt),
        rfl⟩
  · rintro (ht | ⟨rfl, rfl⟩)
    · obtain ⟨hmem, hsame⟩ := h.old t ht.mem
      exact ⟨hmem, hsame.symm ▸ ht.ip, hsame.symm ▸ ht.port⟩
    · exact h.sessionAt

/-- What lies in the next block reaches the client pointer of a session that is new, and
nothing else does. -/
theorem Valid.init_client_session_client (hvalid : memory.Valid)
    (hinit : memory.init_client_session sock = .ok (opened, some client)) :
    memory.Opened sock client opened ∧
      ((opened = memory ∧ memory.SessionAt sock client) ∨
        (∀ t, ¬ memory.SessionAt sock t) ∧ client = memory.sessions.brk ∧
          (∀ t, t ∈ opened.userSessions ↔ t ∈ memory.userSessions ∨ t = client) ∧
          (opened.sessions.contents client).client = memory.sessions.fresh.client) := by
  obtain ⟨s', hcase, hopened⟩ | ⟨T, ip, next, hcase, -, hnext, hmem, hopened⟩ :=
    hvalid.init_client_session_cases sock
  · rw [hinit, Except.ok.injEq, Prod.mk.injEq, Option.some.injEq] at hcase
    obtain ⟨rfl, rfl⟩ := hcase
    exact ⟨hopened, Or.inl ⟨rfl, hopened.sessionAt⟩⟩
  · rw [hinit, Except.ok.injEq, Prod.mk.injEq, Option.some.injEq] at hcase
    obtain ⟨rfl, rfl⟩ := hcase
    refine ⟨hopened, Or.inr ⟨?_, rfl, hmem, ?_⟩⟩
    · intro t ht
      obtain ⟨rfl, -⟩ := hopened.eq_of_sessionAt ht
      exact Nat.lt_irrefl _ (hvalid.user_session_list.allocated _ ht.mem)
    · rw [hnext]
      simp only [Blocks.alloc_self, newSession]

/-- The client pointer that a datagram from an address finds in its session is null or leads to a
record. Where the session is new, it is what the next block holds. -/
inductive PointedFrom (memory : Memory) (sock : sockaddr_in) : Prop
  | old (t : Nat) (hat : memory.SessionAt sock t) (hpointed : memory.Pointed t) :
    PointedFrom memory sock
  | new (hnone : ∀ t, ¬ memory.SessionAt sock t)
    (hfresh : ∀ u ∈ memory.sessions.fresh.client, u < memory.clients.brk) : PointedFrom memory sock

theorem Valid.pointed_iff (hvalid : memory.Valid)
    (hinit : memory.init_client_session sock = .ok (opened, some client)) :
    opened.Pointed client ↔ memory.PointedFrom sock := by
  obtain ⟨hopened, ⟨rfl, hat⟩ | ⟨hnone, -, -, hclient⟩⟩ := hvalid.init_client_session_client hinit
  · constructor
    · exact .old client hat
    · rintro (⟨t, ht, hpointed⟩ | ⟨hnone, -⟩)
      · obtain ⟨rfl, -⟩ := hopened.eq_of_sessionAt ht
        exact hpointed
      · exact absurd hat (hnone client)
  · have hbrk : opened.clients.brk = memory.clients.brk := by rw [hopened.rest]
    rw [Pointed, hclient, hbrk]
    constructor
    · exact .new hnone
    · rintro (⟨t, ht, -⟩ | ⟨-, hfresh⟩)
      · exact absurd ht (hnone t)
      · exact hfresh

/-- A session gets as far as the conversions of a command. -/
def Scans (memory : Memory) (t : Nat) : ClientCommand → Prop
  | .LOGIN => (memory.sessions.contents t).logged_in = 0
  | .MSG => ∃ sender, memory.Permitted t .client_server sender
  | .P2P => ∃ sender, memory.Permitted t .p2p sender
  | .CREATEMULTICAST | .GETMULTICAST => (memory.sessions.contents t).logged_in ≠ 0

/-- An address gets as far as the conversions of a command. One that has no session
yet has a new one, from which only a `LOGIN` gets there. -/
def ScansFrom (memory : Memory) (sock : sockaddr_in) (command : ClientCommand) : Prop :=
  (∃ t, memory.SessionAt sock t ∧ memory.Scans t command) ∨
    command = .LOGIN ∧ ∀ t, ¬ memory.SessionAt sock t

/-- The arguments of a command do not fit the arrays of its handler: a word has no
room, or the address in the record of the user that it names has none. -/
inductive Overflows (memory : Memory) (args : Bytes) (command : ClientCommand) : Prop
  | word (hlong : Overlong command.sizes args)
  | address (permission : Permission) (username : Bytes) (u : Nat)
    (htargets : Targets args command permission username) (hu : u ∈ memory.users)
    (hname : (memory.clients.contents u).username_string = cstr username)
    (hlong : INET_ADDRSTRLEN ≤ (memory.clients.contents u).ip_string.length)

theorem not_scans_of_new (hnew : (memory.sessions.contents client).logged_in = 0)
    (hscans : memory.Scans client command) : command = .LOGIN := by
  cases command with
  | LOGIN => rfl
  | MSG =>
    obtain ⟨sender, hpermitted⟩ := hscans
    exact absurd hnew hpermitted.logged_in
  | P2P =>
    obtain ⟨sender, hpermitted⟩ := hscans
    exact absurd hnew hpermitted.logged_in
  | CREATEMULTICAST => exact absurd hnew hscans
  | GETMULTICAST => exact absurd hnew hscans

theorem Opened.scans_iff (h : memory.Opened sock client opened) :
    opened.Scans client command ↔ memory.ScansFrom sock command := by
  by_cases hold : ∃ t, memory.SessionAt sock t
  · obtain ⟨t, ht⟩ := hold
    obtain ⟨rfl, rfl⟩ := h.eq_of_sessionAt ht
    constructor
    · intro hscans
      exact Or.inl ⟨t, ht, hscans⟩
    · rintro (⟨s, hs, hscans⟩ | ⟨-, hnone⟩)
      · obtain ⟨rfl, -⟩ := h.eq_of_sessionAt hs
        exact hscans
      · exact absurd ht (hnone t)
  · have hnone : ∀ t, ¬ memory.SessionAt sock t := fun t ht => hold ⟨t, ht⟩
    have hnew : (opened.sessions.contents client).logged_in = 0 := by
      obtain hmem | ⟨-, hnew⟩ := h.new client h.mem
      · obtain rfl := h.same hmem
        exact absurd h.sessionAt (hnone client)
      · exact hnew
    constructor
    · intro hscans
      exact Or.inr ⟨not_scans_of_new hnew hscans, hnone⟩
    · rintro (⟨t, ht, -⟩ | ⟨rfl, -⟩)
      · exact absurd ht (hnone t)
      · exact hnew

theorem Opened.overflows_iff (h : memory.Opened sock client opened) :
    opened.Overflows args command ↔ memory.Overflows args command := by
  have husers := h.users_eq
  have hclients := h.clients_eq
  constructor
  · rintro (hlong | ⟨permission, username, u, htargets, hu, hname, hlong⟩)
    · exact .word hlong
    · rw [husers] at hu
      rw [hclients] at hname hlong
      exact .address permission username u htargets hu hname hlong
  · rintro (hlong | ⟨permission, username, u, htargets, hu, hname, hlong⟩)
    · exact .word hlong
    · rw [← husers] at hu
      rw [← hclients] at hname hlong
      exact .address permission username u htargets hu hname hlong

section Lookups

theorem Valid.find_session_error_iff (hvalid : memory.Valid) {u : Nat} :
    memory.find_session u = .error e ↔
      e = .overflow ∧ INET_ADDRSTRLEN ≤ (memory.clients.contents u).ip_string.length := by
  by_cases hfits : (memory.clients.contents u).ip_string.length < INET_ADDRSTRLEN
  · obtain ⟨found, hfind, -⟩ := hvalid.find_session_spec hfits
    rw [hfind]
    exact iff_of_false (by simp) fun h => absurd hfits (Nat.not_lt.mpr h.2)
  · have hcopy : strcpy memory.sessions.fresh.ip (memory.clients.contents u).ip_string =
        .error .overflow := by
      rw [strcpy, dif_neg]
      · rfl
      · rwa [client_t.ip_string, cstr_cstr]
    simp only [find_session, hcopy, Result.error_bind, Except.error.injEq]
    exact ⟨fun he => ⟨he.symm, Nat.not_lt.mp hfits⟩, fun h => h.1.symm⟩

/-- A user that is looked up with its session: only the address in its record may
have no room. -/
theorem Valid.locate_error_iff (hvalid : memory.Valid) {α : Type} {username : Bytes}
    (hfits : username.length < USERNAME_SIZE) (nobody nowhere : α) (located : Nat → α) :
    (do
      match ← memory.find_user username with
      | none => return nobody
      | some u =>
        match ← memory.find_session u with
        | none => return nowhere
        | some t => return located t : Result α) = .error e ↔
    e = .overflow ∧ ∃ u ∈ memory.users,
      (memory.clients.contents u).username_string = cstr username ∧
        INET_ADDRSTRLEN ≤ (memory.clients.contents u).ip_string.length := by
  obtain ⟨found, hfind, hfound⟩ :=
    hvalid.find_user_spec ((length_cstr_le username).trans_lt hfits)
  rw [hfind, Result.ok_bind]
  cases found with
  | none =>
    apply iff_of_false (by simp)
    rintro ⟨-, u, hu, hname, -⟩
    cases (hfound u).mpr ⟨hu, hname⟩
  | some u =>
    obtain ⟨hu, hname⟩ := (hfound u).mp rfl
    simp only [Result.bind_eq_error_iff]
    constructor
    · rintro (hfault | ⟨session, -, hfault⟩)
      · obtain ⟨he, hlong⟩ := hvalid.find_session_error_iff.mp hfault
        exact ⟨he, u, hu, hname, hlong⟩
      · cases session <;> cases hfault
    · rintro ⟨he, v, hv, hname', hlong⟩
      obtain rfl : u = v := Option.some.inj ((hfound v).mpr ⟨hv, hname'⟩)
      exact Or.inl (hvalid.find_session_error_iff.mpr ⟨he, hlong⟩)

end Lookups

section Commands

theorem overflows_iff_of_ne (hmsg : command ≠ .MSG) (hp2p : command ≠ .P2P) :
    memory.Overflows args command ↔ Overlong command.sizes args := by
  constructor
  · rintro (hlong | ⟨_, _, _, htargets, -, -, -⟩)
    · exact hlong
    · cases htargets with
      | msg => exact absurd rfl hmsg
      | p2p => exact absurd rfl hp2p
  · exact .word

theorem Valid.cmd_login_error_iff (hvalid : memory.Valid) (hclient : client ∈ memory.userSessions)
    (hshort : args.length < BUFFER_SIZE) : cmd_login memory client args locals = .error e ↔
      e = .overflow ∧ memory.Scans client .LOGIN ∧ memory.Overflows args .LOGIN := by
  rw [overflows_iff_of_ne (by decide) (by decide), cmd_login]
  by_cases hlogged : (memory.sessions.contents client).logged_in = 0
  · have hscans : memory.Scans client .LOGIN := hlogged
    rw [if_neg (not_not.mpr hlogged), Result.bind_eq_error_iff_left, checks_login args hshort e]
    · exact and_congr_right fun _ => (and_iff_right hscans).symm
    · intro values hvalues
      split
      · rename_i username password
        have hfits : (cstr username).length < USERNAME_SIZE :=
          (length_cstr_le username).trans_lt (word_of_sscanf hvalues).2
        obtain ⟨found, hfind, -⟩ := hvalid.find_user_spec hfits
        rw [hfind, Result.ok_bind]
        cases found with
        | none => exact ⟨_, rfl⟩
        | some u =>
          by_cases hip : strcmp (memory.sessions.contents client).ip.bytes
              (memory.clients.contents u).ip_string = 0
          · obtain ⟨-, hlogin⟩ := hvalid.login_eq hclient hip locals
            simp only [hip, ne_eq, not_true_eq_false, if_false, hlogin]
            split <;> exact ⟨_, rfl⟩
          · simp only [hip, ne_eq, not_false_eq_true, if_true]
            exact ⟨_, rfl⟩
      · exact ⟨_, rfl⟩
  · rw [if_pos hlogged]
    exact iff_of_false (by simp) fun h => hlogged h.2.1

/-- A logged in session has a record. -/
theorem Valid.deref_client (hvalid : memory.Valid) (hclient : client ∈ memory.userSessions)
    (hlogged : (memory.sessions.contents client).logged_in ≠ 0) :
    ∃ sender, Result.deref (memory.sessions.contents client).client = .ok sender := by
  obtain ⟨sender, -, hsender⟩ := hvalid.bound client hclient hlogged
  exact ⟨sender, Result.deref_eq_ok_iff.mpr hsender⟩

/-- What `MSG` and `P2P` have in common: the checks, the conversions, and then a
lookup of the user that is named. -/
theorem Valid.locating_error_iff (hvalid : memory.Valid) (hclient : client ∈ memory.userSessions)
    {α : Type} (permission : Permission) {format : List Directive} (unknown unpermitted : α)
    (body : Nat → List Value → Result α)
    (hchecks : ∀ e, sscanf args format = .error e ↔ e = .overflow ∧ Overlong command.sizes args)
    (htargets : ∀ permission' username, Targets args command permission' username →
      permission' = permission)
    (hbody : ∀ sender values, sscanf args format = .ok values → (body sender values = .error e ↔
      e = .overflow ∧ ∃ username, Targets args command permission username ∧ ∃ u ∈ memory.users,
        (memory.clients.contents u).username_string = cstr username ∧
          INET_ADDRSTRLEN ≤ (memory.clients.contents u).ip_string.length)) :
    (if (memory.sessions.contents client).logged_in = 0 then return unknown
      else do
        let sender ← Result.deref (memory.sessions.contents client).client
        if (memory.clients.contents sender).flag permission = 0 then return unpermitted
        else do
          let values ← sscanf args format
          body sender values : Result α) = .error e ↔
    e = .overflow ∧ (∃ sender, memory.Permitted client permission sender) ∧
      memory.Overflows args command := by
  by_cases hlogged : (memory.sessions.contents client).logged_in = 0
  · rw [if_pos hlogged]
    apply iff_of_false (by simp)
    rintro ⟨-, ⟨sender, hpermitted⟩, -⟩
    exact hpermitted.logged_in hlogged
  · obtain ⟨sender, hsender⟩ := hvalid.deref_client hclient hlogged
    have hpointer := Result.deref_eq_ok_iff.mp hsender
    rw [if_neg hlogged, hsender, Result.ok_bind]
    by_cases hflag : (memory.clients.contents sender).flag permission = 0
    · rw [if_pos hflag]
      apply iff_of_false (by simp)
      rintro ⟨-, ⟨sender', hpermitted⟩, -⟩
      obtain rfl : sender' = sender := Option.some.inj (hpermitted.client_eq.symm.trans hpointer)
      exact hpermitted.flag hflag
    · have hpermitted : memory.Permitted client permission sender := ⟨hlogged, hpointer, hflag⟩
      rw [if_neg hflag, Result.bind_eq_error_iff]
      constructor
      · rintro (hfault | ⟨values, hscan, hfault⟩)
        · obtain ⟨he, hlong⟩ := (hchecks e).mp hfault
          exact ⟨he, ⟨sender, hpermitted⟩, .word hlong⟩
        · obtain ⟨he, username, htarget, u, hu, hname, hlong⟩ :=
            (hbody sender values hscan).mp hfault
          exact ⟨he, ⟨sender, hpermitted⟩, .address permission username u htarget hu hname hlong⟩
      · rintro ⟨he, -, hover⟩
        cases hscan : sscanf args format with
        | error e' =>
          obtain ⟨he', -⟩ := (hchecks e').mp hscan
          exact Or.inl (by rw [he, he'])
        | ok values =>
          refine Or.inr ⟨values, rfl, (hbody sender values hscan).mpr ⟨he, ?_⟩⟩
          obtain hlong | ⟨permission', username, u, htarget, hu, hname, hlong⟩ := hover
          · cases hscan.symm.trans ((hchecks .overflow).mpr ⟨rfl, hlong⟩)
          · obtain rfl := htargets permission' username htarget
            exact ⟨username, htarget, u, hu, hname, hlong⟩

theorem Valid.cmd_msg_error_iff (hvalid : memory.Valid) (hclient : client ∈ memory.userSessions)
    (hshort : args.length < BUFFER_SIZE) : cmd_msg memory client args locals = .error e ↔
      e = .overflow ∧ memory.Scans client .MSG ∧ memory.Overflows args .MSG := by
  refine hvalid.locating_error_iff hclient .client_server _ _ _
    (checks_msg args hshort) ?_ ?_
  · intro permission' username htarget
    cases htarget
    rfl
  · intro sender values hscan
    split
    · rename_i username message
      refine (hvalid.locate_error_iff (word_of_sscanf hscan).2 _ _ _).trans ?_
      apply and_congr_right
      intro _
      constructor
      · intro hlong
        exact ⟨username, .msg username message hscan, hlong⟩
      · rintro ⟨username', htarget, hlong⟩
        cases htarget with
        | msg _ message' hscan' =>
          cases hscan.symm.trans hscan'
          exact hlong
    · rename_i hshape
      apply iff_of_false (by simp)
      rintro ⟨-, username, htarget, -⟩
      cases htarget with
      | msg _ message hscan' =>
        cases hscan.symm.trans hscan'
        exact hshape username message rfl

theorem Valid.cmd_p2p_error_iff (hvalid : memory.Valid) (hclient : client ∈ memory.userSessions)
    (hshort : args.length < BUFFER_SIZE) : cmd_p2p memory client args = .error e ↔
      e = .overflow ∧ memory.Scans client .P2P ∧ memory.Overflows args .P2P := by
  refine hvalid.locating_error_iff hclient .p2p _ _ _
    (checks_word (by decide) args hshort) ?_ ?_
  · intro permission' username htarget
    cases htarget
    rfl
  · intro sender values hscan
    split
    · rename_i username
      refine (hvalid.locate_error_iff (word_of_sscanf hscan).2 _ _ _).trans ?_
      apply and_congr_right
      intro _
      constructor
      · intro hlong
        exact ⟨username, .p2p username hscan, hlong⟩
      · rintro ⟨username', htarget, hlong⟩
        cases htarget with
        | p2p _ hscan' =>
          cases hscan.symm.trans hscan'
          exact hlong
    · rename_i hshape
      apply iff_of_false (by simp)
      rintro ⟨-, username, htarget, -⟩
      cases htarget with
      | p2p _ hscan' =>
        cases hscan.symm.trans hscan'
        exact hshape username rfl

/-- A group name that was scanned makes a new group. -/
theorem exists_new_group_of_scan {group_name : Bytes}
    (hscan : sscanf args [.word MAX_GROUP_NAME] = .ok [.string group_name]) :
    ∃ group, new_group memory.group_blocks.fresh group_name [] = .ok group :=
  exists_new_group _ (word_of_sscanf hscan).2

/-- What the two group commands have in common: one word that is scanned for a
logged in session, and what follows does not fail. -/
theorem naming_error_iff {α : Type} (unknown : α) (body : List Value → Result α)
    (hsizes : command.sizes = [MAX_GROUP_NAME])
    (hbody : (memory.sessions.contents client).logged_in ≠ 0 → ∀ values,
      sscanf args [.word MAX_GROUP_NAME] = .ok values → ∃ result, body values = .ok result) :
    (if (memory.sessions.contents client).logged_in = 0 then return unknown
      else do
        let values ← sscanf args [.word MAX_GROUP_NAME]
        body values : Result α) = .error e ↔
    e = .overflow ∧ (memory.sessions.contents client).logged_in ≠ 0 ∧
      Overlong command.sizes args := by
  by_cases hlogged : (memory.sessions.contents client).logged_in = 0
  · rw [if_pos hlogged]
    exact iff_of_false (by simp) fun h => h.2.1 hlogged
  · have hchecks : sscanf args [.word MAX_GROUP_NAME] = .error e ↔
        e = .overflow ∧ Overlong [MAX_GROUP_NAME] args :=
      checks_word (by decide) args (Nat.lt_succ_self _) e
    rw [if_neg hlogged, Result.bind_eq_error_iff_left (hbody hlogged), hchecks, hsizes]
    exact and_congr_right fun _ => (and_iff_right hlogged).symm

theorem Valid.cmd_createmulticast_error_iff (hvalid : memory.Valid)
    (hclient : client ∈ memory.userSessions) : cmd_createmulticast memory client args = .error e ↔
      e = .overflow ∧ memory.Scans client .CREATEMULTICAST ∧
        memory.Overflows args .CREATEMULTICAST := by
  rw [overflows_iff_of_ne (by decide) (by decide)]
  apply naming_error_iff _ _ rfl
  intro hlogged values hscan
  obtain ⟨sender, hsender⟩ := hvalid.deref_client hclient hlogged
  split
  · rename_i group_name
    obtain ⟨group, hgroup⟩ := exists_new_group_of_scan hscan
    obtain ⟨found, hfind, hfound⟩ := hvalid.find_group_spec group
    rw [hsender, Result.ok_bind]
    by_cases hflag : (memory.clients.contents sender).group = 0
    · exact ⟨_, if_pos hflag⟩
    · rw [if_neg hflag, hgroup, Result.ok_bind, hfind, Result.ok_bind]
      by_cases hsome : found ≠ none
      · exact ⟨_, if_pos hsome⟩
      · rw [if_neg hsome]
        by_cases hroom : memory.current_group < max_groups
        · have hnew (g : Nat) (hg : g ∈ memory.multicastGroups) :
              cstr (memory.group_blocks.contents g).name.bytes ≠ cstr group.name.bytes := by
            intro hname
            apply hsome
            rw [(hfound g).mpr ⟨hg, hname⟩]
            exact Option.some_ne_none g
          obtain ⟨ip, T, effects, hip, -, hadd, -⟩ := hvalid.create_group_room group hnew hroom
          simp only [if_pos hroom, hip, hadd, Result.ok_bind]
          exact ⟨_, rfl⟩
        · exact ⟨_, if_neg hroom⟩
  · exact ⟨_, rfl⟩

theorem Valid.cmd_getmulticast_error_iff (hvalid : memory.Valid)
    (hclient : client ∈ memory.userSessions) : cmd_getmulticast memory client args = .error e ↔
      e = .overflow ∧ memory.Scans client .GETMULTICAST ∧
        memory.Overflows args .GETMULTICAST := by
  rw [overflows_iff_of_ne (by decide) (by decide)]
  apply naming_error_iff _ _ rfl
  intro hlogged values hscan
  obtain ⟨sender, hsender⟩ := hvalid.deref_client hclient hlogged
  split
  · rename_i group_name
    obtain ⟨group, hgroup⟩ := exists_new_group_of_scan hscan
    obtain ⟨found, hfind, -⟩ := hvalid.find_group_spec group
    rw [hsender, Result.ok_bind]
    by_cases hflag : (memory.clients.contents sender).group = 0
    · exact ⟨_, if_pos hflag⟩
    · rw [if_neg hflag, hgroup, Result.ok_bind, hfind, Result.ok_bind]
      cases found <;> exact ⟨_, rfl⟩
  · exact ⟨_, rfl⟩

/-- The only fault of a client command is an overflow of its arrays. -/
theorem Valid.client_cmd_functions_error_iff (hvalid : memory.Valid)
    (hclient : client ∈ memory.userSessions) (hshort : args.length < BUFFER_SIZE) :
    client_cmd_functions memory client args locals command = .error e ↔
      e = .overflow ∧ memory.Scans client command ∧ memory.Overflows args command := by
  cases command with
  | LOGIN => exact hvalid.cmd_login_error_iff hclient hshort
  | MSG => exact hvalid.cmd_msg_error_iff hclient hshort
  | P2P => exact hvalid.cmd_p2p_error_iff hclient hshort
  | CREATEMULTICAST => exact hvalid.cmd_createmulticast_error_iff hclient
  | GETMULTICAST => exact hvalid.cmd_getmulticast_error_iff hclient

/-- The faults of a datagram are that of the log, whose pointer leads to no record, and an overflow
in the command that it holds. -/
theorem Valid.udp_server_worker_error_iff (hvalid : memory.Valid) {datagram : Bytes} :
    udp_server_worker memory sock datagram locals = .error e ↔
      (e = .wild_pointer ∧ ¬ memory.PointedFrom sock) ∨ e = .overflow ∧ memory.PointedFrom sock ∧
        ∃ command args, parse_line client_commands (line (datagram.take BUFFER_SIZE)) =
          some (command, args) ∧ memory.ScansFrom sock command ∧ memory.Overflows args command := by
  obtain ⟨opened, client, hinit, hopened⟩ := hvalid.init_client_session_spec sock
  rw [← hvalid.pointed_iff hinit]
  by_cases hpointed : opened.Pointed client
  · rw [udp_server_worker_eq_served hinit hpointed (received_command_eq datagram locals),
      or_iff_right fun hwild => hwild.2 hpointed, and_iff_right hpointed]
    cases hparse : parse_line client_commands (line (datagram.take BUFFER_SIZE)) with
    | none =>
      apply iff_of_false (by simp [served_command])
      rintro ⟨-, command, args, hsome, -⟩
      cases hsome
    | some entry =>
      obtain ⟨command, args⟩ := entry
      have hcommand : client_cmd_functions opened client args locals command = .error e ↔
          e = .overflow ∧ opened.Scans client command ∧ opened.Overflows args command :=
        hopened.valid.client_cmd_functions_error_iff hopened.mem (length_args_lt hparse)
      rw [served_command, hcommand, hopened.scans_iff, hopened.overflows_iff]
      apply and_congr_right
      intro _
      constructor
      · intro h
        exact ⟨command, args, rfl, h⟩
      · rintro ⟨command', args', hsome, h⟩
        cases hsome
        exact h
  · have hwild : logged_username opened client = .error .wild_pointer :=
      logged_username_eq_error_iff.mpr ⟨rfl, hpointed⟩
    rw [udp_server_worker_eq_logged hinit (received_command_eq datagram locals), hwild,
      Result.error_bind, Except.error.injEq, and_iff_left hpointed, eq_comm]
    exact (or_iff_left fun hover => hpointed hover.2.1).symm

/-- The strings of an `ADD` that was scanned fit the fields of a record. -/
theorem exists_new_client_of_scan {username ip password : Bytes}
    {client_server p2p group : BitVec 32} {values : List Value} (block : client_t)
    (hscan : sscanf args [.word USERNAME_SIZE, .space, .word INET_ADDRSTRLEN, .space,
      .word PASSWORD_SIZE, .space, .int, .space, .int, .space, .int] =
        .ok (.string username :: .string ip :: .string password :: values)) :
    ∃ client, new_client block username password ip client_server p2p group = .ok client := by
  obtain ⟨-, husername, hname, hscan⟩ := sscanf_word_eq_ok_iff.mp hscan
  rw [sscanf_space] at hscan
  obtain ⟨-, hip, haddress, hscan⟩ := sscanf_word_eq_ok_iff.mp hscan
  rw [sscanf_space] at hscan
  obtain ⟨-, hpassword, hsecret, -⟩ := sscanf_word_eq_ok_iff.mp hscan
  cases hname
  cases haddress
  cases hsecret
  have hfits (size : Nat) (string : Bytes) (hlength : string.length < size) :
      (cstr string).length < size := (length_cstr_le string).trans_lt hlength
  obtain ⟨username', husername'⟩ := exists_strcpy block.username (hfits _ _ husername)
  obtain ⟨password', hpassword'⟩ := exists_strcpy block.password (hfits _ _ hpassword)
  obtain ⟨ip', hip'⟩ := exists_strcpy block.ip (hfits _ _ hip)
  exact ⟨_, new_client_eq_ok_iff.mpr ⟨_, _, _, husername', hpassword', hip', rfl⟩⟩

/-- The only fault of an admin command is an overflow of its arrays. -/
theorem Valid.cmd_functions_error_iff (hvalid : memory.Valid) {socket : Int}
    {command : AdminCommand} : cmd_functions memory socket args command = .error e ↔
      e = .overflow ∧ Overlong command.sizes args := by
  have hshort : args.length < args.length + 1 := Nat.lt_succ_self _
  cases command with
  | LIST =>
    rw [cmd_functions, cmd_list, avl_print_client_stores hvalid.user_list.stores]
    exact iff_of_false (by simp) And.right
  | QUIT => exact iff_of_false (by simp [cmd_functions, cmd_quit]) And.right
  | ADD =>
    rw [cmd_functions, cmd_add, Result.bind_eq_error_iff_left]
    · exact checks_add args hshort e
    · intro values hscan
      split
      · rename_i username ip password client_server p2p group
        obtain ⟨client, hclient⟩ : ∃ client, new_client memory.clients.fresh username password ip
            client_server p2p group = .ok client := exists_new_client_of_scan _ hscan
        rw [hclient, Result.ok_bind]
        by_cases hnew : ∀ u ∈ memory.users, client.username_string ≠
            (memory.clients.contents u).username_string
        · obtain ⟨added, hadd, -⟩ := hvalid.add_user_spec hnew true true
          rw [hadd]
          exact ⟨_, rfl⟩
        · push Not at hnew
          obtain ⟨u, hu, hname⟩ := hnew
          rw [hvalid.add_user_duplicated hu hname]
          exact ⟨_, rfl⟩
      · exact ⟨_, rfl⟩
  | DEL =>
    rw [cmd_functions, cmd_del, Result.bind_eq_error_iff_left]
    · exact checks_word (by decide) args hshort e
    · intro values hscan
      split
      · rename_i username
        have hfits : (cstr username).length < USERNAME_SIZE :=
          (length_cstr_le username).trans_lt (word_of_sscanf hscan).2
        obtain ⟨client, hclient⟩ := exists_new_client memory.clients.fresh hfits 1 1 1
        rw [hclient, Result.ok_bind]
        by_cases hnew : ∀ u ∈ memory.users, client.username_string ≠
            (memory.clients.contents u).username_string
        · rw [hvalid.remove_user_not_found hnew]
          exact ⟨_, rfl⟩
        · push Not at hnew
          obtain ⟨u, hu, hname⟩ := hnew
          obtain ⟨removed, hremove, -⟩ := hvalid.remove_user_spec hu hname
          rw [hremove]
          exact ⟨_, rfl⟩
      · exact ⟨_, rfl⟩

/-- A read overflows an array exactly when the line in the buffer holds a command
with an overlong word. -/
theorem Valid.handle_admin_overflow_iff (hvalid : memory.Valid) {connection : Connection}
    {received : Bytes} : handle_admin memory connection received = .error .overflow ↔
      received ≠ [] ∧ (∃ c ∈ connection.read received, endsLine c = true) ∧
        ∃ command args, parse_line commands (line (connection.read received)) =
          some (command, args) ∧ Overlong command.sizes args := by
  rw [handle_admin]
  by_cases hend : received = []
  · rw [if_pos hend]
    exact iff_of_false (by simp) fun h => h.1 hend
  · rw [if_neg hend, and_iff_right hend, cmd_function]
    by_cases hends : ∃ c ∈ connection.read received, endsLine c = true
    · obtain ⟨left, hdispatch⟩ := dispatch_eq commands_names (line_append_of_mem hends []).2
      rw [and_iff_right hends, hdispatch, Result.ok_bind]
      cases hparse : parse_line commands (line (connection.read received)) with
      | none =>
        apply iff_of_false (by simp)
        rintro ⟨command, args, hsome, -⟩
        cases hsome
      | some entry =>
        obtain ⟨command, args⟩ := entry
        have hcommand : cmd_functions memory connection.socket args command = .error .overflow ↔
            Fault.overflow = .overflow ∧ Overlong command.sizes args :=
          hvalid.cmd_functions_error_iff
        rw [Result.bind_eq_error_iff_left, Result.bind_eq_error_iff_left, hcommand]
        · constructor
          · rintro ⟨-, hlong⟩
            exact ⟨command, args, rfl, hlong⟩
          · rintro ⟨command', args', hsome, hlong⟩
            cases hsome
            exact ⟨rfl, hlong⟩
        · intro result _
          exact ⟨_, rfl⟩
        · intro result _
          exact ⟨_, rfl⟩
    · have hnone : ∀ c ∈ connection.read received, endsLine c = false := by simpa using hends
      rw [dispatch_error hnone]
      refine iff_of_false ?_ fun h => hends h.1
      intro hfault
      cases hfault

end Commands

end Memory

/-- A step has a field that does not fit its array: in a command of a client that
gets past the log and as far as its conversions, or in a command of the admin. -/
inductive Server.Overflows (server : Server) : Event → Prop
  | request (sock : sockaddr_in) (datagram : Bytes) (locals : Locals) (command : ClientCommand)
    (args : Bytes) (hpointed : server.memory.PointedFrom sock)
    (hparse : parse_line client_commands (line (datagram.take BUFFER_SIZE)) = some (command, args))
    (hscans : server.memory.ScansFrom sock command)
    (hover : server.memory.Overflows args command) :
    server.Overflows (.datagram sock datagram locals)
  | read (connection : Connection) (received : Bytes) (command : AdminCommand) (args : Bytes)
    (hadmin : server.admin = some connection) (hreceived : received ≠ [])
    (hends : ∃ c ∈ connection.read received, endsLine c = true)
    (hparse : parse_line commands (line (connection.read received)) = some (command, args))
    (hlong : Overlong command.sizes args) :
    server.Overflows (.read received)

theorem step_overflow_iff {server : Server} {event : Event} (hvalid : server.memory.Valid) :
    step server event = .error .overflow ↔ server.Overflows event := by
  cases event with
  | datagram sock datagram locals =>
    rw [step, Result.bind_eq_error_iff_left, hvalid.udp_server_worker_error_iff]
    · constructor
      · rintro (⟨hwild, -⟩ | ⟨-, hpointed, command, args, hparse, hscans, hover⟩)
        · cases hwild
        · exact .request sock datagram locals command args hpointed hparse hscans hover
      · rintro (⟨_, _, _, command, args, hpointed, hparse, hscans, hover⟩ | _)
        exact Or.inr ⟨rfl, hpointed, command, args, hparse, hscans, hover⟩
    · intro result _
      exact ⟨_, rfl⟩
  | accept connection =>
    refine iff_of_false ?_ ?_
    · rw [step]
      split <;> simp
    · intro hover
      cases hover
  | read received =>
    rw [step]
    cases hadmin : server.admin with
    | none =>
      apply iff_of_false (by simp)
      rintro (_ | ⟨connection, _, _, _, hsome, -⟩)
      rw [hadmin] at hsome
      cases hsome
    | some connection =>
      simp only
      rw [Result.bind_eq_error_iff_left, hvalid.handle_admin_overflow_iff]
      · constructor
        · rintro ⟨hreceived, hends, command, args, hparse, hlong⟩
          exact .read connection received command args hadmin hreceived hends hparse hlong
        · rintro (_ | ⟨_, _, command, args, hsome, hreceived, hends, hparse, hlong⟩)
          obtain rfl : connection = _ := Option.some.inj (hadmin.symm.trans hsome)
          exact ⟨hreceived, hends, command, args, hparse, hlong⟩
      · intro result _
        exact ⟨_, rfl⟩

/-- No run writes over the end of an array if and only if no step of it has a field
that does not fit. -/
theorem fields_fit_iff {startup : Startup} {records : Bytes} {start : Server}
    {events : List Event} (hmain : main startup records = .ok start) :
    run step start events ≠ .error .overflow ↔
      ∀ past event rest server, events = past ++ event :: rest →
        Reaches step start past server → ¬ server.Overflows event := by
  have hvalid := (started_of_main hmain).valid
  rw [ne_eq, run_eq_error_iff]
  constructor
  · intro hnone past event rest server heq hreach hover
    exact hnone ⟨past, event, rest, server, heq, hreach,
      (step_overflow_iff (reaches_valid hvalid hreach)).mpr hover⟩
  · rintro hfit ⟨past, event, rest, server, heq, hreach, hfault⟩
    exact hfit past event rest server heq hreach
      ((step_overflow_iff (reaches_valid hvalid hreach)).mp hfault)

theorem fields_fit_iff_witness : ∃ start, main .blank [] = .ok start ∧
    ∀ past event rest server, loginRun = past ++ event :: rest →
      Reaches step start past server → ¬ server.Overflows event := by
  have hview : observe .blank [] loginRun (fun _ _ => ()) = .ok () := by decide +kernel
  obtain ⟨start, server, outputs, hmain, hrun, -⟩ := exists_of_observe hview
  refine ⟨start, hmain, (fields_fit_iff hmain).mp ?_⟩
  rw [hrun]
  simp

/-- A user name of 16 characters, sent before any login. -/
def longName : Event :=
  .datagram ⟨⟨10, 0, 0, 1⟩, 5000⟩ (text "LOGIN aaaaaaaaaaaaaaaa pw") .blank

theorem long_name_overflows : ∃ start, main .blank [] = .ok start ∧
    run step start [longName] = .error .overflow := by
  have hview : observe .blank [] [longName] (fun _ _ => ()) = .error .overflow := by decide +kernel
  obtain ⟨start, hmain, -⟩ := exists_main .blank []
  rw [observe, hmain, Result.ok_bind, Result.bind_eq_error_iff_left] at hview
  · exact ⟨start, hmain, hview⟩
  · intro result _
    exact ⟨_, rfl⟩

end rc_project.server
