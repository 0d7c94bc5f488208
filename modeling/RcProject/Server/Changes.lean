import RcProject.Server.Lookups
import RcProject.Server.AdminCommands

open rc_project.avl_tree rc_project.blocks rc_project.c_string rc_project.search_tree

namespace rc_project.server

theorem mem_insert_iff {before after : List Nat} {a b : Nat} :
    a ∈ before ++ b :: after ↔ a ∈ before ++ after ∨ a = b := by
  simp only [List.mem_append, List.mem_cons]
  constructor
  · rintro (h | h | h)
    · exact Or.inl (Or.inl h)
    · exact Or.inr h
    · exact Or.inl (Or.inr h)
  · rintro ((h | h) | h)
    · exact Or.inl h
    · exact Or.inr (Or.inr h)
    · exact Or.inr (Or.inl h)

/-- What a record is apart from its port: its name, and the other fields. -/
def client_t.account (record : client_t) : Bytes × client_t :=
  (record.username_string, { record with port := 0 })

namespace Memory

variable {memory : Memory}

section Open

/-- What `init_client_session` leaves: the session of an address, which is new
and not logged in unless it was there before. -/
structure Opened (memory : Memory) (sock : sockaddr_in) (s : Nat) (next : Memory) : Prop where
  rest : next = { memory with
    user_session_list := next.user_session_list, sessions := next.sessions }
  valid : next.Valid
  same : s ∈ memory.userSessions → next = memory
  mem : s ∈ next.userSessions
  ip : cstr (next.sessions.contents s).ip.bytes = inet_ntop sock.sin_addr
  port : (next.sessions.contents s).port = sock.sin_port.setWidth 32
  old : ∀ t ∈ memory.userSessions, t ∈ next.userSessions ∧
    next.sessions.contents t = memory.sessions.contents t
  new : ∀ t ∈ next.userSessions, t ∈ memory.userSessions ∨
    t = s ∧ (next.sessions.contents t).logged_in = 0
  built : s ∈ memory.userSessions ∨ s = memory.sessions.brk ∧ ∃ session,
    next.sessions = memory.sessions.alloc session ∧
      session.client = memory.sessions.fresh.client

/-- A new session that nobody is logged in to keeps the memory valid. -/
theorem Valid.with_session (hvalid : memory.Valid) {T : avl_tree_t Nat} {es : List Nat}
    {session : client_session_t} (haddressed : session.Addressed)
    (hlogged : session.logged_in = 0)
    (hindex : Index session_order PortInRange (memory.sessions.alloc session) T es)
    (hmem : ∀ t, t ∈ es ↔ t ∈ memory.userSessions ∨ t = memory.sessions.brk) :
    ({ memory with user_session_list := T, sessions := memory.sessions.alloc session } :
      Memory).Valid := by
  have hsessions : traversal T = es := traversal_eq hindex.stores
  have hold (t : Nat) (ht : t ∈ memory.userSessions) :
      (memory.sessions.alloc session).contents t = memory.sessions.contents t :=
    memory.sessions.alloc_of_lt (hvalid.user_session_list.allocated t ht)
  have hbrk : (memory.sessions.alloc session).contents memory.sessions.brk = session :=
    memory.sessions.alloc_self
  exact
    { user_list := hvalid.user_list
      user_session_list := hindex.traversal
      group_list := hvalid.group_list
      addressed := by
        intro t ht
        obtain hmem | rfl := (hmem t).mp (hsessions ▸ ht)
        · rw [hold t hmem]
          exact hvalid.addressed t hmem
        · rw [hbrk]
          exact haddressed
      bound := by
        intro t ht hlogged'
        obtain hmem | rfl := (hmem t).mp (hsessions ▸ ht)
        · rw [hold t hmem] at hlogged' ⊢
          exact hvalid.bound t hmem hlogged'
        · rw [hbrk] at hlogged'
          exact absurd hlogged hlogged'
      pool := hvalid.pool
      pool_bound := hvalid.pool_bound }

/-- A session of a new address is added, and found behind it. -/
theorem Valid.add_session_spec (hvalid : memory.Valid) {session : client_session_t}
    (haddressed : session.Addressed) (hlogged : session.logged_in = 0)
    (hrange : session ∈ PortInRange) (hclient : session.client = memory.sessions.fresh.client)
    (hnew : ∀ t ∈ memory.userSessions, session_order session (memory.sessions.contents t) ≠ 0) :
    ∃ T effects, avl_add (session_cmp (memory.sessions.alloc session).contents)
        memory.user_session_list memory.sessions.brk false false = .ok (AVL_OK, T, effects) ∧
      avl_get (session_cmp (memory.sessions.alloc session).contents) T memory.sessions.brk =
        .ok (some memory.sessions.brk) ∧
      (∀ t, t ∈ traversal T ↔ t ∈ memory.userSessions ∨ t = memory.sessions.brk) ∧
      Opened memory session.sock memory.sessions.brk
        { memory with user_session_list := T, sessions := memory.sessions.alloc session } := by
  have hindex := hvalid.user_session_list
  obtain ⟨T, before, after, hadd, hsplit, hindex'⟩ := hindex.avl_add_spec hrange hnew false false
  let next : Memory :=
    { memory with user_session_list := T, sessions := memory.sessions.alloc session }
  have hsessions : next.userSessions = before ++ memory.sessions.brk :: after :=
    traversal_eq hindex'.stores
  have hmem (t : Nat) : t ∈ before ++ memory.sessions.brk :: after ↔
      t ∈ memory.userSessions ∨ t = memory.sessions.brk := by
    rw [hsplit]
    exact mem_insert_iff
  have hnext (t : Nat) :
      t ∈ next.userSessions ↔ t ∈ memory.userSessions ∨ t = memory.sessions.brk := by
    rw [hsessions]
    exact hmem t
  have hvalid' : next.Valid := hvalid.with_session haddressed hlogged hindex' hmem
  have hself : memory.sessions.brk ∈ next.userSessions := (hnext _).mpr (Or.inr rfl)
  have hbrk : next.sessions.contents memory.sessions.brk = session := memory.sessions.alloc_self
  refine ⟨T, _, hadd, ?_, hnext, rfl, hvalid', ?_, hself, ?_, ?_, ?_, ?_,
    Or.inr ⟨rfl, session, rfl, hclient⟩⟩
  · have hcons := hvalid'.user_session_list.increasing.consistent
      (hvalid'.user_session_list.lawful_contents next.sessions.contents)
      hvalid'.user_session_list.valid (hvalid'.user_session_list.valid _ hself)
    rw [session_cmp_eq, avl_get_stores hvalid'.user_session_list.stores hcons, Except.ok.injEq,
      hcons.find?_eq_some_iff]
    exact ⟨hself, session_order_eq_zero_iff.mpr ⟨rfl, rfl⟩⟩
  · intro hold
    exact absurd (hindex.allocated _ hold) (Nat.lt_irrefl _)
  · rw [hbrk]
    exact haddressed.ip
  · rw [hbrk]
    exact haddressed.port
  · intro t ht
    exact ⟨(hnext t).mpr (Or.inl ht), memory.sessions.alloc_of_lt (hindex.allocated t ht)⟩
  · intro t ht
    obtain hold | rfl := (hnext t).mp ht
    · exact Or.inl hold
    · right
      refine ⟨rfl, ?_⟩
      rw [hbrk]
      exact hlogged

/-- The session that `init_client_session` builds in its block. -/
def newSession (memory : Memory) (sock : sockaddr_in) (ip : CharArray INET_ADDRSTRLEN) :
    client_session_t :=
  { memory.sessions.fresh with
    port := sock.sin_port.setWidth 32, ip, sock, len := 16, socket := memory.udp_socket,
    logged_in := 0 }

/-- A datagram finds the session of its address, or its session is added at the next
block. -/
theorem Valid.init_client_session_cases (hvalid : memory.Valid) (sock : sockaddr_in) :
    (∃ s, memory.init_client_session sock = .ok (memory, some s) ∧ Opened memory sock s memory) ∨
      ∃ T ip next, memory.init_client_session sock = .ok (next, some memory.sessions.brk) ∧
        cstr ip.bytes = inet_ntop sock.sin_addr ∧
        next = { memory with
          user_session_list := T, sessions := memory.sessions.alloc (memory.newSession sock ip) } ∧
        (∀ t, t ∈ next.userSessions ↔ t ∈ memory.userSessions ∨ t = memory.sessions.brk) ∧
        Opened memory sock memory.sessions.brk next := by
  have hfits : (cstr (inet_ntop sock.sin_addr)).length < INET_ADDRSTRLEN := by
    rw [cstr_inet_ntop]
    exact length_inet_ntop_lt _
  obtain ⟨ip, hip⟩ := exists_strcpy memory.sessions.fresh.ip hfits
  have hstring : cstr ip.bytes = inet_ntop sock.sin_addr := by
    rw [← cstr_inet_ntop sock.sin_addr]
    exact cstr_of_strcpy hip
  have hrange : memory.newSession sock ip ∈ PortInRange := by
    change (sock.sin_port.setWidth 32).toNat < 65536
    rw [BitVec.toNat_setWidth]
    omega
  obtain ⟨found, hget, hfound⟩ := hvalid.user_session_list.avl_get_spec (Or.inl hrange)
  cases found with
  | some s =>
    left
    obtain ⟨hmem, hzero⟩ := (hfound s).mp rfl
    obtain ⟨hsip, hsport⟩ := session_order_eq_zero_iff.mp hzero
    have hget' : avl_get (session_cmp (memory.sessions.alloc (memory.newSession sock ip)).contents)
        memory.user_session_list memory.sessions.brk = .ok (some s) := hget
    simp only [newSession] at hget'
    refine ⟨s, ?_, rfl, hvalid, fun _ => rfl, hmem, hsip.symm.trans hstring, hsport.symm, ?_, ?_,
      Or.inl hmem⟩
    · simp only [init_client_session, hip, hget', Result.ok_bind, Result.pure_eq_ok]
    · exact fun t ht => ⟨ht, rfl⟩
    · exact fun t ht => Or.inl ht
  | none =>
    right
    have hnew (t : Nat) (ht : t ∈ memory.userSessions) :
        session_order (memory.newSession sock ip) (memory.sessions.contents t) ≠ 0 := by
      intro hzero
      cases (hfound t).mpr ⟨ht, hzero⟩
    obtain ⟨T, effects, hadd, hagain, hmem, hopened⟩ :=
      hvalid.add_session_spec ⟨hstring, rfl⟩ rfl hrange rfl hnew
    have hget' : avl_get (session_cmp (memory.sessions.alloc (memory.newSession sock ip)).contents)
        memory.user_session_list memory.sessions.brk = .ok none := hget
    refine ⟨T, ip, _, ?_, hstring, rfl, hmem, hopened⟩
    simp only [newSession] at hget' hadd hagain
    simp only [init_client_session, hip, hget', hadd, hagain, Result.ok_bind, Result.pure_eq_ok,
      newSession]

theorem Valid.init_client_session_spec (hvalid : memory.Valid) (sock : sockaddr_in) :
    ∃ next s, memory.init_client_session sock = .ok (next, some s) ∧
      Opened memory sock s next := by
  obtain ⟨s, hinit, hopened⟩ | ⟨T, ip, next, hinit, -, -, -, hopened⟩ :=
    hvalid.init_client_session_cases sock
  · exact ⟨memory, s, hinit, hopened⟩
  · exact ⟨next, memory.sessions.brk, hinit, hopened⟩

end Open

section Login

/-- The memory behind a login: the record takes the port of the session, and
the session is bound to the record. -/
def bind (memory : Memory) (client database_client : Nat) : Memory :=
  let session := memory.sessions.contents client
  let record := memory.clients.contents database_client
  { memory with
    clients := memory.clients.store database_client { record with port := session.port }
    sessions := memory.sessions.store client
      { session with client := some database_client, logged_in := 1 } }

variable {s u : Nat}

/-- A login from the address of the record leaves that address as it is. -/
theorem Valid.login_eq (hvalid : memory.Valid) (hs : s ∈ memory.userSessions)
    (hip : strcmp (memory.sessions.contents s).ip.bytes (memory.clients.contents u).ip_string = 0)
    (locals : Locals) :
    0 ∈ (memory.clients.contents u).ip.bytes ∧
      login memory s u locals = .ok (memory.bind s u,
        [(memory.bind s u).send_udp_message s (.login_successful u),
          (memory.bind s u).send_udp_message s (.session_port (memory.sessions.contents s).port),
          (memory.bind s u).send_udp_message s (.permissions
            (locals.permission (memory.clients.contents u).client_server)
            (locals.permission (memory.clients.contents u).p2p)
            (locals.permission (memory.clients.contents u).group))]) := by
  have hsame : cstr (memory.sessions.contents s).ip.bytes =
      (memory.clients.contents u).ip_string := by
    rw [strcmp_eq_zero_iff.mp hip, client_t.ip_string, cstr_cstr]
  have hfits : (cstr (memory.sessions.contents s).ip.bytes).length < INET_ADDRSTRLEN := by
    rw [(hvalid.addressed s hs).ip]
    exact length_inet_ntop_lt _
  have hnul : 0 ∈ (memory.clients.contents u).ip.bytes :=
    (memory.clients.contents u).nul_mem_ip (hsame ▸ hfits)
  have hcopy : strcpy (memory.clients.contents u).ip (memory.sessions.contents s).ip.bytes =
      .ok (memory.clients.contents u).ip := by
    refine strcpy_self ?_ hfits
    rw [hsame, client_t.ip_string_eq, cstr_append_of_mem hnul]
  refine ⟨hnul, ?_⟩
  simp only [login, hcopy, Result.ok_bind, Result.pure_eq_ok, bind]

theorem bind_clients_of_ne {a : Nat} (ha : a ≠ u) :
    (memory.bind s u).clients.contents a = memory.clients.contents a :=
  memory.clients.store_of_ne ha

theorem bind_clients_self : (memory.bind s u).clients.contents u =
    { memory.clients.contents u with port := (memory.sessions.contents s).port } :=
  memory.clients.store_self

theorem bind_sessions_of_ne {t : Nat} (ht : t ≠ s) :
    (memory.bind s u).sessions.contents t = memory.sessions.contents t :=
  memory.sessions.store_of_ne ht

theorem bind_sessions_self : (memory.bind s u).sessions.contents s =
    { memory.sessions.contents s with client := some u, logged_in := 1 } :=
  memory.sessions.store_self

/-- The address and the port of a session stay. -/
theorem bind_sessions_key (memory : Memory) (s u t : Nat) :
    ((memory.bind s u).sessions.contents t).ip = (memory.sessions.contents t).ip ∧
      ((memory.bind s u).sessions.contents t).port = (memory.sessions.contents t).port ∧
      ((memory.bind s u).sessions.contents t).sock = (memory.sessions.contents t).sock := by
  by_cases ht : t = s
  · subst ht
    rw [bind_sessions_self]
    exact ⟨rfl, rfl, rfl⟩
  · rw [bind_sessions_of_ne ht]
    exact ⟨rfl, rfl, rfl⟩

/-- The name of a record stays. -/
theorem bind_username (hnul : 0 ∈ (memory.clients.contents u).ip.bytes) (a : Nat) :
    ((memory.bind s u).clients.contents a).username_string =
      (memory.clients.contents a).username_string := by
  by_cases ha : a = u
  · subst ha
    rw [bind_clients_self]
    exact client_t.username_string_port _ hnul _
  · rw [bind_clients_of_ne ha]

/-- A login keeps what a record is apart from its port. -/
theorem bind_account (hnul : 0 ∈ (memory.clients.contents u).ip.bytes) (a : Nat) :
    ((memory.bind s u).clients.contents a).account = (memory.clients.contents a).account := by
  rw [client_t.account, client_t.account, bind_username hnul a]
  by_cases ha : a = u
  · subst ha
    rw [bind_clients_self]
  · rw [bind_clients_of_ne ha]

theorem Valid.bind (hvalid : memory.Valid) (hu : u ∈ memory.users)
    (hnul : 0 ∈ (memory.clients.contents u).ip.bytes) : (memory.bind s u).Valid where
  user_list := by
    refine hvalid.user_list.congr (Nat.le_refl _) ?_ fun _ _ => Set.mem_univ _
    intro a _ b _
    exact client_order_congr (bind_username hnul a) (bind_username hnul b)
  user_session_list := by
    refine hvalid.user_session_list.congr (Nat.le_refl _) ?_ ?_
    · intro a _ b _
      obtain ⟨haip, haport, -⟩ := bind_sessions_key memory s u a
      obtain ⟨hbip, hbport, -⟩ := bind_sessions_key memory s u b
      simp only [session_order, haip, haport, hbip, hbport]
    · intro t ht
      have hrange : (memory.sessions.contents t).port.toNat < 65536 :=
        hvalid.user_session_list.valid t ht
      change ((memory.bind s u).sessions.contents t).port.toNat < 65536
      rw [(bind_sessions_key memory s u t).2.1]
      exact hrange
  group_list := hvalid.group_list
  addressed t ht := by
    obtain ⟨hip, hport, hsock⟩ := bind_sessions_key memory s u t
    have haddressed := hvalid.addressed t ht
    exact ⟨by rw [hip, hsock, haddressed.ip], by rw [hport, hsock, haddressed.port]⟩
  bound t ht hlogged := by
    by_cases hts : t = s
    · subst hts
      rw [bind_sessions_self]
      exact ⟨u, hvalid.user_list.allocated u hu, rfl⟩
    · rw [bind_sessions_of_ne hts] at hlogged ⊢
      exact hvalid.bound t ht hlogged
  pool := hvalid.pool
  pool_bound := hvalid.pool_bound

end Login

section Users

variable {client : client_t} {next : Memory}

/-- What an addition of a new user leaves. -/
structure Added (memory : Memory) (client : client_t) (written : Bytes) (next : Memory) : Prop where
  rest : next = { memory with
    user_list := next.user_list, clients := memory.clients.alloc client,
    records := memory.records ++ written }
  valid : next.Valid
  mem_users : ∀ u, u ∈ next.users ↔ u ∈ memory.users ∨ u = memory.clients.brk

/-- What a removal of a stored user leaves: the others are still there, and
the records file holds what the tree holds. -/
structure Removed (memory : Memory) (u : Nat) (next : Memory) : Prop where
  rest : next = { memory with
    user_list := next.user_list,
    records := next.users.flatMap fun v => (memory.clients.contents v).bytes }
  valid : next.Valid
  sublist : List.Sublist next.users memory.users
  others : ∀ v ∈ memory.users, v ∈ next.users ∨ v = u

theorem updateUsers_nil : memory.updateUsers memory.user_list [] = (memory, []) := rfl

/-- The other parts of the memory do not notice a change of the user list. -/
theorem Valid.with_users (hvalid : memory.Valid) {T : avl_tree_t Nat} {es : List Nat}
    {clients : Blocks client_t} (hindex : Index client_order Set.univ clients T es)
    (hbrk : memory.clients.brk ≤ clients.brk) (records : Bytes) :
    ({ memory with user_list := T, clients, records } : Memory).Valid where
  user_list := hindex.traversal
  user_session_list := hvalid.user_session_list
  group_list := hvalid.group_list
  addressed := hvalid.addressed
  bound t ht hlogged := by
    obtain ⟨record, hlt, hclient⟩ := hvalid.bound t ht hlogged
    exact ⟨record, hlt.trans_le hbrk, hclient⟩
  pool := hvalid.pool
  pool_bound := hvalid.pool_bound

theorem Valid.add_user_duplicated (hvalid : memory.Valid) {u : Nat} (hu : u ∈ memory.users)
    (hname : client.username_string = (memory.clients.contents u).username_string)
    (free_data write_data : Bool) :
    memory.add_user client free_data write_data = .ok (AVL_DUPLICATED_KEY, memory, []) := by
  have hadd := hvalid.user_list.avl_add_duplicated (Set.mem_univ client) hu
    (client_order_eq_zero_iff.mpr hname) free_data write_data
  rw [← data_cmp_eq] at hadd
  simp only [add_user, hadd, Result.ok_bind, if_true, Result.pure_eq_ok]

theorem Valid.add_user_spec (hvalid : memory.Valid)
    (hnew : ∀ u ∈ memory.users,
      client.username_string ≠ (memory.clients.contents u).username_string)
    (free_data write_data : Bool) :
    ∃ next, memory.add_user client free_data write_data =
        .ok (AVL_OK, next, if write_data then [.write client.bytes] else []) ∧
      Added memory client (if write_data then client.bytes else []) next := by
  obtain ⟨T, before, after, hadd, hsplit, hindex⟩ :=
    hvalid.user_list.avl_add_spec (Set.mem_univ client)
      (fun u hu hzero => hnew u hu (client_order_eq_zero_iff.mp hzero)) free_data write_data
  rw [← data_cmp_eq] at hadd
  let next : Memory :=
    { memory with
      user_list := T, clients := memory.clients.alloc client,
      records := memory.records ++ if write_data then client.bytes else [] }
  have husers : next.users = before ++ memory.clients.brk :: after := traversal_eq hindex.stores
  refine ⟨next, ?_, rfl, hvalid.with_users hindex (Nat.le_succ _) _, ?_⟩
  · simp only [add_user, hadd, Result.ok_bind]
    rw [if_neg (by decide)]
    cases free_data <;> cases write_data <;>
      simp [next, updateUsers, addEffects, recordOutput, Output.onRecords]
  · intro u
    rw [husers, hsplit]
    exact mem_insert_iff

theorem Valid.remove_user_not_found (hvalid : memory.Valid)
    (hnew : ∀ u ∈ memory.users,
      client.username_string ≠ (memory.clients.contents u).username_string)
    (free_data write_data : Bool) :
    memory.remove_user client free_data write_data = .ok (AVL_KEY_NOT_FOUND, memory, []) := by
  have hremove := hvalid.user_list.avl_remove_not_found
    (fun u hu hzero => hnew u hu (client_order_eq_zero_iff.mp hzero)) free_data write_data
  rw [← data_cmp_eq] at hremove
  simp only [remove_user, hremove, Result.ok_bind, Result.pure_eq_ok, updateUsers_nil]

theorem foldl_onRecords_map (records : List Bytes) (before : Bytes) :
    (records.map Output.write).foldl Output.onRecords before = before ++ records.flatten := by
  induction records generalizing before with
  | nil => simp
  | cons record records ih => simp [Output.onRecords, ih]

/-- A removal that found its user reports success, and rewrites the file. -/
theorem Valid.remove_user_spec (hvalid : memory.Valid) {u : Nat} (hu : u ∈ memory.users)
    (hname : client.username_string = (memory.clients.contents u).username_string) :
    ∃ next, memory.remove_user client true true = .ok (AVL_OK, next,
        .ftruncate :: next.users.map fun v => .write (memory.clients.contents v).bytes) ∧
      Removed memory u next := by
  obtain ⟨T, before, after, es', hsplit, hes', hremove, hindex⟩ :=
    hvalid.user_list.avl_remove_spec (Set.mem_univ client) hu
      (client_order_eq_zero_iff.mpr hname) true true
  rw [← data_cmp_eq] at hremove
  let next : Memory :=
    { memory with
      user_list := T, records := es'.flatMap fun v => (memory.clients.contents v).bytes }
  have husers : next.users = es' := traversal_eq hindex.stores
  have hmap : (es'.map (Effect.write memory.user_list.fd)).flatMap memory.recordOutput =
      es'.map fun v => .write (memory.clients.contents v).bytes := by
    rw [List.flatMap_map, List.map_eq_flatMap]
    rfl
  have hrecords : (es'.map fun v => Output.write (memory.clients.contents v).bytes).foldl
      Output.onRecords [] = es'.flatMap fun v => (memory.clients.contents v).bytes := by
    have := foldl_onRecords_map (es'.map fun v => (memory.clients.contents v).bytes) []
    rwa [List.map_map, List.nil_append, ← List.flatMap_def] at this
  refine ⟨next, ?_, ?_, hvalid.with_users hindex (Nat.le_refl _) _, ?_, ?_⟩
  · simp only [remove_user, hremove, Result.ok_bind, Result.pure_eq_ok, husers, updateUsers,
      removeEffects, if_true, List.flatMap_append, List.flatMap_cons, hmap]
    simp [next, recordOutput, Output.onRecords, hrecords]
  · rw [husers]
  · rw [husers]
    obtain rfl | rfl := hes'
    · exact List.Sublist.refl _
    · rw [hsplit]
      exact List.Sublist.append_left (List.sublist_cons_self u after) before
  · intro v hv
    rw [husers]
    obtain rfl | rfl := hes'
    · exact Or.inl hv
    · rw [hsplit] at hv
      exact mem_insert_iff.mp hv

end Users

section Groups

/-- The addresses of the pool are strings without a terminator. -/
theorem cstr_group {n : Nat} (hroom : n < max_groups) :
    cstr (groups.getD n []) = groups.getD n [] := by
  have hall : ∀ n < max_groups, cstr (groups.getD n []) = groups.getD n [] := by decide
  exact hall n hroom

theorem length_group_lt {n : Nat} (hroom : n < max_groups) :
    (groups.getD n []).length < INET_ADDRSTRLEN := by
  have hall : ∀ n < max_groups, (groups.getD n []).length < INET_ADDRSTRLEN := by decide
  exact hall n hroom

/-- What a creation leaves: one more group, with the next address. -/
structure Created (memory : Memory) (group : group_t) (next : Memory) : Prop where
  rest : next = { memory with
    group_list := next.group_list, group_blocks := memory.group_blocks.alloc group,
    current_group := memory.current_group + 1 }
  valid : next.Valid
  mem_groups : ∀ g, g ∈ next.multicastGroups ↔
    g ∈ memory.multicastGroups ∨ g = memory.group_blocks.brk

theorem Valid.create_group_spec (hvalid : memory.Valid) (group : group_t)
    (hnew : ∀ g ∈ memory.multicastGroups,
      cstr (memory.group_blocks.contents g).name.bytes ≠ cstr group.name.bytes)
    (hroom : memory.current_group < max_groups)
    (hip : cstr group.ip.bytes = groups.getD memory.current_group []) :
    ∃ T effects, avl_add (group_cmp (memory.group_blocks.alloc group).contents) memory.group_list
        memory.group_blocks.brk true false = .ok (AVL_OK, T, effects) ∧
      Created memory group { memory with
        group_list := T, group_blocks := memory.group_blocks.alloc group,
        current_group := memory.current_group + 1 } := by
  obtain ⟨T, before, after, hadd, hsplit, hindex⟩ :=
    hvalid.group_list.avl_add_spec (Set.mem_univ group)
      (fun g hg hzero => hnew g hg (group_order_eq_zero_iff.mp hzero).symm) true false
  rw [← group_cmp_eq] at hadd
  let next : Memory :=
    { memory with
      group_list := T, group_blocks := memory.group_blocks.alloc group,
      current_group := memory.current_group + 1 }
  have hgroups : next.multicastGroups = before ++ memory.group_blocks.brk :: after :=
    traversal_eq hindex.stores
  have hmem (g : Nat) :
      g ∈ next.multicastGroups ↔ g ∈ memory.multicastGroups ∨ g = memory.group_blocks.brk := by
    rw [hgroups, hsplit]
    exact mem_insert_iff
  have hpool : (next.multicastGroups.map fun g =>
      cstr (next.group_blocks.contents g).ip.bytes).Perm (groups.take next.current_group) := by
    have hold : (before ++ after).map (fun g => cstr (next.group_blocks.contents g).ip.bytes) =
        memory.multicastGroups.map fun g => cstr (memory.group_blocks.contents g).ip.bytes := by
      rw [← hsplit]
      refine List.map_congr_left fun g hg => ?_
      have hsame : next.group_blocks.contents g = memory.group_blocks.contents g :=
        memory.group_blocks.alloc_of_lt (hvalid.group_list.allocated g hg)
      rw [hsame]
    have hfresh : cstr (next.group_blocks.contents memory.group_blocks.brk).ip.bytes =
        groups.getD memory.current_group [] := by
      have hself : next.group_blocks.contents memory.group_blocks.brk = group :=
        memory.group_blocks.alloc_self
      rw [hself, hip]
    have htake : groups.take next.current_group =
        groups.take memory.current_group ++ [groups.getD memory.current_group []] := by
      rw [List.getD_eq_getElem?_getD, List.getElem?_eq_getElem hroom]
      exact List.take_succ_eq_append_getElem hroom
    have hinsert : (before ++ memory.group_blocks.brk :: after).Perm
        (memory.group_blocks.brk :: (before ++ after)) := List.perm_middle
    have hmiddle := hinsert.map fun g => cstr (next.group_blocks.contents g).ip.bytes
    rw [List.map_cons, hold, hfresh] at hmiddle
    rw [hgroups, htake]
    exact hmiddle.trans ((hvalid.pool.cons _).trans (List.perm_append_singleton _ _).symm)
  refine ⟨T, _, hadd, rfl, ?_, hmem⟩
  exact
    { user_list := hvalid.user_list
      user_session_list := hvalid.user_session_list
      group_list := hindex.traversal
      addressed := hvalid.addressed
      bound := hvalid.bound
      pool := hpool
      pool_bound := hroom }

/-- A new name gets the next address of the pool. -/
theorem Valid.create_group_room (hvalid : memory.Valid) (group : group_t)
    (hnew : ∀ g ∈ memory.multicastGroups,
      cstr (memory.group_blocks.contents g).name.bytes ≠ cstr group.name.bytes)
    (hroom : memory.current_group < max_groups) :
    ∃ ip T effects, strcpy group.ip (groups.getD memory.current_group []) = .ok ip ∧
      cstr ip.bytes = groups.getD memory.current_group [] ∧
      avl_add (group_cmp (memory.group_blocks.alloc { group with ip }).contents) memory.group_list
        memory.group_blocks.brk true false = .ok (AVL_OK, T, effects) ∧
      Created memory { group with ip } { memory with
        group_list := T, group_blocks := memory.group_blocks.alloc { group with ip },
        current_group := memory.current_group + 1 } := by
  have hstring := cstr_group hroom
  have hfits : (cstr (groups.getD memory.current_group [])).length < INET_ADDRSTRLEN := by
    rw [hstring]
    exact length_group_lt hroom
  obtain ⟨ip, hip⟩ := exists_strcpy group.ip hfits
  have haddress : cstr ip.bytes = groups.getD memory.current_group [] :=
    (cstr_of_strcpy hip).trans hstring
  obtain ⟨T, effects, hadd, hcreated⟩ :=
    hvalid.create_group_spec { group with ip } hnew hroom haddress
  exact ⟨ip, T, effects, hip, haddress, hadd, hcreated⟩

end Groups

end Memory

end rc_project.server
