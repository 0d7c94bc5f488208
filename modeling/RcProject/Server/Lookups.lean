import RcProject.Server.Valid

open rc_project.avl_tree rc_project.blocks rc_project.c_string rc_project.search_tree

namespace rc_project.server

/-- A tree over blocks holds what its traversal visits. -/
theorem Index.traversal {β : Type} {order : β → β → Int} {S : Set β} {blocks : Blocks β}
    {T : avl_tree_t Nat} {es : List Nat} (h : Index order S blocks T es) :
    Index order S blocks T (traversal T) := by
  rwa [traversal_eq h.stores]

namespace Memory

variable {memory : Memory}

section Users

variable {username : Bytes} {u : Nat}

theorem Valid.find_user_spec (hvalid : memory.Valid)
    (hfits : (cstr username).length < USERNAME_SIZE) :
    ∃ found, memory.find_user username = .ok found ∧ ∀ u, found = some u ↔
      u ∈ memory.users ∧ (memory.clients.contents u).username_string = cstr username := by
  obtain ⟨client, hclient⟩ := exists_new_client memory.clients.fresh hfits 0 0 0
  obtain ⟨found, hget, hfound⟩ :=
    hvalid.user_list.avl_get_spec (Or.inl (Set.mem_univ client))
  refine ⟨found, ?_, ?_⟩
  · rw [find_user, hclient, Result.ok_bind]
    exact hget
  · intro u
    rw [hfound u, client_order_eq_zero_iff, username_string_of_new_client hclient, eq_comm]

theorem fits_of_find_user {found : Option Nat} (hfind : memory.find_user username = .ok found) :
    (cstr username).length < USERNAME_SIZE := by
  obtain ⟨client, hclient, -⟩ := Result.bind_eq_ok_iff.mp hfind
  exact username_fits_of_new_client hclient

/-- A name finds the stored record that carries it. -/
theorem Valid.find_user_eq_some_iff (hvalid : memory.Valid) :
    memory.find_user username = .ok (some u) ↔ (cstr username).length < USERNAME_SIZE ∧
      u ∈ memory.users ∧ (memory.clients.contents u).username_string = cstr username := by
  constructor
  · intro hfind
    have hfits := fits_of_find_user hfind
    obtain ⟨found, hfind', hfound⟩ := hvalid.find_user_spec hfits
    rw [hfind, Except.ok.injEq] at hfind'
    exact ⟨hfits, (hfound u).mp hfind'.symm⟩
  · rintro ⟨hfits, hmem⟩
    obtain ⟨found, hfind, hfound⟩ := hvalid.find_user_spec hfits
    rw [hfind, (hfound u).mpr hmem]

/-- No two stored records carry one name. -/
theorem Valid.user_unique (hvalid : memory.Valid) {v : Nat} (hu : u ∈ memory.users)
    (hv : v ∈ memory.users) (hname : (memory.clients.contents u).username_string =
      (memory.clients.contents v).username_string) : u = v :=
  hvalid.user_list.eq_of_zero hu hv (client_order_eq_zero_iff.mpr hname)

end Users

section Sessions

variable {u t : Nat}

/-- `avl_get` on the sessions, with a key whose fields are given. -/
def get_session (memory : Memory) (key : client_session_t) : Result (Option Nat) :=
  avl_get (session_cmp (memory.sessions.scratch key).contents) memory.user_session_list
    memory.sessions.brk

/-- A key finds the session of its address and port, whatever its port is. Where the
port is none of UDP the order of the sessions is not one, but then no session has it. -/
theorem Valid.get_session_spec (hvalid : memory.Valid) (key : client_session_t) :
    ∃ found, memory.get_session key = .ok found ∧ ∀ t, found = some t ↔
      t ∈ memory.userSessions ∧
        cstr (memory.sessions.contents t).ip.bytes = cstr key.ip.bytes ∧
        (memory.sessions.contents t).port = key.port := by
  have hkey : key ∈ PortInRange ∨ ∀ t ∈ memory.userSessions,
      session_order key (memory.sessions.contents t) ≠ 0 := by
    by_cases hrange : key ∈ PortInRange
    · exact Or.inl hrange
    · right
      intro t ht hzero
      apply hrange
      change key.port.toNat < 65536
      rw [(session_order_eq_zero_iff.mp hzero).2]
      exact hvalid.user_session_list.valid t ht
  obtain ⟨found, hget, hfound⟩ := hvalid.user_session_list.avl_get_spec hkey
  refine ⟨found, hget, ?_⟩
  intro t
  rw [hfound t, session_order_eq_zero_iff]
  constructor
  · rintro ⟨ht, hip, hport⟩
    exact ⟨ht, hip.symm, hport.symm⟩
  · rintro ⟨ht, hip, hport⟩
    exact ⟨ht, hip.symm, hport.symm⟩

/-- The address of a record finds the session that has this address and port. -/
theorem Valid.find_session_spec (hvalid : memory.Valid)
    (hfits : (memory.clients.contents u).ip_string.length < INET_ADDRSTRLEN) :
    ∃ found, memory.find_session u = .ok found ∧ ∀ t, found = some t ↔
      t ∈ memory.userSessions ∧
        cstr (memory.sessions.contents t).ip.bytes = (memory.clients.contents u).ip_string ∧
        (memory.sessions.contents t).port = (memory.clients.contents u).port := by
  have hself : cstr (memory.clients.contents u).ip_string = (memory.clients.contents u).ip_string :=
    cstr_cstr _
  obtain ⟨ip, hip⟩ := exists_strcpy memory.sessions.fresh.ip (hself.symm ▸ hfits)
  let client_temp : client_session_t :=
    { memory.sessions.fresh with ip, port := (memory.clients.contents u).port }
  have hstring : cstr client_temp.ip.bytes = (memory.clients.contents u).ip_string :=
    (cstr_of_strcpy hip).trans hself
  obtain ⟨found, hget, hfound⟩ := hvalid.get_session_spec client_temp
  refine ⟨found, ?_, ?_⟩
  · simp only [find_session, hip, Result.ok_bind]
    exact hget
  · intro t
    rw [hfound t, hstring]

theorem fits_of_find_session {found : Option Nat} (hfind : memory.find_session u = .ok found) :
    (memory.clients.contents u).ip_string.length < INET_ADDRSTRLEN := by
  obtain ⟨ip, hip, -⟩ := Result.bind_eq_ok_iff.mp hfind
  have hfits := (strcpy_eq_ok_iff.mp hip).1
  rwa [client_t.ip_string, cstr_cstr] at hfits

theorem Valid.find_session_eq_some_iff (hvalid : memory.Valid) :
    memory.find_session u = .ok (some t) ↔ t ∈ memory.userSessions ∧
      cstr (memory.sessions.contents t).ip.bytes = (memory.clients.contents u).ip_string ∧
      (memory.sessions.contents t).port = (memory.clients.contents u).port := by
  constructor
  · intro hfind
    obtain ⟨found, hfind', hfound⟩ := hvalid.find_session_spec (fits_of_find_session hfind)
    rw [hfind, Except.ok.injEq] at hfind'
    exact (hfound t).mp hfind'.symm
  · rintro ⟨ht, hip, hport⟩
    have hfits : (memory.clients.contents u).ip_string.length < INET_ADDRSTRLEN := by
      rw [← hip, (hvalid.addressed t ht).ip]
      exact length_inet_ntop_lt _
    obtain ⟨found, hfind, hfound⟩ := hvalid.find_session_spec hfits
    rw [hfind, (hfound t).mpr ⟨ht, hip, hport⟩]

/-- No two sessions have one address and port. -/
theorem Valid.session_unique (hvalid : memory.Valid) {s : Nat} (ht : t ∈ memory.userSessions)
    (hs : s ∈ memory.userSessions) (hip : cstr (memory.sessions.contents t).ip.bytes =
      cstr (memory.sessions.contents s).ip.bytes)
    (hport : (memory.sessions.contents t).port = (memory.sessions.contents s).port) : t = s :=
  hvalid.user_session_list.eq_of_zero ht hs (session_order_eq_zero_iff.mpr ⟨hip, hport⟩)

end Sessions

section Groups

/-- A name finds the group that carries it. -/
theorem Valid.find_group_spec (hvalid : memory.Valid) (group : group_t) :
    ∃ found, memory.find_group group = .ok found ∧ ∀ g, found = some g ↔
      g ∈ memory.multicastGroups ∧
        cstr (memory.group_blocks.contents g).name.bytes = cstr group.name.bytes := by
  obtain ⟨found, hget, hfound⟩ :=
    hvalid.group_list.avl_get_spec (Or.inl (Set.mem_univ group))
  refine ⟨found, hget, ?_⟩
  intro g
  rw [hfound g, group_order_eq_zero_iff, eq_comm]

end Groups

end Memory

end rc_project.server
