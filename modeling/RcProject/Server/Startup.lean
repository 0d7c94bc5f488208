import RcProject.Server.Changes
import RcProject.Server.Main

open rc_project.avl_tree rc_project.blocks rc_project.c_string rc_project.search_tree

namespace rc_project.server

namespace Memory

variable {memory next : Memory}

/-- The records of the users, in the order of their names. -/
def stored (memory : Memory) : List client_t := memory.users.map memory.clients.contents

theorem mem_stored_iff {record : client_t} :
    record ∈ memory.stored ↔ ∃ u ∈ memory.users, memory.clients.contents u = record :=
  List.mem_map

/-- No two records of the user list carry one name. -/
theorem Valid.stored_unique (hvalid : memory.Valid) {a b : client_t} (ha : a ∈ memory.stored)
    (hb : b ∈ memory.stored) (hname : a.username_string = b.username_string) : a = b := by
  obtain ⟨u, hu, rfl⟩ := mem_stored_iff.mp ha
  obtain ⟨v, hv, rfl⟩ := mem_stored_iff.mp hb
  rw [hvalid.user_unique hu hv hname]

theorem Added.mem_stored (hvalid : memory.Valid) {client : client_t} {written : Bytes}
    (hadded : memory.Added client written next) {record : client_t} :
    record ∈ next.stored ↔ record ∈ memory.stored ∨ record = client := by
  have hclients : next.clients = memory.clients.alloc client := by rw [hadded.rest]
  have hold (u : Nat) (hu : u ∈ memory.users) :
      next.clients.contents u = memory.clients.contents u := by
    rw [hclients]
    exact memory.clients.alloc_of_lt (hvalid.user_list.allocated u hu)
  have hbrk : next.clients.contents memory.clients.brk = client := by
    rw [hclients]
    exact memory.clients.alloc_self
  rw [mem_stored_iff, mem_stored_iff]
  constructor
  · rintro ⟨u, hu, rfl⟩
    obtain hu | rfl := (hadded.mem_users u).mp hu
    · exact Or.inl ⟨u, hu, (hold u hu).symm⟩
    · exact Or.inr hbrk
  · rintro (⟨u, hu, rfl⟩ | rfl)
    · exact ⟨u, (hadded.mem_users u).mpr (Or.inl hu), hold u hu⟩
    · exact ⟨_, (hadded.mem_users _).mpr (Or.inr rfl), hbrk⟩

/-- What the loop of `main` leaves apart from the users. -/
structure Loaded (memory next : Memory) : Prop where
  rest : next = { memory with user_list := next.user_list, clients := next.clients }
  valid : next.Valid

theorem Loaded.trans {last : Memory} (h : memory.Loaded next) (h' : next.Loaded last) :
    memory.Loaded last where
  rest := by rw [h'.rest, h.rest]
  valid := h'.valid

/-- One round of the loop stores the record unless its name is taken. -/
theorem Valid.add_loaded (hvalid : memory.Valid) (client : client_t) :
    ∃ res next outputs, memory.add_user client false false = .ok (res, next, outputs) ∧
      memory.Loaded next ∧ ∀ record, record ∈ next.stored ↔ record ∈ memory.stored ∨
        record = client ∧ ∀ other ∈ memory.stored, other.username_string ≠ client.username_string := by
  by_cases hnew : ∀ u ∈ memory.users,
      client.username_string ≠ (memory.clients.contents u).username_string
  · obtain ⟨next, hadd, hadded⟩ := hvalid.add_user_spec hnew false false
    have hfree (other : client_t) (hother : other ∈ memory.stored) :
        other.username_string ≠ client.username_string := by
      obtain ⟨u, hu, rfl⟩ := mem_stored_iff.mp hother
      exact (hnew u hu).symm
    refine ⟨_, next, _, hadd, ⟨?_, hadded.valid⟩, ?_⟩
    · rw [hadded.rest]
      simp
    · intro record
      rw [hadded.mem_stored hvalid]
      constructor
      · rintro (h | h)
        · exact Or.inl h
        · exact Or.inr ⟨h, hfree⟩
      · rintro (h | ⟨h, -⟩)
        · exact Or.inl h
        · exact Or.inr h
  · push Not at hnew
    obtain ⟨u, hu, hname⟩ := hnew
    refine ⟨_, memory, [], hvalid.add_user_duplicated hu hname false false, ⟨rfl, hvalid⟩, ?_⟩
    intro record
    constructor
    · exact Or.inl
    · rintro (h | ⟨-, hfree⟩)
      · exact h
      · exact absurd hname.symm (hfree _ (mem_stored_iff.mpr ⟨u, hu, rfl⟩))

/-- The loop ends for every content of the file. -/
theorem Valid.load_spec (hvalid : memory.Valid) (fuel : Nat) (client : client_t) (unread : Bytes) :
    ∃ next, load fuel memory client unread = .ok next ∧ memory.Loaded next := by
  induction fuel generalizing memory client unread with
  | zero => exact ⟨memory, rfl, rfl, hvalid⟩
  | succ fuel ih =>
    unfold load
    by_cases hend : unread.take client_t.size = []
    · exact ⟨memory, by simp [hend], rfl, hvalid⟩
    · obtain ⟨res, added, outputs, hadd, hloaded, -⟩ := hvalid.add_loaded (client_t.ofBytes
        (unread.take client_t.size ++ client.bytes.drop (unread.take client_t.size).length))
      obtain ⟨next, hload, hloaded'⟩ := ih hloaded.valid (client_t.ofBytes
        (unread.take client_t.size ++ client.bytes.drop (unread.take client_t.size).length))
        (unread.drop client_t.size)
      refine ⟨next, ?_, hloaded.trans hloaded'⟩
      simp only [hend, if_false, hadd, Result.ok_bind]
      exact hload

/-- When the first record is stored unless its name is taken, what the others add
is what all of them add. -/
theorem mem_first_iff {before behind records : List client_t} {first : client_t}
    (hbehind : ∀ record, record ∈ behind ↔ record ∈ before ∨ record = first ∧
      ∀ other ∈ before, other.username_string ≠ first.username_string) (record : client_t) :
    (record ∈ behind ∨ (∀ other ∈ behind, other.username_string ≠ record.username_string) ∧
      records.find? (fun other => other.username_string = record.username_string) = some record) ↔
    (record ∈ before ∨ (∀ other ∈ before, other.username_string ≠ record.username_string) ∧
      (first :: records).find? (fun other => other.username_string = record.username_string) =
        some record) := by
  rw [List.find?_cons]
  by_cases hname : first.username_string = record.username_string
  · simp only [hname, decide_true, Option.some.injEq]
    constructor
    · rintro (h | ⟨hfree, -⟩)
      · obtain h | ⟨rfl, hfree⟩ := (hbehind record).mp h
        · exact Or.inl h
        · exact Or.inr ⟨hfree, rfl⟩
      -- the name of the first record is taken behind its round
      · exfalso
        by_cases htaken : ∀ other ∈ before, other.username_string ≠ first.username_string
        · exact hfree first ((hbehind first).mpr (Or.inr ⟨rfl, htaken⟩)) hname
        · push Not at htaken
          obtain ⟨other, hother, hsame⟩ := htaken
          exact hfree other ((hbehind other).mpr (Or.inl hother)) (hsame.trans hname)
    · rintro (h | ⟨hfree, rfl⟩)
      · exact Or.inl ((hbehind record).mpr (Or.inl h))
      · exact Or.inl ((hbehind first).mpr (Or.inr ⟨rfl, hfree⟩))
  · simp only [hname, decide_false]
    constructor
    · rintro (h | ⟨hfree, hfind⟩)
      · obtain h | ⟨rfl, -⟩ := (hbehind record).mp h
        · exact Or.inl h
        · exact absurd rfl hname
      · right
        refine ⟨?_, hfind⟩
        intro other hother
        exact hfree other ((hbehind other).mpr (Or.inl hother))
    · rintro (h | ⟨hfree, hfind⟩)
      · exact Or.inl ((hbehind record).mpr (Or.inl h))
      · refine Or.inr ⟨?_, hfind⟩
        intro other hother
        obtain h | ⟨rfl, -⟩ := (hbehind other).mp hother
        · exact hfree other h
        · exact hname

/-- One round of the loop of `main` over a file of complete records. -/
theorem load_cons (memory : Memory) (fuel : Nat) (client first : client_t)
    (records : List client_t) :
    load (fuel + 1) memory client ((first :: records).flatMap client_t.bytes) = (do
      let (_, memory, _) ← memory.add_user first false false
      load fuel memory first (records.flatMap client_t.bytes)) := by
  have hne : first.bytes ≠ [] := by
    intro hnil
    have := first.length_bytes
    simp [hnil, client_t.size] at this
  rw [List.flatMap_cons, load]
  simp only [List.take_left' first.length_bytes, List.drop_left' first.length_bytes, hne,
    if_false, client_t.ofBytes_append]

/-- What the last read makes of an incomplete record: its bytes, and behind them the ones of
the record before it. -/
def mixed (last : client_t) (tail : Bytes) : List client_t :=
  if tail = [] then [] else [client_t.ofBytes (tail ++ last.bytes.drop tail.length)]

/-- From any file the loop stores, under every name that is not taken before, the first
record that carries it, where the incomplete record counts as the mixed one. -/
theorem Valid.load_file (hvalid : memory.Valid) (records : List client_t) {tail : Bytes}
    (htail : tail.length < client_t.size) {fuel : Nat}
    (hfuel : records.length + tail.length < fuel) (client : client_t) :
    ∃ next, load fuel memory client (records.flatMap client_t.bytes ++ tail) = .ok next ∧
      memory.Loaded next ∧ ∀ record, record ∈ next.stored ↔ record ∈ memory.stored ∨
        (∀ other ∈ memory.stored, other.username_string ≠ record.username_string) ∧
        (records ++ mixed (records.getLastD client) tail).find?
          (fun first => first.username_string = record.username_string) = some record := by
  induction records generalizing memory fuel client with
  | nil =>
    obtain ⟨fuel, rfl⟩ := Nat.exists_eq_succ_of_ne_zero (Nat.ne_of_gt (Nat.zero_lt_of_lt hfuel))
    by_cases hnil : tail = []
    · subst hnil
      exact ⟨memory, rfl, ⟨rfl, hvalid⟩, by simp [mixed]⟩
    · have hpos := List.length_pos_iff.mpr hnil
      rw [List.length_nil, Nat.zero_add] at hfuel
      obtain ⟨fuel, rfl⟩ := Nat.exists_eq_succ_of_ne_zero (show fuel ≠ 0 by omega)
      have htake : tail.take client_t.size = tail := List.take_of_length_le htail.le
      have hdrop : tail.drop client_t.size = [] := List.drop_eq_nil_of_le htail.le
      obtain ⟨res, next, outputs, hadd, hloaded, hstored⟩ := hvalid.add_loaded
        (client_t.ofBytes (tail ++ client.bytes.drop tail.length))
      refine ⟨next, ?_, hloaded, ?_⟩
      · rw [List.flatMap_nil, List.nil_append, load]
        simp only [htake, hdrop, hnil, if_false, hadd, Result.ok_bind]
        rfl
      · intro record
        have hfirst := @mem_first_iff memory.stored next.stored [] _ hstored record
        simpa [mixed, hnil] using hfirst
  | cons first records ih =>
    obtain ⟨fuel, rfl⟩ := Nat.exists_eq_succ_of_ne_zero (Nat.ne_of_gt (Nat.zero_lt_of_lt hfuel))
    have hsplit : (first :: records).flatMap client_t.bytes ++ tail =
        first.bytes ++ (records.flatMap client_t.bytes ++ tail) := by
      rw [List.flatMap_cons, List.append_assoc]
    have hne : first.bytes ≠ [] := by
      intro hnil
      have := first.length_bytes
      simp [hnil, client_t.size] at this
    obtain ⟨res, added, outputs, hadd, hloaded, hstored⟩ := hvalid.add_loaded first
    rw [List.length_cons, Nat.succ_add] at hfuel
    obtain ⟨next, hload, hloaded', hstored'⟩ :=
      ih hloaded.valid (Nat.lt_of_succ_lt_succ hfuel) first
    refine ⟨next, ?_, hloaded.trans hloaded', ?_⟩
    · rw [hsplit, load]
      simp only [List.take_left' first.length_bytes, List.drop_left' first.length_bytes, hne,
        if_false, client_t.ofBytes_append, hadd, Result.ok_bind]
      exact hload
    · intro record
      rw [hstored' record, List.getLastD_cons]
      exact mem_first_iff hstored record

end Memory

theorem length_flatMap_bytes (records : List client_t) :
    (records.flatMap client_t.bytes).length = records.length * client_t.size := by
  rw [List.length_flatMap]
  simp [client_t.length_bytes, List.map_const']

/-- Before the first record is read there are no users, sessions and groups. -/
theorem Startup.memory_valid (startup : Startup) (records : Bytes) :
    (startup.memory records).Valid := by
  have husers : (startup.memory records).users = [] :=
    traversal_eq (new_avl_tree_stores startup.records_fd startup.nodes)
  have hsessions : (startup.memory records).userSessions = [] :=
    traversal_eq (new_avl_tree_stores (-1) startup.nodes)
  have hgroups : (startup.memory records).multicastGroups = [] :=
    traversal_eq (new_avl_tree_stores 1 startup.nodes)
  exact
    { user_list := husers ▸ new_avl_tree_index client_order_lawful _ _ _
      user_session_list := hsessions ▸ new_avl_tree_index session_order_lawful _ _ _
      group_list := hgroups ▸ new_avl_tree_index group_order_lawful _ _ _
      addressed := by simp [hsessions]
      bound := by simp [hsessions]
      pool := by
        rw [hgroups]
        exact List.Perm.nil
      pool_bound := Nat.zero_le _ }

/-- What the server starts with: users, but no session and no group. -/
structure Started (startup : Startup) (records : Bytes) (server : Server) : Prop where
  valid : server.memory.Valid
  records_eq : server.memory.records = records
  no_sessions : server.memory.userSessions = []
  no_groups : server.memory.multicastGroups = []
  sessions_eq : server.memory.sessions = { contents := startup.sessions, brk := 0 }
  admin : server.admin = none

theorem Memory.Loaded.started {startup : Startup} {records : Bytes} {memory : Memory}
    (hloaded : (startup.memory records).Loaded memory) :
    Started startup records { memory, admin := none } where
  valid := hloaded.valid
  records_eq := by
    change memory.records = records
    rw [hloaded.rest]
    rfl
  no_sessions := by
    change memory.userSessions = []
    rw [hloaded.rest]
    exact traversal_eq (new_avl_tree_stores (-1) startup.nodes)
  no_groups := by
    change memory.multicastGroups = []
    rw [hloaded.rest]
    exact traversal_eq (new_avl_tree_stores 1 startup.nodes)
  sessions_eq := by
    change memory.sessions = _
    rw [hloaded.rest]
    rfl
  admin := rfl

/-- `main` gets past its loop whatever the file holds. -/
theorem exists_main (startup : Startup) (records : Bytes) :
    ∃ server, main startup records = .ok server ∧ Started startup records server := by
  obtain ⟨memory, hload, hloaded⟩ := (startup.memory_valid records).load_spec
    (records.length + 1) startup.client records
  refine ⟨{ memory, admin := none }, ?_, hloaded.started⟩
  simp only [main, hload, Result.ok_bind, Result.pure_eq_ok]

theorem started_of_main {startup : Startup} {records : Bytes} {server : Server}
    (hmain : main startup records = .ok server) : Started startup records server := by
  obtain ⟨server', hmain', hstarted⟩ := exists_main startup records
  rw [hmain, Except.ok.injEq] at hmain'
  exact hmain' ▸ hstarted

/-- From any file the server starts with the first record of every name, where an incomplete
record at the end counts as the mixed one. -/
theorem exists_main_file (startup : Startup) (records : List client_t) {tail : Bytes}
    (htail : tail.length < client_t.size) :
    ∃ server, main startup (records.flatMap client_t.bytes ++ tail) = .ok server ∧
      server.memory.Valid ∧ ∀ record, record ∈ server.memory.stored ↔
        (records ++ Memory.mixed (records.getLastD startup.client) tail).find?
          (fun first => first.username_string = record.username_string) = some record := by
  have hlength : (records.flatMap client_t.bytes).length = records.length * client_t.size := by
    rw [List.length_flatMap]
    simp [client_t.length_bytes, List.map_const']
  have hfuel : records.length + tail.length <
      (records.flatMap client_t.bytes ++ tail).length + 1 := by
    rw [List.length_append, hlength, client_t.size]
    omega
  obtain ⟨memory, hload, hloaded, hstored⟩ := (startup.memory_valid
    (records.flatMap client_t.bytes ++ tail)).load_file records htail hfuel startup.client
  have hnone : (startup.memory (records.flatMap client_t.bytes ++ tail)).stored = [] := by
    have husers : (startup.memory (records.flatMap client_t.bytes ++ tail)).users = [] :=
      traversal_eq (new_avl_tree_stores startup.records_fd startup.nodes)
    rw [Memory.stored, husers, List.map_nil]
  refine ⟨{ memory, admin := none }, ?_, hloaded.valid, ?_⟩
  · simp only [main, hload, Result.ok_bind, Result.pure_eq_ok]
  · intro record
    rw [hstored record, hnone]
    simp

/-- From a file of complete records the server starts with the first record of
every name. -/
theorem exists_main_records (startup : Startup) (records : List client_t) :
    ∃ server, main startup (records.flatMap client_t.bytes) = .ok server ∧
      server.memory.Valid ∧ ∀ record, record ∈ server.memory.stored ↔
        records.find? (fun first => first.username_string = record.username_string) =
          some record := by
  have hmain := exists_main_file startup records (show ([] : Bytes).length < client_t.size by decide)
  simpa [Memory.mixed] using hmain

end rc_project.server
