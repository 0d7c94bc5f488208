import RcProject.Server.Runs

open rc_project.avl_tree rc_project.blocks rc_project.c_string rc_project.transition

namespace rc_project.server

/-- The first record of a name, as far as the file keeps it. -/
def lookup (records : List client_t) (username : Bytes) : Option (Bytes × client_t) :=
  (records.find? fun record => record.username_string = username).map client_t.account

/-- Where no name occurs twice, a name finds every record that carries it. -/
theorem find?_username_iff {records : List client_t} {record : client_t} {username : Bytes}
    (hunique : ∀ a ∈ records, ∀ b ∈ records, a.username_string = b.username_string → a = b) :
    records.find? (fun r => r.username_string = username) = some record ↔
      record ∈ records ∧ record.username_string = username := by
  constructor
  · intro hfind
    exact ⟨List.mem_of_find?_eq_some hfind, by simpa using List.find?_some hfind⟩
  · rintro ⟨hmem, hname⟩
    cases hfind : records.find? fun r => r.username_string = username with
    | none =>
      have := List.find?_eq_none.mp hfind record hmem
      simp [hname] at this
    | some first =>
      have hfirst : first.username_string = username := by simpa using List.find?_some hfind
      rw [hunique first (List.mem_of_find?_eq_some hfind) record hmem (hfirst.trans hname.symm)]

/-- A change of the records that keeps their accounts keeps every lookup. -/
theorem lookup_map_congr {us : List Nat} {f g : Nat → client_t}
    (hsame : ∀ a, (f a).account = (g a).account) (username : Bytes) :
    lookup (us.map f) username = lookup (us.map g) username := by
  induction us with
  | nil => rfl
  | cons a us ih =>
    have hname : (f a).username_string = (g a).username_string := congrArg Prod.fst (hsame a)
    simp only [lookup, List.map_cons, List.find?_cons, hname] at ih ⊢
    by_cases hfirst : (g a).username_string = username
    · simp only [hfirst, decide_true, Option.map_some, hsame a]
    · simp only [hfirst, decide_false]
      exact ih

namespace Memory

variable {memory next : Memory}

/-- Two user lists hold the same accounts. -/
def SameAccounts (memory other : Memory) : Prop :=
  ∀ account, account ∈ memory.stored.map client_t.account ↔
    account ∈ other.stored.map client_t.account

/-- The records file would be loaded back as the user list. -/
def Mirrored (memory : Memory) : Prop :=
  ∃ records : List client_t, memory.records = records.flatMap client_t.bytes ∧
    ∀ username, lookup records username = lookup memory.stored username

theorem Valid.lookup_eq_some_iff (hvalid : memory.Valid) {username : Bytes}
    {account : Bytes × client_t} :
    lookup memory.stored username = some account ↔
      ∃ record ∈ memory.stored, record.username_string = username ∧ record.account = account := by
  simp only [lookup, Option.map_eq_some_iff,
    find?_username_iff fun a ha b hb => hvalid.stored_unique ha hb, and_assoc]

/-- The accounts of a user list are what its lookups find. -/
theorem Valid.sameAccounts_of_lookup {other : Memory} (hvalid : memory.Valid)
    (hother : other.Valid)
    (hsame : ∀ username, lookup memory.stored username = lookup other.stored username) :
    memory.SameAccounts other := by
  intro account
  have hlookup {m : Memory} (hm : m.Valid) :
      account ∈ m.stored.map client_t.account ↔ ∃ username, lookup m.stored username = some account := by
    rw [List.mem_map]
    constructor
    · rintro ⟨record, hrecord, hacc⟩
      exact ⟨_, hm.lookup_eq_some_iff.mpr ⟨record, hrecord, rfl, hacc⟩⟩
    · rintro ⟨username, hfind⟩
      obtain ⟨record, hrecord, -, hacc⟩ := hm.lookup_eq_some_iff.mp hfind
      exact ⟨record, hrecord, hacc⟩
  rw [hlookup hvalid, hlookup hother]
  simp only [hsame]

/-- A server that is started from a file of complete records finds under every
name what the file holds first under it. -/
theorem exists_main_lookup (startup : Startup) (records : List client_t) :
    ∃ server, main startup (records.flatMap client_t.bytes) = .ok server ∧ server.memory.Valid ∧
      ∀ username, lookup server.memory.stored username = lookup records username := by
  obtain ⟨server, hmain, hvalid, hstored⟩ := exists_main_records startup records
  refine ⟨server, hmain, hvalid, ?_⟩
  intro username
  refine congrArg (Option.map client_t.account) (Option.ext fun record => ?_)
  rw [find?_username_iff fun a ha b hb => hvalid.stored_unique ha hb, hstored record]
  constructor
  · rintro ⟨hfind, rfl⟩
    exact hfind
  · intro hfind
    have hname : record.username_string = username := by simpa using List.find?_some hfind
    rw [hname]
    exact ⟨hfind, rfl⟩

/-- A restart from a mirrored memory has the same accounts. -/
theorem Mirrored.restart (hmirrored : memory.Mirrored) (hvalid : memory.Valid)
    (startup : Startup) :
    ∃ rebuilt, main startup memory.records = .ok rebuilt ∧ rebuilt.memory.SameAccounts memory := by
  obtain ⟨records, hrecords, hlookup⟩ := hmirrored
  obtain ⟨rebuilt, hmain, hvalid', hlookup'⟩ := exists_main_lookup startup records
  refine ⟨rebuilt, hrecords ▸ hmain, hvalid'.sameAccounts_of_lookup hvalid fun username => ?_⟩
  rw [hlookup', hlookup]

/-- A file that is a part of a traversal is loaded back as that part. -/
theorem Valid.restart_part (hvalid : memory.Valid) {part : List client_t}
    (hpart : part ⊆ memory.stored) (startup : Startup) :
    ∃ rebuilt, main startup (part.flatMap client_t.bytes) = .ok rebuilt ∧
      ∀ record, record ∈ rebuilt.memory.stored ↔ record ∈ part := by
  obtain ⟨rebuilt, hmain, -, hstored⟩ := exists_main_records startup part
  refine ⟨rebuilt, hmain, ?_⟩
  intro record
  rw [hstored record, find?_username_iff fun a ha b hb =>
    hvalid.stored_unique (hpart ha) (hpart hb)]
  exact ⟨fun h => h.1, fun h => ⟨h, rfl⟩⟩

section Steps

theorem Mirrored.of_unchanged (hmirrored : memory.Mirrored) (hstored : next.stored = memory.stored)
    (hrecords : next.records = memory.records) : next.Mirrored := by
  unfold Mirrored
  rw [hstored, hrecords]
  exact hmirrored

theorem Opened.stored_eq {sock : sockaddr_in} {s : Nat} (h : memory.Opened sock s next) :
    next.stored = memory.stored := by
  rw [stored, stored, h.users_eq, h.clients_eq]

theorem Created.stored_eq {group : group_t} (h : memory.Created group next) :
    next.stored = memory.stored := by
  rw [h.rest]
  rfl

theorem Removed.stored_eq {u : Nat} (h : memory.Removed u next) :
    next.stored = next.users.map memory.clients.contents := by
  rw [stored]
  congr 1
  rw [h.rest]

theorem Removed.stored_sublist {u : Nat} (h : memory.Removed u next) :
    List.Sublist next.stored memory.stored := by
  rw [h.stored_eq]
  exact h.sublist.map _

theorem Mirrored.opened (hmirrored : memory.Mirrored) {sock : sockaddr_in} {s : Nat}
    (h : memory.Opened sock s next) : next.Mirrored :=
  hmirrored.of_unchanged h.stored_eq (by rw [h.rest])

theorem Mirrored.created (hmirrored : memory.Mirrored) {group : group_t}
    (h : memory.Created group next) : next.Mirrored :=
  hmirrored.of_unchanged h.stored_eq (by rw [h.rest])

/-- A login writes to the memory only, and only to the port. -/
theorem Mirrored.bind (hmirrored : memory.Mirrored) {s u : Nat}
    (hnul : 0 ∈ (memory.clients.contents u).ip.bytes) : (memory.bind s u).Mirrored := by
  obtain ⟨records, hrecords, hlookup⟩ := hmirrored
  refine ⟨records, hrecords, fun username => ?_⟩
  rw [hlookup username]
  exact (lookup_map_congr (bind_account hnul) username).symm

/-- An addition appends the record that it stores. -/
theorem Mirrored.added (hmirrored : memory.Mirrored) (hvalid : memory.Valid) {client : client_t}
    (hnew : ∀ u ∈ memory.users,
      client.username_string ≠ (memory.clients.contents u).username_string)
    (h : memory.Added client client.bytes next) : next.Mirrored := by
  obtain ⟨records, hrecords, hlookup⟩ := hmirrored
  have hfree (record : client_t) (hrecord : record ∈ memory.stored) :
      record.username_string ≠ client.username_string := by
    obtain ⟨u, hu, rfl⟩ := mem_stored_iff.mp hrecord
    exact (hnew u hu).symm
  refine ⟨records ++ [client], ?_, ?_⟩
  · rw [h.rest]
    simp [hrecords]
  · intro username
    refine Option.ext fun account => ?_
    rw [h.valid.lookup_eq_some_iff]
    by_cases hname : client.username_string = username
    · have hnone : lookup memory.stored username = none := by
        rw [Option.eq_none_iff_forall_ne_some]
        intro account hfind
        obtain ⟨record, hrecord, hsame, -⟩ := hvalid.lookup_eq_some_iff.mp hfind
        exact hfree record hrecord (hsame.trans hname.symm)
      have hfind : records.find? (fun r => r.username_string = username) = none := by
        rw [← hlookup username] at hnone
        simpa [lookup] using hnone
      have hlast : lookup (records ++ [client]) username = some client.account := by
        simp [lookup, List.find?_append, hfind, hname]
      rw [hlast, Option.some.injEq]
      constructor
      · intro hacc
        exact ⟨client, (h.mem_stored hvalid).mpr (Or.inr rfl), hname, hacc⟩
      · rintro ⟨record, hrecord, hsame, rfl⟩
        obtain hold | rfl := (h.mem_stored hvalid).mp hrecord
        · exact absurd (hsame.trans hname.symm) (hfree record hold)
        · rfl
    · have happend : lookup (records ++ [client]) username = lookup records username := by
        simp [lookup, List.find?_append, hname]
      rw [happend, hlookup username, hvalid.lookup_eq_some_iff]
      constructor
      · rintro ⟨record, hrecord, hrest⟩
        exact ⟨record, (h.mem_stored hvalid).mpr (Or.inl hrecord), hrest⟩
      · rintro ⟨record, hrecord, hsame, hacc⟩
        obtain hold | rfl := (h.mem_stored hvalid).mp hrecord
        · exact ⟨record, hold, hsame, hacc⟩
        · exact absurd hsame hname

/-- A removal writes the user list that it leaves. -/
theorem Removed.records_eq {u : Nat} (h : memory.Removed u next) :
    next.records = next.stored.flatMap client_t.bytes := by
  rw [h.stored_eq, List.flatMap_map]
  exact congrArg Memory.records h.rest

theorem Removed.mirrored {u : Nat} (h : memory.Removed u next) : next.Mirrored :=
  ⟨next.stored, h.records_eq, fun _ => rfl⟩

end Steps

end Memory

variable {server next : Server} {event : Event} {outputs : List Output}

/-- Every step keeps the file in agreement with the user list. -/
theorem Stepped.mirrored {next : Memory} (hvalid : server.memory.Valid)
    (hmirrored : server.memory.Mirrored) (h : Stepped server event next outputs) :
    next.Mirrored := by
  cases h with
  | served sock datagram locals _ _ hserved =>
    cases hserved with
    | unknown _ s hopened => exact hmirrored.opened hopened
    | command opened s hopened command args hcommand _ _ hperformed =>
      have hmirrored' := hmirrored.opened hopened
      cases hperformed with
      | refused => exact hmirrored'
      | login _ _ _ _ _ _ _ _ hnul => exact hmirrored'.bind hnul
      | msg => exact hmirrored'
      | p2p => exact hmirrored'
      | create _ _ _ _ _ _ _ _ _ hcreated => exact hmirrored'.created hcreated
      | get => exact hmirrored'
  | handled connection hadmin received _ _ hhandled =>
    cases hhandled with
    | unknown => exact hmirrored
    | command _ command args hcommand _ _ hadministered =>
      cases hadministered with
      | answered => exact hmirrored
      | added _ _ _ _ _ _ _ _ _ _ hnew hadded => exact hmirrored.added hvalid hnew hadded
      | removed _ _ _ _ _ hremoved => exact hremoved.mirrored
  | idle => exact hmirrored

theorem reaches_mirrored {events : List Event} (hvalid : server.memory.Valid)
    (hmirrored : server.memory.Mirrored) (hreach : Reaches step server events next) :
    next.memory.Valid ∧ next.memory.Mirrored :=
  hreach.invariant (fun server => server.memory.Valid ∧ server.memory.Mirrored)
    ⟨hvalid, hmirrored⟩ fun _ _ _ _ h hstep =>
      ⟨step_valid h.1 hstep, (stepped_of_step h.1 hstep).mirrored h.1 h.2⟩

end rc_project.server
