import RcProject.AvlTree.History
import RcProject.Server.AlikeUsers
import RcProject.Server.ServiceLives

open rc_project.avl_tree rc_project.blocks rc_project.c_string rc_project.scanf
  rc_project.transition

namespace rc_project.server

/-- The names of the users. -/
structure Roster where
  /-- The users, in the order in which they arrived. -/
  names : List Bytes
  /-- The records of the file, in the order in which they stand there. -/
  file : List Bytes

/-- What the admin thread does outside of its memory. Of a record, only the name is seen. -/
inductive Noted
  | tell (socket : Int) (message : Bytes)
  | write (name : Bytes)
  | ftruncate
  deriving DecidableEq, Repr

def Noted.onFile (file : List Bytes) : Noted → List Bytes
  | .tell .. => file
  | .write name => file ++ [name]
  | .ftruncate => []

def Output.noted : Output → Option Noted
  | .answer .. | .relay .. => none
  | .write_fd fd message => some (.tell fd message)
  | .write record => some (.write (cstr record))
  | .ftruncate => some .ftruncate

theorem foldl_onFile_write (before names : List Bytes) :
    (names.map Noted.write).foldl Noted.onFile before = before ++ names := by
  induction names generalizing before with
  | nil => simp
  | cons name names ih =>
    rw [List.map_cons, List.foldl_cons, ih]
    simp [Noted.onFile]

/-- A line for the admin. -/
def tell (socket : Int) (formatted : Bytes) : Noted := .tell socket (format_message formatted)

/-- A user arrives unless its name is taken. -/
def arrive (names : List Bytes) (name : Bytes) : List Bytes :=
  if name ∈ names then names else names ++ [name]

namespace Roster

/-- The roster behind a start from the file. -/
def loaded (file : List Bytes) : Roster := { names := file.foldl arrive [], file }

section Commands

variable (names : List Bytes) (socket : Int)

def cmd_list : List Noted :=
  (listing strcmp names).map fun name => tell socket (text "User: " ++ name ++ text "\n")

def cmd_add (args : Bytes) : Result (List Bytes × List Noted) := do
  match ← sscanf args [.word USERNAME_SIZE, .space, .word INET_ADDRSTRLEN, .space,
      .word PASSWORD_SIZE, .space, .int, .space, .int, .space, .int] with
  | [.string username, .string _, .string _, .int _, .int _, .int _] =>
    if cstr username ∈ names then
      return (names, [tell socket (text "User already exists\n")])
    else
      return (names ++ [cstr username], [.write (cstr username),
        tell socket (text "User " ++ username ++ text " created.\n")])
  | _ => return (names, [tell socket (text
      "Invalid usage! Use: ADD <USER-ID> <IP> <PASSWORD> <CLIENT-SERVER> <P2P> <GROUP>\n")])

/-- The file is written anew, in the order of the names. -/
def cmd_del (args : Bytes) : Result (List Bytes × List Noted) := do
  match ← sscanf args [.word USERNAME_SIZE] with
  | [.string username] =>
    if cstr username ∈ names then
      let left := removed strcmp names (cstr username)
      return (left, .ftruncate :: (listing strcmp left).map .write ++
        [tell socket (text "User " ++ username ++ text " deleted.\n")])
    else
      return (names, [tell socket (text "User not found\n")])
  | _ => return (names, [tell socket (text "Invalid usage! Use: DEL <USER-ID>\n")])

/-- What an admin is answered, told from the names of the users in the order in which they
arrived. -/
def answered : Option (AdminCommand × Bytes) → Result (List Bytes × List Noted)
  | none => return (names, [tell socket (text "Command not found\n")])
  | some (.LIST, _) => return (names, cmd_list names socket)
  | some (.ADD, args) => cmd_add names socket args
  | some (.DEL, args) => cmd_del names socket args
  | some (.QUIT, _) => return (names, [])

end Commands

/-- What is seen of the admin thread. -/
inductive Episode
  | asked (socket : Int) (command : Option (AdminCommand × Bytes)) (noted : List Noted)
  | restart
  /-- A command behind a part of which the server stops and starts again. -/
  | stopped (socket : Int) (command : Option (AdminCommand × Bytes)) (noted : List Noted)

/-- What happens to the roster. -/
inductive Lives : Spec Roster Episode
  | asked {roster : Roster} {socket : Int} {command : Option (AdminCommand × Bytes)}
    {names : List Bytes} {noted : List Noted}
    (hanswered : answered roster.names socket command = .ok (names, noted)) :
    Lives roster (.asked socket command noted) ⟨names, noted.foldl Noted.onFile roster.file⟩
  | restart (roster : Roster) : Lives roster .restart (loaded roster.file)
  | stopped {roster : Roster} {socket : Int} {command : Option (AdminCommand × Bytes)}
    {names : List Bytes} {noted : List Noted} (k : Nat)
    (hanswered : answered roster.names socket command = .ok (names, noted)) :
    Lives roster (.stopped socket command (noted.take k))
      (loaded ((noted.take k).foldl Noted.onFile roster.file))

end Roster

/-- What is seen of the admin thread while something happens to the server. -/
def Server.notes (server : Server) : Happening → List Output → List Roster.Episode
  | .event event, outputs =>
    match server.request event with
    | some (.admin socket command) => [.asked socket command (outputs.filterMap Output.noted)]
    | _ => []
  | .restart _, _ => [.restart]
  | .stop event _ _, outputs =>
    match server.request event with
    | some (.admin socket command) => [.stopped socket command (outputs.filterMap Output.noted)]
    | _ => [.restart]

/-- The names that the blocks at some addresses hold. -/
def Memory.names (memory : Memory) (users : List Nat) : List Bytes :=
  users.map fun u => (memory.clients.contents u).username_string

/-- The bytes of a file with records under these names. -/
def Filed (records : Bytes) (names : List Bytes) : Prop :=
  ∃ file : List client_t, records = file.flatMap client_t.bytes ∧
    file.map client_t.username_string = names

/-- The user list is what its users make of it when they arrive in the order of the roster,
and the file holds the records of the roster. -/
structure Memory.Enrolled (memory : Memory) (roster : Roster) : Prop where
  valid : memory.Valid
  arrived : ∃ tree added, Remembers (data_cmp memory.clients.contents) memory.user_list tree added ∧
    memory.names added = roster.names
  filed : Filed memory.records roster.file

namespace Memory

variable {memory next : Memory} {roster : Roster} {client : client_t}
  {tree : BinaryTree (Cell Nat)} {added : List Nat} {outputs : List Output}

section Names

/-- The users compare by their names. -/
theorem data_cmp_names (contents : Nat → client_t) (a b : Nat) : data_cmp contents a b =
    strcmp (contents a).username_string (contents b).username_string :=
  (strcmp_cstr _ _).symm

theorem data_cmp_lawful (contents : Nat → client_t) :
    search_tree.LawfulOn (data_cmp contents) Set.univ :=
  strcmp_lawful fun u => (contents u).bytes

theorem mem_users_of_remembers {data_cmp : Nat → Nat → Int}
    (h : Remembers data_cmp memory.user_list tree added) {u : Nat} :
    u ∈ added ↔ u ∈ memory.users := by
  rw [← elements_eq_users h.represents, h.perm.mem_iff]

theorem Valid.names_injOn (hvalid : memory.Valid)
    (h : Remembers (data_cmp memory.clients.contents) memory.user_list tree added) :
    Set.InjOn (fun u => (memory.clients.contents u).username_string) {u | u ∈ added} :=
  fun _ ha _ hb hname => hvalid.user_unique ((mem_users_of_remembers h).mp ha)
    ((mem_users_of_remembers h).mp hb) hname

/-- The next block does not disturb the order of the users. -/
theorem Valid.remembers_scratch (hvalid : memory.Valid)
    (h : Remembers (data_cmp memory.clients.contents) memory.user_list tree added)
    (client : client_t) :
    Remembers (data_cmp (memory.clients.scratch client).contents) memory.user_list tree added := by
  refine h.congr fun a ha b hb => ?_
  have hbrk {u : Nat} (hu : u ∈ added) : u < memory.clients.brk :=
    hvalid.user_list.allocated u ((mem_users_of_remembers h).mp hu)
  simp only [data_cmp, memory.clients.scratch_of_lt (hbrk ha), memory.clients.scratch_of_lt (hbrk hb)]

theorem Valid.names_scratch (hvalid : memory.Valid)
    (h : Remembers (data_cmp memory.clients.contents) memory.user_list tree added)
    (client : client_t) :
    added.map (fun u => ((memory.clients.scratch client).contents u).username_string) =
      memory.names added := by
  refine List.map_congr_left fun u hu => ?_
  rw [memory.clients.scratch_of_lt (hvalid.user_list.allocated u ((mem_users_of_remembers h).mp hu))]

/-- A name that is on the roster is the one of a user. -/
theorem mem_names_iff (h : Remembers (data_cmp memory.clients.contents) memory.user_list tree added)
    {name : Bytes} : name ∈ memory.names added ↔
      ∃ u ∈ memory.users, (memory.clients.contents u).username_string = name := by
  simp only [names, List.mem_map, mem_users_of_remembers h]

/-- A traversal lists the roster by the names. -/
theorem names_users (h : Remembers (data_cmp memory.clients.contents) memory.user_list tree added) :
    memory.names memory.users = listing strcmp (memory.names added) := by
  rw [← elements_eq_users h.represents, ← h.listing_eq (data_cmp_lawful _)]
  exact listing_map (data_cmp_names _) added

end Names

section Changes

/-- A new user arrives behind the others. -/
theorem Valid.arrived_added (hvalid : memory.Valid)
    (h : Remembers (data_cmp memory.clients.contents) memory.user_list tree added)
    (hnew : client.username_string ∉ memory.names added) {written : Bytes}
    (hadded : memory.Added client written next) {free_data write_data : Bool}
    (hadd : memory.add_user client free_data write_data = .ok (AVL_OK, next, outputs)) :
    ∃ tree' added', Remembers (data_cmp next.clients.contents) next.user_list tree' added' ∧
      next.names added' = memory.names added ++ [client.username_string] := by
  have hcontents : next.clients.contents = (memory.clients.scratch client).contents := by
    rw [hadded.rest]
    rfl
  have h' := hvalid.remembers_scratch h client
  have hfind : search_tree.find (against (data_cmp (memory.clients.scratch client).contents)
      memory.clients.brk) tree = none := by
    have hfound := h'.find_eq (data_cmp_lawful _) memory.clients.brk
    have hnone : (added.find? fun u =>
        data_cmp (memory.clients.scratch client).contents memory.clients.brk u = 0) = none := by
      rw [List.find?_eq_none]
      intro u hu hzero
      have hbrk := hvalid.user_list.allocated u ((mem_users_of_remembers h).mp hu)
      have hsame := strcmp_eq_zero_iff.mp (of_decide_eq_true hzero)
      rw [memory.clients.scratch_self, memory.clients.scratch_of_lt hbrk] at hsame
      exact hnew (List.mem_map.mpr ⟨u, hu, hsame.symm⟩)
    rw [hnone] at hfound
    simpa using hfound
  have hrep := represents_of_add_user h.represents hadd
  have hadd' := h'.add (data_cmp_lawful _) hfind hrep
  simp only [names, hcontents]
  refine ⟨_, _, hadd', ?_⟩
  rw [List.map_append, hvalid.names_scratch h client, List.map_singleton,
    memory.clients.scratch_self, names]

/-- A user that is deleted leaves unless it is walled in. -/
theorem Valid.arrived_removed (hvalid : memory.Valid)
    (h : Remembers (data_cmp memory.clients.contents) memory.user_list tree added)
    (hmem : client.username_string ∈ memory.names added) {u : Nat}
    (hremoved : memory.Removed u next) {free_data write_data : Bool}
    (hremove : memory.remove_user client free_data write_data = .ok (AVL_OK, next, outputs)) :
    ∃ tree' added', Remembers (data_cmp next.clients.contents) next.user_list tree' added' ∧
      next.names added' = removed strcmp (memory.names added) client.username_string := by
  have hclients : next.clients = memory.clients := by rw [hremoved.rest]
  have h' := hvalid.remembers_scratch h client
  obtain ⟨v, hv, hname⟩ := List.mem_map.mp hmem
  have hbrk {u : Nat} (hu : u ∈ added) : u < memory.clients.brk :=
    hvalid.user_list.allocated u ((mem_users_of_remembers h).mp hu)
  obtain ⟨cell, hfind⟩ : ∃ cell, search_tree.find (against
      (data_cmp (memory.clients.scratch client).contents) memory.clients.brk) tree = some cell := by
    have hfound := h'.find_eq (data_cmp_lawful _) memory.clients.brk
    have hzero : data_cmp (memory.clients.scratch client).contents memory.clients.brk v = 0 := by
      rw [data_cmp_names, memory.clients.scratch_self, memory.clients.scratch_of_lt (hbrk hv), hname,
        strcmp_eq_zero_iff]
    have hsome : (added.find? fun u =>
        data_cmp (memory.clients.scratch client).contents memory.clients.brk u = 0).isSome = true :=
      List.find?_isSome.mpr ⟨v, hv, by simpa using hzero⟩
    rw [← hfound, Option.isSome_map] at hsome
    exact Option.isSome_iff_exists.mp hsome
  have hrep := represents_of_remove_user h.represents hremove
  have hremove' := h'.remove (data_cmp_lawful _) hfind hrep
  have hinj : Set.InjOn (fun u => ((memory.clients.scratch client).contents u).username_string)
      {u | u ∈ added} := by
    intro a ha b hb hsame
    simp only [memory.clients.scratch_of_lt (hbrk ha), memory.clients.scratch_of_lt (hbrk hb)] at hsame
    exact hvalid.names_injOn h ha hb hsame
  have hnames := removed_map (data_cmp_names (memory.clients.scratch client).contents) hinj
    memory.clients.brk
  rw [hvalid.names_scratch h client, memory.clients.scratch_self] at hnames
  have hsubset : ∀ u ∈ removed (data_cmp (memory.clients.scratch client).contents) added
      memory.clients.brk, u ∈ added := by
    intro u hu
    rw [removed] at hu
    split at hu
    · exact hu
    · exact (List.mem_filter.mp hu).1
  rw [← hnames]
  simp only [names, hclients]
  refine ⟨_, _, hremove'.congr fun a ha b hb => ?_, ?_⟩
  · simp only [data_cmp, memory.clients.scratch_of_lt (hbrk (hsubset a ha)),
      memory.clients.scratch_of_lt (hbrk (hsubset b hb))]
  · refine List.map_congr_left fun u hu => ?_
    rw [memory.clients.scratch_of_lt (hbrk (hsubset u hu))]

end Changes

section Commands

variable {socket : Int} {args : Bytes}

/-- What a command of the admin and its answer on the roster have in common. -/
def SameNoted (roster : Roster) (result : Memory × Int × List Output)
    (result' : List Bytes × List Noted) : Prop :=
  result.2.2.filterMap Output.noted = result'.2 ∧
    result.1.Enrolled ⟨result'.1, result'.2.foldl Noted.onFile roster.file⟩

/-- An answer without a change. -/
theorem Enrolled.told (h : memory.Enrolled roster) (exit : Int) (formatted : Bytes) :
    Result.Related (SameNoted roster) (pure (memory, exit, [write_fd socket formatted]))
      (pure (roster.names, [tell socket formatted])) :=
  .ok ⟨rfl, h⟩

theorem Enrolled.cmd_list (h : memory.Enrolled roster) (socket : Int) :
    Result.Related (SameNoted roster) (server.cmd_list memory socket)
      (pure (roster.names, Roster.cmd_list roster.names socket)) := by
  obtain ⟨tree, added, hremembers, hnames⟩ := h.arrived
  rw [server.cmd_list, avl_print_client_stores h.valid.user_list.stores]
  have hfile : (Roster.cmd_list roster.names socket).foldl Noted.onFile roster.file =
      roster.file := by
    rw [Roster.cmd_list, List.foldl_map]
    exact List.foldl_fixed' (fun _ => rfl) _
  refine .ok ⟨?_, ?_⟩
  · change (memory.users.map fun u => send_to_client socket (memory.clients.contents u)).filterMap
      Output.noted = Roster.cmd_list roster.names socket
    rw [Roster.cmd_list, ← hnames, ← names_users hremembers, List.filterMap_map, names, List.map_map]
    exact congrFun List.filterMap_eq_map' memory.users
  · rw [hfile]
    exact h

theorem Enrolled.cmd_add (h : memory.Enrolled roster) :
    Result.Related (SameNoted roster) (server.cmd_add memory socket args)
      (Roster.cmd_add roster.names socket args) := by
  obtain ⟨tree, added, hremembers, hnames⟩ := h.arrived
  refine Result.Related.bind_eq fun values hargs => ?_
  split
  · rename_i username ip password client_server p2p group
    obtain ⟨client, hclient⟩ : ∃ client, new_client memory.clients.fresh username password ip
        client_server p2p group = .ok client := exists_new_client_of_scan _ hargs
    have hkey := username_string_of_new_client hclient
    rw [hclient, Result.ok_bind]
    by_cases htaken : cstr username ∈ roster.names
    · obtain ⟨u, hu, hname⟩ := (mem_names_iff hremembers).mp (hnames ▸ htaken)
      rw [h.valid.add_user_duplicated hu (hkey.trans hname.symm), Result.ok_bind]
      simp only [if_pos htaken]
      exact h.told 0 _
    · have hnew : ∀ u ∈ memory.users, client.username_string ≠
          (memory.clients.contents u).username_string := by
        intro u hu hname
        exact htaken (hnames ▸ (mem_names_iff hremembers).mpr ⟨u, hu, hname.symm.trans hkey⟩)
      obtain ⟨next, hadd, hadded⟩ := h.valid.add_user_spec hnew true true
      rw [hadd, Result.ok_bind]
      simp only [if_neg htaken]
      obtain ⟨tree', added', hremembers', hnames'⟩ := h.valid.arrived_added hremembers
        (by rwa [hkey, hnames]) hadded hadd
      refine .ok ⟨?_, hadded.valid, ⟨tree', added', hremembers', ?_⟩, ?_⟩
      · simp only [if_true, List.cons_append, List.nil_append, List.filterMap_cons, Output.noted,
          write_fd, tell, List.filterMap_nil, ← hkey, client_t.username_string]
      · rw [hnames', hnames, hkey]
      · obtain ⟨file, hrecords, hfile⟩ := h.filed
        refine ⟨file ++ [client], ?_, ?_⟩
        · rw [hadded.rest]
          simp [hrecords]
        · simp [hfile, hkey, Noted.onFile, tell]
  · rename_i hother
    try split
    all_goals first
      | exact (hother _ _ _ _ _ _ rfl).elim
      | exact h.told 0 _

theorem Enrolled.cmd_del (h : memory.Enrolled roster) :
    Result.Related (SameNoted roster) (server.cmd_del memory socket args)
      (Roster.cmd_del roster.names socket args) := by
  obtain ⟨tree, added, hremembers, hnames⟩ := h.arrived
  refine Result.Related.bind_eq fun values hargs => ?_
  split
  · rename_i username
    have hfits : (cstr username).length < USERNAME_SIZE :=
      (length_cstr_le username).trans_lt (word_of_sscanf hargs).2
    obtain ⟨client, hclient⟩ := exists_new_client memory.clients.fresh hfits 1 1 1
    have hkey := username_string_of_new_client hclient
    rw [hclient, Result.ok_bind]
    by_cases hthere : cstr username ∈ roster.names
    · obtain ⟨u, hu, hname⟩ := (mem_names_iff hremembers).mp (hnames ▸ hthere)
      obtain ⟨next, hremove, hremoved⟩ := h.valid.remove_user_spec hu (hkey.trans hname.symm)
      rw [hremove, Result.ok_bind]
      simp only [if_pos hthere]
      obtain ⟨tree', added', hremembers', hnames'⟩ := h.valid.arrived_removed hremembers
        (by rwa [hkey, hnames]) hremoved hremove
      rw [hnames, hkey] at hnames'
      have hlisted : next.stored.map client_t.username_string =
          listing strcmp (removed strcmp roster.names (cstr username)) := by
        rw [← hnames', ← names_users hremembers', stored, List.map_map]
        rfl
      have hwritten : (next.users.map fun v =>
          Output.write (memory.clients.contents v).bytes).filterMap Output.noted =
            (listing strcmp (removed strcmp roster.names (cstr username))).map .write := by
        rw [← hlisted, hremoved.stored_eq, List.map_map, List.map_map, List.filterMap_map]
        exact congrFun List.filterMap_eq_map' next.users
      refine .ok ⟨?_, hremoved.valid, ⟨tree', added', hremembers', hnames'⟩, ?_⟩
      · rw [List.filterMap_append, List.filterMap_cons]
        simp only [Output.noted, hwritten]
        rfl
      · refine ⟨next.stored, hremoved.records_eq, ?_⟩
        rw [hlisted, List.cons_append, List.foldl_cons, List.foldl_append, foldl_onFile_write]
        rfl
    · have hnew : ∀ u ∈ memory.users, client.username_string ≠
          (memory.clients.contents u).username_string := by
        intro u hu hname
        exact hthere (hnames ▸ (mem_names_iff hremembers).mpr ⟨u, hu, hname.symm.trans hkey⟩)
      rw [h.valid.remove_user_not_found hnew, Result.ok_bind]
      simp only [if_neg hthere]
      exact h.told 0 _
  · rename_i hother
    try split
    all_goals first
      | exact (hother _ rfl).elim
      | exact h.told 0 _

theorem Enrolled.names_users (h : memory.Enrolled roster) :
    memory.names memory.users = listing strcmp roster.names := by
  obtain ⟨tree, added, hremembers, hnames⟩ := h.arrived
  exact hnames ▸ server.Memory.names_users hremembers

/-- The admin is answered as the roster says. -/
theorem Enrolled.answered (h : memory.Enrolled roster) (connection : Connection)
    (found : Option (AdminCommand × Bytes)) :
    Result.Related (SameNoted roster) (server.answered memory connection found)
      (Roster.answered roster.names connection.socket found) := by
  match found with
  | none => exact h.told connection.exit _
  | some (.LIST, args) => exact h.cmd_list connection.socket
  | some (.ADD, args) => exact h.cmd_add
  | some (.DEL, args) => exact h.cmd_del
  | some (.QUIT, args) => exact .ok ⟨rfl, h⟩

end Commands

section Startup

variable {names file : List Bytes}

/-- What changes no name, no record and no node leaves the roster as it is. -/
theorem Enrolled.of_same (h : memory.Enrolled roster) (hvalid : next.Valid)
    (hlist : next.user_list = memory.user_list) (hrecords : next.records = memory.records)
    (hname : ∀ u, (next.clients.contents u).username_string =
      (memory.clients.contents u).username_string) : next.Enrolled roster := by
  obtain ⟨tree, added, hremembers, hnames⟩ := h.arrived
  refine ⟨hvalid, ⟨tree, added, ?_, ?_⟩, hrecords ▸ h.filed⟩
  · rw [hlist]
    refine hremembers.congr fun a _ b _ => ?_
    rw [data_cmp_names, data_cmp_names, hname, hname]
  · simp only [← hnames, Memory.names, hname]

/-- A datagram leaves the roster as it is. -/
theorem Enrolled.served (h : memory.Enrolled roster) {sock : sockaddr_in} {datagram : Bytes}
    {locals : Locals} (hvalid : next.Valid)
    (hserved : Served memory sock datagram locals next outputs) : next.Enrolled roster := by
  have hopened {s : Nat} {opened : Memory} (hopened : memory.Opened sock s opened) :
      opened.Enrolled roster :=
    h.of_same hopened.valid (by rw [hopened.rest]) (by rw [hopened.rest])
      fun u => by rw [hopened.clients_eq]
  cases hserved with
  | unknown _ _ hopen => exact hopened hopen
  | command opened s hopen command args _ _ _ hperformed =>
    have hsame := hopened hopen
    cases hperformed with
    | refused | msg | p2p | get => exact hsame
    | login username password u _ _ _ _ _ hnul =>
      exact hsame.of_same hvalid rfl rfl (bind_username hnul)
    | create group_name sender group _ _ _ _ _ _ hcreated =>
      exact hsame.of_same hvalid (by rw [hcreated.rest]) (by rw [hcreated.rest])
        fun u => by rw [hcreated.rest]

/-- One record that `main` reads. -/
theorem Enrolled.add_loaded (h : memory.Enrolled ⟨names, file⟩) (first : client_t) :
    ∃ res next outputs, memory.add_user first false false = .ok (res, next, outputs) ∧
      next.Enrolled ⟨arrive names first.username_string, file⟩ := by
  obtain ⟨tree, added, hremembers, hnames⟩ := h.arrived
  change memory.names added = names at hnames
  by_cases htaken : first.username_string ∈ names
  · obtain ⟨u, hu, hname⟩ := (mem_names_iff hremembers).mp (hnames ▸ htaken)
    refine ⟨_, _, _, h.valid.add_user_duplicated hu hname.symm false false, ?_⟩
    rw [arrive, if_pos htaken]
    exact h
  · have hnew : ∀ u ∈ memory.users, first.username_string ≠
        (memory.clients.contents u).username_string := by
      intro u hu hname
      exact htaken (hnames ▸ (mem_names_iff hremembers).mpr ⟨u, hu, hname.symm⟩)
    obtain ⟨next, hadd, hadded⟩ := h.valid.add_user_spec hnew false false
    obtain ⟨tree', added', hremembers', hnames'⟩ := h.valid.arrived_added hremembers
      (hnames ▸ htaken) hadded hadd
    refine ⟨_, next, _, hadd, hadded.valid, ⟨tree', added', hremembers', ?_⟩, ?_⟩
    · rw [hnames', hnames, arrive, if_neg htaken]
    · rw [hadded.rest]
      simpa using h.filed

/-- The loop of `main`: the users arrive in the order of the file. -/
theorem Enrolled.load (h : memory.Enrolled ⟨names, file⟩) (records : List client_t) {fuel : Nat}
    (hfuel : records.length < fuel) (client : client_t) :
    ∃ next, server.load fuel memory client (records.flatMap client_t.bytes) = .ok next ∧
      next.Enrolled ⟨(records.map client_t.username_string).foldl arrive names, file⟩ := by
  induction records generalizing memory names fuel client with
  | nil =>
    obtain ⟨fuel, rfl⟩ := Nat.exists_eq_succ_of_ne_zero (Nat.ne_of_gt hfuel)
    exact ⟨memory, rfl, h⟩
  | cons first records ih =>
    obtain ⟨fuel, rfl⟩ := Nat.exists_eq_succ_of_ne_zero (Nat.ne_of_gt (Nat.zero_lt_of_lt hfuel))
    obtain ⟨res, added, outputs, hadd, hadded⟩ := h.add_loaded first
    obtain ⟨next, hload, hnext⟩ := ih hadded (Nat.lt_of_succ_lt_succ hfuel) first
    refine ⟨next, ?_, hnext⟩
    rw [load_cons, hadd, Result.ok_bind]
    exact hload

end Startup

end Memory

section Lives

variable {startup : Startup} {start server next : Server} {records : Bytes} {names : List Bytes}
  {roster : Roster} {event : Event} {outputs : List Output}

/-- Behind a start the users have arrived in the order of the file. -/
theorem enrolled_of_main (hfiled : Filed records names) (hmain : main startup records = .ok start) :
    start.memory.Enrolled (.loaded names) := by
  obtain ⟨file, rfl, rfl⟩ := hfiled
  have hnew : (startup.memory (file.flatMap client_t.bytes)).Enrolled
      ⟨[], file.map client_t.username_string⟩ :=
    ⟨startup.memory_valid _, ⟨.nil, [], ⟨new_avl_tree_represents _ _, trivial, .refl [], .nil⟩, rfl⟩,
      file, rfl, rfl⟩
  have hfuel : file.length < (file.flatMap client_t.bytes).length + 1 := by
    rw [length_flatMap_bytes, client_t.size]
    omega
  obtain ⟨memory, hload, hloaded⟩ := hnew.load file hfuel startup.client
  rw [main, hload] at hmain
  cases hmain
  exact hloaded

/-- A file of complete records stays one under writes of records. -/
theorem Filed.foldl (hfiled : Filed records names)
    (hwrites : ∀ record, .write record ∈ outputs → ∃ client : client_t, record = client.bytes) :
    Filed (outputs.foldl Output.onRecords records)
      ((outputs.filterMap Output.noted).foldl Noted.onFile names) := by
  induction outputs generalizing records names with
  | nil => exact hfiled
  | cons output outputs ih =>
    have hrest : ∀ record, .write record ∈ outputs → ∃ client : client_t, record = client.bytes :=
      fun record hmem => hwrites record (List.mem_cons_of_mem _ hmem)
    obtain ⟨file, hrecords, hfile⟩ := hfiled
    cases output with
    | answer | relay | write_fd => exact ih ⟨file, hrecords, hfile⟩ hrest
    | ftruncate => exact ih ⟨[], rfl, rfl⟩ hrest
    | write record =>
      obtain ⟨client, rfl⟩ := hwrites record List.mem_cons_self
      refine ih ⟨file ++ [client], ?_, ?_⟩ hrest
      · simp [hrecords, Output.onRecords]
      · simp [hfile, client_t.username_string, Noted.onFile]

/-- What is written to the file is a record. -/
theorem Stepped.writes {next : Memory} (h : Stepped server event next outputs) :
    ∀ record, .write record ∈ outputs → ∃ client : client_t, record = client.bytes := by
  intro record hmem
  have hquiet (hquiet : ∀ output ∈ outputs, output.isFile = false) :
      ∃ client : client_t, record = client.bytes := nomatch hquiet _ hmem
  cases h with
  | served _ _ _ _ _ hserved => exact hquiet hserved.quiet
  | idle => cases hmem
  | handled _ _ _ _ _ hhandled =>
    cases hhandled with
    | unknown _ hanswers => exact hquiet hanswers.quiet
    | command _ _ _ _ _ _ hadministered =>
      cases hadministered with
      | answered _ _ hanswers => exact hquiet hanswers.quiet
      | added _ _ _ _ _ _ client =>
        simp only [write_fd, List.mem_cons, Output.write.injEq, reduceCtorEq, List.not_mem_nil,
          or_false] at hmem
        exact ⟨client, hmem⟩
      | removed =>
        simp only [write_fd, List.mem_append, List.mem_cons, List.mem_map, Output.write.injEq,
          reduceCtorEq, List.not_mem_nil, or_false, false_or] at hmem
        obtain ⟨v, -, rfl⟩ := hmem
        exact ⟨_, rfl⟩

theorem Served.noted_eq_nil {memory next : Memory} {sock : sockaddr_in} {datagram : Bytes}
    {locals : Locals} (h : Served memory sock datagram locals next outputs) :
    outputs.filterMap Output.noted = [] := by
  cases h with
  | unknown => rfl
  | command _ _ _ _ _ _ _ _ hperformed => cases hperformed <;> rfl

/-- All that the admin thread does is seen. -/
theorem filterMap_noted_take (hclient : ∀ output ∈ outputs, output.client = none) (k : Nat) :
    (outputs.take k).filterMap Output.noted = (outputs.filterMap Output.noted).take k := by
  induction outputs generalizing k with
  | nil => simp
  | cons output outputs ih =>
    have hnoted : output.noted ≠ none := by
      have hnone := hclient output List.mem_cons_self
      cases output <;> simp_all [Output.client, Output.noted]
    obtain ⟨noted, hnoted⟩ := Option.ne_none_iff_exists'.mp hnoted
    cases k with
    | zero => rfl
    | succ k =>
      rw [List.take_succ_cons, List.filterMap_cons_some hnoted, List.filterMap_cons_some hnoted,
        List.take_succ_cons, ih fun output hmem => hclient output (List.mem_cons_of_mem _ hmem)]

/-- The file that a step leaves when it stops behind some of its outputs. -/
theorem Memory.Enrolled.filed_crashed (h : server.memory.Enrolled roster)
    (hstep : step server event = .ok (next, outputs)) (k : Nat) :
    Filed (crashed server outputs k)
      (((outputs.take k).filterMap Output.noted).foldl Noted.onFile roster.file) :=
  h.filed.foldl fun record hmem =>
    (stepped_of_step h.valid hstep).writes record (List.mem_of_mem_take hmem)

/-- What a step does to the roster. -/
theorem step_notes (h : server.memory.Enrolled roster)
    (hstep : step server event = .ok (next, outputs)) :
    (∃ socket command names, server.request event = some (.admin socket command) ∧
      Roster.answered roster.names socket command =
        .ok (names, outputs.filterMap Output.noted) ∧
      next.memory.Enrolled ⟨names, (outputs.filterMap Output.noted).foldl Noted.onFile roster.file⟩ ∧
      ∀ output ∈ outputs, output.client = none) ∨
    (∀ socket command, server.request event ≠ some (.admin socket command)) ∧
      next.memory.Enrolled roster ∧ outputs.filterMap Output.noted = [] := by
  have hvalid := step_valid h.valid hstep
  cases event with
  | datagram sock datagram locals =>
    obtain ⟨⟨memory, outputs'⟩, hserve, hstep⟩ := Result.bind_eq_ok_iff.mp hstep
    cases hstep
    have hserved := h.valid.served hserve
    refine Or.inr ⟨fun socket command hrequest => ?_, h.served hvalid hserved,
      hserved.noted_eq_nil⟩
    simp only [Server.request, Option.map_eq_some_iff, reduceCtorEq, and_false, exists_false]
      at hrequest
  | accept connection =>
    rw [step] at hstep
    split at hstep <;> cases hstep <;>
      exact Or.inr ⟨fun _ _ => (Option.some_ne_none _).symm, h, rfl⟩
  | read received =>
    obtain ⟨hnone, hmemory, rfl⟩ | ⟨connection, found, exit, hadmin, hrequest, hanswered⟩ :=
      read_cases hstep
    · refine Or.inr ⟨fun socket command hrequest => ?_, hmemory ▸ h, rfl⟩
      rw [hnone] at hrequest
      cases hrequest
    · have hrelated := h.answered connection found
      rw [hanswered] at hrelated
      obtain ⟨⟨names, noted⟩, hanswered', hnoted, henrolled⟩ := hrelated.exists_of_ok
      obtain rfl : outputs.filterMap Output.noted = noted := hnoted
      exact Or.inl ⟨_, found, names, hrequest, hanswered', henrolled,
        (stepped_of_step h.valid hstep).client_eq_none⟩

/-- What happens to the server happens to the roster. -/
theorem live_notes {happening : Happening} (h : server.memory.Enrolled roster)
    (hlive : live server happening = .ok (next, outputs)) :
    ∃ roster', Spec.Runs Roster.Lives roster (server.notes happening outputs) roster' ∧
      next.memory.Enrolled roster' := by
  cases happening with
  | event event =>
    obtain ⟨socket, command, names, hrequest, hanswered, hnext, -⟩ | ⟨hother, hnext, -⟩ :=
      step_notes h hlive
    · refine ⟨_, ?_, hnext⟩
      simp only [Server.notes, hrequest]
      exact .single (.asked hanswered)
    · refine ⟨roster, ?_, hnext⟩
      rw [Server.notes]
      split
      · rename_i socket command hrequest
        exact absurd hrequest (hother socket command)
      · exact .nil roster
  | restart startup =>
    obtain ⟨rebuilt, hmain, hlive⟩ := Result.bind_eq_ok_iff.mp hlive
    cases hlive
    exact ⟨_, .single (.restart roster), enrolled_of_main h.filed hmain⟩
  | stop event k startup =>
    obtain ⟨behind, written, hstep, hmain, rfl⟩ := live_stop_eq_ok_iff.mp hlive
    have hrebuilt := enrolled_of_main (h.filed_crashed hstep k) hmain
    obtain ⟨socket, command, names, hrequest, hanswered, -, hclient⟩ | ⟨hother, -, hnoted⟩ :=
      step_notes h hstep
    · have htake := filterMap_noted_take hclient k
      rw [htake] at hrebuilt
      refine ⟨_, ?_, hrebuilt⟩
      simp only [Server.notes, hrequest, htake]
      exact .single (.stopped k hanswered)
    · have hnone : (written.take k).filterMap Output.noted = [] :=
        List.eq_nil_of_sublist_nil (hnoted ▸ (List.take_sublist k written).filterMap _)
      rw [hnone] at hrebuilt
      refine ⟨_, ?_, hrebuilt⟩
      rw [Server.notes]
      split
      · rename_i socket command hrequest
        exact absurd hrequest (hother socket command)
      · exact .single (.restart roster)

variable {happenings : List Happening} {episodes : List Roster.Episode} {file : List client_t}

/-- The admin sees the list of the names of the users in the order in which they arrived: over
the whole life of the server, with stops and restarts at any point, all that the admin thread
answers and writes is what is told from this list, up to the fault that both run into. -/
theorem roster_told (hmain : main startup (file.flatMap client_t.bytes) = .ok start)
    (hlife : trace live Server.notes start happenings = .ok (server, episodes)) :
    ∃ roster, Spec.Runs Roster.Lives (.loaded (file.map client_t.username_string)) episodes roster ∧
      server.memory.names server.memory.users = listing strcmp roster.names ∧
      ∀ connection command,
        (answered server.memory connection command).map (fun r => r.2.2.filterMap Output.noted) =
          (Roster.answered roster.names connection.socket command).map Prod.snd := by
  obtain ⟨roster, hruns, h⟩ := simulates Roster.Lives
    (fun (server : Server) roster => server.memory.Enrolled roster)
    (fun server roster happening next outputs h hlive => by exact live_notes h hlive)
    (enrolled_of_main ⟨file, rfl, rfl⟩ hmain) hlife
  refine ⟨roster, hruns, h.names_users, fun connection command => ?_⟩
  exact (h.answered connection command).map_eq fun _ _ hsame => hsame.1

/-- The first user stays behind a deletion until the server is restarted. -/
theorem roster_told_witness : ∃ (start server : Server) (episodes : List Roster.Episode)
    (roster : Roster), main .blank [] = .ok start ∧
      Spec.Runs Roster.Lives (.loaded []) episodes roster ∧
      server.memory.names server.memory.users = [text "ana", text "zoe"] ∧
      listing strcmp roster.names = [text "ana", text "zoe"] := by
  let happenings : List Happening := [
    .event (.accept .blank),
    .event (.read (text "ADD eva 10.0.0.1 pw 1 0 1\n")),
    .event (.read (text "ADD ana 10.0.0.1 pw 1 0 1\n")),
    .event (.read (text "ADD zoe 10.0.0.1 pw 1 0 1\n")),
    .event (.read (text "DEL eva\n")),
    .restart .blank,
    .event (.accept .blank),
    .event (.read (text "DEL eva\n"))]
  have hview : (do
      let start ← main .blank []
      let last ← run live start happenings
      return last.1.memory.names last.1.memory.users) = Except.ok [text "ana", text "zoe"] := by
    decide +kernel
  obtain ⟨start, hmain, hview⟩ := Result.bind_eq_ok_iff.mp hview
  obtain ⟨⟨server, outputs⟩, hrun, hview⟩ := Result.bind_eq_ok_iff.mp hview
  obtain ⟨episodes, htrace⟩ := exists_trace Server.notes hrun
  have hempty : main .blank (([] : List client_t).flatMap client_t.bytes) = .ok start := hmain
  obtain ⟨roster, hruns, hlisted, -⟩ := roster_told hempty htrace
  have hnames := Except.ok.inj hview
  exact ⟨start, server, episodes, roster, hmain, hruns, hnames, hlisted.symm.trans hnames⟩

end Lives

end rc_project.server
