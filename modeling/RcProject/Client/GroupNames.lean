import RcProject.Client.Requests

open rc_project.blocks rc_project.c_string rc_project.scanf rc_project.transition
open rc_project.server (ClientCommand line)

namespace rc_project.client

variable {name before rest : Bytes} {size : Nat}

/-- The name of a group that the server reads from a request. -/
def Call.ServerName (call : Call) (name : Bytes) : Prop :=
  ∃ args, call.Received call.command args ∧
    sscanf args [.word server.MAX_GROUP_NAME] = .ok [.string name]

section Prompts

theorem read_group_name_eq (hname : TypedLine size name) (hbefore : 10 ∉ before)
    (group_name : CharArray size) (rest : Bytes) :
    read_group_name group_name (before ++ 10 :: (name ++ 10 :: rest)) =
      .ok (some (⟨name, hname.nul_not_mem, hname.length_lt⟩, 10 :: rest)) := by
  obtain ⟨array, hscan, hstring⟩ := scanf_line_eq group_name hname.ne_nil hname.feed_not_mem
    hname.nul_not_mem hname.length_lt rest
  simp only [read_group_name, skip_line_eq hbefore, hscan, hstring, Result.ok_bind,
    Result.pure_eq_ok]

theorem create_group_multicast_eq (hname : TypedLine 16 name) (hbefore : 10 ∉ before)
    (group_name : CharArray 16) (message : CharArray (BUFFER_SIZE + 17)) (rest : Bytes) :
    create_group_multicast group_name message (before ++ 10 :: (name ++ 10 :: rest)) =
      .ok (some (.create_group_multicast ⟨name, hname.nul_not_mem, hname.length_lt⟩ message,
        10 :: rest)) := by
  rw [create_group_multicast, read_group_name_eq hname hbefore]
  rfl

theorem connect_multicast_eq (hname : TypedLine GROUP_SIZE name) (hbefore : 10 ∉ before)
    (group_name : CharArray GROUP_SIZE) (message : CharArray (BUFFER_SIZE + GROUP_SIZE + 1))
    (rest : Bytes) :
    connect_multicast group_name message (before ++ 10 :: (name ++ 10 :: rest)) =
      .ok (some (.connect_multicast ⟨name, hname.nul_not_mem, hname.length_lt⟩ message,
        10 :: rest)) := by
  rw [connect_multicast, read_group_name_eq hname hbefore]
  rfl

end Prompts

/-- The server reads the first word of the line that is typed. -/
theorem Call.serverName_iff {call : Call} {read : Bytes}
    (hname : TypedLine server.MAX_GROUP_NAME name) (hargs : call.args = name) :
    call.ServerName read ↔ read ≠ [] ∧ nextWord (line name) = read := by
  have hfits : (nextWord (line name)).length < server.MAX_GROUP_NAME := by
    have hword : (nextWord (line name)).length ≤ (line name).length :=
      (List.takeWhile_sublist _).length_le.trans (length_dropWhile_le _ _)
    have hline : (line name).length ≤ name.length := (List.takeWhile_sublist _).length_le
    exact (hword.trans hline).trans_lt hname.length_lt
  have hscan (word : Bytes) : sscanf (line name) [.word server.MAX_GROUP_NAME] =
      .ok [.string word] ↔ word ≠ [] ∧ nextWord (line name) = word := by
    rw [sscanf_word_eq_ok_iff]
    constructor
    · rintro ⟨hne, -, hword, -⟩
      cases hword
      exact ⟨hne, rfl⟩
    · rintro ⟨hne, rfl⟩
      exact ⟨hne, hfits, rfl, by rw [sscanf]; rfl⟩
  rw [← hscan, Call.ServerName]
  constructor
  · rintro ⟨args, hreceived, hread⟩
    obtain ⟨-, rfl⟩ := hreceived.eq
    rwa [hargs] at hread
  · intro hread
    exact ⟨line name, hargs ▸ call.received, hread⟩

/-- The server reads the line itself exactly if it has no white space. -/
theorem Call.serverName_self_iff {call : Call} (hname : TypedLine server.MAX_GROUP_NAME name)
    (hargs : call.args = name) :
    call.ServerName name ↔ ∀ c ∈ name, isspace c = false := by
  rw [call.serverName_iff hname hargs, and_iff_right hname.ne_nil]
  constructor
  · intro hword c hc
    exact isspace_of_mem_nextWord (hword.symm ▸ hc)
  · intro hspace
    have htyped : TypedWord server.MAX_GROUP_NAME name :=
      ⟨hname.ne_nil, hname.length_lt, hname.nul_not_mem, hspace⟩
    rw [htyped.line_eq, nextWord_eq_self_iff]
    exact hspace

section Joining

variable {client next : Client} {call : Call} {reply : Bytes} {outside : Outside}
  {outputs : List Output}

/-- A client joins the group that it asked for: its reply holds an address, and
`setsockopt` succeeds. -/
structure Joins (client : Client) (call : Call) (reply : Bytes) (outside : Outside)
    (next : Client) : Prop where
  stage : client.stage = .waiting call
  address : ∃ ip, scan_multicast reply = .ok (some ip)
  setsockopt : 0 ≤ outside.setsockopt
  receives : ∃ outputs, recvfrom client (reply, outside) = .ok (next, outputs)

/-- Behind a connection the client shows the name that was typed. -/
theorem Joins.current_group {group_name : CString GROUP_SIZE}
    {message : CharArray (BUFFER_SIZE + GROUP_SIZE + 1)}
    (h : Joins client (.connect_multicast group_name message) reply outside next) :
    cstr next.current_group.bytes = group_name.bytes := by
  obtain ⟨ip, hscan⟩ := h.address
  obtain ⟨outputs, hreceive⟩ := h.receives
  have hjoined : ¬ outside.setsockopt < 0 := not_lt.mpr h.setsockopt
  simp only [recvfrom, h.stage, hscan, Result.ok_bind, hjoined, if_false] at hreceive
  obtain ⟨current_group, hcopy, hreceive⟩ := Result.bind_eq_ok_iff.mp hreceive
  cases hreceive
  rw [cstr_of_strcpy hcopy, cstr_eq_self group_name.nul_not_mem]

/-- The server answers a request of a session with the address of a group. -/
def Call.Finds (call : Call) (memory : server.Memory) (session : Nat) (ip : Bytes) : Prop :=
  ∃ args name, call.Received .GETMULTICAST args ∧
    server.cmd_getmulticast memory session args =
      .ok (memory, [memory.send_udp_message session (.group_address name ip)])

/-- The group that is found has the name that the server read. -/
theorem Call.Finds.hasGroup {memory : server.Memory} (hvalid : memory.Valid) {session : Nat}
    {ip : Bytes} (h : call.Finds memory session ip) {read : Bytes} (hread : call.ServerName read) :
    memory.HasGroup (cstr read) ip := by
  obtain ⟨args, name, hreceived, hanswer⟩ := h
  obtain ⟨args', hreceived', hscan⟩ := hread
  obtain ⟨-, rfl⟩ := hreceived.eq
  obtain ⟨-, rfl⟩ := hreceived'.eq
  have hperformed : memory.Performed session (line call.args) .blank .GETMULTICAST memory _ :=
    hvalid.cmd_getmulticast_performed hanswer
  generalize hout : [memory.send_udp_message session (.group_address name ip)] = outputs at hperformed
  cases hperformed with
  | refused _ answer hrefusal =>
    simp only [server.Memory.send_udp_message, List.cons.injEq, server.Output.answer.injEq] at hout
    obtain ⟨⟨-, rfl, -⟩, -⟩ := hout
    cases hrefusal
  | get group_name sender g hpermitted hargs hgroup hname =>
    simp only [server.Memory.send_udp_message, List.cons.injEq, server.Output.answer.injEq,
      server.Answer.group_address.injEq] at hout
    obtain ⟨⟨-, ⟨rfl, rfl⟩, -⟩, -⟩ := hout
    rw [hscan] at hargs
    cases hargs
    exact ⟨g, hgroup, hname, rfl⟩

theorem Call.ServerName.nul_not_mem {read : Bytes} (h : call.ServerName read) : 0 ∉ read := by
  obtain ⟨args, hreceived, hscan⟩ := h
  obtain ⟨-, rfl⟩ := hreceived.eq
  rw [(word_of_sscanf hscan).1]
  intro hmem
  have hsublist : List.Sublist (nextWord (line call.args)) (line call.args) :=
    (List.takeWhile_sublist _).trans (List.dropWhile_sublist _)
  exact server.nul_not_mem_line call.args (hsublist.subset hmem)

/-- Two names that the server reads for one address are one name, also where the
second request comes later. -/
theorem Call.ServerName.unique {call' : Call} {read read' ip : Bytes} {session session' : Nat}
    {memory memory' : server.Memory} (hread : call.ServerName read) (hread' : call'.ServerName read')
    (hvalid : memory.Valid) (hvalid' : memory'.Valid)
    (hlater : ∀ name, memory.HasGroup name ip → memory'.HasGroup name ip)
    (hfinds : call.Finds memory session ip) (hfinds' : call'.Finds memory' session' ip) :
    read = read' := by
  obtain ⟨g, hg, hname, hip⟩ := hlater _ (hfinds.hasGroup hvalid hread)
  obtain ⟨g', hg', hname', hip'⟩ := hfinds'.hasGroup hvalid' hread'
  obtain rfl : g = g' := List.inj_on_of_nodup_map hvalid'.groupsExact.addresses hg hg'
    (hip.trans hip'.symm)
  rw [cstr_eq_self hread.nul_not_mem] at hname
  rw [cstr_eq_self hread'.nul_not_mem] at hname'
  exact hname.symm.trans hname'

end Joining

/-- The server and the client call a group by the name that was typed if and only if
this name has no white space. Clients that typed different such names are never told
the address of one group. -/
theorem group_names_survive_iff (a : CharArray 16) (m : CharArray (BUFFER_SIZE + 17))
    (a' : CharArray GROUP_SIZE) (m' : CharArray (BUFFER_SIZE + GROUP_SIZE + 1)) :
    (∀ name before rest, TypedLine GROUP_SIZE name → 10 ∉ before → ∃ create connect,
      create_group_multicast a m (before ++ 10 :: (name ++ 10 :: rest)) =
        .ok (some (create, 10 :: rest)) ∧
      connect_multicast a' m' (before ++ 10 :: (name ++ 10 :: rest)) =
        .ok (some (connect, 10 :: rest)) ∧
      ((create.ServerName name ∧ connect.ServerName name ∧
          ∀ client reply outside next, Joins client connect reply outside next →
            connect.ServerName (cstr next.current_group.bytes)) ↔
        ∀ c ∈ name, isspace c = false)) ∧
    (∀ startup records start past earlier between later, server.main startup records = .ok start →
      Reaches server.step start past earlier → Reaches server.step earlier between later →
      ∀ (connect connect' : Call) name name' session session' ip,
        connect.ServerName name → connect'.ServerName name' →
        connect.Finds earlier.memory session ip → connect'.Finds later.memory session' ip →
        name = name') := by
  constructor
  · intro name before rest hname hbefore
    have hcreate : (Call.create_group_multicast ⟨name, hname.nul_not_mem, hname.length_lt⟩ m).ServerName
        name ↔ ∀ c ∈ name, isspace c = false := Call.serverName_self_iff hname rfl
    have hconnect : (Call.connect_multicast ⟨name, hname.nul_not_mem, hname.length_lt⟩ m').ServerName
        name ↔ ∀ c ∈ name, isspace c = false := Call.serverName_self_iff hname rfl
    refine ⟨_, _, create_group_multicast_eq hname hbefore a m rest,
      connect_multicast_eq hname hbefore a' m' rest, ?_⟩
    rw [hcreate, hconnect]
    constructor
    · intro h
      exact h.1
    · intro hspace
      refine ⟨hspace, hspace, ?_⟩
      intro client reply outside next hjoins
      rw [hjoins.current_group]
      exact hconnect.mpr hspace
  · intro startup records start past earlier between later hmain hreach hlater connect connect'
      name name' session session' ip hread hread' hfinds hfinds'
    have hvalid := server.reaches_valid (server.started_of_main hmain).valid hreach
    exact hread.unique hread' hvalid (server.reaches_valid hvalid hlater)
      (fun name hgroup => (server.reaches_hasGroup hvalid hgroup hlater).2) hfinds hfinds'

theorem group_names_survive_iff_witness : ∃ create connect,
    create_group_multicast (.ofBytes _ []) (.ofBytes _ []) (text "\nteam\n") =
      .ok (some (create, [10])) ∧
    connect_multicast (.ofBytes _ []) (.ofBytes _ []) (text "\nteam\n") =
      .ok (some (connect, [10])) ∧
    create.ServerName (text "team") ∧ connect.ServerName (text "team") := by
  have hname : TypedLine GROUP_SIZE (text "team") :=
    ⟨by decide, by decide, by decide, by decide⟩
  obtain ⟨create, connect, hcreate, hconnect, hiff⟩ := (group_names_survive_iff (.ofBytes _ [])
    (.ofBytes _ []) (.ofBytes _ []) (.ofBytes _ [])).1 (text "team") [] [] hname (by decide)
  obtain ⟨hserver, hserver', -⟩ := hiff.mpr (by decide)
  exact ⟨create, connect, hcreate, hconnect, hserver, hserver'⟩

/-- The group that was typed as `my group` is created as `my`. -/
theorem spaced_name_cut : ∃ create,
    create_group_multicast (.ofBytes _ []) (.ofBytes _ []) (text "\nmy group\n") =
      .ok (some (create, [10])) ∧
    create.ServerName (text "my") ∧ ¬ create.ServerName (text "my group") := by
  have hname : TypedLine 16 (text "my group") := ⟨by decide, by decide, by decide, by decide⟩
  have hprompt := create_group_multicast_eq hname (show 10 ∉ ([] : Bytes) by decide) (.ofBytes _ [])
    (.ofBytes _ []) []
  refine ⟨_, hprompt, ?_, ?_⟩
  · apply (Call.serverName_iff hname rfl).mpr
    decide
  · intro hserver
    have hspace := (Call.serverName_self_iff hname rfl).mp hserver
    exact absurd hspace (by decide)

end rc_project.client
