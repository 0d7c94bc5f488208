import Mathlib.Data.List.Nodup
import RcProject.Server.Runs

open rc_project.avl_tree rc_project.blocks rc_project.c_string rc_project.scanf
open rc_project.transition

namespace rc_project.server

/-- The name and the address of the group that an output says was created. -/
def Output.created : Output → Option (Bytes × Bytes)
  | .answer _ (.group_created group_name ip) .. => some (group_name, ip)
  | _ => none

namespace Memory

variable {memory next : Memory} {name ip : Bytes}

def groupNames (memory : Memory) : List Bytes :=
  memory.multicastGroups.map fun g => cstr (memory.group_blocks.contents g).name.bytes

def groupAddresses (memory : Memory) : List Bytes :=
  memory.multicastGroups.map fun g => cstr (memory.group_blocks.contents g).ip.bytes

/-- The groups and the counter agree: the groups have different names, and the
first addresses of the pool, each of them once. -/
structure GroupsExact (memory : Memory) : Prop where
  names : memory.groupNames.Nodup
  addresses : memory.groupAddresses.Nodup
  pool : memory.groupAddresses.Perm (groups.take memory.current_group)
  count : memory.current_group = memory.multicastGroups.length
  bound : memory.current_group ≤ max_groups

theorem groups_nodup : groups.Nodup := by decide

/-- No two groups carry one name. -/
theorem Valid.group_unique (hvalid : memory.Valid) {g g' : Nat} (hg : g ∈ memory.multicastGroups)
    (hg' : g' ∈ memory.multicastGroups) (hname : cstr (memory.group_blocks.contents g).name.bytes =
      cstr (memory.group_blocks.contents g').name.bytes) : g = g' :=
  hvalid.group_list.eq_of_zero hg hg' (group_order_eq_zero_iff.mpr hname)

theorem Valid.groupsExact (hvalid : memory.Valid) : memory.GroupsExact where
  names := by
    refine List.Nodup.map_on (fun g hg g' hg' => hvalid.group_unique hg hg') ?_
    exact hvalid.group_list.increasing.nodup (hvalid.group_list.lawful_contents _)
      hvalid.group_list.valid
  addresses := hvalid.pool.nodup_iff.mpr (groups_nodup.sublist (List.take_sublist _ _))
  pool := hvalid.pool
  count := by
    have hlength := hvalid.pool.length_eq
    have hbound : memory.current_group ≤ groups.length := hvalid.pool_bound
    rw [List.length_map, List.length_take, min_eq_left hbound] at hlength
    exact hlength.symm
  bound := hvalid.pool_bound

/-- There is a group with a name and an address. -/
def HasGroup (memory : Memory) (name ip : Bytes) : Prop :=
  ∃ g ∈ memory.multicastGroups, cstr (memory.group_blocks.contents g).name.bytes = name ∧
    cstr (memory.group_blocks.contents g).ip.bytes = ip

theorem Keeps.hasGroup (hkeeps : memory.Keeps next) (h : memory.HasGroup name ip) :
    next.HasGroup name ip := by
  obtain ⟨g, hg, hname, hip⟩ := h
  obtain ⟨hmem, hsame⟩ := hkeeps.groups g hg
  exact ⟨g, hmem, by rw [hsame, hname], by rw [hsame, hip]⟩

theorem LogsIn.hasGroup {event : Event} {s u : Nat} (hlogin : memory.LogsIn event s u next)
    (h : memory.HasGroup name ip) : next.HasGroup name ip := by
  cases hlogin with
  | intro sock datagram locals opened _ _ _ _ _ hopened => exact hopened.keeps.hasGroup h

/-- A group is only created under a name that no group carries. -/
theorem Created.fresh (hvalid : memory.Valid) {group : group_t} (h : memory.Created group next) :
    ∀ g ∈ memory.multicastGroups,
      cstr (memory.group_blocks.contents g).name.bytes ≠ cstr group.name.bytes := by
  intro g hg hname
  have hlt := hvalid.group_list.allocated g hg
  have hold : next.group_blocks.contents g = memory.group_blocks.contents g := by
    rw [h.rest]
    exact memory.group_blocks.alloc_of_lt hlt
  have hself : next.group_blocks.contents memory.group_blocks.brk = group := by
    rw [h.rest]
    exact memory.group_blocks.alloc_self
  have hsame : g = memory.group_blocks.brk := by
    apply h.valid.group_unique ((h.mem_groups g).mpr (Or.inl hg)) ((h.mem_groups _).mpr (Or.inr rfl))
    rw [hold, hself, hname]
  omega

/-- A creation leaves the group that it was asked for. -/
theorem Created.hasGroup {group : group_t} (h : memory.Created group next)
    (hname : cstr group.name.bytes = name) (hip : cstr group.ip.bytes = ip) :
    next.HasGroup name ip := by
  have hself : next.group_blocks.contents memory.group_blocks.brk = group := by
    rw [h.rest]
    exact memory.group_blocks.alloc_self
  exact ⟨memory.group_blocks.brk, (h.mem_groups _).mpr (Or.inr rfl), by rw [hself, hname],
    by rw [hself, hip]⟩

end Memory

/-- A creation that is not rejected: a session that is logged in and may use
groups asks for a name that no group carries, and there is an address left. -/
inductive Memory.Creates (memory : Memory) (event : Event) (group_name ip : Bytes) : Prop
  | intro (client sender : Nat) (args : Bytes) (locals : Locals)
    (hrequest : memory.Requests client sender .group .CREATEMULTICAST args locals event)
    (hargs : sscanf args [.word MAX_GROUP_NAME] = .ok [.string group_name])
    (hfresh : cstr group_name ∉ memory.groupNames)
    (hroom : memory.current_group < max_groups)
    (hip : ip = groups.getD memory.current_group []) :
    Creates memory event group_name ip

theorem exists_new_group (block : group_t) {name : Bytes} (hfits : name.length < MAX_GROUP_NAME) :
    ∃ group, new_group block name [] = .ok group := by
  obtain ⟨name', hname⟩ := exists_strcpy block.name ((length_cstr_le name).trans_lt hfits)
  have hempty : (cstr []).length < INET_ADDRSTRLEN := by decide
  obtain ⟨ip, hip⟩ := exists_strcpy block.ip hempty
  exact ⟨{ name := name', ip }, by rw [new_group, hname, hip]; rfl⟩

/-- A session that may use groups is told the address of a group that exists. -/
theorem Memory.Valid.cmd_getmulticast_eq {memory : Memory} (hvalid : memory.Valid)
    {client sender : Nat} {args group_name ip : Bytes}
    (hpermitted : memory.Permitted client .group sender)
    (hargs : sscanf args [.word MAX_GROUP_NAME] = .ok [.string group_name])
    (hgroup : memory.HasGroup (cstr group_name) ip) :
    cmd_getmulticast memory client args =
      .ok (memory, [memory.send_udp_message client (.group_address group_name ip)]) := by
  obtain ⟨g, hg, hname, rfl⟩ := hgroup
  have hflag : (memory.clients.contents sender).group ≠ 0 := hpermitted.flag
  obtain ⟨group, hnew⟩ := exists_new_group memory.group_blocks.fresh (word_of_sscanf hargs).2
  obtain ⟨found, hfind, hfound⟩ := hvalid.find_group_spec group
  obtain rfl := (hfound g).mpr ⟨hg, hname.trans (name_of_new_group hnew).symm⟩
  simp only [cmd_getmulticast, hpermitted.logged_in, if_false, hpermitted.client_eq,
    Result.deref_some, Result.ok_bind, hflag, hargs, hnew, hfind, Result.pure_eq_ok]

variable {start server next : Server} {past : List Event} {event : Event} {outputs : List Output}

theorem created_eq_none (output : Output) (hclient : output.client = none) :
    output.created = none := by
  cases output <;> first | rfl | cases hclient

theorem created_of_refusal {memory : Memory} {client : Nat} {answer : Answer}
    (hrefusal : answer.refusal = true) :
    [memory.send_udp_message client answer].filterMap Output.created = [] := by
  cases answer <;> first | rfl | cases hrefusal

/-- A step leaves the groups and their counter as they are, or it creates a
group with the next address and says so. -/
theorem Stepped.groups {memory : Memory} (hvalid : server.memory.Valid)
    (h : Stepped server event memory outputs) :
    (memory.group_list = server.memory.group_list ∧
      memory.current_group = server.memory.current_group ∧
      outputs.filterMap Output.created = []) ∨
    ∃ group_name ip, outputs.filterMap Output.created = [(group_name, ip)] ∧
      server.memory.Creates event group_name ip ∧ memory.HasGroup (cstr group_name) ip := by
  cases h with
  | served sock datagram locals _ _ hserved =>
    cases hserved with
    | unknown _ s hopened =>
      rw [hopened.rest]
      exact Or.inl ⟨rfl, rfl, rfl⟩
    | command opened s hopened command args hcommand _ _ hperformed =>
      have hsame : opened.group_list = server.memory.group_list ∧
          opened.current_group = server.memory.current_group := by
        rw [hopened.rest]
        exact ⟨rfl, rfl⟩
      cases hperformed with
      | refused _ answer hrefusal =>
        exact Or.inl ⟨hsame.1, hsame.2, created_of_refusal hrefusal⟩
      | login => exact Or.inl ⟨hsame.1, hsame.2, rfl⟩
      | msg => exact Or.inl ⟨hsame.1, hsame.2, rfl⟩
      | p2p => exact Or.inl ⟨hsame.1, hsame.2, rfl⟩
      | create group_name sender group _ hpermitted hargs hname hip hroom hcreated =>
        obtain ⟨rfl, hrequest⟩ := hopened.requests hpermitted hcommand
        refine Or.inr ⟨group_name, _, rfl, ?_, hcreated.hasGroup hname hip⟩
        refine .intro s sender args locals hrequest hargs ?_ hroom rfl
        intro hmem
        obtain ⟨g, hg, hsame⟩ := List.mem_map.mp hmem
        exact hcreated.fresh hvalid g hg (hsame.trans hname.symm)
      | get => exact Or.inl ⟨hsame.1, hsame.2, rfl⟩
  | handled connection hadmin received _ _ hhandled =>
    have hnone := hhandled.filterMap_eq_nil created_eq_none
    cases hhandled with
    | unknown => exact Or.inl ⟨rfl, rfl, hnone⟩
    | command _ command args hcommand _ _ hadministered =>
      cases hadministered with
      | answered => exact Or.inl ⟨rfl, rfl, hnone⟩
      | added _ _ _ _ _ _ _ _ _ _ _ hadded =>
        exact Or.inl ⟨by rw [hadded.rest], by rw [hadded.rest], hnone⟩
      | removed _ _ _ _ _ hremoved =>
        exact Or.inl ⟨by rw [hremoved.rest], by rw [hremoved.rest], hnone⟩
  | idle => exact Or.inl ⟨rfl, rfl, rfl⟩

/-- A group that exists keeps its name and its address. -/
theorem step_hasGroup {name ip : Bytes} (hvalid : server.memory.Valid)
    (hgroup : server.memory.HasGroup name ip)
    (hstep : step server event = .ok (next, outputs)) : next.memory.HasGroup name ip := by
  obtain ⟨hkeeps, -⟩ | ⟨s, u, hlogin, -⟩ := (stepped_of_step hvalid hstep).keeps_or_login hvalid
  · exact hkeeps.hasGroup hgroup
  · exact hlogin.hasGroup hgroup

theorem reaches_hasGroup {name ip : Bytes} {later : List Event} {last : Server}
    (hvalid : server.memory.Valid) (hgroup : server.memory.HasGroup name ip)
    (hreach : Reaches step server later last) :
    last.memory.Valid ∧ last.memory.HasGroup name ip :=
  hreach.invariant (fun server => server.memory.Valid ∧ server.memory.HasGroup name ip)
    ⟨hvalid, hgroup⟩ fun _ _ _ _ h hstep => ⟨step_valid h.1 hstep, step_hasGroup h.1 h.2 hstep⟩

/-- In every state of a run the groups have different names and exactly the first
addresses of the pool. A step that does not answer with a new group leaves the
groups and their counter, and only a creation that no check rejects answers with
one. What it answers is what every later permitted lookup of the name is told. -/
theorem groups_exact {startup : Startup} {records : Bytes}
    (hmain : main startup records = .ok start) (hreach : Reaches step start past server) :
    server.memory.GroupsExact ∧
    ∀ event next outputs, step server event = .ok (next, outputs) →
      (outputs.filterMap Output.created = [] →
        next.memory.group_list = server.memory.group_list ∧
          next.memory.current_group = server.memory.current_group) ∧
      ∀ group_name ip, (group_name, ip) ∈ outputs.filterMap Output.created →
        server.memory.Creates event group_name ip ∧
        ∀ later last, Reaches step next later last →
          ∀ client sender args locals request,
            last.memory.Requests client sender .group .GETMULTICAST args locals request →
            sscanf args [.word MAX_GROUP_NAME] = .ok [.string group_name] →
            step last request = .ok (last,
              [last.memory.send_udp_message client (.group_address group_name ip)]) := by
  have hvalid := reaches_valid (started_of_main hmain).valid hreach
  refine ⟨hvalid.groupsExact, fun event next outputs hstep => ⟨?_, ?_⟩⟩
  · intro hnone
    obtain ⟨hlist, hcount, -⟩ | ⟨group_name, ip, hcreated, -, -⟩ :=
      (stepped_of_step hvalid hstep).groups hvalid
    · exact ⟨hlist, hcount⟩
    · rw [hnone] at hcreated
      cases hcreated
  · intro group_name ip hcreated
    obtain ⟨-, -, hnone⟩ | ⟨group_name', ip', hcreated', hcreates, hgroup⟩ :=
      (stepped_of_step hvalid hstep).groups hvalid
    · rw [hnone] at hcreated
      cases hcreated
    · rw [hcreated', List.mem_singleton] at hcreated
      cases hcreated
      refine ⟨hcreates, ?_⟩
      intro later last hlater client sender args locals request hrequest hargs
      obtain ⟨hvalid', hgroup'⟩ := reaches_hasGroup (step_valid hvalid hstep) hgroup hlater
      rw [hrequest.step_eq hvalid', client_cmd_functions,
        hvalid'.cmd_getmulticast_eq hrequest.permitted hargs hgroup']
      rfl

theorem groups_exact_witness : ∃ start server next outputs, main .blank [] = .ok start ∧
    Reaches step start loginRun server ∧ server.memory.GroupsExact ∧
    step server (.datagram ⟨⟨10, 0, 0, 1⟩, 5000⟩ (text "CREATEMULTICAST g") .blank) =
      .ok (next, outputs) ∧
    step next (.datagram ⟨⟨10, 0, 0, 1⟩, 5000⟩ (text "GETMULTICAST g") .blank) =
      .ok (next, [next.memory.send_udp_message 0 (.group_address (text "g") (text "239.0.0.1"))]) := by
  have hview : observe .blank [] loginRun (fun server _ => do
      let (next, outputs) ← step server
        (.datagram ⟨⟨10, 0, 0, 1⟩, 5000⟩ (text "CREATEMULTICAST g") .blank)
      let client := next.memory.sessions.contents 0
      return (outputs.filterMap Output.created, decide (0 ∈ next.memory.userSessions ∧
        cstr client.ip.bytes = inet_ntop ⟨10, 0, 0, 1⟩ ∧
        client.port = (5000 : BitVec 16).setWidth 32 ∧ client.logged_in ≠ 0 ∧
        client.client = some 0 ∧ (next.memory.clients.contents 0).group ≠ 0))) =
        .ok (.ok ([(text "g", text "239.0.0.1")], true)) := by
    decide +kernel
  obtain ⟨start, server, _, hmain, hrun, hstep⟩ := exists_of_observe hview
  obtain ⟨⟨next, outputs⟩, hstep, hfacts⟩ := Result.bind_eq_ok_iff.mp hstep
  simp only [Result.pure_eq_ok, Except.ok.injEq, Prod.mk.injEq, decide_eq_true_eq] at hfacts
  obtain ⟨hcreated, hclient, hip, hport, hlogged, hsender, hflag⟩ := hfacts
  have hmem : (text "g", text "239.0.0.1") ∈ outputs.filterMap Output.created := by
    rw [hcreated]
    exact List.mem_cons_self
  have hcommand : received_command (text "GETMULTICAST g") .blank =
      .ok (some (.GETMULTICAST, text "g")) := by
    decide +kernel
  have hargs : sscanf (text "g") [.word MAX_GROUP_NAME] = .ok [.string (text "g")] := by
    decide +kernel
  have hrequest : next.memory.Requests 0 0 .group .GETMULTICAST (text "g") .blank
      (.datagram ⟨⟨10, 0, 0, 1⟩, 5000⟩ (text "GETMULTICAST g") .blank) :=
    .intro _ _ hclient hip hport ⟨hlogged, hsender, hflag⟩ hcommand
  obtain ⟨hexact, hsteps⟩ := groups_exact hmain ⟨_, hrun⟩
  exact ⟨start, server, next, outputs, hmain, ⟨_, hrun⟩, hexact, hstep,
    ((hsteps _ next outputs hstep).2 _ _ hmem).2 [] next (Reaches.refl step next) 0 0 _ _ _ hrequest
      hargs⟩

end rc_project.server
