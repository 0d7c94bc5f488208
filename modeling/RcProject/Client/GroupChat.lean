import RcProject.Client.Chat

open rc_project.c_string rc_project.scanf rc_project.transition
open rc_project.server (format_message htons in_addr line sockaddr_in)

namespace rc_project.client

/-- What a call of `connect_multicast` meets in a round of the menu. -/
def Round.connecting (round : Round) (stdin : Bytes) : Connect where
  group_name := round.group_name
  message := round.connect
  stdin := stdin
  received := round.received
  outside := { setsockopt := round.setsockopt, message := round.line }

def Round.sending (round : Round) (stdin : Bytes) : Send where
  message := round.line
  send := round.send
  stdin := stdin

/-- Both models of `connect_multicast` receive the same string. -/
theorem Connect.reply_eq (connect : Connect) (group_name : CString GROUP_SIZE) :
    connect.reply (.connect_multicast group_name connect.message) = (do
      match ← receive ((Call.connect_multicast group_name connect.message).array
          (BUFFER_SIZE + GROUP_SIZE + 1)) connect.received with
      | none => return none
      | some message => do
        let string ← message.string
        return some string) := by
  have hlength : (snprintf connect.message.bytes
      (Call.connect_multicast group_name connect.message).text).length =
        BUFFER_SIZE + GROUP_SIZE + 1 := by
    have hpos : 0 < connect.message.bytes.length := by
      rw [connect.message.length_eq]
      exact Nat.succ_pos _
    rw [length_snprintf hpos, connect.message.length_eq]
  have harray : ((Call.connect_multicast group_name connect.message).array
      (BUFFER_SIZE + GROUP_SIZE + 1)).bytes = snprintf connect.message.bytes
        (Call.connect_multicast group_name connect.message).text := by
    rw [Call.array, Call.buffer, CharArray.bytes_ofBytes hlength.ge,
      List.take_of_length_le hlength.le]
  have hfits : ((connect.received.getD []).take BUFFER_SIZE).length ≤
      BUFFER_SIZE + GROUP_SIZE + 1 := by
    rw [List.length_take]
    omega
  dsimp only [Connect.reply, receive, Call.buffer]
  rw [harray]
  by_cases hempty : (connect.received.getD []).take BUFFER_SIZE = []
  · rw [if_pos hempty, if_pos hempty]
    rfl
  · rw [if_neg hempty, if_neg hempty, if_pos hfits]
    rfl

def Effect.sendsTo : Effect → Option (Bytes × sockaddr_in)
  | .multicast send multicast_addr => some (send, multicast_addr)
  | _ => none

namespace Process

/-- What the client has sent to groups. -/
def multicasts (process : Process) : List (Bytes × sockaddr_in) :=
  process.done.filterMap Effect.sendsTo

/-- The call about a group that is made in a round. -/
def group_call (process : Process) (round : Round) : Option GroupCall :=
  match skip_line process.stdin with
  | none => none
  | some stdin =>
    let (option, stdin) := scanf_int process.option stdin
    if option = 4 then some (.connect (round.connecting stdin))
    else if option = 5 then some (.send (round.sending stdin))
    else none

/-- The calls about groups that are made in the rounds. -/
def group_calls (process : Process) : List Round → List GroupCall
  | [] => []
  | first :: rounds =>
    (process.group_call first).toList ++
      match process.round first with
      | .ok (next, .running) => next.group_calls rounds
      | _ => []

/-- What a client does besides its calls about groups. -/
structure Frames (process next : Process) : Prop where
  globals : next.globals = process.globals
  username : next.username = process.username
  multicasts : next.multicasts = process.multicasts

/-- What a client does is what is done by the calls about groups. -/
structure Follows (process : Process) (calls : List GroupCall) (next : Process) : Prop where
  username : next.username = process.username
  run : ∃ sent, transition.run (group_step process.username) process.globals calls =
      .ok (next.globals, sent) ∧
    next.multicasts = process.multicasts ++
      (sent.filterMap id).map fun multicast => (multicast.sent, multicast.dest)

section Functions

variable {process next last : Process} {round : Round} {status : Status} {effects : List Effect}

@[simp] theorem does_multicasts (process : Process) (effects : List Effect) :
    (process.does effects).multicasts = process.multicasts ++ effects.filterMap Effect.sendsTo :=
  List.filterMap_append

@[simp] theorem reads_multicasts (process : Process) (stdin : Bytes) :
    (process.reads stdin).multicasts = process.multicasts := rfl

@[simp] theorem becomes_multicasts (process : Process) (globals : Client) :
    (process.becomes globals).multicasts = process.multicasts := rfl

@[simp] theorem prints_multicasts (process : Process) (literal : String) :
    (process.prints literal).multicasts = process.multicasts := by
  rw [prints, does_multicasts]
  exact List.append_nil _

theorem Frames.refl (process : Process) : process.Frames process := ⟨rfl, rfl, rfl⟩

theorem Frames.trans (h : process.Frames next) (h' : next.Frames last) : process.Frames last :=
  ⟨h'.globals.trans h.globals, h'.username.trans h.username, h'.multicasts.trans h.multicasts⟩

theorem frames_does (process : Process) (hnone : effects.filterMap Effect.sendsTo = []) :
    process.Frames (process.does effects) :=
  ⟨rfl, rfl, by rw [does_multicasts, hnone, List.append_nil]⟩

theorem frames_prints (process : Process) (literal : String) :
    process.Frames (process.prints literal) := frames_does process rfl

theorem Frames.follows (h : process.Frames next) : process.Follows [] next :=
  ⟨h.username, [], by rw [run_nil, h.globals], by rw [h.multicasts]; simp⟩

theorem Follows.append {calls calls' : List GroupCall} (h : process.Follows calls next)
    (h' : next.Follows calls' last) : process.Follows (calls ++ calls') last := by
  obtain ⟨sent, hrun, hsent⟩ := h.run
  obtain ⟨sent', hrun', hsent'⟩ := h'.run
  rw [h.username] at hrun'
  refine ⟨h'.username.trans h.username, sent ++ sent', ?_, ?_⟩
  · exact (run_append_eq_ok_iff _).mpr ⟨_, sent, sent', hrun, hrun', rfl⟩
  · rw [hsent', hsent, List.filterMap_append, List.map_append, List.append_assoc]

theorem Follows.single {call : GroupCall} {sent : Option Multicast}
    (hname : next.username = process.username)
    (hstep : group_step process.username process.globals call = .ok (next.globals, sent))
    (hsent : next.multicasts = process.multicasts ++
      sent.toList.map fun multicast => (multicast.sent, multicast.dest)) :
    process.Follows [call] next := by
  refine ⟨hname, [sent], ?_, ?_⟩
  · exact (run_cons_eq_ok_iff _).mpr ⟨_, _, [], hstep, rfl, rfl⟩
  · cases sent <;> simpa using hsent

theorem send_msg_frames (hrun : process.send_msg round = .ok (next, status)) :
    process.Frames next := by
  obtain ⟨⟨username, stdin⟩, -, hrun⟩ := Result.bind_eq_ok_iff.mp hrun
  obtain ⟨name, -, hrun⟩ := Result.bind_eq_ok_iff.mp hrun
  split at hrun
  · cases hrun
    exact frames_prints _ _
  · obtain ⟨⟨message, rest⟩, -, hrun⟩ := Result.bind_eq_ok_iff.mp hrun
    obtain ⟨string, -, hrun⟩ := Result.bind_eq_ok_iff.mp hrun
    obtain ⟨received, -, hrun⟩ := Result.bind_eq_ok_iff.mp hrun
    cases received with
    | none =>
      cases hrun
      constructor <;> simp [Effect.sendsTo]
    | some message =>
      obtain ⟨shown, -, hrun⟩ := Result.bind_eq_ok_iff.mp hrun
      cases hrun
      constructor <;> simp [Effect.sendsTo]

theorem send_p2p_frames (hrun : process.send_p2p round = .ok (next, status)) :
    process.Frames next := by
  obtain ⟨⟨call, stdin⟩, -, hrun⟩ := Result.bind_eq_ok_iff.mp hrun
  obtain ⟨received, -, hrun⟩ := Result.bind_eq_ok_iff.mp hrun
  obtain ⟨response, -, hrun⟩ := Result.bind_eq_ok_iff.mp hrun
  obtain ⟨found, -, hrun⟩ := Result.bind_eq_ok_iff.mp hrun
  dsimp only at hrun
  generalize hasked : ite (received = none) _ _ = asked at hrun
  have hframes : process.Frames asked := by
    rw [← hasked]
    split <;> constructor <;> simp [Effect.sendsTo]
  apply hframes.trans
  cases found with
  | none =>
    cases hrun
    exact frames_prints _ _
  | some found =>
    obtain ⟨name, ip, port⟩ := found
    dsimp only at hrun
    split at hrun
    · cases hrun
      exact Frames.refl _
    · obtain ⟨⟨message, rest⟩, -, hrun⟩ := Result.bind_eq_ok_iff.mp hrun
      cases hrun
      constructor <;> simp [Effect.sendsTo]

theorem create_group_multicast_frames
    (hrun : process.create_group_multicast round = .ok (next, status)) : process.Frames next := by
  obtain ⟨typed, -, hrun⟩ := Result.bind_eq_ok_iff.mp hrun
  cases typed with
  | none =>
    cases hrun
    exact frames_prints _ _
  | some typed =>
    obtain ⟨received, -, hrun⟩ := Result.bind_eq_ok_iff.mp hrun
    cases received with
    | none =>
      cases hrun
      constructor <;> simp [Effect.sendsTo]
    | some message =>
      obtain ⟨shown, -, hrun⟩ := Result.bind_eq_ok_iff.mp hrun
      cases hrun
      constructor <;> simp [Effect.sendsTo]

/-- A call of `connect_multicast` in a round is one of the model of the groups. -/
theorem connect_multicast_follows (hmenu : process.globals.stage = .menu)
    (hrun : process.connect_multicast round = .ok (next, status)) :
    process.Follows [.connect (round.connecting process.stdin)] next := by
  suffices h : ∃ answer, (round.connecting process.stdin).answer = .ok answer ∧
      process.globals.answered round.setsockopt answer = .ok next.globals ∧
      next.username = process.username ∧ next.multicasts = process.multicasts by
    obtain ⟨answer, hanswer, hglobals, hname, hsent⟩ := h
    have hconnect : process.globals.connect_multicast (round.connecting process.stdin) =
        .ok next.globals := by
      rw [rc_project.client.connect_multicast_answered hmenu, hanswer]
      exact hglobals
    refine @Follows.single process next _ none hname ?_ ?_
    · rw [group_step, hconnect]
      rfl
    · rw [hsent]
      simp
  obtain ⟨typed, hread, hrun⟩ := Result.bind_eq_ok_iff.mp hrun
  rw [prints_stdin] at hread
  have hread' : read_group_name (round.connecting process.stdin).group_name
      (round.connecting process.stdin).stdin = .ok typed := hread
  cases typed with
  | none =>
    cases hrun
    exact ⟨none, by rw [Connect.answer, hread']; rfl, rfl, rfl, prints_multicasts _ _⟩
  | some typed =>
    obtain ⟨group_name, stdin⟩ := typed
    simp only [Connect.answer, hread', Result.ok_bind, Connect.reply_eq]
    obtain ⟨received, hreceive, hrun⟩ := Result.bind_eq_ok_iff.mp hrun
    have hreceive' : receive ((Call.connect_multicast group_name
        (round.connecting process.stdin).message).array (BUFFER_SIZE + GROUP_SIZE + 1))
        (round.connecting process.stdin).received = .ok received := hreceive
    rw [hreceive']
    cases received with
    | none =>
      cases hrun
      exact ⟨none, rfl, rfl, rfl, by simp [Effect.sendsTo]⟩
    | some message =>
      obtain ⟨string, hstring, hrun⟩ := Result.bind_eq_ok_iff.mp hrun
      simp only [Result.ok_bind, hstring, Result.pure_eq_ok]
      split at hrun
      · obtain ⟨found, hscan, hrun⟩ := Result.bind_eq_ok_iff.mp hrun
        rw [hscan]
        cases found with
        | none =>
          cases hrun
          exact ⟨none, rfl, rfl, rfl, by simp [Effect.sendsTo]⟩
        | some ip =>
          obtain ⟨globals, hglobals, hrun⟩ := Result.bind_eq_ok_iff.mp hrun
          refine ⟨some (group_name, ip), rfl, ?_⟩
          dsimp only at hrun
          split at hrun
          · cases hrun
            exact ⟨hglobals, rfl, by simp [Effect.sendsTo]⟩
          · cases hrun
            exact ⟨hglobals, rfl, by simp [Effect.sendsTo]⟩
      · rename_i hother
        have hscan : scan_multicast string.bytes = .ok none := by
          rw [scan_multicast, if_neg hother]
          rfl
        rw [hscan]
        cases hrun
        exact ⟨none, rfl, rfl, rfl, by simp [Effect.sendsTo]⟩

theorem send_multicast_follows (hrun : process.send_multicast round = .ok (next, status)) :
    process.Follows [.send (round.sending process.stdin)] next := by
  suffices h : ∃ sent, process.globals.send_multicast process.username
      (round.sending process.stdin) = .ok sent ∧ next.globals = process.globals ∧
      next.username = process.username ∧ next.multicasts = process.multicasts ++
        sent.toList.map fun multicast => (multicast.sent, multicast.dest) by
    obtain ⟨sent, hsend, hglobals, hname, hsent⟩ := h
    refine .single hname ?_ hsent
    rw [group_step, hsend, hglobals]
    rfl
  unfold send_multicast at hrun
  unfold Client.send_multicast
  split at hrun
  · rename_i hinvalid
    cases hrun
    rw [if_pos hinvalid]
    exact ⟨none, rfl, rfl, rfl, by simp⟩
  · rename_i hvalid
    obtain ⟨current_group, hgroup, hrun⟩ := Result.bind_eq_ok_iff.mp hrun
    rw [if_neg hvalid, hgroup]
    have hstdin : (round.sending process.stdin).stdin = process.stdin := rfl
    simp only [Result.ok_bind, hstdin]
    simp only [does_stdin] at hrun
    cases hskip : skip_line process.stdin with
    | none =>
      rw [hskip] at hrun
      cases hrun
      exact ⟨none, rfl, rfl, rfl, by simp [Effect.sendsTo]⟩
    | some line =>
      rw [hskip] at hrun
      obtain ⟨⟨message, rest⟩, hline, hrun⟩ := Result.bind_eq_ok_iff.mp hrun
      obtain ⟨string, hstring, hrun⟩ := Result.bind_eq_ok_iff.mp hrun
      cases hrun
      have hline' : scanf_line (round.sending process.stdin).message line = .ok (message, rest) :=
        hline
      simp only [hline', Result.ok_bind, hstring, Result.pure_eq_ok]
      exact ⟨_, rfl, rfl, rfl, by simp [Effect.sendsTo, Round.sending, List.filterMap_cons]⟩

/-- A round is the call about a group that is made in it. -/
theorem round_follows (hmenu : process.globals.stage = .menu)
    (hrun : process.round round = .ok (next, status)) :
    process.Follows (process.group_call round).toList next := by
  simp only [Process.round, prints_stdin, prints_option] at hrun
  unfold group_call
  cases hskip : skip_line process.stdin with
  | none =>
    rw [hskip] at hrun
    cases hrun
    exact (frames_prints _ _).follows
  | some line =>
    rw [hskip] at hrun
    dsimp only at hrun ⊢
    generalize hchosen : Process.mk _ _ _ _ _ = chosen at hrun
    have hframes : process.Frames chosen := by
      rw [← hchosen]
      exact (frames_prints process menu).trans ⟨rfl, rfl, rfl⟩
    have hoption : chosen.option = (scanf_int process.option line).1 := by
      rw [← hchosen]
    have hstdin : chosen.stdin = (scanf_int process.option line).2 := by
      rw [← hchosen]
      rfl
    have hnone (hframes' : chosen.Frames next) : process.Follows [] next :=
      (hframes.trans hframes').follows
    have hsome {call : GroupCall} (hfollows : chosen.Follows [call] next) :
        process.Follows [call] next := hframes.follows.append hfollows
    rw [← hoption, ← hstdin]
    cases chose_of_choose hrun with
    | send_msg hoption hrun =>
      rw [hoption]
      exact hnone (send_msg_frames hrun)
    | send_p2p hoption hrun =>
      rw [hoption]
      exact hnone (send_p2p_frames hrun)
    | create_group_multicast hoption hrun =>
      rw [hoption]
      exact hnone (create_group_multicast_frames hrun)
    | connect_multicast hoption hrun =>
      rw [hoption]
      exact hsome (connect_multicast_follows (hframes.globals ▸ hmenu) hrun)
    | send_multicast hoption hrun =>
      rw [hoption]
      exact hsome (send_multicast_follows hrun)
    | leave hoption hnext =>
      rw [hoption, hnext]
      exact hframes.follows.append (frames_prints _ _).follows
    | not_found hoption hnext =>
      simp only [List.mem_cons, List.not_mem_nil, or_false, not_or] at hoption
      obtain ⟨-, -, -, -, hconnect, hsend⟩ := hoption
      rw [if_neg hconnect, if_neg hsend, hnext]
      exact hframes.follows.append (frames_prints _ _).follows

theorem Follows.menu {calls : List GroupCall} (h : process.Follows calls next)
    (hmenu : process.globals.stage = .menu) : next.globals.stage = .menu := by
  obtain ⟨sent, hrun, -⟩ := h.run
  exact reaches_menu hmenu ⟨sent, hrun⟩

/-- The program at the terminal is, for its groups, the machine of the calls. -/
theorem options_follows {rounds : List Round} (hmenu : process.globals.stage = .menu)
    (hrun : process.options rounds = .ok (last, status)) :
    process.Follows (process.group_calls rounds) last := by
  induction rounds generalizing process with
  | nil =>
    cases hrun
    exact (Frames.refl _).follows
  | cons first rounds ih =>
    obtain ⟨⟨next, middle⟩, hround, hrun⟩ := Result.bind_eq_ok_iff.mp hrun
    have hfirst := round_follows hmenu hround
    rw [group_calls, hround]
    cases middle with
    | running => exact hfirst.append (ih (hfirst.menu hmenu) hrun)
    | waits | error | left =>
      cases hrun
      rw [List.append_nil]
      exact hfirst

end Functions

end Process

section Answers

variable {start last : server.Server} {connect : Connect} {group_name : CString GROUP_SIZE}
  {ip shown shown' : Bytes} {addr addr' : in_addr}

/-- The reply that a call of `connect_multicast` reads is the one that the server has sent for the
name that is typed, in front of a state that it has come to. -/
inductive Connect.ServedBefore (start last : server.Server) (connect : Connect) : Prop
  | intro (name behind typed : Bytes) (past later : List server.Event) (before after : server.Server)
    (sock : sockaddr_in) (locals : server.Locals) (outputs : List server.Output)
    (hname : TypedLine GROUP_SIZE name) (hbehind : 10 ∉ behind)
    (hstdin : connect.stdin = behind ++ 10 :: (name ++ 10 :: typed))
    (hpast : Reaches server.step start past before)
    (hstep : server.step before (.datagram sock (Call.connect_multicast
      ⟨name, hname.nul_not_mem, hname.length_lt⟩ connect.message).datagram locals) =
        .ok (after, outputs))
    (hlater : Reaches server.step after later last)
    (hreceived : outputs.filterMap (client.reply sock) = connect.received.toList) :
    connect.ServedBefore start last

/-- The groups that a client gets addresses of are those of the server. -/
def AnsweredBy (start last : server.Server) (calls : List GroupCall) : Prop :=
  ∀ connect, .connect connect ∈ calls →
    connect.answer = .ok none ∨ connect.ServedBefore start last

/-- The addresses of the pool are addresses, and no two of them are the same one. -/
theorem inet_pton_group (hip : ip ∈ server.groups) : ∃ addr, inet_pton ip = some addr := by
  have hall : ∀ ip ∈ server.groups, (inet_pton ip).isSome = true := by decide +kernel
  exact Option.isSome_iff_exists.mp (hall ip hip)

theorem inet_pton_group_injective {ip' : Bytes} (hip : ip ∈ server.groups)
    (hip' : ip' ∈ server.groups) (hsame : inet_pton ip = inet_pton ip') : ip = ip' := by
  have hall : ∀ ip ∈ server.groups, ∀ ip' ∈ server.groups, inet_pton ip = inet_pton ip' →
      ip = ip' := by
    decide +kernel
  exact hall ip hip ip' hip' hsame

theorem mem_groups_of_hasGroup {memory : server.Memory} {name : Bytes} (hvalid : memory.Valid)
    (hgroup : memory.HasGroup name ip) : ip ∈ server.groups := by
  obtain ⟨g, hg, -, rfl⟩ := hgroup
  have hpool : cstr (memory.group_blocks.contents g).ip.bytes ∈
      server.groups.take memory.current_group :=
    hvalid.groupsExact.pool.subset (List.mem_map_of_mem hg)
  exact (List.take_sublist _ _).subset hpool

theorem replied_ne_nil {command : server.ClientCommand} {replies : List Bytes}
    (h : Replied command replies) : replies ≠ [] := by
  cases h <;> exact List.cons_ne_nil _ _

/-- An answer has the address of the group of the server that is typed, up to its first white
space. -/
theorem Connect.ServedBefore.hasGroup (hvalid : start.memory.Valid)
    (h : connect.ServedBefore start last) (hanswer : connect.answer = .ok (some (group_name, ip))) :
    last.memory.Valid ∧ last.memory.HasGroup (nextWord (line group_name.bytes)) ip := by
  cases h with
  | intro name behind typed past later before after sock locals outputs hname hbehind hstdin hpast
      hstep hlater hreceived =>
    have hbefore := server.reaches_valid hvalid hpast
    have hafter := server.step_valid hbefore hstep
    have hserved := served_of_step hbefore hstep
    have hsome := replied_ne_nil (Call.replied hserved)
    obtain ⟨s, answer, rfl, hgroup⟩ := multicast_answer hserved
    have hreply : connect.received = some (format_message answer.text) := by
      by_cases hdest : (after.memory.sessions.contents s).sock = sock
      · rw [List.filterMap_cons, reply_send_udp_message hdest] at hreceived
        exact (Option.toList_eq_singleton_iff.mp hreceived.symm)
      · rw [List.filterMap_cons, udp_message_of_ne rfl (Ne.symm hdest)] at hsome
        exact absurd rfl hsome
    obtain ⟨left, received, hreceive, hstring, hbytes⟩ := receive_format_message
      ((Call.connect_multicast ⟨name, hname.nul_not_mem, hname.length_lt⟩ connect.message).array
        (BUFFER_SIZE + GROUP_SIZE + 1)) (by omega) answer.text
    rw [Connect.answer, hstdin, read_group_name_eq hname hbehind] at hanswer
    simp only [Result.ok_bind, Connect.reply_eq, hreply, hreceive, hstring, Result.pure_eq_ok,
      hbytes, scan_multicast_cstr] at hanswer
    obtain hrefusal | ⟨read, g, hg, hread, hnamed, rfl⟩ := hgroup
    · rw [scan_multicast_refusal hrefusal] at hanswer
      cases hanswer
    · rw [scan_multicast_address read (group_address_typedWord hafter hg)] at hanswer
      cases hanswer
      have hword := (Call.serverName_iff hname rfl).mp hread
      refine server.reaches_hasGroup hafter ⟨g, hg, ?_, rfl⟩ hlater
      rw [hnamed, cstr_eq_self hread.nul_not_mem, hword.2]

/-- Two groups have one address exactly if they have one name. -/
theorem hasGroup_address_iff {memory : server.Memory} {name name' ip' : Bytes}
    (hvalid : memory.Valid) (hgroup : memory.HasGroup name ip) (hgroup' : memory.HasGroup name' ip')
    (haddr : inet_pton ip = some addr) (haddr' : inet_pton ip' = some addr') :
    addr' = addr ↔ name' = name := by
  have hpool := mem_groups_of_hasGroup hvalid hgroup
  have hpool' := mem_groups_of_hasGroup hvalid hgroup'
  obtain ⟨g, hg, hname, hip⟩ := hgroup
  obtain ⟨g', hg', hname', hip'⟩ := hgroup'
  constructor
  · rintro rfl
    have hsame : ip' = ip := inet_pton_group_injective hpool' hpool (haddr'.trans haddr.symm)
    obtain rfl : g' = g := by
      apply List.inj_on_of_nodup_map hvalid.groupsExact.addresses hg' hg
      rw [hip, hip', hsame]
    exact hname'.symm.trans hname
  · rintro rfl
    obtain rfl : g' = g := hvalid.group_unique hg' hg (hname'.trans hname.symm)
    obtain rfl : ip' = ip := hip'.symm.trans hip
    exact Option.some.inj (haddr'.symm.trans haddr)

end Answers

section Readers

/-- A client that is a member of the group prints the whole text, or it reads over the end of its
array. -/
theorem read_multicast_eq {array string : Bytes} (harray : BUFFER_SIZE < array.length)
    (hnul : 0 ∉ string) (buffer : CharArray BUFFER_SIZE) :
    (string.length < BUFFER_SIZE → ∃ left,
      read_multicast buffer (some ((snprintf array string).take BUFFER_SIZE)) =
        .ok (some left, text "[Multicast] " ++ string ++ text "\n")) ∧
    (BUFFER_SIZE ≤ string.length →
      read_multicast buffer (some ((snprintf array string).take BUFFER_SIZE)) =
        .error .out_of_bounds) := by
  have hlength : ((snprintf array string).take BUFFER_SIZE).length = BUFFER_SIZE := by
    rw [List.length_take, length_snprintf (Nat.zero_lt_of_lt harray)]
    omega
  have hstring : cstr ((snprintf array string).take BUFFER_SIZE) =
      cstr (string.take BUFFER_SIZE) := cstr_take_snprintf harray
  generalize (snprintf array string).take BUFFER_SIZE = sent at *
  rw [cstr_eq_self (fun hmem => hnul (List.mem_of_mem_take hmem))] at hstring
  simp only [read_multicast, Option.getD_some, if_neg (received_ne_nil hlength),
    ofBytes_received hlength, CharArray.string]
  constructor
  · intro hfits
    have hmem : 0 ∈ sent := by
      by_contra hnone
      rw [cstr_eq_self hnone, List.take_of_length_le hfits.le] at hstring
      exact hfits.ne (hstring ▸ hlength)
    rw [List.take_of_length_le hfits.le] at hstring
    exact ⟨⟨sent, hlength⟩, by
      simp only [dif_pos hmem, hstring, Result.pure_eq_ok, Result.ok_bind]⟩
  · intro hlong
    have hnone : 0 ∉ sent := by
      intro hmem
      have hlt := length_cstr_lt hmem
      rw [hstring, List.length_take] at hlt
      omega
    rw [dif_neg hnone]
    rfl

end Readers

section Members

variable {start last : server.Server} {calls : List GroupCall} {client : Client}
  {username : CString USERNAME_SIZE} {connect : Connect} {shown : Bytes} {addr : in_addr}

/-- The groups that a client is a member of. It leaves none of them. -/
def joined (calls : List GroupCall) : List (Bytes × in_addr) := calls.filterMap GroupCall.obtains

theorem Connect.answer_of_obtains (h : connect.obtains = some (shown, addr)) :
    ∃ group_name ip, connect.answer = .ok (some (group_name, ip)) ∧ group_name.bytes = shown ∧
      inet_pton ip = some addr := by
  unfold Connect.obtains at h
  split at h
  · rename_i group_name ip hanswer
    split at h
    · cases h
    · obtain ⟨addr', haddr, hsame⟩ := Option.map_eq_some_iff.mp h
      cases hsame
      exact ⟨group_name, ip, hanswer, rfl, haddr⟩
  · cases h

theorem AnsweredBy.hasGroup (hvalid : start.memory.Valid) (h : AnsweredBy start last calls)
    (hmem : .connect connect ∈ calls) {group_name : CString GROUP_SIZE} {ip : Bytes}
    (hanswer : connect.answer = .ok (some (group_name, ip))) :
    last.memory.Valid ∧ last.memory.HasGroup (nextWord (line group_name.bytes)) ip := by
  obtain hnone | hserved := h connect hmem
  · rw [hnone] at hanswer
    cases hanswer
  · exact hserved.hasGroup hvalid hanswer

theorem AnsweredBy.joined_hasGroup (hvalid : start.memory.Valid) (h : AnsweredBy start last calls)
    (hjoined : (shown, addr) ∈ joined calls) :
    ∃ ip, last.memory.Valid ∧ last.memory.HasGroup (nextWord (line shown)) ip ∧
      inet_pton ip = some addr := by
  obtain ⟨call, hmem, hobtains⟩ := List.mem_filterMap.mp hjoined
  cases call with
  | connect connect =>
    obtain ⟨group_name, ip, hanswer, rfl, haddr⟩ := Connect.answer_of_obtains hobtains
    obtain ⟨hlast, hgroup⟩ := h.hasGroup hvalid hmem hanswer
    exact ⟨ip, hlast, hgroup, haddr⟩
  | send => cases hobtains

/-- What a client sends goes where the last address that it joined says, under the name that was
typed for it. Before, it goes nowhere. -/
structure Addressed (calls : List GroupCall) (client : Client) : Prop where
  outside : obtained calls = none →
    cstr client.current_group.bytes = [] ∧ client.multicast_addr = ⟨⟨0, 0, 0, 0⟩, 0⟩
  inside : ∀ shown addr, obtained calls = some (shown, addr) →
    cstr client.current_group.bytes = shown ∧
      client.multicast_addr = ⟨addr, htons MULTICAST_PORT⟩

/-- It holds however often `setsockopt` fails, as long as the replies have addresses. -/
theorem reaches_addressed {message_port : BitVec 32} (hanswers : ∀ connect, .connect connect ∈ calls →
      ∀ group_name ip, connect.answer = .ok (some (group_name, ip)) →
        ∃ addr, inet_pton ip = some addr)
    (hreach : Reaches (group_step username) (.authenticated message_port) calls client) :
    Addressed calls client := by
  have hpast : calls = calls ++ [] := (List.append_nil calls).symm
  refine Reaches.history_when Addressed (fun _ call => ∀ connect, call = .connect connect →
    ∀ group_name ip, connect.answer = .ok (some (group_name, ip)) → ∃ addr, inet_pton ip = some addr)
    ?_ ?_ ?_ hpast hreach
  · rintro past _ rest _ rfl - connect rfl
    exact hanswers connect (List.mem_append_right _ List.mem_cons_self)
  · have hempty : cstr (CharArray.ofBytes GROUP_SIZE []).bytes = [] := by decide
    exact ⟨fun _ => ⟨hempty, rfl⟩, by rintro _ _ ⟨⟩⟩
  · intro past client call next sent hreach haddressed hanswers hstep
    have hsame (hnone : call.obtains = none) (hgroup : next.current_group = client.current_group)
        (haddr : next.multicast_addr = client.multicast_addr) : Addressed (past ++ [call]) next := by
      constructor
      · rw [obtained_snoc_of_none hnone, hgroup, haddr]
        exact haddressed.outside
      · rw [obtained_snoc_of_none hnone, hgroup, haddr]
        exact haddressed.inside
    obtain ⟨connect, rfl, hconnected⟩ | ⟨hnone, rfl⟩ := group_step_cases (reaches_menu rfl hreach) hstep
    · cases hconnected with
      | unanswered hanswer => exact hsame (by rw [GroupCall.obtains, Connect.obtains, hanswer]) rfl rfl
      | refused group_name ip hanswer hset =>
        refine hsame ?_ rfl rfl
        rw [GroupCall.obtains, Connect.obtains_eq_of_answer hanswer, if_pos hset]
      | member group_name ip hanswer hset current_group hcopy =>
        obtain ⟨addr, haddr⟩ := hanswers connect rfl group_name ip hanswer
        have hobtains : GroupCall.obtains (.connect connect) = some (group_name.bytes, addr) := by
          rw [GroupCall.obtains, Connect.obtains_eq_of_answer hanswer, if_neg (not_lt.mpr hset), haddr]
          rfl
        constructor
        · rw [obtained_snoc_of_some hobtains]
          rintro ⟨⟩
        · rw [obtained_snoc_of_some hobtains]
          rintro _ _ ⟨⟩
          rw [cstr_of_strcpy hcopy, cstr_eq_self group_name.nul_not_mem, haddr]
          exact ⟨rfl, rfl⟩
    · exact hsame hnone rfl rfl

theorem Client.send_multicast_text {send : Send} {multicast : Multicast}
    (hsend : client.send_multicast username send = .ok (some multicast)) :
    ∃ message, 0 ∉ message ∧ multicast.sent = (snprintf send.send.bytes
      (multicast_text multicast.current_group username.bytes message)).take BUFFER_SIZE := by
  unfold Client.send_multicast at hsend
  split at hsend
  · cases hsend
  · obtain ⟨current_group, -, hsend⟩ := Result.bind_eq_ok_iff.mp hsend
    split at hsend
    · cases hsend
    · obtain ⟨_, -, hsend⟩ := Result.bind_eq_ok_iff.mp hsend
      obtain ⟨message, -, hsend⟩ := Result.bind_eq_ok_iff.mp hsend
      cases hsend
      exact ⟨message.bytes, message.nul_not_mem, rfl⟩

theorem nul_not_mem_multicast_text {current_group name message : Bytes} (hgroup : 0 ∉ current_group)
    (hname : 0 ∉ name) (hmessage : 0 ∉ message) :
    0 ∉ multicast_text current_group name message := by
  have hliterals : 0 ∉ text "[GROUP " ∧ 0 ∉ text "] " ∧ 0 ∉ text " : " := by decide
  simp [multicast_text, hliterals, hgroup, hname, hmessage]

/-- A round that sends to a group is a call of `send_multicast`. -/
theorem Process.round_sends {sender next : Process} {round : Round} {status : Status} {send : Bytes}
    {dest : sockaddr_in} (hmenu : sender.globals.stage = .menu)
    (hround : sender.round round = .ok (next, status))
    (hsent : next.multicasts = sender.multicasts ++ [(send, dest)]) :
    ∃ call multicast, sender.globals.send_multicast sender.username call = .ok (some multicast) ∧
      multicast.sent = send ∧ multicast.dest = dest ∧ BUFFER_SIZE < call.send.bytes.length := by
  obtain ⟨sent, hrun, hfollows⟩ := (Process.round_follows hmenu hround).run
  rw [hsent, List.append_cancel_left_eq] at hfollows
  cases hcall : sender.group_call round with
  | none =>
    rw [hcall, Option.toList_none, run_nil, Except.ok.injEq, Prod.mk.injEq] at hrun
    obtain ⟨-, rfl⟩ := hrun
    cases hfollows
  | some call =>
    rw [hcall, Option.toList_some, run_cons_eq_ok_iff] at hrun
    obtain ⟨globals, output, rest, hstep, hrest, rfl⟩ := hrun
    rw [run_nil, Except.ok.injEq, Prod.mk.injEq] at hrest
    obtain ⟨-, rfl⟩ := hrest
    cases call with
    | connect connect =>
      obtain ⟨_, -, hstep⟩ := Result.bind_eq_ok_iff.mp hstep
      cases hstep
      cases hfollows
    | send call =>
      obtain ⟨multicast, hsend, hstep⟩ := Result.bind_eq_ok_iff.mp hstep
      cases hstep
      cases output with
      | none => cases hfollows
      | some multicast =>
        simp only [List.filterMap_cons, id_eq, List.filterMap_nil, List.map_cons, List.map_nil,
          List.cons.injEq, Prod.mk.injEq, and_true] at hfollows
        refine ⟨call, multicast, hsend, hfollows.1.symm, hfollows.2.symm, ?_⟩
        rw [call.send.length_eq]
        decide

/-- A message to a group is sent to the members of this group. It is shown under the name that its
sender has typed at the last call of `connect_multicast` that succeeded, it goes to the address that
the server has for this name up to its first white space, and of all clients, whose replies come
from this server, those are members of it that have typed this name up to its first white space.
They print the whole text, or read over the end of their arrays. Where no call has succeeded, the
name is empty and the address is the one that the globals begin with. -/
theorem multicast_reaches_members {startup : server.Startup} {records : Bytes}
    {past : List server.Event} {process sender next : Process} {message_port : BitVec 32}
    {rounds : List Round} {round : Round} {status : Status} {send : Bytes} {dest : sockaddr_in}
    (hmain : server.main startup records = .ok start) (hreach : Reaches server.step start past last)
    (hfirst : process.globals = .authenticated message_port)
    (hrounds : process.options rounds = .ok (sender, .running))
    (hanswered : AnsweredBy start last (process.group_calls rounds))
    (hround : sender.round round = .ok (next, status))
    (hsent : next.multicasts = sender.multicasts ++ [(send, dest)]) :
    ∃ shown message, ((obtained (process.group_calls rounds) = none ∧ shown = [] ∧
          dest = ⟨⟨0, 0, 0, 0⟩, 0⟩) ∨
        obtained (process.group_calls rounds) = some (shown, dest.sin_addr) ∧
          dest.sin_port = htons MULTICAST_PORT ∧
          (∃ ip, last.memory.HasGroup (nextWord (line shown)) ip ∧
            inet_pton ip = some dest.sin_addr) ∧
          ∀ (member : Process) (others : List Round),
            AnsweredBy start last (member.group_calls others) →
              ((∃ name, (name, dest.sin_addr) ∈ joined (member.group_calls others)) ↔
                ∃ name addr, (name, addr) ∈ joined (member.group_calls others) ∧
                  nextWord (line name) = nextWord (line shown))) ∧
      ∀ buffer,
        ((multicast_text shown process.username.bytes message).length < BUFFER_SIZE →
          ∃ left, read_multicast buffer (some send) = .ok (some left, text "[Multicast] " ++
            multicast_text shown process.username.bytes message ++ text "\n")) ∧
        (BUFFER_SIZE ≤ (multicast_text shown process.username.bytes message).length →
          read_multicast buffer (some send) = .error .out_of_bounds) := by
  have hvalid := (server.started_of_main hmain).valid
  have hlast := server.reaches_valid hvalid hreach
  have hmenu : process.globals.stage = .menu := by rw [hfirst]; rfl
  have hfollows := Process.options_follows hmenu hrounds
  obtain ⟨outputs, hrun, -⟩ := hfollows.run
  rw [hfirst] at hrun
  have haddressed : Addressed (process.group_calls rounds) sender.globals := by
    refine reaches_addressed (fun connect hmem group_name ip hanswer => ?_) ⟨outputs, hrun⟩
    obtain ⟨hlast, hgroup⟩ := hanswered.hasGroup hvalid hmem hanswer
    exact inet_pton_group (mem_groups_of_hasGroup hlast hgroup)
  obtain ⟨call, multicast, hsend, rfl, rfl, harray⟩ :=
    Process.round_sends (hfollows.menu hmenu) hround hsent
  obtain ⟨-, hshown, hdest⟩ := Client.send_multicast_eq hsend
  obtain ⟨message, hmessage, htext⟩ := Client.send_multicast_text hsend
  refine ⟨multicast.current_group, message, ?_, fun buffer => ?_⟩
  · cases hobtained : obtained (process.group_calls rounds) with
    | none =>
      obtain ⟨hname, haddr⟩ := haddressed.outside hobtained
      exact Or.inl ⟨rfl, hshown.trans hname, hdest.trans haddr⟩
    | some group =>
      obtain ⟨shown, addr⟩ := group
      obtain ⟨hname, haddr⟩ := haddressed.inside shown addr hobtained
      rw [hdest, haddr, hshown, hname]
      have hmem : (shown, addr) ∈ joined (process.group_calls rounds) :=
        List.mem_of_getLast? hobtained
      obtain ⟨ip, -, hgroup, hip⟩ := hanswered.joined_hasGroup hvalid hmem
      refine Or.inr ⟨rfl, rfl, ⟨ip, hgroup, hip⟩, fun member others hothers => ?_⟩
      constructor
      · rintro ⟨name, hjoined⟩
        obtain ⟨ip', -, hgroup', hip'⟩ := hothers.joined_hasGroup hvalid hjoined
        exact ⟨name, addr, hjoined, (hasGroup_address_iff hlast hgroup hgroup' hip hip').mp rfl⟩
      · rintro ⟨name, addr', hjoined, hsame⟩
        obtain ⟨ip', -, hgroup', hip'⟩ := hothers.joined_hasGroup hvalid hjoined
        obtain rfl := (hasGroup_address_iff hlast hgroup hgroup' hip hip').mpr hsame
        exact ⟨name, hjoined⟩
  · rw [htext, hfollows.username]
    apply read_multicast_eq harray
    apply nul_not_mem_multicast_text _ process.username.nul_not_mem hmessage
    rw [hshown]
    exact not_mem_cstr _

/-- `ana` at her menu: she connects to the group `g`, and sends to it. -/
def anaProcess : Process where
  globals := .authenticated 5000
  username := ana
  option := 9
  stdin := text "\n4\ng\n5\nhi\n"
  done := []

def joinRound : Round := .blank (some (format_message
  (server.Answer.group_address (text "g") (text "239.0.0.1")).text))

def joinCall : Call := .connect_multicast ⟨text "g", by decide, by decide⟩ joinRound.connect

theorem anaProcess_calls : anaProcess.group_calls [joinRound] =
    [.connect (joinRound.connecting (text "\ng\n5\nhi\n"))] := by
  have hchooses : Chooses 9 (text "4\ng\n5\nhi\n") 4 (text "\ng\n5\nhi\n") :=
    @Chooses.number 9 [] _ 4 (by simp) (by decide) (not_isdigit_head rfl rfl)
  have hline : skip_line anaProcess.stdin = some (text "4\ng\n5\nhi\n") := by decide
  have hcall : anaProcess.group_call joinRound =
      some (.connect (joinRound.connecting (text "\ng\n5\nhi\n"))) := by
    have hoption : Process.scanf_int anaProcess.option (text "4\ng\n5\nhi\n") =
        (4, text "\ng\n5\nhi\n") := hchooses.scanf_int_eq
    rw [Process.group_call, hline]
    simp only [hoption, if_true]
  rw [Process.group_calls, hcall]
  split <;> rfl

theorem multicast_reaches_members_witness : ∃ start sender next send dest,
    server.main .blank [] = .ok start ∧
    anaProcess.options [joinRound] = .ok (sender, .running) ∧
    sender.round (.blank none) = .ok (next, .running) ∧
    next.multicasts = sender.multicasts ++ [(send, dest)] ∧
    ∃ name, (name, dest.sin_addr) ∈ joined (anaProcess.group_calls [joinRound]) := by
  let connect := joinRound.connecting (text "\ng\n5\nhi\n")
  have hname : TypedLine GROUP_SIZE (text "g") := ⟨by decide, by decide, by decide, by decide⟩
  have hview : server.observe .blank [] server.loginRun (fun before _ => do
      let created ← server.step before (.datagram anaSocket (text "CREATEMULTICAST g") .blank)
      let joined ← server.step created.1 (.datagram anaSocket joinCall.datagram .blank)
      return decide (joined.2.filterMap (reply anaSocket) = joinRound.received.toList)) =
        .ok (.ok true) := by
    decide +kernel
  have htyped : (do
      let joined ← anaProcess.options [joinRound]
      let sent ← joined.1.round (.blank none)
      return ((joined.2, sent.2), joined.1.multicasts, sent.1.multicasts.map Prod.snd)) =
        Except.ok ((.running, .running), [], [⟨⟨239, 0, 0, 1⟩, htons MULTICAST_PORT⟩]) := by
    decide +kernel
  obtain ⟨start, before, _, hmain, hreach, hview⟩ := server.exists_of_observe hview
  obtain ⟨⟨middle, _⟩, hcreate, hview⟩ := Result.bind_eq_ok_iff.mp hview
  obtain ⟨⟨last, outputs⟩, hstep, hview⟩ := Result.bind_eq_ok_iff.mp hview
  have hreceived : outputs.filterMap (reply anaSocket) = joinRound.received.toList := by
    simpa using hview
  have hpast : Reaches server.step start (server.loginRun ++
      [.datagram anaSocket (text "CREATEMULTICAST g") .blank]) middle := Reaches.snoc ⟨_, hreach⟩ hcreate
  obtain ⟨⟨sender, status⟩, hrounds, htyped⟩ := Result.bind_eq_ok_iff.mp htyped
  obtain ⟨⟨next, status'⟩, hround, htyped⟩ := Result.bind_eq_ok_iff.mp htyped
  simp only [Result.pure_eq_ok, Except.ok.injEq, Prod.mk.injEq] at htyped
  obtain ⟨⟨rfl, rfl⟩, hnone, hdest⟩ := htyped
  obtain ⟨⟨send, dest⟩, hsends, rfl⟩ := List.map_eq_singleton_iff.mp hdest
  have hsent : next.multicasts = sender.multicasts ++
      [(send, ⟨⟨239, 0, 0, 1⟩, htons MULTICAST_PORT⟩)] := by
    rw [hnone, hsends]
    rfl
  have hanswered : AnsweredBy start last (anaProcess.group_calls [joinRound]) := by
    rw [anaProcess_calls]
    intro connect' hmem
    obtain rfl : connect' = connect := by simpa using hmem
    exact Or.inr (.intro (text "g") [] (text "5\nhi\n") _ [] middle last anaSocket .blank outputs hname
      (by simp) rfl hpast hstep (Reaches.refl _ last) hreceived)
  obtain ⟨shown, message, hgroup, -⟩ := multicast_reaches_members hmain (hpast.snoc hstep) rfl hrounds
    hanswered hround hsent
  obtain ⟨-, -, ⟨⟩⟩ | ⟨hobtained, -, -, hmembers⟩ := hgroup
  exact ⟨start, sender, next, send, _, hmain, hrounds, hround, hsent,
    (hmembers anaProcess [joinRound] hanswered).mpr
      ⟨shown, _, List.mem_of_getLast? hobtained, rfl⟩⟩

end Members

end rc_project.client
