import RcProject.Client.Main
import RcProject.Server.Memory

open rc_project.c_string rc_project.scanf rc_project.transition
open rc_project.server (htons in_addr sockaddr_in)

namespace rc_project.client

/-- What a call of `connect_multicast` meets: its arrays, what is typed at its prompt, the
datagram that `recvfrom` delivers unless it fails, and the result of `setsockopt`. -/
structure Connect where
  group_name : CharArray GROUP_SIZE
  message : CharArray (BUFFER_SIZE + GROUP_SIZE + 1)
  stdin : Bytes
  received : Option Bytes
  outside : Outside

/-- What a call of `send_multicast` meets: its arrays and what is typed at its prompt. -/
structure Send where
  message : CharArray BUFFER_SIZE
  send : CharArray (BUFFER_SIZE + 100)
  stdin : Bytes

/-- What `send_multicast` shows at its prompt and sends. -/
structure Multicast where
  current_group : Bytes
  sent : Bytes
  dest : sockaddr_in

/-- The array `message` behind the `recvfrom` of `connect_multicast`, where it delivers
something. -/
def Connect.reply (connect : Connect) (call : Call) :
    Result (Option (CString (BUFFER_SIZE + GROUP_SIZE + 1))) := do
  let received := (connect.received.getD []).take BUFFER_SIZE
  if received = [] then
    return none
  else do
    let message := CharArray.ofBytes (BUFFER_SIZE + GROUP_SIZE + 1)
      (received ++ (snprintf call.buffer call.text).drop received.length)
    let message ← message.string
    return some message

namespace Client

/-- `connect_multicast`, from the menu and back to it. -/
def connect_multicast (client : Client) (connect : Connect) : Result Client := do
  match ← rc_project.client.connect_multicast connect.group_name connect.message
      connect.stdin with
  | none => return client
  | some (call, _) => do
    match ← connect.reply call with
    | none => return client
    | some message => do
      let (next, _) ← recvfrom { client with stage := .waiting call }
        (message.bytes, connect.outside)
      return next

def send_multicast (client : Client) (username : CString USERNAME_SIZE) (call : Send) :
    Result (Option Multicast) := do
  if client.multicast_ip = INVALID_GROUP then
    return none
  else do
    let current_group ← client.current_group.string
    match skip_line call.stdin with
    | none => return none
    | some stdin => do
      let (message, _) ← scanf_line call.message stdin
      let message ← message.string
      let send := snprintf call.send.bytes (text "[GROUP " ++ current_group.bytes ++ text "] " ++
        username.bytes ++ text " : " ++ message.bytes)
      return some {
        current_group := current_group.bytes
        sent := send.take BUFFER_SIZE
        dest := client.multicast_addr }

end Client

/-- The calls of the menu that are about groups. -/
inductive GroupCall
  | connect (connect : Connect)
  | send (send : Send)

/-- A client that has authenticated with a user name connects to groups and sends to them. -/
def group_step (username : CString USERNAME_SIZE) : Machine Client GroupCall (Option Multicast)
  | client, .connect connect => do
    let next ← client.connect_multicast connect
    return (next, none)
  | client, .send send => do
    let sent ← client.send_multicast username send
    return (client, sent)

section Connects

/-- The name that is typed and the text of the address in the reply, where there are both. -/
def Connect.answer (connect : Connect) : Result (Option (CString GROUP_SIZE × Bytes)) := do
  match ← read_group_name connect.group_name connect.stdin with
  | none => return none
  | some (group_name, _) => do
    match ← connect.reply (.connect_multicast group_name connect.message) with
    | none => return none
    | some message => do
      match ← scan_multicast message.bytes with
      | none => return none
      | some ip => return some (group_name, ip)

/-- What a call of `connect_multicast` leaves of the client. -/
inductive Connected (client : Client) (connect : Connect) : Client → Prop
  | unanswered (hanswer : connect.answer = .ok none) : Connected client connect client
  | refused (group_name : CString GROUP_SIZE) (ip : Bytes)
    (hanswer : connect.answer = .ok (some (group_name, ip)))
    (hsetsockopt : connect.outside.setsockopt < 0) :
    Connected client connect
      { client with multicast_ip := (inet_pton ip).getD client.multicast_ip }
  | member (group_name : CString GROUP_SIZE) (ip : Bytes)
    (hanswer : connect.answer = .ok (some (group_name, ip)))
    (hsetsockopt : 0 ≤ connect.outside.setsockopt) (current_group : CharArray GROUP_SIZE)
    (hcopy : strcpy client.current_group group_name.bytes = .ok current_group) :
    Connected client connect { client with
      multicast_ip := (inet_pton ip).getD client.multicast_ip
      current_group
      multicast_addr := ⟨(inet_pton ip).getD client.multicast_ip, htons MULTICAST_PORT⟩ }

variable {client next : Client} {connect : Connect}

/-- What the reply leaves, by the address that is found in it. -/
def Client.answered (client : Client) (setsockopt : Int) :
    Option (CString GROUP_SIZE × Bytes) → Result Client
  | none => return client
  | some (group_name, ip) =>
    let multicast_ip := (inet_pton ip).getD client.multicast_ip
    if setsockopt < 0 then return { client with multicast_ip }
    else do
      let current_group ← strcpy client.current_group group_name.bytes
      return { client with
        multicast_ip, current_group, multicast_addr := ⟨multicast_ip, htons MULTICAST_PORT⟩ }

theorem connect_multicast_answered (hmenu : client.stage = .menu) :
    client.connect_multicast connect =
      connect.answer >>= client.answered connect.outside.setsockopt := by
  obtain ⟨stage, message_port, multicast_ip, multicast_addr, current_group⟩ := client
  cases hmenu
  simp only [Client.connect_multicast, rc_project.client.connect_multicast, Connect.answer]
  cases read_group_name connect.group_name connect.stdin with
  | error e => rfl
  | ok typed =>
    cases typed with
    | none => rfl
    | some typed =>
      simp only [Result.ok_bind, Result.pure_eq_ok]
      cases connect.reply (.connect_multicast typed.1 connect.message) with
      | error e => rfl
      | ok reply =>
        cases reply with
        | none => rfl
        | some message =>
          simp only [Result.ok_bind, recvfrom]
          cases scan_multicast message.bytes with
          | error e => rfl
          | ok found =>
            cases found with
            | none => rfl
            | some ip =>
              simp only [Result.ok_bind, Result.pure_eq_ok, Client.answered]
              by_cases hset : connect.outside.setsockopt < 0
              · simp [hset]
              · simp only [hset, if_false]
                cases strcpy current_group typed.1.bytes <;> rfl

theorem connected_iff (hmenu : client.stage = .menu) :
    client.connect_multicast connect = .ok next ↔ Connected client connect next := by
  rw [connect_multicast_answered hmenu, Result.bind_eq_ok_iff]
  constructor
  · rintro ⟨answer, hanswer, hnext⟩
    cases answer with
    | none =>
      cases hnext
      exact .unanswered hanswer
    | some answer =>
      by_cases hset : connect.outside.setsockopt < 0
      · rw [Client.answered, if_pos hset] at hnext
        cases hnext
        exact .refused answer.1 answer.2 hanswer hset
      · rw [Client.answered, if_neg hset] at hnext
        obtain ⟨current_group, hcopy, hnext⟩ := Result.bind_eq_ok_iff.mp hnext
        cases hnext
        exact .member answer.1 answer.2 hanswer (not_lt.mp hset) current_group hcopy
  · intro hconnected
    cases hconnected with
    | unanswered hanswer => exact ⟨none, hanswer, rfl⟩
    | refused group_name ip hanswer hset =>
      refine ⟨some (group_name, ip), hanswer, ?_⟩
      rw [Client.answered, if_pos hset]
      rfl
    | member group_name ip hanswer hset current_group hcopy =>
      refine ⟨some (group_name, ip), hanswer, ?_⟩
      rw [Client.answered, if_neg (not_lt.mpr hset), hcopy]
      rfl

/-- An answered call always gets back to the menu. -/
theorem exists_connect_multicast (hmenu : client.stage = .menu)
    {answer : Option (CString GROUP_SIZE × Bytes)} (hanswer : connect.answer = .ok answer) :
    ∃ next, client.connect_multicast connect = .ok next := by
  simp only [connected_iff hmenu]
  cases answer with
  | none => exact ⟨client, .unanswered hanswer⟩
  | some answer =>
    by_cases hset : connect.outside.setsockopt < 0
    · exact ⟨_, .refused answer.1 answer.2 hanswer hset⟩
    · have hfits : (cstr answer.1.bytes).length < GROUP_SIZE := by
        rw [cstr_eq_self answer.1.nul_not_mem]
        exact answer.1.length_lt
      obtain ⟨current_group, hcopy⟩ := exists_strcpy client.current_group hfits
      exact ⟨_, .member answer.1 answer.2 hanswer (not_lt.mp hset) current_group hcopy⟩

end Connects

section Groups

/-- The name and the address of the group that a call obtains. It fails where it gets no
answer, or one without an address, or where `setsockopt` fails. -/
def Connect.obtains (connect : Connect) : Option (Bytes × in_addr) :=
  match connect.answer with
  | .ok (some (group_name, ip)) =>
    if connect.outside.setsockopt < 0 then none
    else (inet_pton ip).map fun addr => (group_name.bytes, addr)
  | _ => none

def GroupCall.obtains : GroupCall → Option (Bytes × in_addr)
  | .connect call => call.obtains
  | .send _ => none

/-- The group that the last call that did not fail has obtained. -/
def obtained (calls : List GroupCall) : Option (Bytes × in_addr) :=
  (calls.filterMap GroupCall.obtains).getLast?

/-- The three globals of a group are left exactly as they were. -/
structure SameGroup (client next : Client) : Prop where
  multicast_ip : next.multicast_ip = client.multicast_ip
  current_group : next.current_group = client.current_group
  multicast_addr : next.multicast_addr = client.multicast_addr

/-- The globals are those of the group that was obtained, and so is what is sent. -/
structure Coherent (username : CString USERNAME_SIZE) (calls : List GroupCall) (client : Client) :
    Prop where
  address : client.multicast_ip ≠ INVALID_GROUP →
    client.multicast_addr.sin_addr = client.multicast_ip
  name : client.multicast_ip ≠ INVALID_GROUP →
    obtained calls = some (cstr client.current_group.bytes, client.multicast_ip)
  sends : ∀ send multicast, client.send_multicast username send = .ok (some multicast) →
    obtained calls = some (multicast.current_group, multicast.dest.sin_addr)

/-- A call that fails changes a global: the address is another one and `setsockopt` fails, or
`setsockopt` succeeds for the old address because the reply has none. -/
inductive Client.Spoils (client : Client) (connect : Connect) : Prop
  | membership (group_name : CString GROUP_SIZE) (ip : Bytes) (addr : in_addr)
    (hanswer : connect.answer = .ok (some (group_name, ip)))
    (haddr : inet_pton ip = some addr) (hother : addr ≠ client.multicast_ip)
    (hsetsockopt : connect.outside.setsockopt < 0) : client.Spoils connect
  | address (group_name : CString GROUP_SIZE) (ip : Bytes)
    (hanswer : connect.answer = .ok (some (group_name, ip)))
    (haddr : inet_pton ip = none) (hsetsockopt : 0 ≤ connect.outside.setsockopt)
    (hother : cstr client.current_group.bytes ≠ group_name.bytes ∨
      client.multicast_addr ≠ ⟨client.multicast_ip, htons MULTICAST_PORT⟩) :
    client.Spoils connect

variable {client next : Client} {connect : Connect} {calls : List GroupCall}
  {username : CString USERNAME_SIZE}

theorem SameGroup.refl (client : Client) : SameGroup client client := ⟨rfl, rfl, rfl⟩

theorem obtained_snoc_of_none {call : GroupCall} (hnone : call.obtains = none) :
    obtained (calls ++ [call]) = obtained calls := by
  simp [obtained, List.filterMap_append, hnone]

theorem obtained_snoc_of_some {call : GroupCall} {group : Bytes × in_addr}
    (hsome : call.obtains = some group) : obtained (calls ++ [call]) = some group := by
  simp [obtained, List.filterMap_append, hsome]

theorem Connect.obtains_eq_of_answer {group_name : CString GROUP_SIZE} {ip : Bytes}
    (hanswer : connect.answer = .ok (some (group_name, ip))) :
    connect.obtains = if connect.outside.setsockopt < 0 then none
      else (inet_pton ip).map fun addr => (group_name.bytes, addr) := by
  rw [Connect.obtains, hanswer]

/-- What is sent is shown under the name of the group and goes to its address. -/
theorem Client.send_multicast_eq {send : Send} {multicast : Multicast}
    (hsend : client.send_multicast username send = .ok (some multicast)) :
    client.multicast_ip ≠ INVALID_GROUP ∧
      multicast.current_group = cstr client.current_group.bytes ∧
      multicast.dest = client.multicast_addr := by
  unfold Client.send_multicast at hsend
  by_cases hinvalid : client.multicast_ip = INVALID_GROUP
  · rw [if_pos hinvalid] at hsend
    cases hsend
  · rw [if_neg hinvalid] at hsend
    obtain ⟨current_group, hstring, hsend⟩ := Result.bind_eq_ok_iff.mp hsend
    refine ⟨hinvalid, ?_⟩
    split at hsend
    · cases hsend
    · obtain ⟨_, -, hsend⟩ := Result.bind_eq_ok_iff.mp hsend
      obtain ⟨_, -, hsend⟩ := Result.bind_eq_ok_iff.mp hsend
      cases hsend
      exact ⟨CharArray.bytes_of_string hstring, rfl⟩

/-- Globals that fit the group that was obtained make every message go to it. -/
theorem Coherent.of_globals
    (haddress : client.multicast_ip ≠ INVALID_GROUP →
      client.multicast_addr.sin_addr = client.multicast_ip)
    (hname : client.multicast_ip ≠ INVALID_GROUP →
      obtained calls = some (cstr client.current_group.bytes, client.multicast_ip)) :
    Coherent username calls client where
  address := haddress
  name := hname
  sends send multicast hsend := by
    obtain ⟨hvalid, hshown, hdest⟩ := Client.send_multicast_eq hsend
    rw [hname hvalid, hshown, hdest, haddress hvalid]

/-- What fails and changes nothing leaves the group as it was obtained. -/
theorem Coherent.of_sameGroup (h : Coherent username calls client) (hsame : SameGroup client next)
    {call : GroupCall} (hnone : call.obtains = none) :
    Coherent username (calls ++ [call]) next := by
  apply Coherent.of_globals
  · rw [hsame.multicast_ip, hsame.multicast_addr]
    exact h.address
  · rw [hsame.multicast_ip, hsame.current_group, obtained_snoc_of_none hnone]
    exact h.name

/-- A call obtains the group of its answer, or it fails. It then leaves the globals as they
were, unless it spoils them. -/
theorem Connected.obtains_or_sameGroup (h : Connected client connect next)
    (hclean : ¬ client.Spoils connect) :
    (connect.obtains = none ∧ SameGroup client next) ∨
      connect.obtains = some (cstr next.current_group.bytes, next.multicast_ip) ∧
        next.multicast_addr.sin_addr = next.multicast_ip := by
  cases h with
  | unanswered hanswer => exact Or.inl ⟨by rw [Connect.obtains, hanswer], SameGroup.refl client⟩
  | refused group_name ip hanswer hset =>
    refine Or.inl ⟨by rw [Connect.obtains_eq_of_answer hanswer, if_pos hset], ?_, rfl, rfl⟩
    cases haddr : inet_pton ip with
    | none => rfl
    | some addr =>
      by_contra hother
      exact hclean (.membership group_name ip addr hanswer haddr hother hset)
  | member group_name ip hanswer hset current_group hcopy =>
    have hobtains := Connect.obtains_eq_of_answer hanswer
    rw [if_neg (not_lt.mpr hset)] at hobtains
    cases haddr : inet_pton ip with
    | none =>
      rw [haddr] at hobtains
      have hkept : cstr client.current_group.bytes = group_name.bytes ∧
          client.multicast_addr = ⟨client.multicast_ip, htons MULTICAST_PORT⟩ := by
        by_contra hother
        rw [not_and_or] at hother
        exact hclean (.address group_name ip hanswer haddr hset hother)
      have hname := cstr_eq_self group_name.nul_not_mem
      have hself : strcpy client.current_group group_name.bytes = .ok client.current_group := by
        apply strcpy_self
        · rw [hname, hkept.1]
        · rw [hname]
          exact group_name.length_lt
      rw [hself, Except.ok.injEq] at hcopy
      exact Or.inl ⟨hobtains, rfl, hcopy.symm, hkept.2.symm⟩
    | some addr =>
      rw [haddr] at hobtains
      refine Or.inr ⟨?_, rfl⟩
      rw [hobtains, cstr_of_strcpy hcopy, cstr_eq_self group_name.nul_not_mem]
      rfl

/-- A call that spoils the globals fails, and does not leave them as they were. -/
theorem Connected.spoiled (h : Connected client connect next) (hspoils : client.Spoils connect) :
    connect.obtains = none ∧ ¬ SameGroup client next := by
  cases hspoils with
  | membership group_name ip addr hanswer haddr hother hset =>
    refine ⟨by rw [Connect.obtains_eq_of_answer hanswer, if_pos hset], ?_⟩
    intro hsame
    cases h with
    | unanswered hanswer' => cases hanswer.symm.trans hanswer'
    | refused _ _ hanswer' =>
      cases hanswer.symm.trans hanswer'
      have hip := hsame.multicast_ip
      rw [haddr] at hip
      exact hother hip
    | member _ _ _ hset' => omega
  | address group_name ip hanswer haddr hset hother =>
    refine ⟨by rw [Connect.obtains_eq_of_answer hanswer, if_neg (not_lt.mpr hset), haddr]; rfl, ?_⟩
    intro hsame
    cases h with
    | unanswered hanswer' => cases hanswer.symm.trans hanswer'
    | refused _ _ _ hset' => omega
    | member _ _ hanswer' _ current_group hcopy =>
      cases hanswer.symm.trans hanswer'
      obtain hname | haddress := hother
      · apply hname
        rw [← hsame.current_group, cstr_of_strcpy hcopy, cstr_eq_self group_name.nul_not_mem]
      · apply haddress
        have haddr' := hsame.multicast_addr
        rw [haddr] at haddr'
        exact haddr'.symm

theorem Client.Spoils.exists_answer (h : client.Spoils connect) :
    ∃ answer, connect.answer = .ok answer := by
  cases h with
  | membership _ _ _ hanswer => exact ⟨_, hanswer⟩
  | address _ _ hanswer => exact ⟨_, hanswer⟩

theorem Connected.menu (h : Connected client connect next) (hmenu : client.stage = .menu) :
    next.stage = .menu := by
  cases h <;> exact hmenu

end Groups

section Runs

/-- A client at its first menu. -/
def Client.authenticated (message_port : BitVec 32) : Client :=
  { Client.initial with stage := .menu, message_port }

variable {username : CString USERNAME_SIZE} {start client next : Client} {connect : Connect}
  {call : GroupCall} {calls : List GroupCall} {sent : Option Multicast}

/-- A call connects the client, or it sends and leaves it as it is. -/
theorem group_step_cases (hmenu : client.stage = .menu)
    (hstep : group_step username client call = .ok (next, sent)) :
    (∃ connect, call = .connect connect ∧ Connected client connect next) ∨
      call.obtains = none ∧ next = client := by
  cases call with
  | connect connect =>
    obtain ⟨last, hconnect, hstep⟩ := Result.bind_eq_ok_iff.mp hstep
    cases hstep
    exact Or.inl ⟨connect, rfl, (connected_iff hmenu).mp hconnect⟩
  | send send =>
    obtain ⟨multicast, -, hstep⟩ := Result.bind_eq_ok_iff.mp hstep
    cases hstep
    exact Or.inr ⟨rfl, rfl⟩

/-- The calls begin and end in the menu. -/
theorem reaches_menu (hmenu : start.stage = .menu)
    (hreach : Reaches (group_step username) start calls client) : client.stage = .menu := by
  refine hreach.invariant (fun client => client.stage = .menu) hmenu ?_
  intro client call next sent hmenu hstep
  obtain ⟨connect, -, hconnected⟩ | ⟨-, rfl⟩ := group_step_cases hmenu hstep
  · exact hconnected.menu hmenu
  · exact hmenu

/-- What one call does to the globals, if it does not spoil them. -/
theorem group_step_clean (hmenu : client.stage = .menu)
    (hclean : ∀ connect, call = .connect connect → ¬ client.Spoils connect)
    (hstep : group_step username client call = .ok (next, sent)) :
    (call.obtains = none ∧ SameGroup client next) ∨
      call.obtains = some (cstr next.current_group.bytes, next.multicast_ip) ∧
        next.multicast_addr.sin_addr = next.multicast_ip := by
  obtain ⟨connect, rfl, hconnected⟩ | ⟨hnone, rfl⟩ := group_step_cases hmenu hstep
  · exact hconnected.obtains_or_sameGroup (hclean connect rfl)
  · exact Or.inl ⟨hnone, SameGroup.refl _⟩

/-- In a run of calls none of which spoils the globals, they are those of the group that was
obtained last. -/
theorem reaches_coherent {message_port : BitVec 32}
    (hclean : ∀ past connect rest client, calls = past ++ .connect connect :: rest →
      Reaches (group_step username) (.authenticated message_port) past client →
        ¬ client.Spoils connect)
    {past rest : List GroupCall} (hpast : calls = past ++ rest)
    (hreach : Reaches (group_step username) (.authenticated message_port) past client) :
    Coherent username past client := by
  refine Reaches.history_when (Coherent username) (fun client call =>
    ∀ connect, call = .connect connect → ¬ client.Spoils connect) ?_ ?_ ?_ hpast hreach
  · rintro past _ rest state hpast hreach connect rfl
    exact hclean past connect rest state hpast hreach
  · exact Coherent.of_globals (fun hvalid => absurd rfl hvalid) (fun hvalid => absurd rfl hvalid)
  · intro past state call next sent hreach hcoherent hclean hstep
    obtain ⟨hnone, hsame⟩ | ⟨hsome, haddress⟩ :=
      group_step_clean (reaches_menu rfl hreach) hclean hstep
    · exact hcoherent.of_sameGroup hsame hnone
    · exact Coherent.of_globals (fun _ => haddress) (fun _ => obtained_snoc_of_some hsome)

/-- In every run of calls, a call that fails leaves the three globals as they were, and they
are those of the group that was obtained last, if and only if no reply has the address of
another group while `setsockopt` fails, and none has no address while `setsockopt` succeeds,
unless it is for the name that is shown already. -/
theorem group_state_iff {message_port : BitVec 32} :
    ((∀ past call rest client next sent, calls = past ++ call :: rest →
        Reaches (group_step username) (.authenticated message_port) past client →
        group_step username client call = .ok (next, sent) →
          call.obtains = none → SameGroup client next) ∧
      ∀ past rest client, calls = past ++ rest →
        Reaches (group_step username) (.authenticated message_port) past client →
          Coherent username past client) ↔
    ∀ past connect rest client, calls = past ++ .connect connect :: rest →
      Reaches (group_step username) (.authenticated message_port) past client →
        ¬ client.Spoils connect := by
  constructor
  · rintro ⟨hkept, -⟩ past connect rest client hpast hreach hspoils
    have hmenu := reaches_menu rfl hreach
    obtain ⟨answer, hanswer⟩ := hspoils.exists_answer
    obtain ⟨next, hconnect⟩ := exists_connect_multicast hmenu hanswer
    have hstep : group_step username client (.connect connect) = .ok (next, none) := by
      rw [group_step, hconnect]
      rfl
    obtain ⟨hnone, hchanged⟩ := ((connected_iff hmenu).mp hconnect).spoiled hspoils
    exact hchanged (hkept past _ rest client next none hpast hreach hstep hnone)
  · intro hclean
    refine ⟨?_, fun past rest client hpast => reaches_coherent hclean hpast⟩
    intro past call rest client next sent hpast hreach hstep hnone
    have hstep' := group_step_clean (reaches_menu rfl hreach) (fun connect hcall =>
      hclean past connect rest client (hcall ▸ hpast) hreach) hstep
    obtain ⟨-, hsame⟩ | ⟨hsome, -⟩ := hstep'
    · exact hsame
    · cases hnone.symm.trans hsome

/-- A name is typed, and the server answers it with an address. -/
def connectTo (name ip : String) (setsockopt : Int) : GroupCall :=
  .connect {
    group_name := .ofBytes _ []
    message := .ofBytes _ []
    stdin := text "\n" ++ text name ++ text "\n"
    received := some (server.format_message
      (server.Answer.group_address (text name) (text ip)).text)
    outside := { setsockopt, message := .ofBytes _ [] } }

/-- The client is in two groups, and its system refuses to join the first one again. The name
and the address to send to are still those of the second one, and `multicast_ip` is not. -/
theorem joined_again : ∃ username client next,
    Reaches (group_step username) (.authenticated 5000)
      [connectTo "g" "239.0.0.1" 0, connectTo "h" "239.0.0.2" 0] client ∧
    group_step username client (connectTo "g" "239.0.0.1" (-1)) = .ok (next, none) ∧
    (connectTo "g" "239.0.0.1" (-1)).obtains = none ∧ ¬ SameGroup client next ∧
    next.multicast_ip ≠ INVALID_GROUP ∧ next.multicast_addr.sin_addr ≠ next.multicast_ip := by
  let username : CString USERNAME_SIZE := ⟨text "ana", by decide, by decide⟩
  have hview : (do
      let joined ← run (group_step username) (.authenticated 5000)
        [connectTo "g" "239.0.0.1" 0, connectTo "h" "239.0.0.2" 0]
      let again ← group_step username joined.1 (connectTo "g" "239.0.0.1" (-1))
      return ((joined.1.multicast_ip, again.1.multicast_ip), again.1.multicast_addr.sin_addr,
        again.2.isSome)) =
        Except.ok ((⟨239, 0, 0, 2⟩, ⟨239, 0, 0, 1⟩), ⟨239, 0, 0, 2⟩, false) := by
    decide +kernel
  obtain ⟨⟨client, sent⟩, hrun, hview⟩ := Result.bind_eq_ok_iff.mp hview
  obtain ⟨⟨next, multicast⟩, hstep, hview⟩ := Result.bind_eq_ok_iff.mp hview
  simp only [Result.pure_eq_ok, Except.ok.injEq, Prod.mk.injEq, Option.isSome_eq_false_iff,
    Option.isNone_iff_eq_none] at hview
  obtain ⟨⟨hip, hip'⟩, haddress, rfl⟩ := hview
  refine ⟨username, client, next, ⟨sent, hrun⟩, hstep, by decide +kernel, ?_, ?_, ?_⟩
  · intro hsame
    have hkept := hsame.multicast_ip
    rw [hip, hip'] at hkept
    exact absurd hkept (by decide)
  · rw [hip']
    decide
  · rw [haddress, hip']
    decide

end Runs

end rc_project.client
