import RcProject.Client.Script

open rc_project.c_string rc_project.scanf
open rc_project.server (Answer format_message)

namespace rc_project.client

/-- What a function of the menu may do: the input is consumed from its front, and every datagram
that is sent costs a line end of it, but for some that are free. -/
structure Process.Spends (process next : Process) (free : Nat) : Prop where
  option : next.option = process.option
  stdin : next.stdin <:+ process.stdin
  sent : next.sent.length + next.stdin.count 10 ≤
    process.sent.length + process.stdin.count 10 + free

/-- Where the functions of the menu lead. Only a reply that does not arrive is an error. -/
inductive Round.Leads (round : Round) : Status → Prop
  | running : round.Leads .running
  | waits : round.Leads .waits
  | error (hreceived : round.received.getD [] = []) : round.Leads .error

theorem receive_eq_none {size : Nat} {array : CharArray size} {received : Option Bytes}
    (hreceive : receive array received = .ok none) : received.getD [] = [] := by
  unfold receive at hreceive
  dsimp only at hreceive
  split at hreceive
  · rename_i hempty
    exact (List.take_eq_nil_iff.mp hempty).resolve_left (by decide)
  · split at hreceive <;> cases hreceive

namespace Process

variable {process next : Process} {round : Round} {status : Status} {free : Nat}

/-- What a choice in the menu leads to. -/
inductive Chose (process : Process) (round : Round) (next : Process) (status : Status) : Prop
  | send_msg (hoption : process.option = 1) (hrun : process.send_msg round = .ok (next, status)) :
    Chose process round next status
  | send_p2p (hoption : process.option = 2) (hrun : process.send_p2p round = .ok (next, status)) :
    Chose process round next status
  | create_group_multicast (hoption : process.option = 3)
    (hrun : process.create_group_multicast round = .ok (next, status)) :
    Chose process round next status
  | connect_multicast (hoption : process.option = 4)
    (hrun : process.connect_multicast round = .ok (next, status)) :
    Chose process round next status
  | send_multicast (hoption : process.option = 5)
    (hrun : process.send_multicast round = .ok (next, status)) :
    Chose process round next status
  | leave (hoption : process.option = 0) (hnext : next = process.prints "Leaving\n")
    (hstatus : status = .left) : Chose process round next status
  | not_found (hoption : process.option ∉ ([0, 1, 2, 3, 4, 5] : List (BitVec 32)))
    (hnext : next = process.prints "Option not found\n") (hstatus : status = .running) :
    Chose process round next status

theorem chose_of_choose (hrun : process.choose round = .ok (next, status)) :
    process.Chose round next status := by
  unfold choose at hrun
  split at hrun
  · exact .send_msg ‹_› hrun
  split at hrun
  · exact .send_p2p ‹_› hrun
  split at hrun
  · exact .create_group_multicast ‹_› hrun
  split at hrun
  · exact .connect_multicast ‹_› hrun
  split at hrun
  · exact .send_multicast ‹_› hrun
  rename_i hmsg hp2p hcreate hconnect hsend
  split at hrun <;> cases hrun
  · exact .leave ‹_› rfl rfl
  · rename_i hleave
    refine .not_found ?_ rfl rfl
    simp only [List.mem_cons, List.not_mem_nil, or_false, not_or]
    exact ⟨hleave, hmsg, hp2p, hcreate, hconnect, hsend⟩

theorem read_group_name_count {size : Nat} {group_name : CharArray size} {name : CString size}
    {stdin rest : Bytes} (hread : read_group_name group_name stdin = .ok (some (name, rest))) :
    rest <:+ stdin ∧ rest.count 10 + 1 ≤ stdin.count 10 := by
  unfold read_group_name at hread
  split at hread
  · cases hread
  · rename_i line hskip
    obtain ⟨⟨array, rest'⟩, hscan, hread⟩ := Result.bind_eq_ok_iff.mp hread
    obtain ⟨string, -, hread⟩ := Result.bind_eq_ok_iff.mp hread
    cases hread
    have hrest := scanf_line_suffix hscan
    have hcount := hrest.sublist.count_le 10
    have hskipped := count_skip_line hskip
    exact ⟨hrest.trans ((List.suffix_cons 10 line).trans (skip_line_suffix hskip)), by omega⟩

theorem send_msg_spends (hrun : process.send_msg round = .ok (next, status)) :
    process.Spends next 0 ∧ round.Leads status := by
  obtain ⟨⟨username, stdin⟩, hscan, hrun⟩ := Result.bind_eq_ok_iff.mp hrun
  obtain ⟨name, -, hrun⟩ := Result.bind_eq_ok_iff.mp hrun
  have hstdin := scanf_word_suffix hscan
  split at hrun
  · cases hrun
    exact ⟨⟨rfl, List.suffix_refl _, by simp⟩, .waits⟩
  · rename_i line hskip
    obtain ⟨⟨message, rest⟩, hline, hrun⟩ := Result.bind_eq_ok_iff.mp hrun
    obtain ⟨string, -, hrun⟩ := Result.bind_eq_ok_iff.mp hrun
    have hrest := scanf_line_suffix hline
    have hsuffix : rest <:+ process.stdin :=
      hrest.trans (((List.suffix_cons 10 line).trans (skip_line_suffix hskip)).trans hstdin)
    have hcount : rest.count 10 + 1 ≤ process.stdin.count 10 := by
      have := hrest.sublist.count_le 10
      have := count_skip_line hskip
      have := hstdin.sublist.count_le 10
      simp only [prints_stdin] at *
      omega
    have hspends : (process.sent.length + 1) + rest.count 10 ≤
        process.sent.length + process.stdin.count 10 + 0 := by omega
    obtain ⟨received, hreceive, hrun⟩ := Result.bind_eq_ok_iff.mp hrun
    cases received with
    | none =>
      cases hrun
      exact ⟨⟨rfl, hsuffix, by simpa [List.filterMap_cons] using hspends⟩,
        .error (receive_eq_none hreceive)⟩
    | some message =>
      obtain ⟨shown, -, hrun⟩ := Result.bind_eq_ok_iff.mp hrun
      cases hrun
      exact ⟨⟨rfl, hsuffix, by simpa [List.filterMap_cons] using hspends⟩, .running⟩

theorem send_p2p_spends (hrun : process.send_p2p round = .ok (next, status)) :
    process.Spends next 1 ∧ round.Leads status := by
  obtain ⟨⟨call, stdin⟩, hprompt, hrun⟩ := Result.bind_eq_ok_iff.mp hrun
  obtain ⟨received, -, hrun⟩ := Result.bind_eq_ok_iff.mp hrun
  obtain ⟨response, -, hrun⟩ := Result.bind_eq_ok_iff.mp hrun
  obtain ⟨found, -, hrun⟩ := Result.bind_eq_ok_iff.mp hrun
  have hstdin : stdin <:+ process.stdin := by
    obtain ⟨⟨username, rest⟩, hscan, hprompt⟩ := Result.bind_eq_ok_iff.mp hprompt
    obtain ⟨string, -, hprompt⟩ := Result.bind_eq_ok_iff.mp hprompt
    cases hprompt
    exact scanf_word_suffix hscan
  have hcount := hstdin.sublist.count_le 10
  dsimp only at hrun
  generalize hasked : ite (received = none) _ _ = asked at hrun
  have hfields : asked.option = process.option ∧ asked.stdin = stdin ∧
      asked.sent.length = process.sent.length + 1 := by
    rw [← hasked]
    split <;> simp
  obtain ⟨hoption, hasked, hsent⟩ := hfields
  have hspends : process.sent.length + 1 + stdin.count 10 ≤
      process.sent.length + process.stdin.count 10 + 1 := by omega
  cases found with
  | none =>
    cases hrun
    exact ⟨⟨hoption, hasked ▸ hstdin, by simpa [hasked, hsent] using hspends⟩, .running⟩
  | some found =>
    obtain ⟨name, ip, port⟩ := found
    dsimp only at hrun
    split at hrun
    · cases hrun
      exact ⟨⟨hoption, hasked ▸ hstdin, by simpa [hasked, hsent] using hspends⟩, .waits⟩
    · rename_i line hskip
      obtain ⟨⟨message, rest⟩, hline, hrun⟩ := Result.bind_eq_ok_iff.mp hrun
      cases hrun
      have hrest := scanf_line_suffix hline
      have hsuffix : rest <:+ stdin :=
        hrest.trans ((List.suffix_cons 10 line).trans (hasked ▸ skip_line_suffix hskip))
      have hleft : rest.count 10 + 1 ≤ stdin.count 10 :=
        (Nat.succ_le_succ (hrest.sublist.count_le 10)).trans (hasked ▸ count_skip_line hskip)
      refine ⟨⟨hoption, hsuffix.trans hstdin, ?_⟩, .running⟩
      simp [List.filterMap_cons, hsent]
      omega

theorem create_group_multicast_spends
    (hrun : process.create_group_multicast round = .ok (next, status)) :
    process.Spends next 0 ∧ round.Leads status := by
  obtain ⟨typed, hread, hrun⟩ := Result.bind_eq_ok_iff.mp hrun
  cases typed with
  | none =>
    cases hrun
    exact ⟨⟨rfl, List.suffix_refl _, by simp⟩, .waits⟩
  | some typed =>
    obtain ⟨group_name, stdin⟩ := typed
    obtain ⟨hstdin, hcount⟩ := read_group_name_count hread
    have hspends : process.sent.length + 1 + stdin.count 10 ≤
        process.sent.length + process.stdin.count 10 := by
      rw [prints_stdin] at hcount
      omega
    obtain ⟨received, -, hrun⟩ := Result.bind_eq_ok_iff.mp hrun
    cases received with
    | none =>
      cases hrun
      exact ⟨⟨rfl, hstdin, by simpa using hspends⟩, .running⟩
    | some message =>
      obtain ⟨shown, -, hrun⟩ := Result.bind_eq_ok_iff.mp hrun
      cases hrun
      exact ⟨⟨rfl, hstdin, by simpa [List.filterMap_cons] using hspends⟩, .running⟩

theorem connect_multicast_spends (hrun : process.connect_multicast round = .ok (next, status)) :
    process.Spends next 0 ∧ round.Leads status := by
  obtain ⟨typed, hread, hrun⟩ := Result.bind_eq_ok_iff.mp hrun
  cases typed with
  | none =>
    cases hrun
    exact ⟨⟨rfl, List.suffix_refl _, by simp⟩, .waits⟩
  | some typed =>
    obtain ⟨group_name, stdin⟩ := typed
    obtain ⟨hstdin, hcount⟩ := read_group_name_count hread
    have hspends : process.sent.length + 1 + stdin.count 10 ≤
        process.sent.length + process.stdin.count 10 := by
      rw [prints_stdin] at hcount
      omega
    obtain ⟨received, -, hrun⟩ := Result.bind_eq_ok_iff.mp hrun
    cases received with
    | none =>
      cases hrun
      exact ⟨⟨rfl, hstdin, by simpa using hspends⟩, .running⟩
    | some message =>
      obtain ⟨shown, -, hrun⟩ := Result.bind_eq_ok_iff.mp hrun
      split at hrun
      · obtain ⟨found, -, hrun⟩ := Result.bind_eq_ok_iff.mp hrun
        cases found with
        | none =>
          cases hrun
          exact ⟨⟨rfl, hstdin, by simpa using hspends⟩, .running⟩
        | some ip =>
          obtain ⟨globals, -, hrun⟩ := Result.bind_eq_ok_iff.mp hrun
          dsimp only at hrun
          split at hrun
          · cases hrun
            exact ⟨⟨rfl, hstdin, by simpa using hspends⟩, .running⟩
          · cases hrun
            exact ⟨⟨rfl, hstdin, by simpa [List.filterMap_cons] using hspends⟩, .running⟩
      · cases hrun
        exact ⟨⟨rfl, hstdin, by simpa [List.filterMap_cons] using hspends⟩, .running⟩

theorem send_multicast_spends (hrun : process.send_multicast round = .ok (next, status)) :
    process.Spends next 0 ∧ round.Leads status := by
  unfold send_multicast at hrun
  split at hrun
  · cases hrun
    exact ⟨⟨rfl, List.suffix_refl _, by simp⟩, .running⟩
  · obtain ⟨current_group, -, hrun⟩ := Result.bind_eq_ok_iff.mp hrun
    dsimp only at hrun
    split at hrun
    · cases hrun
      exact ⟨⟨rfl, List.suffix_refl _, by simp [List.filterMap_cons]⟩, .waits⟩
    · rename_i line hskip
      obtain ⟨⟨message, rest⟩, hline, hrun⟩ := Result.bind_eq_ok_iff.mp hrun
      obtain ⟨string, -, hrun⟩ := Result.bind_eq_ok_iff.mp hrun
      cases hrun
      have hrest := scanf_line_suffix hline
      have hleft : rest.count 10 + 1 ≤ process.stdin.count 10 :=
        (Nat.succ_le_succ (hrest.sublist.count_le 10)).trans (count_skip_line hskip)
      refine ⟨⟨rfl, hrest.trans ((List.suffix_cons 10 line).trans (skip_line_suffix hskip)), ?_⟩,
        .running⟩
      simp [List.filterMap_cons]
      omega

/-- Only the option 0 leaves the menu. -/
theorem choose_spends (hrun : process.choose round = .ok (next, status)) :
    process.Spends next 1 ∧ (status = .left ∧ process.option = 0 ∨ round.Leads status) := by
  have hnever {free : Nat} (hle : free ≤ 1) (h : process.Spends next free ∧ round.Leads status) :
      process.Spends next 1 ∧ (status = .left ∧ process.option = 0 ∨ round.Leads status) :=
    ⟨⟨h.1.option, h.1.stdin, h.1.sent.trans (Nat.add_le_add_left hle _)⟩, Or.inr h.2⟩
  cases chose_of_choose hrun with
  | send_msg _ hrun => exact hnever (by decide) (send_msg_spends hrun)
  | send_p2p _ hrun => exact hnever le_rfl (send_p2p_spends hrun)
  | create_group_multicast _ hrun => exact hnever (by decide) (create_group_multicast_spends hrun)
  | connect_multicast _ hrun => exact hnever (by decide) (connect_multicast_spends hrun)
  | send_multicast _ hrun => exact hnever (by decide) (send_multicast_spends hrun)
  | leave hoption hnext hstatus =>
    subst hnext
    exact ⟨⟨rfl, List.suffix_refl _, by simp⟩, Or.inl ⟨hstatus, hoption⟩⟩
  | not_found _ hnext hstatus =>
    subst hnext hstatus
    exact ⟨⟨rfl, List.suffix_refl _, by simp⟩, Or.inr .running⟩

theorem scanf_int_suffix (option : BitVec 32) (stdin : Bytes) :
    (scanf_int option stdin).2 <:+ stdin := by
  have hspace : stdin.dropWhile isspace <:+ stdin := List.dropWhile_suffix _
  simp only [scanf_int]
  split
  · rename_i value rest hscan
    obtain ⟨-, hscan⟩ := Option.ite_none_left_eq_some.mp hscan
    cases hscan
    refine (List.dropWhile_suffix _).trans (List.IsSuffix.trans ?_ hspace)
    split
    · exact List.tail_suffix _
    · exact List.suffix_refl _
  · split
    · exact (List.tail_suffix _).trans hspace
    · exact hspace

/-- A round that goes on has consumed a line end, which pays for the free datagram. -/
theorem round_spends (hrun : process.round round = .ok (next, status)) :
    next.stdin <:+ process.stdin ∧
      next.sent.length + next.stdin.count 10 ≤ process.sent.length + process.stdin.count 10 ∧
      (status = .left ∧ next.option = 0 ∨ round.Leads status) ∧
      (status = .running → next.stdin.count 10 + 1 ≤ process.stdin.count 10) := by
  simp only [Process.round, prints_stdin, prints_option] at hrun
  split at hrun
  · cases hrun
    exact ⟨List.suffix_refl _, by simp, Or.inr .waits, by rintro ⟨⟩⟩
  · rename_i line hskip
    obtain ⟨hspends, hleads⟩ := choose_spends hrun
    have hline : (scanf_int process.option line).2 <:+ line := scanf_int_suffix _ _
    have hcount : (scanf_int process.option line).2.count 10 + 1 ≤ process.stdin.count 10 :=
      (Nat.succ_le_succ (hline.sublist.count_le 10)).trans (count_skip_line hskip)
    have hstdin : next.stdin <:+ (scanf_int process.option line).2 := hspends.stdin
    have hle := hstdin.sublist.count_le 10
    have hsent : next.sent.length + next.stdin.count 10 ≤
        (process.prints menu).sent.length + (scanf_int process.option line).2.count 10 + 1 :=
      hspends.sent
    rw [prints_sent] at hsent
    refine ⟨hstdin.trans (hline.trans ((List.suffix_cons 10 line).trans (skip_line_suffix hskip))),
      by omega, hleads.imp_left fun hleft => ⟨hleft.1, hspends.option.trans hleft.2⟩,
      fun _ => by omega⟩

/-- Every round that is left behind has cost a line end. -/
theorem options_spends {last : Process} {rounds : List Round}
    (hrun : process.options rounds = .ok (last, status)) :
    last.stdin <:+ process.stdin ∧
      last.sent.length + last.stdin.count 10 ≤ process.sent.length + process.stdin.count 10 ∧
      (status = .left → last.option = 0) ∧
      (status = .error → ∃ round ∈ rounds, round.received.getD [] = []) ∧
      (status = .running → last.stdin.count 10 + rounds.length ≤ process.stdin.count 10) := by
  induction rounds generalizing process with
  | nil =>
    cases hrun
    exact ⟨List.suffix_refl _, le_rfl, by rintro ⟨⟩, by rintro ⟨⟩, fun _ => le_rfl⟩
  | cons round rounds ih =>
    obtain ⟨⟨next, first⟩, hround, hrun⟩ := Result.bind_eq_ok_iff.mp hrun
    obtain ⟨hstdin, hsent, hleads, hrunning⟩ := round_spends hround
    cases first with
    | running =>
      obtain ⟨hstdin', hsent', hleft', herror', hrunning'⟩ := ih hrun
      refine ⟨hstdin'.trans hstdin, hsent'.trans hsent, hleft', fun hstatus => ?_, fun hstatus => ?_⟩
      · obtain ⟨lost, hmem, hlost⟩ := herror' hstatus
        exact ⟨lost, List.mem_cons_of_mem _ hmem, hlost⟩
      · have hnext := hrunning rfl
        have hrest := hrunning' hstatus
        rw [List.length_cons]
        omega
    | waits =>
      cases hrun
      exact ⟨hstdin, hsent, by rintro ⟨⟩, by rintro ⟨⟩, by rintro ⟨⟩⟩
    | error =>
      cases hrun
      obtain ⟨hstatus, -⟩ | hleads := hleads
      · cases hstatus
      · cases hleads with
        | error hlost =>
          exact ⟨hstdin, hsent, by rintro ⟨⟩, fun _ => ⟨round, List.mem_cons_self, hlost⟩,
            by rintro ⟨⟩⟩
    | left =>
      cases hrun
      obtain ⟨-, hoption⟩ | hleads := hleads
      · exact ⟨hstdin, hsent, fun _ => hoption, by rintro ⟨⟩, by rintro ⟨⟩⟩
      · cases hleads

end Process

/-- The reply with the port has arrived behind the one to the login, and what the array holds then
is no number. -/
def Start.NoPort (start : Start) : Prop :=
  ∃ (message first second : CharArray BUFFER_SIZE) (string : CString BUFFER_SIZE),
    receive message start.login = .ok (some first) ∧
      receive first start.port = .ok (some second) ∧ second.string = .ok string ∧
      ∀ message_port, sscanf string.bytes [.int] ≠ .ok [.int message_port]

/-- The program ends its loop on every input: the menu is left, waits for a line that does not
come, or is left through an error, before it is shown more often than the input has lines. It
leaves the menu with the option 0 only, through an error only where a reply does not arrive or
the port is no number, and sends no more than a datagram for every line. -/
theorem client_ends {start : Start} {stdin : Bytes} {last : Process} {status : Status}
    (hrounds : stdin.count 10 < start.rounds.length) (hrun : main start stdin = .ok (last, status)) :
    status ≠ .running ∧ last.stdin <:+ stdin ∧
      last.sent.length + last.stdin.count 10 ≤ stdin.count 10 + 1 ∧
      (status = .left → last.option = 0 ∨ ∀ sin_port, Effect.bind sin_port ∉ last.done) ∧
      (status = .error → start.NoPort ∨
        ∃ received ∈ start.login :: start.port :: start.permissions :: start.rounds.map Round.received,
          received.getD [] = []) := by
  obtain ⟨⟨username, typed⟩, hscan, hrun⟩ := Result.bind_eq_ok_iff.mp hrun
  obtain ⟨⟨password, rest⟩, hscan', hrun⟩ := Result.bind_eq_ok_iff.mp hrun
  obtain ⟨name, -, hrun⟩ := Result.bind_eq_ok_iff.mp hrun
  obtain ⟨word, -, hrun⟩ := Result.bind_eq_ok_iff.mp hrun
  have hstdin : rest <:+ stdin := (scanf_word_suffix hscan').trans (scanf_word_suffix hscan)
  have hcount := hstdin.sublist.count_le 10
  dsimp only at hrun
  generalize hprocess : Process.mk _ _ _ _ _ = process at hrun
  have hfields : process.stdin = rest ∧ process.sent.length = 1 ∧
      ∀ sin_port, Effect.bind sin_port ∉ process.done := by
    rw [← hprocess]
    exact ⟨rfl, rfl, by simp⟩
  obtain ⟨hrest, hsent, hunbound⟩ := hfields
  have hspends : process.sent.length + process.stdin.count 10 ≤ stdin.count 10 + 1 := by
    rw [hrest]
    omega
  rw [← hrest] at hstdin
  obtain ⟨received, hlogin, hrun⟩ := Result.bind_eq_ok_iff.mp hrun
  cases received with
  | none =>
    cases hrun
    exact ⟨by decide, hstdin, by simpa using hspends, by rintro ⟨⟩,
      fun _ => Or.inr ⟨start.login, by simp, receive_eq_none hlogin⟩⟩
  | some first =>
    obtain ⟨string, -, hrun⟩ := Result.bind_eq_ok_iff.mp hrun
    split at hrun
    · obtain ⟨received, hport, hrun⟩ := Result.bind_eq_ok_iff.mp hrun
      cases received with
      | none =>
        cases hrun
        exact ⟨by decide, hstdin, by simpa [List.filterMap_cons] using hspends, by rintro ⟨⟩,
          fun _ => Or.inr ⟨start.port, by simp, receive_eq_none hport⟩⟩
      | some second =>
        obtain ⟨string, hstring, hrun⟩ := Result.bind_eq_ok_iff.mp hrun
        obtain ⟨values, hvalues, hrun⟩ := Result.bind_eq_ok_iff.mp hrun
        split at hrun
        · obtain ⟨received, hpermissions, hrun⟩ := Result.bind_eq_ok_iff.mp hrun
          cases received with
          | none =>
            cases hrun
            exact ⟨by decide, hstdin, by simpa [List.filterMap_cons] using hspends, by rintro ⟨⟩,
              fun _ => Or.inr ⟨start.permissions, by simp, receive_eq_none hpermissions⟩⟩
          | some message =>
            obtain ⟨string, -, hrun⟩ := Result.bind_eq_ok_iff.mp hrun
            obtain ⟨hsuffix, hle, hleft, herror, hrunning⟩ := Process.options_spends hrun
            refine ⟨?_, hsuffix.trans hstdin, hle.trans (by simpa [List.filterMap_cons] using hspends),
              fun hstatus => Or.inl (hleft hstatus), fun hstatus => ?_⟩
            · rintro rfl
              have hlines : rest.count 10 ≤ stdin.count 10 := hcount
              have hmany := hrunning rfl
              simp only [Process.does_stdin, Process.becomes_stdin, hrest] at hmany
              omega
            · obtain ⟨round, hmem, hlost⟩ := herror hstatus
              refine Or.inr ⟨round.received, ?_, hlost⟩
              simpa using Or.inr (Or.inr (Or.inr ⟨round, hmem, rfl⟩))
        · rename_i hnumber
          cases hrun
          refine ⟨by decide, hstdin, by simpa [List.filterMap_cons] using hspends, by rintro ⟨⟩,
            fun _ => Or.inl ⟨_, first, second, string, hlogin, hport, hstring, fun message_port => ?_⟩⟩
          rintro hscanned
          exact hnumber message_port (Except.ok.inj (hvalues.symm.trans hscanned))
    · cases hrun
      exact ⟨by decide, hstdin, by simpa [List.filterMap_cons] using hspends,
        fun _ => Or.inr (by simpa [Process.does] using hunbound), by rintro ⟨⟩⟩

/-- A client whose input ends at its menu. -/
theorem client_ends_witness : ∃ (start : Start) (last : Process),
    main start (text "ana\npw\n") = .ok (last, .waits) ∧
      last.sent.length + last.stdin.count 10 ≤ 3 := by
  let start : Start := {
    message := .ofBytes _ []
    option := 9
    login := some (format_message (Answer.login_successful 0).text)
    port := some (format_message (Answer.session_port 5000).text)
    permissions := some (format_message
      (Answer.permissions (text "YES") (text "YES") (text "YES")).text)
    rounds := List.replicate 3 (.blank none) }
  have hview : (do
      let ended ← main start (text "ana\npw\n")
      return ended.2) = Except.ok .waits := by
    decide +kernel
  obtain ⟨⟨last, status⟩, hrun, hstatus⟩ := Result.bind_eq_ok_iff.mp hview
  cases hstatus
  have hrounds : (text "ana\npw\n").count 10 < start.rounds.length := by decide
  exact ⟨start, last, hrun, (client_ends hrounds hrun).2.2.1⟩

end rc_project.client
