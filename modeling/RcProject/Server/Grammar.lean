import RcProject.Server.AdminBuffer
import RcProject.Server.Datagram

open rc_project.c_string

namespace rc_project.server

section FirstLine

variable {string : Bytes}

/-- A string up to its first carriage return or line feed. -/
def firstLine (string : Bytes) : Bytes := string.takeWhile fun c => c ≠ 13 && c ≠ 10

theorem line_terminated (hnul : 0 ∉ string) (rest : Bytes) :
    line (string ++ 0 :: rest) = firstLine string := by
  rw [line_append_nul]
  induction string with
  | nil => rfl
  | cons c string ih =>
    simp only [List.mem_cons, not_or] at hnul
    have hc : (!endsLine c) = (c ≠ 13 && c ≠ 10) := by
      simp [endsLine, Ne.symm hnul.1]
    simp only [line, firstLine, List.takeWhile_cons, hc] at ih ⊢
    split
    · exact congrArg (c :: ·) (ih hnul.2)
    · rfl

theorem length_line_terminated (hnul : 0 ∉ string) (rest : Bytes) :
    (line (string ++ 0 :: rest)).length < (string ++ 0 :: rest).length := by
  have hle : (firstLine string).length ≤ string.length := (List.takeWhile_sublist _).length_le
  rw [line_terminated hnul, List.length_append, List.length_cons]
  omega

/-- The line is cut in place, and the save pointer of `strtok_r` stays in front of its
terminator or at it. -/
theorem cut_line (hnul : 0 ∉ string) (rest : Bytes) :
    ∃ behind, (firstLine string ++ 0 :: behind).length = (string ++ 0 :: rest).length ∧
      remove_end_line (string ++ 0 :: rest) = .ok (firstLine string ++ 0 :: behind) ∧
      (strtok_r (firstLine string ++ 0 :: behind)).2 ≤ (firstLine string).length := by
  have hends := length_line_terminated hnul rest
  have hcut := remove_end_line_eq hends
  rw [line_terminated hnul] at hends hcut
  have hstring (behind : Bytes) : cstr (firstLine string ++ 0 :: behind) = firstLine string :=
    cstr_append_nul (fun hmem => hnul ((List.takeWhile_sublist _).subset hmem)) behind
  refine ⟨_, ?_, hcut, ?_⟩
  · rw [List.length_append, List.length_cons, List.length_drop]
    omega
  · have hle := tokenEnd_le (firstLine string)
    simp only [strtok_r, hstring]
    split
    · assumption
    · exact hle

end FirstLine

section Table

variable {α : Type} {commands : List (Bytes × α)} {line : Bytes}

/-- A line is dispatched by the grammar of a table: to the command whose name is the part
in front of its first space, with the text behind that space. -/
structure Grammatical (commands : List (Bytes × α)) (line : Bytes) (found : Option (α × Bytes)) :
    Prop where
  found_iff : ∀ i (h : i < commands.length) args, found = some (commands[i].2, args) ↔
    word line = commands[i].1 ∧ args = line.drop ((word line).length + 1)
  args_eq : ∀ function args, found = some (function, args) →
    line = word line ∧ args = [] ∨ line = word line ++ 32 :: args
  none_iff : found = none ↔ ∀ i (h : i < commands.length), word line ≠ commands[i].1
  blank : word line = [] → found = none

/-- A line without a space is its own word, and there is nothing behind it. -/
theorem word_eq_self (hspace : 32 ∉ line) :
    word line = line ∧ line.drop ((word line).length + 1) = [] := by
  have hword : word line = line := by
    have := word_append hspace []
    simpa [word] using this
  rw [hword]
  exact ⟨rfl, List.drop_eq_nil_of_le (Nat.le_succ _)⟩

/-- A line with a space is its word, the space and the arguments. -/
theorem eq_word_append (hspace : 32 ∈ line) :
    line = word line ++ 32 :: line.drop ((word line).length + 1) := by
  induction line with
  | nil => cases hspace
  | cons c line ih =>
    by_cases hc : c = 32
    · subst hc
      rfl
    · have hmem : 32 ∈ line := (List.mem_cons.mp hspace).resolve_left (Ne.symm hc)
      have hword : word (c :: line) = c :: word line := by simp [word, hc]
      rw [hword, List.length_cons, List.drop_succ_cons, List.cons_append, ← ih hmem]

/-- The names and the functions of a table tell its entries apart. -/
structure Distinct (commands : List (Bytes × α)) : Prop where
  names : (commands.map Prod.fst).Nodup
  functions : (commands.map Prod.snd).Nodup

/-- The search finds the only entry whose name is the word. -/
theorem find?_word (hdistinct : Distinct commands) {i : Nat} (h : i < commands.length)
    (hword : word line = commands[i].1) :
    commands.find? (fun entry => entry.1 = word line) = some commands[i] := by
  rw [List.find?_eq_some_iff_getElem]
  refine ⟨by simp [hword], i, h, rfl, ?_⟩
  intro j hj
  have hne : commands[j].1 ≠ commands[i].1 := by
    intro hsame
    have hi : i < (commands.map Prod.fst).length := by simpa using h
    have hmap : (commands.map Prod.fst)[j] = (commands.map Prod.fst)[i] := by simpa using hsame
    exact absurd ((hdistinct.names.getElem_inj_iff).mp hmap) (Nat.ne_of_lt hj)
  simpa [hword] using hne

theorem parse_line_grammatical (hnames : Names commands) (hdistinct : Distinct commands)
    (line : Bytes) : Grammatical commands line (parse_line commands line) where
  found_iff i h args := by
    constructor
    · intro hfound
      obtain ⟨entry, hfind, hentry⟩ := Option.map_eq_some_iff.mp hfound
      obtain ⟨hfunction, hargs⟩ := Prod.mk.inj hentry
      have hword : entry.1 = word line := by simpa using List.find?_some hfind
      obtain ⟨j, hj, rfl⟩ := List.getElem_of_mem (List.mem_of_find?_eq_some hfind)
      have hi : i < (commands.map Prod.snd).length := by simpa using h
      have hj' : j < (commands.map Prod.snd).length := by simpa using hj
      have hmap : (commands.map Prod.snd)[j] = (commands.map Prod.snd)[i] := by
        simpa using hfunction
      obtain rfl := (hdistinct.functions.getElem_inj_iff).mp hmap
      exact ⟨hword.symm, hargs.symm⟩
    · rintro ⟨hword, rfl⟩
      rw [parse_line, find?_word hdistinct h hword]
      rfl
  args_eq function args hfound := by
    obtain ⟨entry, -, hentry⟩ := Option.map_eq_some_iff.mp hfound
    obtain ⟨-, rfl⟩ := Prod.mk.inj hentry
    by_cases hspace : 32 ∈ line
    · exact Or.inr (eq_word_append hspace)
    · obtain ⟨hself, hargs⟩ := word_eq_self hspace
      exact Or.inl ⟨hself.symm, hargs⟩
  none_iff := by
    rw [parse_line, Option.map_eq_none_iff, List.find?_eq_none]
    constructor
    · intro hnone i h hword
      exact hnone commands[i] (List.getElem_mem h) (by simp [hword])
    · intro hnone entry hentry
      obtain ⟨i, h, rfl⟩ := List.getElem_of_mem hentry
      simpa using (hnone i h).symm
  blank hword := by
    rw [parse_line, Option.map_eq_none_iff, List.find?_eq_none]
    intro entry hentry
    simpa [hword] using (hnames entry hentry).1

end Table

/-- What a dispatcher makes of the command that it looked up: it runs its handler, or none. -/
def dispatched {α β : Type} (handlers : α → Bytes → Result β) :
    Option (α × Bytes) → Result (Option β)
  | none => return none
  | some (function, args) => do
    let result ← handlers function args
    return some result

theorem client_commands_distinct : Distinct client_commands := ⟨by decide, by decide⟩

theorem commands_distinct : Distinct commands := ⟨by decide, by decide⟩

/-- Both dispatchers cut a terminated line in place at its first carriage return or line
feed, with the pointer to the arguments inside of it, and then run the handler that the
grammar of their table gives for what is left, or none. The one of the clients logs the line
first, for which it follows the pointer of the session. -/
theorem dispatch_exact {string : Bytes} (hnul : 0 ∉ string) (rest : Bytes) :
    (∃ behind, (firstLine string ++ 0 :: behind).length = (string ++ 0 :: rest).length ∧
      remove_end_line (string ++ 0 :: rest) = .ok (firstLine string ++ 0 :: behind) ∧
      (strtok_r (firstLine string ++ 0 :: behind)).2 ≤ (firstLine string).length) ∧
    (∃ found, Grammatical client_commands (firstLine string) found ∧ ∀ memory client locals,
      client_cmd_function memory client (string ++ 0 :: rest) locals = (do
        let _ ← logged_username memory client
        dispatched (fun function args => client_cmd_functions memory client args locals function)
          found)) ∧
    ∃ found buffer, Grammatical commands (firstLine string) found ∧ ∀ memory socket,
      cmd_function memory socket (string ++ 0 :: rest) = (do
        let result ← dispatched (fun function args => cmd_functions memory socket args function) found
        return (buffer, result)) := by
  have hends := length_line_terminated hnul rest
  obtain ⟨left, hclient⟩ := dispatch_eq client_commands_names hends
  obtain ⟨buffer, hadmin⟩ := dispatch_eq commands_names hends
  rw [line_terminated hnul] at hclient hadmin
  refine ⟨cut_line hnul rest, ⟨_, parse_line_grammatical client_commands_names
    client_commands_distinct _, ?_⟩, _, buffer, parse_line_grammatical commands_names
    commands_distinct _, ?_⟩
  · intro memory client locals
    rw [client_cmd_function, hclient, Result.ok_bind]
    cases logged_username memory client with
    | error e => rfl
    | ok username => cases parse_line client_commands (firstLine string) <;> rfl
  · intro memory socket
    rw [cmd_function, hadmin, Result.ok_bind]
    cases parse_line commands (firstLine string) with
    | none => rfl
    | some entry =>
      rw [dispatched, bind_assoc]
      rfl

/-- A line of a client with two spaces, and what lies behind its terminator. -/
theorem dispatch_exact_witness : ∃ found,
    Grammatical client_commands (text "MSG ana  hi") found ∧
    found = some (.MSG, text "ana  hi") ∧ ∀ memory client locals,
      client_cmd_function memory client (text "MSG ana  hi\r\nMSG" ++ 0 :: text "LOGIN") locals = (do
        let _ ← logged_username memory client
        dispatched (fun function args => client_cmd_functions memory client args locals function)
          found) := by
  have hline : firstLine (text "MSG ana  hi\r\nMSG") = text "MSG ana  hi" := by decide
  obtain ⟨-, ⟨found, hgrammar, hrun⟩, -⟩ :=
    dispatch_exact (show 0 ∉ text "MSG ana  hi\r\nMSG" by decide) (text "LOGIN")
  rw [hline] at hgrammar
  exact ⟨found, hgrammar, (hgrammar.found_iff 1 (by decide) _).mpr (by decide), hrun⟩

end rc_project.server
