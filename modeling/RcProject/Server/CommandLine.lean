import Mathlib.Data.List.Find
import RcProject.Server.Strings

open rc_project.c_string

namespace rc_project.server

section Line

/-- A terminator or a line end. -/
def endsLine (c : UInt8) : Bool := c = 0 || c = 13 || c = 10

/-- The line at the start of a block. -/
def line (block : Bytes) : Bytes := block.takeWhile fun c => !endsLine c

variable {block received : Bytes}

theorem line_cons (c : UInt8) (rest : Bytes) :
    line (c :: rest) = if endsLine c then [] else c :: line rest := by
  cases hc : endsLine c <;> simp [line, hc]

theorem not_endsLine_of_mem_line {c : UInt8} (hc : c ∈ line block) : endsLine c = false := by
  simpa using List.mem_takeWhile_imp hc

theorem nul_not_mem_line (block : Bytes) : 0 ∉ line block :=
  fun hmem => absurd (not_endsLine_of_mem_line hmem) (by decide)

/-- A line that ends in the first part of a block is the line of this part. -/
theorem line_append_of_mem (hends : ∃ c ∈ received, endsLine c = true) (rest : Bytes) :
    line (received ++ rest) = line received ∧ (line received).length < received.length := by
  obtain ⟨c, hc, hend⟩ := hends
  induction received with
  | nil => cases hc
  | cons d received ih =>
    rw [List.cons_append, line_cons, line_cons]
    cases hd : endsLine d with
    | true => simp
    | false =>
      have hmem : c ∈ received := by
        obtain rfl | hmem := List.mem_cons.mp hc
        · rw [hend] at hd
          cases hd
        · exact hmem
      obtain ⟨hline, hlength⟩ := ih hmem
      simp [hline, hlength]

/-- A line goes on behind a part that does not end it. -/
theorem line_append_of_not (hnone : ∀ c ∈ received, endsLine c = false) (rest : Bytes) :
    line (received ++ rest) = received ++ line rest :=
  List.takeWhile_append_of_pos fun c hc => by simp [hnone c hc]

/-- `remove_end_line` leaves the line and puts its terminator behind it. -/
theorem remove_end_line_eq (hends : (line block).length < block.length) :
    remove_end_line block = .ok (line block ++ 0 :: block.drop ((line block).length + 1)) := by
  induction block with
  | nil => simp at hends
  | cons c rest ih =>
    rw [line_cons] at hends ⊢
    cases hc : endsLine c with
    | true =>
      rw [remove_end_line]
      by_cases hnul : c = 0
      · simp [hnul]
      · have hline : c = 13 ∨ c = 10 := by simpa [endsLine, hnul] using hc
        simp [hnul, hline]
    | false =>
      obtain ⟨⟨hnul, hreturn⟩, hnewline⟩ : (c ≠ 0 ∧ c ≠ 13) ∧ c ≠ 10 := by
        simpa [endsLine] using hc
      rw [hc] at hends
      have hrest := ih (by simpa using hends)
      simp [remove_end_line, hnul, hreturn, hnewline, hrest]

/-- Without an end in the block `remove_end_line` runs over its end. -/
theorem remove_end_line_error (hnone : ∀ c ∈ block, endsLine c = false) :
    remove_end_line block = .error .out_of_bounds := by
  induction block with
  | nil => rfl
  | cons c rest ih =>
    have hc := hnone c List.mem_cons_self
    obtain ⟨⟨hnul, hreturn⟩, hnewline⟩ : (c ≠ 0 ∧ c ≠ 13) ∧ c ≠ 10 := by
      simpa [endsLine] using hc
    have hrest := ih fun d hd => hnone d (List.mem_cons_of_mem _ hd)
    simp [remove_end_line, hnul, hreturn, hnewline, hrest]

end Line

section Token

variable {line name : Bytes}

/-- The word in front of the first space of a line. -/
def word (line : Bytes) : Bytes := line.takeWhile (· ≠ 32)

theorem word_append (hspace : 32 ∉ name) (rest : Bytes) :
    word (name ++ rest) = name ++ word rest :=
  List.takeWhile_append_of_pos fun c hc => by simpa using ne_of_mem_of_not_mem hc hspace

/-- The end of the first token of a line, as `strtok_r` finds it behind the
leading spaces. -/
def tokenEnd (line : Bytes) : Nat :=
  let start := (line.takeWhile (· = 32)).length
  start + ((line.drop start).takeWhile (· ≠ 32)).length

theorem tokenEnd_le (line : Bytes) : tokenEnd line ≤ line.length := by
  have hstart := (List.takeWhile_sublist (· = 32) (l := line)).length_le
  have hstop := (List.takeWhile_sublist (· ≠ 32)
    (l := line.drop (line.takeWhile (· = 32)).length)).length_le
  rw [List.length_drop] at hstop
  simp only [tokenEnd]
  omega

/-- Without leading spaces the first token is the first word. -/
theorem tokenEnd_eq (hword : word line ≠ []) : tokenEnd line = (word line).length := by
  cases line with
  | nil => exact absurd rfl hword
  | cons c rest =>
    have hc : c ≠ 32 := by
      rintro rfl
      exact hword rfl
    simp [tokenEnd, word, hc]

theorem take_tokenEnd (hword : word line ≠ []) : line.take (tokenEnd line) = word line := by
  rw [tokenEnd_eq hword]
  exact (List.prefix_iff_eq_take.mp (List.takeWhile_prefix _)).symm

/-- The first token is a name without spaces exactly if the first word is. -/
theorem take_tokenEnd_eq_iff (hname : name ≠ []) (hspace : 32 ∉ name) :
    line.take (tokenEnd line) = name ↔ word line = name := by
  by_cases hword : word line = []
  · rw [hword]
    refine iff_of_false ?_ hname.symm
    rintro rfl
    cases line with
    | nil => exact hname rfl
    | cons c rest =>
      have hc : c = 32 := by
        by_contra hc
        simp [word, hc] at hword
      subst hc
      have hpos : tokenEnd (32 :: rest) = tokenEnd (32 :: rest) - 1 + 1 := by
        simp [tokenEnd]
        omega
      rw [hpos, List.take_succ_cons] at hspace
      exact hspace List.mem_cons_self
  · rw [take_tokenEnd hword]

/-- What `strtok_r` makes of a line: its first token, and behind it the rest. -/
theorem strtok_r_line (hnul : 0 ∉ line) (rest : Bytes) :
    cstr (strtok_r (line ++ 0 :: rest)).1 = line.take (tokenEnd line) ∧
      cstr ((strtok_r (line ++ 0 :: rest)).1.drop (strtok_r (line ++ 0 :: rest)).2) =
        line.drop (tokenEnd line + 1) := by
  have hstring : cstr (line ++ 0 :: rest) = line := cstr_append_nul hnul rest
  have hstrtok : strtok_r (line ++ 0 :: rest) =
      if tokenEnd line < line.length then
        ((line ++ 0 :: rest).set (tokenEnd line) 0, tokenEnd line + 1)
      else (line ++ 0 :: rest, tokenEnd line) := by
    rw [strtok_r, hstring]
    rfl
  have hle := tokenEnd_le line
  rw [hstrtok]
  by_cases hstop : tokenEnd line < line.length
  · have hset : (line ++ 0 :: rest).set (tokenEnd line) 0 =
        line.take (tokenEnd line) ++ 0 :: (line.drop (tokenEnd line + 1) ++ 0 :: rest) := by
      rw [List.set_append_left _ _ hstop, List.set_eq_take_append_cons_drop, if_pos hstop,
        List.append_assoc, List.cons_append]
    have hlength : (line.take (tokenEnd line)).length = tokenEnd line := by
      rw [List.length_take]
      omega
    rw [if_pos hstop, hset]
    constructor
    · exact cstr_append_nul (fun hmem => hnul (List.mem_of_mem_take hmem)) _
    · have hdrop : (line.take (tokenEnd line) ++ 0 :: (line.drop (tokenEnd line + 1) ++
          0 :: rest)).drop (tokenEnd line + 1) = line.drop (tokenEnd line + 1) ++ 0 :: rest := by
        rw [List.drop_append, hlength, List.drop_eq_nil_of_le (by omega)]
        simp
      rw [hdrop]
      exact cstr_append_nul (fun hmem => hnul (List.mem_of_mem_drop hmem)) _
  · have hend : tokenEnd line = line.length := by omega
    rw [if_neg hstop, hend]
    refine ⟨by rw [hstring, List.take_length], ?_⟩
    rw [List.drop_left, List.drop_eq_nil_of_le (Nat.le_succ _)]
    rfl

/-- The first token of a string is marked in the part of the block that holds it. -/
theorem strtok_r_append {block : Bytes} (hnul : 0 ∈ block) (rest : Bytes) :
    (strtok_r block).1.length = block.length ∧
      strtok_r (block ++ rest) = ((strtok_r block).1 ++ rest, (strtok_r block).2) := by
  have hlength := length_cstr_lt hnul
  simp only [strtok_r, cstr_append_of_mem hnul]
  split
  · rename_i hstop
    rw [List.set_append_left _ _ (hstop.trans hlength)]
    exact ⟨List.length_set, rfl⟩
  · exact ⟨rfl, rfl⟩

end Token

section Dispatch

variable {α : Type} {commands : List (Bytes × α)} {block received : Bytes}

/-- The names of a table can be told apart from the spaces of a line. -/
def Names (commands : List (Bytes × α)) : Prop :=
  ∀ entry ∈ commands, entry.1 ≠ [] ∧ 0 ∉ entry.1 ∧ 32 ∉ entry.1

/-- The command that a line holds, with its arguments. -/
def parse_line (commands : List (Bytes × α)) (line : Bytes) : Option (α × Bytes) :=
  (commands.find? fun entry => entry.1 = word line).map fun entry =>
    (entry.2, line.drop ((word line).length + 1))

/-- What is dispatched is what the line at the start of the block holds. -/
theorem dispatch_eq (hnames : Names commands) (hends : (line block).length < block.length) :
    ∃ left, dispatch commands block = .ok (left, parse_line commands (line block)) := by
  obtain ⟨htoken, hargs⟩ :=
    strtok_r_line (nul_not_mem_line block) (block.drop ((line block).length + 1))
  have hfind : (commands.find? fun entry => parse_cmd (strtok_r (line block ++
      0 :: block.drop ((line block).length + 1))).1 entry.1) =
        commands.find? fun entry => entry.1 = word (line block) := by
    refine List.find?_congr fun entry hentry => ?_
    obtain ⟨hne, hnul, hspace⟩ := hnames entry hentry
    rw [parse_cmd, decide_eq_decide, strcmp_eq_zero_iff, htoken, cstr_eq_self hnul,
      take_tokenEnd_eq_iff hne hspace, eq_comm]
  have hmap : ((commands.find? fun entry => entry.1 = word (line block)).map fun entry =>
      (entry.2, (line block).drop (tokenEnd (line block) + 1))) =
        parse_line commands (line block) := by
    refine Option.map_congr fun entry hentry => ?_
    have hname : entry.1 = word (line block) := by
      simpa using List.find?_some hentry
    obtain ⟨hne, -, -⟩ := hnames entry (List.mem_of_find?_eq_some hentry)
    rw [tokenEnd_eq (hname ▸ hne)]
  refine ⟨(strtok_r (line block ++ 0 :: block.drop ((line block).length + 1))).1, ?_⟩
  simp only [dispatch, remove_end_line_eq hends, Result.ok_bind, hfind, hargs, hmap,
    Result.pure_eq_ok]

/-- A line that ends in the first part of a block is dispatched by this part. What lies
behind it stays as it is. -/
theorem dispatch_append (hnames : Names commands) (hends : ∃ c ∈ received, endsLine c = true) :
    ∃ left, left.length = received.length ∧ ∀ rest, dispatch commands (received ++ rest) =
      .ok (left ++ rest, parse_line commands (line received)) := by
  have hlength := (line_append_of_mem hends []).2
  let marked := line received ++ 0 :: received.drop ((line received).length + 1)
  have hnul : 0 ∈ marked := List.mem_append_right _ List.mem_cons_self
  refine ⟨(strtok_r marked).1, ?_, fun rest => ?_⟩
  · rw [(strtok_r_append hnul []).1, List.length_append, List.length_cons, List.length_drop]
    omega
  · have hline := (line_append_of_mem hends rest).1
    have hblock : (line (received ++ rest)).length < (received ++ rest).length := by
      rw [hline, List.length_append]
      omega
    have hmarked : remove_end_line (received ++ rest) = .ok (marked ++ rest) := by
      rw [remove_end_line_eq hblock, hline, List.drop_append_of_le_length hlength, List.append_assoc,
        List.cons_append]
    obtain ⟨left, hdispatch⟩ := dispatch_eq hnames hblock
    have hleft : left = (strtok_r marked).1 ++ rest := by
      rw [dispatch, hmarked, Result.ok_bind, (strtok_r_append hnul rest).2] at hdispatch
      exact (congrArg Prod.fst (Except.ok.inj hdispatch)).symm
    rw [hdispatch, hleft, hline]

theorem dispatch_error (hnone : ∀ c ∈ block, endsLine c = false) :
    dispatch commands block = .error .out_of_bounds := by
  rw [dispatch, remove_end_line_error hnone]
  rfl

/-- The arguments of a command are a string. -/
theorem nul_not_mem_args {buffer args : Bytes} {command : α}
    (hdispatch : dispatch commands block = .ok (buffer, some (command, args))) : 0 ∉ args := by
  obtain ⟨cut, -, hdispatch⟩ := Result.bind_eq_ok_iff.mp hdispatch
  obtain ⟨-, hfound⟩ := Prod.mk.inj (Except.ok.inj hdispatch)
  obtain ⟨entry, -, hargs⟩ := Option.map_eq_some_iff.mp hfound
  cases hargs
  exact not_mem_cstr _

end Dispatch

end rc_project.server
