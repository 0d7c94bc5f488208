import RcProject.Server.CommandLine
import RcProject.Server.Requests

open rc_project.c_string

namespace rc_project.server

theorem client_commands_names : Names client_commands := by
  unfold Names
  decide

/-- A line goes up to the first terminator, whatever lies behind it. -/
theorem line_append_nul (received rest : Bytes) : line (received ++ 0 :: rest) = line received := by
  by_cases hends : ∃ c ∈ received, endsLine c = true
  · exact (line_append_of_mem hends _).1
  · have hnone : ∀ c ∈ received, endsLine c = false := by simpa using hends
    have hself : line received = received := by
      simpa [line] using line_append_of_not hnone []
    rw [line_append_of_not hnone, hself, line_cons, if_pos (by decide), List.append_nil]

@[simp] theorem line_line (block : Bytes) : line (line block) = line block := by
  have hnone : ∀ c ∈ line block, endsLine c = false := fun c hc => not_endsLine_of_mem_line hc
  simpa [line] using line_append_of_not hnone []

/-- The command of a datagram is the one of its first line, whatever the stack
held and whatever lies behind the line. -/
theorem received_command_eq (datagram : Bytes) (locals : Locals) :
    received_command datagram locals =
      .ok (parse_line client_commands (line (datagram.take BUFFER_SIZE))) := by
  have hline : line (recvfrom locals.buffer datagram) = line (datagram.take BUFFER_SIZE) :=
    line_append_nul _ _
  have hends : (line (recvfrom locals.buffer datagram)).length <
      (recvfrom locals.buffer datagram).length := by
    have hmem : ∃ c ∈ recvfrom locals.buffer datagram, endsLine c = true :=
      ⟨0, List.mem_append_right _ List.mem_cons_self, by decide⟩
    exact (line_append_of_mem hmem []).2
  have hbuffer := remove_end_line_eq hends
  rw [hline] at hbuffer
  have hagain (rest : Bytes) : line (line (datagram.take BUFFER_SIZE) ++ 0 :: rest) =
      line (datagram.take BUFFER_SIZE) := by
    rw [line_append_nul, line_line]
  have hends' (rest : Bytes) : (line (line (datagram.take BUFFER_SIZE) ++ 0 :: rest)).length <
      (line (datagram.take BUFFER_SIZE) ++ 0 :: rest).length := by
    rw [hagain, List.length_append, List.length_cons]
    omega
  obtain ⟨left, hdispatch⟩ := dispatch_eq client_commands_names (hends' _)
  rw [hagain] at hdispatch
  rw [received_command, hbuffer, Result.ok_bind, hdispatch]
  rfl

/-- The arguments of a command are shorter than the buffer that it is received in. -/
theorem length_args_lt {datagram args : Bytes} {command : ClientCommand}
    (hparse : parse_line client_commands (line (datagram.take BUFFER_SIZE)) =
      some (command, args)) : args.length < BUFFER_SIZE := by
  obtain ⟨entry, -, hargs⟩ := Option.map_eq_some_iff.mp hparse
  cases hargs
  have hline : (line (datagram.take BUFFER_SIZE)).length ≤ BUFFER_SIZE :=
    (List.takeWhile_sublist _).length_le.trans (List.length_take_le _ _)
  rw [List.length_drop]
  have hpos : 0 < BUFFER_SIZE := by decide
  omega

/-- A message that fits is read back from the bytes that are sent. -/
theorem cstr_format_message {formatted : Bytes} (hnul : 0 ∉ formatted)
    (hfits : formatted.length < BUFFER_SIZE) : cstr (format_message formatted) = formatted := by
  have hwhole : formatted.take ((List.replicate BUFFER_SIZE (0 : UInt8)).length - 1) = formatted := by
    apply List.take_of_length_le
    rw [List.length_replicate]
    omega
  rw [format_message, snprintf, hwhole]
  exact cstr_append_nul hnul _

/-- A number that is not negative is printed by its digits. -/
theorem format_int_eq {value : BitVec 32} (hvalue : value.toNat < 2 ^ 31) :
    format_int value = decimal value.toNat := by
  have hint : value.toInt = value.toNat := BitVec.toInt_eq_toNat_of_lt (by omega)
  rw [format_int, hint, if_neg (by omega), Int.natAbs_natCast]

end rc_project.server
