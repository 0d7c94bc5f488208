import RcProject.Library.CString

open rc_project.c_string

namespace rc_project.server

/-- `remove_end_line` on the block that holds the string. Without a terminator
or a line end in the block it runs over its end. -/
def remove_end_line : Bytes → Result Bytes
  | [] => throw .out_of_bounds
  | c :: rest =>
    if c = 0 then return c :: rest
    else if c = 13 ∨ c = 10 then return 0 :: rest
    else do
      let rest ← remove_end_line rest
      return c :: rest

/-- `strtok_r(string, " ", &save)`: the block with the end of the first token
marked, and the offset of the save pointer. -/
def strtok_r (block : Bytes) : Bytes × Nat :=
  let string := cstr block
  let start := (string.takeWhile (· = 32)).length
  let stop := start + ((string.drop start).takeWhile (· ≠ 32)).length
  if stop < string.length then (block.set stop 0, stop + 1) else (block, stop)

def parse_cmd (a b : Bytes) : Bool := strcmp a b = 0

/-- The part that `client_cmd_function` and `cmd_function` share: the buffer
is cut at its line end and at the end of its first token, and the command is
looked up in the table. `none` stands for an unknown command. -/
def dispatch {α : Type} (commands : List (Bytes × α)) (command : Bytes) :
    Result (Bytes × Option (α × Bytes)) := do
  let command ← remove_end_line command
  let (command, args) := strtok_r command
  let found := commands.find? fun entry => parse_cmd command entry.1
  return (command, found.map fun entry => (entry.2, cstr (command.drop args)))

end rc_project.server
