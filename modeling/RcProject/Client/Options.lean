import RcProject.Client.Delivery
import RcProject.Client.Multicast

open rc_project.c_string rc_project.scanf
open rc_project.server (htons in_addr inet_ntop sockaddr_in)

namespace rc_project.client

section Addresses

def isxdigit (c : UInt8) : Bool := isdigit c || (97 ≤ c && c ≤ 102) || (65 ≤ c && c ≤ 70)

def isodigit (c : UInt8) : Bool := 48 ≤ c && c ≤ 55

/-- The value of a hexadecimal digit. -/
def hexadecimal (c : UInt8) : Nat :=
  if isdigit c then c.toNat - 48 else if 97 ≤ c then c.toNat - 87 else c.toNat - 55

def digits_value (base : Nat) (digits : Bytes) : Nat :=
  digits.foldl (fun value c => base * value + hexadecimal c) 0

/-- `strtoul` with the base 0 on a string that starts with a digit: the number, before it is
saturated, and the string behind it. -/
def strtoul (string : Bytes) : Nat × Bytes :=
  let behind := string.drop 2
  if string.head? = some 48 then
    if (string[1]? = some 120 ∨ string[1]? = some 88) ∧ behind.head?.any isxdigit then
      (digits_value 16 (behind.takeWhile isxdigit), behind.dropWhile isxdigit)
    else (digits_value 8 (string.takeWhile isodigit), string.dropWhile isodigit)
  else (digitsValue (string.takeWhile isdigit), string.dropWhile isdigit)

/-- The numbers of an address in text, with at most some dots between them, and what is
behind them. All but the last one are bytes. -/
def address_parts (dots : Nat) (string : Bytes) : Option (List Nat × Bytes) :=
  let (value, rest) := strtoul string
  if string.head?.any isdigit ∧ value ≤ 0xffffffff then
    if rest.head? = some 46 then
      match dots with
      | 0 => none
      | dots + 1 =>
        if value ≤ 0xff then
          (address_parts dots rest.tail).map fun (values, rest) => (value :: values, rest)
        else none
    else some ([value], rest)
  else none

/-- The address of a number in host order. -/
def address_of (value : Nat) : in_addr :=
  ⟨UInt8.ofNat (value / 2 ^ 24), UInt8.ofNat (value / 2 ^ 16), UInt8.ofNat (value / 2 ^ 8),
    UInt8.ofNat value⟩

def INADDR_NONE : in_addr := ⟨255, 255, 255, 255⟩

/-- `inet_addr`. The last number of an address stands for all the bytes that are left. -/
def inet_addr (cp : Bytes) : in_addr :=
  match address_parts 3 cp with
  | none => INADDR_NONE
  | some (values, rest) =>
    if rest.head?.any fun c => !isspace c then INADDR_NONE
    else
      match values with
      | [a] => address_of a
      | [a, b] => if b ≤ 0xffffff then address_of (a * 2 ^ 24 + b) else INADDR_NONE
      | [a, b, c] =>
        if c ≤ 0xffff then address_of (a * 2 ^ 24 + b * 2 ^ 16 + c) else INADDR_NONE
      | [a, b, c, d] =>
        if d ≤ 0xff then address_of (a * 2 ^ 24 + b * 2 ^ 16 + c * 2 ^ 8 + d) else INADDR_NONE
      | _ => INADDR_NONE

end Addresses

/-- What a client prints, and sends through its sockets. -/
inductive Effect
  | print (string : Bytes)
  /-- The `sendto` of a request to the server. -/
  | request (datagram : Bytes)
  /-- `read_msg` binds its socket to a port. -/
  | bind (sin_port : BitVec 16)
  | p2p (message : CharArray BUFFER_SIZE) (target_addr : sockaddr_in)
  | multicast (send : Bytes) (multicast_addr : sockaddr_in)
  deriving DecidableEq

/-- One round of the loop of `read_multicast`: the array behind the `recvfrom`, and what is printed.
`none` where the thread ends. -/
def read_multicast (buffer : CharArray BUFFER_SIZE) (received : Option Bytes) :
    Result (Option (CharArray BUFFER_SIZE) × Bytes) :=
  let datagram := (received.getD []).take BUFFER_SIZE
  if datagram = [] then
    return (none, text "Multicast read error\n")
  else do
    let buffer := CharArray.ofBytes _ (datagram ++ buffer.bytes.drop datagram.length)
    let string ← buffer.string
    return (some buffer, text "[Multicast] " ++ string.bytes ++ text "\n")

/-- How far a client has come: it goes on, it waits for a line end, it has left through
`error` with a message, or through the end of `main`. -/
inductive Status
  | running
  | waits
  | error
  | left
  deriving DecidableEq

/-- What a round of the menu meets besides its input: the arrays of the functions as they were
before, the datagram that `recvfrom` delivers unless it fails, and the result of `setsockopt`. -/
structure Round where
  username : CharArray USERNAME_SIZE
  /-- The array of `send_msg`. -/
  message : CharArray 100
  msg : CharArray BUFFER_SIZE
  /-- The arrays of `send_p2p` and of `send_multicast`. -/
  line : CharArray BUFFER_SIZE
  response : CharArray BUFFER_SIZE
  /-- The arrays of `create_group_multicast`. -/
  name : CharArray 16
  create : CharArray (BUFFER_SIZE + 17)
  /-- The arrays of `connect_multicast`. -/
  group_name : CharArray GROUP_SIZE
  connect : CharArray (BUFFER_SIZE + GROUP_SIZE + 1)
  send : CharArray (BUFFER_SIZE + 100)
  received : Option Bytes
  setsockopt : Int

/-- A round over zeroed arrays. -/
def Round.blank (received : Option Bytes) : Round where
  username := .ofBytes _ []
  message := .ofBytes _ []
  msg := .ofBytes _ []
  line := .ofBytes _ []
  response := .ofBytes _ []
  name := .ofBytes _ []
  create := .ofBytes _ []
  group_name := .ofBytes _ []
  connect := .ofBytes _ []
  send := .ofBytes _ []
  received := received
  setsockopt := 0

/-- A client at its terminal: its globals, the variable of the menu, the input that is left, and
what it has done. -/
structure Process where
  globals : Client
  username : CString USERNAME_SIZE
  option : BitVec 32
  stdin : Bytes
  done : List Effect
  deriving DecidableEq

/-- `recvfrom` into an array. `none` where it fails or delivers nothing. -/
def receive {size : Nat} (array : CharArray size) (received : Option Bytes) :
    Result (Option (CharArray size)) :=
  let datagram := (received.getD []).take BUFFER_SIZE
  if datagram = [] then return none
  else if datagram.length ≤ size then
    return some (CharArray.ofBytes size (datagram ++ array.bytes.drop datagram.length))
  else throw .overflow

/-- The array of a request behind its `snprintf`. -/
def Call.array (call : Call) (size : Nat) : CharArray size :=
  CharArray.ofBytes size (snprintf call.buffer call.text)

namespace Process

def does (process : Process) (effects : List Effect) : Process :=
  { process with done := process.done ++ effects }

def reads (process : Process) (stdin : Bytes) : Process := { process with stdin }

def becomes (process : Process) (globals : Client) : Process := { process with globals }

def prints (process : Process) (literal : String) : Process :=
  process.does [.print (text literal)]

def send_msg (process : Process) (round : Round) : Result (Process × Status) := do
  let process := process.prints "Send message to: "
  let (username, stdin) ← scanf_word round.username process.stdin
  let username ← username.string
  match skip_line stdin with
  | none => return (process, .waits)
  | some stdin => do
    let process := process.prints "Message: "
    let (message, stdin) ← scanf_line round.message stdin
    let string ← message.string
    let call := Call.send_msg (username.cut 10) string round.msg
    let process := (process.reads stdin).does [.request call.datagram]
    match ← receive message round.received with
    | none => return (process.prints "ERROR: Lost connection with the server...\n\n", .error)
    | some message => do
      let message ← message.string
      return (process.does [.print message.bytes], .running)

/-- A `recvfrom` that fails is reported, and the array is scanned all the same. -/
def send_p2p (process : Process) (round : Round) : Result (Process × Status) := do
  let (call, stdin) ← rc_project.client.send_p2p round.username round.msg process.stdin
  let process := (process.prints "Send message to: ").reads stdin
  let process := process.does [.request call.datagram]
  let received ← receive round.response round.received
  let process :=
    if received = none then process.prints "Error contacting the server...\n" else process
  let response ← (received.getD round.response).string
  match ← scan_p2p response.bytes with
  | none => return (process.prints "Something went wrong...\n", .running)
  | some (_, ip, port) =>
    match skip_line process.stdin with
    | none => return (process, .waits)
    | some stdin => do
      let process := process.prints "Message: "
      let (message, stdin) ← scanf_line round.line stdin
      return ((process.reads stdin).does [
        .print (text "Send to " ++ ip ++ text ":" ++ format_int port ++ text "\n"),
        .p2p message ⟨inet_addr ip, htons port⟩], .running)

def create_group_multicast (process : Process) (round : Round) : Result (Process × Status) := do
  let process := process.prints "Create group name: "
  match ← read_group_name round.name process.stdin with
  | none => return (process, .waits)
  | some (group_name, stdin) => do
    let call := Call.create_group_multicast group_name round.create
    let process := (process.reads stdin).does [.request call.datagram]
    match ← receive (call.array (BUFFER_SIZE + 17)) round.received with
    | none => return (process.prints "Error contacting the server...\n", .running)
    | some message => do
      let message ← message.string
      return (process.does [.print message.bytes], .running)

def connect_multicast (process : Process) (round : Round) : Result (Process × Status) := do
  let process := process.prints "Connect to group: "
  match ← read_group_name round.group_name process.stdin with
  | none => return (process, .waits)
  | some (group_name, stdin) => do
    let call := Call.connect_multicast group_name round.connect
    let process := (process.reads stdin).does [.request call.datagram]
    match ← receive (call.array (BUFFER_SIZE + GROUP_SIZE + 1)) round.received with
    | none => return (process.prints "Error contacting the server...\n", .running)
    | some message => do
      let message ← message.string
      if starts_with message.bytes (text "Multicast IP") then
        match ← scan_multicast message.bytes with
        | none => return (process.prints "Something went wrong...\n", .running)
        | some ip => do
          let globals ← process.globals.answered round.setsockopt (some (group_name, ip))
          let process := process.becomes globals
          if round.setsockopt < 0 then
            return (process.prints "Couldn't add membership to the multicast socket\n", .running)
          else
            return (process.does [.print (text "Multicast IP: " ++ ip ++ text "\n")], .running)
      else return (process.does [.print message.bytes], .running)

def send_multicast (process : Process) (round : Round) : Result (Process × Status) := do
  if process.globals.multicast_ip = INVALID_GROUP then
    return (process.prints "You are not in a group\n", .running)
  else do
    let current_group ← process.globals.current_group.string
    let process := process.does [
      .print (text "Write message [" ++ current_group.bytes ++ text "]: ")]
    match skip_line process.stdin with
    | none => return (process, .waits)
    | some stdin => do
      let (message, stdin) ← scanf_line round.line stdin
      let message ← message.string
      let send := snprintf round.send.bytes (text "[GROUP " ++ current_group.bytes ++ text "] " ++
        process.username.bytes ++ text " : " ++ message.bytes)
      return ((process.reads stdin).does [
        .multicast (send.take BUFFER_SIZE) process.globals.multicast_addr], .running)

/-- `scanf("%d", &option)`. Without a number the variable keeps its value, and only a sign is
consumed. -/
def scanf_int (option : BitVec 32) (stdin : Bytes) : BitVec 32 × Bytes :=
  let input := stdin.dropWhile isspace
  match scan_int input with
  | some (value, rest) => (value, rest)
  | none => (option, if input.head? = some 45 ∨ input.head? = some 43 then input.tail else input)

def menu : String :=
  "Menu:\n\t1 - Send message via Server\n\t2 - Send message via P2P\n" ++
  "\t3 - Create multicast group\n\t4 - Connect to multicast group\n" ++
  "\t5 - Send message to multicast group\n\t0 - Exit\nChoose an option:\n"

/-- The `switch` of `options`. -/
def choose (process : Process) (round : Round) : Result (Process × Status) :=
  if process.option = 1 then process.send_msg round
  else if process.option = 2 then process.send_p2p round
  else if process.option = 3 then process.create_group_multicast round
  else if process.option = 4 then process.connect_multicast round
  else if process.option = 5 then process.send_multicast round
  else if process.option = 0 then return (process.prints "Leaving\n", .left)
  else return (process.prints "Option not found\n", .running)

/-- A round of the loop of `options`. -/
def round (process : Process) (round : Round) : Result (Process × Status) :=
  let process := process.prints menu
  match skip_line process.stdin with
  | none => return (process, .waits)
  | some stdin =>
    let (option, stdin) := scanf_int process.option stdin
    { process.reads stdin with option }.choose round

/-- The loop of `options`, for as many rounds as the list has. -/
def options (process : Process) : List Round → Result (Process × Status)
  | [] => return (process, .running)
  | first :: rounds => do
    match ← process.round first with
    | (process, .running) => process.options rounds
    | (process, status) => return (process, status)

end Process

/-- What `main` meets besides its input: the array of `authenticate` and the uninitialised variable
of the menu, the three datagrams that are read at a login, and the rounds of the menu. -/
structure Start where
  message : CharArray BUFFER_SIZE
  option : BitVec 32
  login : Option Bytes
  port : Option Bytes
  permissions : Option Bytes
  rounds : List Round

/-- `main` behind its sockets: `authenticate`, and `options` behind a login. -/
def main (start : Start) (stdin : Bytes) : Result (Process × Status) := do
  let (username, stdin) ← scanf_word (.ofBytes USERNAME_SIZE []) stdin
  let (password, stdin) ← scanf_word (.ofBytes PASSWORD_SIZE []) stdin
  let username ← username.string
  let password ← password.string
  let call := Call.authenticate username password start.message
  let process : Process := {
    globals := .initial, username, option := start.option, stdin
    done := [.print (text "Login menu:\nUsername: Password: "), .request call.datagram] }
  match ← receive (call.array BUFFER_SIZE) start.login with
  | none => return (process.prints "ERROR: Error contacting the server...\n\n", .error)
  | some message => do
    let string ← message.string
    let process := process.does [.print string.bytes]
    if strcmp string.bytes (text "Login successfully\n") = 0 then
      match ← receive message start.port with
      | none => return (process.prints "ERROR: Error contacting the server...\n\n", .error)
      | some message => do
        let string ← message.string
        match ← sscanf string.bytes [.int] with
        | [.int message_port] => do
          let globals := { process.globals with stage := .menu, message_port }
          let process := (process.becomes globals).does [.bind (htons message_port)]
          match ← receive message start.permissions with
          | none => return (process.prints "ERROR: Error contacting the server...\n\n", .error)
          | some message => do
            let string ← message.string
            (process.does [.print string.bytes]).options start.rounds
        | _ =>
          let process := process.does [.bind (htons process.globals.message_port)]
          return (process.prints "ERROR: Something went wrong...\n\n", .error)
    else return (process, .left)

end rc_project.client
