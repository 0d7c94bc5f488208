import RcProject.Library.CString

open rc_project.c_string

namespace rc_project.server

def BUFFER_SIZE : Nat := 1000
def USERNAME_SIZE : Nat := 16
def PASSWORD_SIZE : Nat := 32
def INET_ADDRSTRLEN : Nat := 16
def MAX_GROUP_NAME : Nat := 16

/-- `struct client`: the record of a user. -/
@[ext] structure client_t where
  username : CharArray USERNAME_SIZE
  password : CharArray PASSWORD_SIZE
  ip : CharArray INET_ADDRSTRLEN
  port : BitVec 32
  client_server : BitVec 32
  p2p : BitVec 32
  group : BitVec 32
  deriving DecidableEq, Repr

/-- An `int` in memory, least significant byte first. -/
def int_bytes (value : BitVec 32) : Bytes :=
  [UInt8.ofNat value.toNat, UInt8.ofNat (value.toNat / 256), UInt8.ofNat (value.toNat / 65536),
    UInt8.ofNat (value.toNat / 16777216)]

def int_of_bytes (memory : Bytes) : BitVec 32 :=
  BitVec.ofNat 32 ((memory.getD 0 0).toNat + 256 * (memory.getD 1 0).toNat +
    65536 * (memory.getD 2 0).toNat + 16777216 * (memory.getD 3 0).toNat)

theorem int_of_bytes_append (value : BitVec 32) (rest : Bytes) :
    int_of_bytes (int_bytes value ++ rest) = value := by
  apply BitVec.eq_of_toNat_eq
  have hbound := value.isLt
  simp [int_of_bytes, int_bytes]
  omega

theorem int_bytes_of_bytes {memory : Bytes} (hlength : 4 ≤ memory.length) :
    int_bytes (int_of_bytes memory) = memory.take 4 := by
  obtain ⟨a, b, c, d, rest, rfl⟩ : ∃ a b c d rest, memory = a :: b :: c :: d :: rest := by
    rcases memory with _ | ⟨a, _ | ⟨b, _ | ⟨c, _ | ⟨d, rest⟩⟩⟩⟩
    case cons.cons.cons.cons => exact ⟨a, b, c, d, rest, rfl⟩
    all_goals simp at hlength
  have ha := a.toNat_lt
  have hb := b.toNat_lt
  have hc := c.toNat_lt
  have hd := d.toNat_lt
  have hvalue : (int_of_bytes (a :: b :: c :: d :: rest)).toNat =
      a.toNat + 256 * b.toNat + 65536 * c.toNat + 16777216 * d.toNat := by
    simp [int_of_bytes]
    omega
  simp only [int_bytes, hvalue, List.take_succ_cons, List.take_zero, List.cons.injEq, and_true]
  refine ⟨?_, ?_, ?_, ?_⟩ <;> apply UInt8.toNat_inj.mp <;> rw [UInt8.toNat_ofNat'] <;> omega

namespace client_t

/-- The four integers at the end of a record. -/
def ints (client : client_t) : Bytes :=
  int_bytes client.port ++ int_bytes client.client_server ++ int_bytes client.p2p ++
    int_bytes client.group

/-- The bytes of a record in memory. There is no padding between its fields. -/
def bytes (client : client_t) : Bytes :=
  client.username.bytes ++ client.password.bytes ++ client.ip.bytes ++ client.ints

/-- The string at `client->username`. Without a terminator inside its array it
runs on into the fields behind. -/
def username_string (client : client_t) : Bytes := cstr client.bytes

def password_string (client : client_t) : Bytes := cstr (client.bytes.drop USERNAME_SIZE)

def ip_string (client : client_t) : Bytes :=
  cstr (client.bytes.drop (USERNAME_SIZE + PASSWORD_SIZE))

theorem ip_string_eq (client : client_t) :
    client.ip_string = cstr (client.ip.bytes ++ client.ints) := by
  have harrays : (client.username.bytes ++ client.password.bytes).length =
      USERNAME_SIZE + PASSWORD_SIZE := by
    simp only [List.length_append, client.username.length_eq, client.password.length_eq]
  rw [ip_string, bytes, List.append_assoc, List.drop_left' harrays]

/-- An address that fits its array is terminated inside it. -/
theorem nul_mem_ip (client : client_t) (hfits : client.ip_string.length < INET_ADDRSTRLEN) :
    0 ∈ client.ip.bytes := by
  by_contra hnul
  have hlength : (cstr client.ip.bytes).length = INET_ADDRSTRLEN := by
    rw [cstr_eq_self hnul, client.ip.length_eq]
  have hprefix : cstr client.ip.bytes <+: client.ip_string := by
    rw [ip_string_eq, cstr_append_of_not_mem hnul, cstr_eq_self hnul]
    exact List.prefix_append _ _
  have := hprefix.length_le
  omega

/-- Where the address is terminated, the name does not reach the port. -/
theorem username_string_port (client : client_t) (hnul : 0 ∈ client.ip.bytes) (port : BitVec 32) :
    { client with port }.username_string = client.username_string := by
  have hmem : 0 ∈ client.username.bytes ++ client.password.bytes ++ client.ip.bytes :=
    List.mem_append_right _ hnul
  rw [username_string, username_string, bytes, bytes, cstr_append_of_mem hmem, cstr_append_of_mem hmem]

/-- A record as it is read from memory. -/
def ofBytes (memory : Bytes) : client_t where
  username := CharArray.ofBytes _ memory
  password := CharArray.ofBytes _ (memory.drop 16)
  ip := CharArray.ofBytes _ (memory.drop 48)
  port := int_of_bytes (memory.drop 64)
  client_server := int_of_bytes (memory.drop 68)
  p2p := int_of_bytes (memory.drop 72)
  group := int_of_bytes (memory.drop 76)

/-- `sizeof(client_t)` -/
def size : Nat := 80

theorem length_bytes (client : client_t) : client.bytes.length = size := by
  simp only [bytes, ints, int_bytes, List.length_append, client.username.length_eq,
    client.password.length_eq, client.ip.length_eq]
  rfl

/-- What lies behind the character arrays of a record. -/
theorem drop_arrays (client : client_t) (rest : Bytes) :
    (client.bytes ++ rest).drop 64 = client.ints ++ rest := by
  have harrays : (client.username.bytes ++ client.password.bytes ++ client.ip.bytes).length = 64 := by
    simp only [List.length_append, client.username.length_eq, client.password.length_eq,
      client.ip.length_eq]
    rfl
  rw [bytes, List.append_assoc, List.drop_left' harrays]

theorem drop_username (client : client_t) (rest : Bytes) :
    (client.bytes ++ rest).drop 16 =
      client.password.bytes ++ (client.ip.bytes ++ (client.ints ++ rest)) := by
  have husername : client.username.bytes.length = 16 := client.username.length_eq
  simp only [bytes, List.append_assoc]
  exact List.drop_left' husername

theorem drop_password (client : client_t) (rest : Bytes) :
    (client.bytes ++ rest).drop 48 = client.ip.bytes ++ (client.ints ++ rest) := by
  have hpassword : client.password.bytes.length = 32 := client.password.length_eq
  calc (client.bytes ++ rest).drop 48
      = ((client.bytes ++ rest).drop 16).drop 32 := by rw [List.drop_drop]
    _ = client.ip.bytes ++ (client.ints ++ rest) := by
        rw [drop_username, List.drop_left' hpassword]

/-- Reading a record back gives the record that was written. -/
theorem ofBytes_append (client : client_t) (rest : Bytes) :
    ofBytes (client.bytes ++ rest) = client := by
  have hints (n : Nat) : (client.bytes ++ rest).drop (64 + n) = (client.ints ++ rest).drop n := by
    rw [← List.drop_drop, drop_arrays]
  ext1
  · simp only [ofBytes, bytes, List.append_assoc, CharArray.ofBytes_append]
  · simp only [ofBytes, drop_username, CharArray.ofBytes_append]
  · simp only [ofBytes, drop_password, CharArray.ofBytes_append]
  · exact (congrArg int_of_bytes (hints 0)).trans (by simp [ints, int_of_bytes_append])
  · exact (congrArg int_of_bytes (hints 4)).trans (by
      simp only [ints, List.append_assoc]
      exact int_of_bytes_append ..)
  · exact (congrArg int_of_bytes (hints 8)).trans (by
      simp only [ints, List.append_assoc]
      exact int_of_bytes_append ..)
  · exact (congrArg int_of_bytes (hints 12)).trans (by
      simp only [ints, List.append_assoc]
      exact int_of_bytes_append ..)

/-- A whole record in memory has the bytes that it is read from. -/
theorem bytes_ofBytes {memory : Bytes} (hlength : client_t.size ≤ memory.length) :
    (client_t.ofBytes memory).bytes = memory.take client_t.size := by
  have hsize : 80 ≤ memory.length := hlength
  have harray (n size : Nat) (hfits : n + size ≤ 80) :
      (CharArray.ofBytes size (memory.drop n)).bytes = (memory.drop n).take size := by
    apply CharArray.bytes_ofBytes
    rw [List.length_drop]
    omega
  have hint (n : Nat) (hfits : n + 4 ≤ 80) :
      int_bytes (int_of_bytes (memory.drop n)) = (memory.drop n).take 4 := by
    apply int_bytes_of_bytes
    rw [List.length_drop]
    omega
  have husername : (CharArray.ofBytes USERNAME_SIZE memory).bytes = memory.take 16 :=
    harray 0 16 (by decide)
  have hpassword := harray 16 PASSWORD_SIZE (by decide)
  have hip := harray 48 INET_ADDRSTRLEN (by decide)
  have happend (i j : Nat) : memory.take (i + j) = memory.take i ++ (memory.drop i).take j :=
    List.take_add
  calc (client_t.ofBytes memory).bytes
      = memory.take 16 ++ (memory.drop 16).take 32 ++ (memory.drop 48).take 16 ++
          ((memory.drop 64).take 4 ++ (memory.drop 68).take 4 ++ (memory.drop 72).take 4 ++
            (memory.drop 76).take 4) := by
        simp only [client_t.bytes, client_t.ints, client_t.ofBytes, husername, hpassword, hip]
        rw [hint 64 (by decide), hint 68 (by decide), hint 72 (by decide), hint 76 (by decide)]
        rfl
    _ = memory.take 80 := by
        rw [happend 76 4, happend 72 4, happend 68 4, happend 64 4, happend 48 16, happend 16 32]
        simp only [List.append_assoc]

end client_t

/-- `new_client`: the fields of a fresh block are filled in. The port is left as
the block had it, and so are the bytes behind the strings. -/
def new_client (block : client_t) (username password ip : Bytes)
    (client_server p2p group : BitVec 32) : Result client_t := do
  let username ← strcpy block.username username
  let password ← strcpy block.password password
  let ip ← strcpy block.ip ip
  return { block with username, password, ip, client_server, p2p, group }

section NewClient

variable {block client : client_t} {username password ip : Bytes} {client_server p2p group : BitVec 32}

theorem new_client_eq_ok_iff :
    new_client block username password ip client_server p2p group = .ok client ↔
      ∃ username' password' ip', strcpy block.username username = .ok username' ∧
        strcpy block.password password = .ok password' ∧ strcpy block.ip ip = .ok ip' ∧
        client = { block with
          username := username', password := password', ip := ip', client_server, p2p, group } := by
  simp only [new_client, Result.bind_eq_ok_iff, Result.pure_eq_ok, Except.ok.injEq]
  constructor
  · rintro ⟨u, hu, p, hp, i, hi, rfl⟩
    exact ⟨u, p, i, hu, hp, hi, rfl⟩
  · rintro ⟨u, p, i, hu, hp, hi, rfl⟩
    exact ⟨u, hu, p, hp, i, hi, rfl⟩

/-- A name that fits is enough where the other strings are empty. -/
theorem exists_new_client (block : client_t) (hfits : (cstr username).length < USERNAME_SIZE)
    (client_server p2p group : BitVec 32) :
    ∃ client, new_client block username [] [] client_server p2p group = .ok client := by
  obtain ⟨username', husername⟩ := exists_strcpy block.username hfits
  obtain ⟨password', hpassword⟩ :=
    exists_strcpy block.password (show (cstr []).length < PASSWORD_SIZE by decide)
  obtain ⟨ip', hip⟩ := exists_strcpy block.ip (show (cstr []).length < INET_ADDRSTRLEN by decide)
  exact ⟨_, new_client_eq_ok_iff.mpr ⟨_, _, _, husername, hpassword, hip, rfl⟩⟩

theorem username_fits_of_new_client
    (hnew : new_client block username password ip client_server p2p group = .ok client) :
    (cstr username).length < USERNAME_SIZE := by
  obtain ⟨_, _, _, husername, -⟩ := new_client_eq_ok_iff.mp hnew
  exact (strcpy_eq_ok_iff.mp husername).1

/-- A new record is known by the name it was given. -/
theorem username_string_of_new_client
    (hnew : new_client block username password ip client_server p2p group = .ok client) :
    client.username_string = cstr username := by
  obtain ⟨_, _, _, husername, -, -, rfl⟩ := new_client_eq_ok_iff.mp hnew
  rw [client_t.username_string, client_t.bytes, List.append_assoc, List.append_assoc,
    cstr_append_of_mem (nul_mem_of_strcpy husername), cstr_of_strcpy husername]

end NewClient

/-- `struct in_addr` in network order. -/
structure in_addr where
  a : UInt8
  b : UInt8
  c : UInt8
  d : UInt8
  deriving DecidableEq, Repr

/-- `struct sockaddr_in`, the port in network order. -/
structure sockaddr_in where
  sin_addr : in_addr
  sin_port : BitVec 16
  deriving DecidableEq, Repr

/-- `inet_ntop` for `AF_INET`: the dotted decimal form. -/
def inet_ntop (addr : in_addr) : Bytes :=
  decimal addr.a.toNat ++ text "." ++ decimal addr.b.toNat ++ text "." ++ decimal addr.c.toNat ++
    text "." ++ decimal addr.d.toNat

/-- An address in text fits its array with the terminator. -/
theorem length_inet_ntop_lt (addr : in_addr) : (inet_ntop addr).length < INET_ADDRSTRLEN := by
  have ha := (decimal_of_byte addr.a).1
  have hb := (decimal_of_byte addr.b).1
  have hc := (decimal_of_byte addr.c).1
  have hd := (decimal_of_byte addr.d).1
  have hdot : (text ".").length = 1 := by decide
  simp only [inet_ntop, List.length_append, hdot, INET_ADDRSTRLEN]
  omega

theorem nul_not_mem_inet_ntop (addr : in_addr) : 0 ∉ inet_ntop addr := by
  have hdigit (c : UInt8) : 0 ∉ decimal c.toNat := by
    intro hmem
    exact absurd ((decimal_of_byte c).2 0 hmem).1 (by decide)
  have hdot : 0 ∉ text "." := by decide
  simp [inet_ntop, hdigit, hdot]

@[simp] theorem cstr_inet_ntop (addr : in_addr) : cstr (inet_ntop addr) = inet_ntop addr :=
  cstr_eq_self (nul_not_mem_inet_ntop addr)

/-- `struct client_session`. The client is a pointer into the records. -/
structure client_session_t where
  client : Option Nat
  sock : sockaddr_in
  len : Nat
  ip : CharArray INET_ADDRSTRLEN
  port : BitVec 32
  socket : Int
  logged_in : Int
  deriving DecidableEq, Repr

/-- The address in text and the port of a session are those of its peer. -/
structure client_session_t.Addressed (session : client_session_t) : Prop where
  ip : cstr session.ip.bytes = inet_ntop session.sock.sin_addr
  port : session.port = session.sock.sin_port.setWidth 32

/-- `htons` of an `int`: its low half with the two bytes exchanged. -/
def htons (port : BitVec 32) : BitVec 16 :=
  (port.extractLsb' 0 8) ++ (port.extractLsb' 8 8)

/-- `struct group` -/
structure group_t where
  name : CharArray MAX_GROUP_NAME
  ip : CharArray INET_ADDRSTRLEN
  deriving DecidableEq, Repr

/-- `new_group` -/
def new_group (block : group_t) (name ip : Bytes) : Result group_t := do
  let name ← strcpy block.name name
  let ip ← strcpy block.ip ip
  return { name, ip }

theorem name_of_new_group {block group : group_t} {name ip : Bytes}
    (hnew : new_group block name ip = .ok group) : cstr group.name.bytes = cstr name := by
  obtain ⟨name', hname, hnew⟩ := Result.bind_eq_ok_iff.mp hnew
  obtain ⟨ip', -, hnew⟩ := Result.bind_eq_ok_iff.mp hnew
  cases hnew
  exact cstr_of_strcpy hname

end rc_project.server
