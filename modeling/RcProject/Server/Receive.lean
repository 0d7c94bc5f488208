import RcProject.Client.Main
import RcProject.Server.Datagram

open rc_project.c_string
open rc_project.client (Call)

namespace rc_project.server

/-- The stack around the array `buffer` of `udp_server_worker`: the byte in front of it, and
the block that begins with it. -/
structure Frame where
  front : UInt8
  block : Bytes
  holds_buffer : BUFFER_SIZE ≤ block.length

namespace Frame

/-- A write at an index of `buffer`. -/
def write (frame : Frame) (i : Int) (c : UInt8) : Frame :=
  if i < 0 then { frame with front := c }
  else
    { frame with
      block := frame.block.set i.toNat c
      holds_buffer := by
        rw [List.length_set]
        exact frame.holds_buffer }

/-- What arrives at the front of the array is written into it. -/
theorem le_length_fill (frame : Frame) (datagram : Bytes) :
    BUFFER_SIZE ≤ (datagram.take BUFFER_SIZE ++
      frame.block.drop (datagram.take BUFFER_SIZE).length).length := by
  have hroom := frame.holds_buffer
  have hshort := List.length_take_le BUFFER_SIZE datagram
  rw [List.length_append, List.length_drop]
  omega

/-- The `recvfrom` of `udp_server_worker`, with what it returns: it fails, or it delivers the
first bytes of a datagram. -/
def recvfrom (frame : Frame) : Option Bytes → Frame × Int
  | none => (frame, -1)
  | some datagram =>
    let received := datagram.take BUFFER_SIZE
    ({ frame with
      block := received ++ frame.block.drop received.length
      holds_buffer := frame.le_length_fill datagram }, received.length)

end Frame

/-- The index that `remove_end_line` writes at, if it does. -/
def end_line_write : Bytes → List Nat
  | [] => []
  | c :: rest =>
    if c = 0 then []
    else if c = 13 ∨ c = 10 then [0]
    else (end_line_write rest).map (· + 1)

/-- The loop body of `udp_server_worker` up to the call of `client_cmd_function`: the block
that it hands over, and the indices of `buffer` that it has written. -/
def udp_receive (frame : Frame) (datagram : Option Bytes) : Result (Bytes × List Int) := do
  let (frame, n) := frame.recvfrom datagram
  let frame := frame.write n 0
  let block ← remove_end_line frame.block
  let received := (List.range n.toNat).map Int.ofNat
  return (block, received ++ n :: (end_line_write frame.block).map Int.ofNat)

section Writes

variable {received rest : Bytes}

/-- In front of a terminator, a line end is cut in front of it. -/
theorem end_line_write_lt (received rest : Bytes) :
    ∀ i ∈ end_line_write (received ++ 0 :: rest), i < received.length := by
  induction received with
  | nil => simp [end_line_write]
  | cons c received ih =>
    intro i hi
    rw [List.cons_append, end_line_write] at hi
    split at hi
    · cases hi
    · split at hi
      · rw [List.mem_singleton.mp hi]
        exact Nat.zero_lt_succ _
      · obtain ⟨j, hj, rfl⟩ := List.mem_map.mp hi
        exact Nat.succ_lt_succ (ih j hj)

/-- What `remove_end_line` leaves is the line. -/
theorem cstr_remove_end_line {block left : Bytes} (hleft : remove_end_line block = .ok left) :
    cstr left = line block := by
  by_cases hends : ∃ c ∈ block, endsLine c = true
  · rw [remove_end_line_eq (line_append_of_mem hends []).2, Except.ok.injEq] at hleft
    rw [← hleft]
    exact cstr_append_nul (nul_not_mem_line block) _
  · have hnone : ∀ c ∈ block, endsLine c = false := by simpa using hends
    rw [remove_end_line_error hnone] at hleft
    cases hleft

theorem exists_remove_end_line (received rest : Bytes) :
    ∃ left, remove_end_line (received ++ 0 :: rest) = .ok left ∧ cstr left = line received := by
  have hmem : ∃ c ∈ received ++ 0 :: rest, endsLine c = true :=
    ⟨0, List.mem_append_right _ List.mem_cons_self, by decide⟩
  have hleft := remove_end_line_eq (line_append_of_mem hmem []).2
  exact ⟨_, hleft, (cstr_remove_end_line hleft).trans (line_append_nul received rest)⟩

end Writes

section Receive

variable (frame : Frame)

theorem udp_receive_def (datagram : Option Bytes) : udp_receive frame datagram = (do
    let n := (frame.recvfrom datagram).2
    let frame := (frame.recvfrom datagram).1.write n 0
    let block ← remove_end_line frame.block
    let received := (List.range n.toNat).map Int.ofNat
    return (block, received ++ n :: (end_line_write frame.block).map Int.ofNat)) := rfl

/-- The block behind the terminator, where there is a place for it. -/
theorem Frame.write_recvfrom (datagram : Bytes)
    (hroom : (datagram.take BUFFER_SIZE).length < frame.block.length) :
    ∃ rest, ((frame.recvfrom (some datagram)).1.write (frame.recvfrom (some datagram)).2 0).block =
      datagram.take BUFFER_SIZE ++ 0 :: rest := by
  refine ⟨(frame.block.drop (datagram.take BUFFER_SIZE).length).tail, ?_⟩
  have hnonneg : ¬ ((datagram.take BUFFER_SIZE).length : Int) < 0 := by omega
  have hbehind : frame.block.drop (datagram.take BUFFER_SIZE).length ≠ [] := by
    rw [ne_eq, List.drop_eq_nil_iff]
    omega
  obtain ⟨c, rest, hdrop⟩ := List.exists_cons_of_ne_nil hbehind
  simp only [Frame.recvfrom, Frame.write, if_neg hnonneg, Int.toNat_natCast, hdrop, List.tail_cons]
  rw [List.set_append_right _ _ (Nat.le_refl _), Nat.sub_self]
  rfl

/-- What is delivered in front of a place for the terminator is handed over up to its first
terminator or line end. -/
theorem udp_receive_eq (datagram : Bytes)
    (hroom : (datagram.take BUFFER_SIZE).length < frame.block.length) :
    ∃ (block : Bytes) (ends : List Int), udp_receive frame (some datagram) = .ok (block,
        (List.range (datagram.take BUFFER_SIZE).length).map Int.ofNat ++
          ((datagram.take BUFFER_SIZE).length : Int) :: ends) ∧
      cstr block = line (datagram.take BUFFER_SIZE) ∧
      ∀ i ∈ ends, 0 ≤ i ∧ i < (datagram.take BUFFER_SIZE).length := by
  obtain ⟨rest, hblock⟩ := frame.write_recvfrom datagram hroom
  obtain ⟨left, hleft, hstring⟩ := exists_remove_end_line (datagram.take BUFFER_SIZE) rest
  let ends := (end_line_write (datagram.take BUFFER_SIZE ++ 0 :: rest)).map Int.ofNat
  refine ⟨left, ends, ?_, hstring, ?_⟩
  · simp only [udp_receive_def, hblock, hleft, Result.ok_bind, Result.pure_eq_ok]
    rfl
  · intro i hi
    obtain ⟨j, hj, rfl⟩ := List.mem_map.mp hi
    have hlt := end_line_write_lt _ _ j hj
    exact ⟨Int.natCast_nonneg j, Int.ofNat_lt.mpr hlt⟩

/-- A datagram is received safely: every index that is written lies in the array, and the
string that is handed over is the part of the delivered bytes in front of their first
terminator or line end. -/
def ReceivedSafely (datagram : Option Bytes) : Prop :=
  ∃ block writes, udp_receive frame datagram = .ok (block, writes) ∧
    (∀ i ∈ writes, 0 ≤ i ∧ i < BUFFER_SIZE) ∧
    cstr block = line ((datagram.getD []).take BUFFER_SIZE)

/-- The terminator of what fills the array lies behind it, and the one of nothing in front
of it. -/
theorem ReceivedSafely.fits {datagram : Option Bytes} (h : ReceivedSafely frame datagram) :
    ∃ bytes, datagram = some bytes ∧ bytes.length < BUFFER_SIZE := by
  obtain ⟨block, writes, hreceive, hinside, -⟩ := h
  rw [udp_receive_def] at hreceive
  obtain ⟨left, -, hwrites⟩ := Result.bind_eq_ok_iff.mp hreceive
  obtain ⟨-, rfl⟩ := Prod.mk.inj (Except.ok.inj hwrites)
  have hn : 0 ≤ (frame.recvfrom datagram).2 ∧ (frame.recvfrom datagram).2 < BUFFER_SIZE :=
    hinside _ (List.mem_append_right _ List.mem_cons_self)
  cases datagram with
  | none =>
    simp only [Frame.recvfrom] at hn
    omega
  | some bytes =>
    refine ⟨bytes, rfl, ?_⟩
    simp only [Frame.recvfrom, List.length_take] at hn
    omega

theorem received_safely_of_fits {bytes : Bytes} (hfits : bytes.length < BUFFER_SIZE) :
    ReceivedSafely frame (some bytes) := by
  have hwhole : bytes.take BUFFER_SIZE = bytes := List.take_of_length_le hfits.le
  have hroom : (bytes.take BUFFER_SIZE).length < frame.block.length := by
    rw [hwhole]
    exact hfits.trans_le frame.holds_buffer
  obtain ⟨block, ends, hreceive, hstring, hends⟩ := udp_receive_eq frame bytes hroom
  rw [hwhole] at hreceive hends
  refine ⟨block, _, hreceive, ?_, hstring⟩
  intro i hi
  obtain hi | hi := List.mem_append.mp hi
  · obtain ⟨j, hj, rfl⟩ := List.mem_map.mp hi
    have hlt := List.mem_range.mp hj
    exact ⟨Int.natCast_nonneg j, Int.ofNat_lt.mpr (hlt.trans hfits)⟩
  · obtain rfl | hi := List.mem_cons.mp hi
    · exact ⟨Int.natCast_nonneg _, Int.ofNat_lt.mpr hfits⟩
    · obtain ⟨hlow, hhigh⟩ := hends i hi
      exact ⟨hlow, hhigh.trans (Int.ofNat_lt.mpr hfits)⟩

/-- A datagram is received safely if and only if it is delivered and shorter than the array. -/
theorem received_safely_iff (datagram : Option Bytes) :
    ReceivedSafely frame datagram ↔ ∃ bytes, datagram = some bytes ∧ bytes.length < BUFFER_SIZE := by
  constructor
  · exact ReceivedSafely.fits frame
  · rintro ⟨bytes, rfl, hfits⟩
    exact received_safely_of_fits frame hfits

end Receive

/-- The requests of the clients fill the array. -/
theorem length_datagram (call : Call) : call.datagram.length = BUFFER_SIZE := by
  have hbuffer : BUFFER_SIZE ≤ call.buffer.length := call.le_length_buffer
  have hpos : 0 < call.buffer.length := lt_of_lt_of_le (by decide) hbuffer
  rw [Call.datagram, List.length_take, length_snprintf hpos]
  exact Nat.min_eq_left hbuffer

/-- A request of the client, which no server receives safely. -/
theorem request_not_received_safely : ∃ call : Call, call.text = text "LOGIN ana pw" ∧
    call.datagram.length = BUFFER_SIZE ∧ ∀ frame, ¬ ReceivedSafely frame (some call.datagram) := by
  let username : CString rc_project.client.USERNAME_SIZE := ⟨text "ana", by decide, by decide⟩
  let password : CString rc_project.client.PASSWORD_SIZE := ⟨text "pw", by decide, by decide⟩
  let call := Call.authenticate username password (CharArray.ofBytes _ [])
  refine ⟨call, by decide, length_datagram call, ?_⟩
  intro frame hsafe
  obtain ⟨bytes, hbytes, hfits⟩ := hsafe.fits
  rw [← Option.some.inj hbytes, length_datagram call] at hfits
  exact Nat.lt_irrefl _ hfits

end rc_project.server
