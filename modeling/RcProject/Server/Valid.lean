import RcProject.Server.Index
import RcProject.Server.ClientCommands

open rc_project.avl_tree rc_project.blocks rc_project.c_string rc_project.search_tree

namespace rc_project.server

section Orders

/-- The order of the records that `data_cmp` compares. -/
def client_order (a b : client_t) : Int := strcmp a.bytes b.bytes

/-- The order of the sessions that `session_cmp` compares. -/
def session_order (a b : client_session_t) : Int :=
  if strcmp a.ip.bytes b.ip.bytes ≠ 0 then strcmp a.ip.bytes b.ip.bytes else (a.port - b.port).toInt

/-- The order of the groups that `group_cmp` compares. -/
def group_order (a b : group_t) : Int := strcmp a.name.bytes b.name.bytes

theorem data_cmp_eq (clients : Nat → client_t) :
    data_cmp clients = Function.onFun client_order clients := rfl

theorem session_cmp_eq (sessions : Nat → client_session_t) :
    session_cmp sessions = Function.onFun session_order sessions := rfl

theorem group_cmp_eq (group_blocks : Nat → group_t) :
    group_cmp group_blocks = Function.onFun group_order group_blocks := rfl

theorem client_order_lawful : LawfulOn client_order Set.univ := strcmp_lawful client_t.bytes

theorem group_order_lawful : LawfulOn group_order Set.univ :=
  strcmp_lawful fun group : group_t => group.name.bytes

/-- The sessions whose port is one of UDP. -/
def PortInRange : Set client_session_t := {session | session.port.toNat < 65536}

/-- On ports of UDP the difference of two ports does not wrap around. -/
theorem toInt_sub_port {a b : BitVec 32} (ha : a.toNat < 65536) (hb : b.toNat < 65536) :
    (a - b).toInt = (a.toNat : Int) - b.toNat := by
  rw [BitVec.toInt_sub, BitVec.toInt_eq_toNat_of_lt (by omega), BitVec.toInt_eq_toNat_of_lt (by omega)]
  apply Int.bmod_eq_of_le <;> omega

theorem session_order_lawful : LawfulOn session_order PortInRange := by
  have hports : LawfulOn (fun a b : client_session_t => (a.port - b.port).toInt) PortInRange :=
    (LawfulOn.of_key fun session : client_session_t => (session.port.toNat : Int)).congr
      fun a ha b hb => toInt_sub_port ha hb
  have hips : LawfulOn (fun a b : client_session_t => strcmp a.ip.bytes b.ip.bytes) PortInRange :=
    (strcmp_lawful fun session : client_session_t => session.ip.bytes).mono (Set.subset_univ _)
  exact hips.lex hports

theorem client_order_eq_zero_iff {a b : client_t} :
    client_order a b = 0 ↔ a.username_string = b.username_string := strcmp_eq_zero_iff

/-- Only the names matter to the order of the records. -/
theorem client_order_congr {a b a' b' : client_t} (ha : a'.username_string = a.username_string)
    (hb : b'.username_string = b.username_string) : client_order a' b' = client_order a b := by
  calc client_order a' b' = strcmp a'.username_string b'.username_string := (strcmp_cstr _ _).symm
    _ = strcmp a.username_string b.username_string := by rw [ha, hb]
    _ = client_order a b := strcmp_cstr _ _

theorem group_order_eq_zero_iff {a b : group_t} :
    group_order a b = 0 ↔ cstr a.name.bytes = cstr b.name.bytes := strcmp_eq_zero_iff

/-- Two sessions compare equal exactly when their address and port agree, also
for ports outside of UDP. -/
theorem session_order_eq_zero_iff {a b : client_session_t} :
    session_order a b = 0 ↔ cstr a.ip.bytes = cstr b.ip.bytes ∧ a.port = b.port := by
  unfold session_order
  by_cases hip : strcmp a.ip.bytes b.ip.bytes = 0
  · rw [if_neg (by simp [hip])]
    simp only [strcmp_eq_zero_iff.mp hip, true_and]
    rw [← BitVec.toInt_zero, BitVec.toInt_inj, BitVec.sub_eq_iff_eq_add, BitVec.zero_add]
  · rw [if_pos hip]
    constructor
    · intro hzero
      exact absurd hzero hip
    · rintro ⟨hsame, -⟩
      exact absurd (strcmp_eq_zero_iff.mpr hsame) hip

end Orders

/-- The addresses that a tree holds, from left to right. -/
def traversal (T : avl_tree_t Nat) : List Nat := (avl_print_client T id).toOption.getD []

theorem traversal_eq {T : avl_tree_t Nat} {es : List Nat} (hstores : Stores T es) :
    traversal T = es := by
  simp [traversal, avl_print_client_stores hstores, Except.toOption]

namespace Memory

variable (memory : Memory)

/-- The users, the sessions and the groups, each by the address of its block. -/
def users : List Nat := traversal memory.user_list

def userSessions : List Nat := traversal memory.user_session_list

def multicastGroups : List Nat := traversal memory.group_list

/-- What holds of the memory between any two steps. -/
structure Valid (memory : Memory) : Prop where
  user_list : Index client_order Set.univ memory.clients memory.user_list memory.users
  user_session_list : Index session_order PortInRange memory.sessions memory.user_session_list
    memory.userSessions
  group_list : Index group_order Set.univ memory.group_blocks memory.group_list
    memory.multicastGroups
  addressed : ∀ t ∈ memory.userSessions, (memory.sessions.contents t).Addressed
  bound : ∀ t ∈ memory.userSessions, (memory.sessions.contents t).logged_in ≠ 0 →
    ∃ record < memory.clients.brk, (memory.sessions.contents t).client = some record
  /-- The groups have the first addresses of the pool, each one of them. -/
  pool : (memory.multicastGroups.map fun g => cstr (memory.group_blocks.contents g).ip.bytes).Perm
    (groups.take memory.current_group)
  pool_bound : memory.current_group ≤ max_groups

end Memory

end rc_project.server
