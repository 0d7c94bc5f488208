import RcProject.Server.ServiceClients

open rc_project.avl_tree rc_project.blocks rc_project.c_string rc_project.scanf

namespace rc_project.server

/-- An answer to an admin. -/
def admin_answer (socket : Int) (string : Bytes) : Sent := .admin socket (format_message string)

/-- The account that `cmd_add` creates. The port is what memory held. -/
def new_account (username password ip : Bytes) (port client_server p2p group : BitVec 32) :
    Account where
  username := cstr username
  password := cstr password
  ip := cstr ip
  port := port
  flag
    | .client_server => client_server
    | .p2p => p2p
    | .group => group

namespace Service

/-- The account that has a name. -/
def create (service : Service) (account : Account) : Service :=
  { service with
    accounts := Function.update service.accounts account.username (some service.created)
    account := Function.update service.account service.created account
    created := service.created + 1 }

/-- What an admin command may do. A deleted user may stay: whether it does is not decided by
the accounts but by the place of its node in the tree. -/
inductive Handles (service : Service) (socket : Int) :
    Option (AdminCommand × Bytes) → List Sent → Service → Prop
  | unknown : Handles service socket none [admin_answer socket (text "Command not found\n")] service
  | list (args : Bytes) (names : List Bytes) (hsorted : names.Pairwise fun a b => strcmp a b < 0)
    (hnames : ∀ name, name ∈ names ↔ service.accounts name ≠ none) :
    Handles service socket (some (.LIST, args))
      (names.map fun name => admin_answer socket (text "User: " ++ name ++ text "\n")) service
  | add_usage (args : Bytes) (hargs : ∀ username ip password client_server p2p group,
      sscanf args [.word USERNAME_SIZE, .space, .word INET_ADDRSTRLEN, .space,
        .word PASSWORD_SIZE, .space, .int, .space, .int, .space, .int] ≠
          .ok [.string username, .string ip, .string password, .int client_server, .int p2p,
            .int group]) :
    Handles service socket (some (.ADD, args)) [admin_answer socket (text
      "Invalid usage! Use: ADD <USER-ID> <IP> <PASSWORD> <CLIENT-SERVER> <P2P> <GROUP>\n")] service
  | add_taken (args username ip password : Bytes) (client_server p2p group : BitVec 32)
    (hargs : sscanf args [.word USERNAME_SIZE, .space, .word INET_ADDRSTRLEN, .space,
      .word PASSWORD_SIZE, .space, .int, .space, .int, .space, .int] =
        .ok [.string username, .string ip, .string password, .int client_server, .int p2p,
          .int group]) (htaken : service.accounts (cstr username) ≠ none) :
    Handles service socket (some (.ADD, args)) [admin_answer socket (text "User already exists\n")]
      service
  | added (args username ip password : Bytes) (port client_server p2p group : BitVec 32)
    (hargs : sscanf args [.word USERNAME_SIZE, .space, .word INET_ADDRSTRLEN, .space,
      .word PASSWORD_SIZE, .space, .int, .space, .int, .space, .int] =
        .ok [.string username, .string ip, .string password, .int client_server, .int p2p,
          .int group]) (hnew : service.accounts (cstr username) = none) :
    Handles service socket (some (.ADD, args))
      [admin_answer socket (text "User " ++ username ++ text " created.\n")]
      (service.create (new_account username password ip port client_server p2p group))
  | del_usage (args : Bytes)
    (hargs : ∀ username, sscanf args [.word USERNAME_SIZE] ≠ .ok [.string username]) :
    Handles service socket (some (.DEL, args))
      [admin_answer socket (text "Invalid usage! Use: DEL <USER-ID>\n")] service
  | del_unknown (args username : Bytes)
    (hargs : sscanf args [.word USERNAME_SIZE] = .ok [.string username])
    (hunknown : service.accounts (cstr username) = none) :
    Handles service socket (some (.DEL, args)) [admin_answer socket (text "User not found\n")] service
  | deleted (args username : Bytes) (stays : Bool)
    (hargs : sscanf args [.word USERNAME_SIZE] = .ok [.string username])
    (hknown : service.accounts (cstr username) ≠ none) :
    Handles service socket (some (.DEL, args))
      [admin_answer socket (text "User " ++ username ++ text " deleted.\n")]
      (if stays then service
      else { service with accounts := Function.update service.accounts (cstr username) none })
  | quit (args : Bytes) : Handles service socket (some (.QUIT, args)) [] service

end Service

namespace Memory

variable {memory next : Memory} {u : Nat} {args : Bytes} {socket exit : Int}
  {outputs : List Output}

theorem Added.service_eq (hvalid : memory.Valid) {client : client_t} {written : Bytes}
    (hadded : memory.Added client written next)
    (hnew : ∀ u ∈ memory.users, client.username_string ≠
      (memory.clients.contents u).username_string) :
    next.service = memory.service.create client.toAccount := by
  have hclients : next.clients = memory.clients.alloc client := by rw [hadded.rest]
  have hold (u : Nat) (hu : u ∈ memory.users) :
      next.clients.contents u = memory.clients.contents u := by
    rw [hclients]
    exact memory.clients.alloc_of_lt (hvalid.user_list.allocated u hu)
  have hbrk : next.clients.contents memory.clients.brk = client := by
    rw [hclients]
    exact memory.clients.alloc_self
  have haccounts : next.service.accounts = Function.update memory.service.accounts
      client.username_string (some memory.clients.brk) := by
    funext name
    ext u
    rw [hadded.valid.service_accounts, hadded.mem_users]
    by_cases hname : name = client.username_string
    · rw [hname, Function.update_self, Option.some.injEq]
      constructor
      · rintro ⟨hu | rfl, hsame⟩
        · exact absurd (hold u hu ▸ hsame).symm (hnew u hu)
        · rfl
      · rintro rfl
        exact ⟨Or.inr rfl, by rw [hbrk]⟩
    · rw [Function.update_of_ne hname, hvalid.service_accounts]
      constructor
      · rintro ⟨hu | rfl, hsame⟩
        · exact ⟨hu, hold u hu ▸ hsame⟩
        · exact absurd (hbrk ▸ hsame).symm hname
      · rintro ⟨hu, hsame⟩
        exact ⟨Or.inl hu, (hold u hu).symm ▸ hsame⟩
  have haccount : next.service.account =
      Function.update memory.service.account memory.clients.brk client.toAccount := by
    funext a
    change (next.clients.contents a).toAccount = _
    rw [hclients]
    by_cases ha : a = memory.clients.brk
    · rw [ha, Function.update_self, memory.clients.alloc_self]
    · rw [Function.update_of_ne ha]
      exact congrArg client_t.toAccount (Function.update_of_ne ha _ _)
  calc next.service
      = { next.service with
          accounts := Function.update memory.service.accounts client.username_string
            (some memory.clients.brk)
          account := Function.update memory.service.account memory.clients.brk
            client.toAccount } := by rw [← haccounts, ← haccount]
    _ = memory.service.create client.toAccount := by
        rw [hadded.rest]
        rfl

/-- A deleted user is gone, or it stays and nothing has changed. -/
theorem Removed.service_eq (hvalid : memory.Valid) (hremoved : memory.Removed u next)
    (hu : u ∈ memory.users) : ∃ stays : Bool, next.service = if stays then memory.service else
      { memory.service with
        accounts := Function.update memory.service.accounts
          (memory.clients.contents u).username_string none } := by
  have hclients : next.clients = memory.clients := by rw [hremoved.rest]
  have hmem (name : Bytes) (v : Nat) : next.service.accounts name = some v ↔
      v ∈ next.users ∧ (memory.clients.contents v).username_string = name := by
    rw [hremoved.valid.service_accounts, hclients]
  have hrest (accounts : Bytes → Option Nat) (haccounts : next.service.accounts = accounts) :
      next.service = { memory.service with accounts } := by
    calc next.service
        = { next.service with accounts } := by rw [← haccounts]
      _ = { memory.service with accounts } := by
          rw [hremoved.rest]
          rfl
  by_cases hstays : u ∈ next.users
  · refine ⟨true, hrest memory.service.accounts ?_⟩
    funext name
    ext v
    rw [hmem, hvalid.service_accounts]
    refine and_congr_left fun _ => ⟨fun hv => hremoved.sublist.subset hv, fun hv => ?_⟩
    obtain hnext | rfl := hremoved.others v hv
    · exact hnext
    · exact hstays
  · refine ⟨false, hrest _ ?_⟩
    funext name
    ext v
    rw [hmem]
    by_cases hname : name = (memory.clients.contents u).username_string
    · rw [hname, Function.update_self]
      refine iff_of_false ?_ (by simp)
      rintro ⟨hv, hsame⟩
      exact hstays (hvalid.user_unique (hremoved.sublist.subset hv) hu hsame ▸ hv)
    · rw [Function.update_of_ne hname, hvalid.service_accounts]
      constructor
      · rintro ⟨hv, hsame⟩
        exact ⟨hremoved.sublist.subset hv, hsame⟩
      · rintro ⟨hv, hsame⟩
        obtain hnext | rfl := hremoved.others v hv
        · exact ⟨hnext, hsame⟩
        · exact absurd hsame.symm hname

end Memory

end rc_project.server
