import Mathlib.Logic.Function.Basic
import Mathlib.Logic.Relation

namespace rc_project.request_reply

/-- Clients that send requests to one server, and the replies that they read. A step may
depend on more than what it is shown with here. -/
structure Protocol (ι σ κ ρ τ : Type) where
  /-- The client waits for a reply. -/
  receiving : κ → Prop
  asks : κ → ρ → κ → Prop
  reads : κ → τ → κ → Prop
  /-- A step of a client that neither sends nor receives. -/
  moves : κ → κ → Prop
  /-- The server takes a request, and what it replies to each client. -/
  serves : σ → ι → ρ → σ → (ι → List τ) → Prop
  /-- A step of the server that takes no request of a client. -/
  turns : σ → σ → (ι → List τ) → Prop

/-- The server and its clients, between them channels that lose nothing and keep the
order: the requests that are not served and the replies that are not read yet. -/
structure Network (ι σ κ ρ τ : Type) where
  state : σ
  clients : ι → κ
  requests : ι → List ρ
  replies : ι → List τ

namespace Protocol

variable {ι σ κ ρ τ : Type} (protocol : Protocol ι σ κ ρ τ)

/-- A client reads exactly these replies, and then waits for none. -/
def Reads : κ → List τ → Prop
  | client, [] => ¬ protocol.receiving client
  | client, reply :: replies => protocol.receiving client ∧
      (∃ next, protocol.reads client reply next) ∧
      ∀ next, protocol.reads client reply next → Reads next replies

/-- One step of one of the parties. -/
inductive Step [DecidableEq ι] (net : Network ι σ κ ρ τ) : Network ι σ κ ρ τ → Prop
  | ask (i : ι) (request : ρ) (client : κ) (hasks : protocol.asks (net.clients i) request client) :
    Step net { net with
      clients := Function.update net.clients i client
      requests := Function.update net.requests i (net.requests i ++ [request]) }
  | read (i : ι) (reply : τ) (rest : List τ) (client : κ) (hreplies : net.replies i = reply :: rest)
    (hreads : protocol.reads (net.clients i) reply client) :
    Step net { net with
      clients := Function.update net.clients i client
      replies := Function.update net.replies i rest }
  | move (i : ι) (client : κ) (hmoves : protocol.moves (net.clients i) client) :
    Step net { net with clients := Function.update net.clients i client }
  | serve (i : ι) (request : ρ) (rest : List ρ) (state : σ) (replies : ι → List τ)
    (hrequests : net.requests i = request :: rest)
    (hserves : protocol.serves net.state i request state replies) :
    Step net { net with
      state
      requests := Function.update net.requests i rest
      replies := fun j => net.replies j ++ replies j }
  | turn (state : σ) (replies : ι → List τ) (hturns : protocol.turns net.state state replies) :
    Step net { net with state, replies := fun j => net.replies j ++ replies j }

/-- What keeps the two sides in step: a client sends one request and then waits for its
replies, and a request is answered with exactly the replies that its client reads. -/
structure Matches (Inv : σ → Prop) (Awaits : κ → ρ → Prop) : Prop where
  asks : ∀ client request next, protocol.asks client request next →
    ¬ protocol.receiving client ∧ Awaits next request
  awaits : ∀ client request, Awaits client request → protocol.receiving client
  moves : ∀ client next, protocol.moves client next →
    ¬ protocol.receiving client ∧ ¬ protocol.receiving next
  serves : ∀ state i client request next replies, Inv state → Awaits client request →
    protocol.serves state i request next replies →
      Inv next ∧ protocol.Reads client (replies i) ∧ ∀ j, j ≠ i → replies j = []
  turns : ∀ state next replies, Inv state → protocol.turns state next replies →
    Inv next ∧ ∀ j, replies j = []

/-- A client either waits for its request to be served, or for just the replies that
are under way. -/
inductive InStep (Awaits : κ → ρ → Prop) (client : κ) : List ρ → List τ → Prop
  | asked (request : ρ) (hawaits : Awaits client request) : InStep Awaits client [request] []
  | reads (replies : List τ) (hreads : protocol.Reads client replies) :
    InStep Awaits client [] replies

section Rules

variable {protocol} {Inv : σ → Prop} {Awaits : κ → ρ → Prop} {client next : κ}
  {requests : List ρ} {replies : List τ}

/-- A client that does not wait has nothing left to read. -/
theorem Reads.eq_nil (h : protocol.Reads client replies) (hidle : ¬ protocol.receiving client) :
    replies = [] := by
  cases replies with
  | nil => rfl
  | cons reply replies => exact absurd h.1 hidle

/-- A client that does not wait has empty channels. -/
theorem InStep.idle (hmatches : protocol.Matches Inv Awaits)
    (h : protocol.InStep Awaits client requests replies) (hidle : ¬ protocol.receiving client) :
    requests = [] ∧ replies = [] := by
  cases h with
  | asked request hawaits => exact absurd (hmatches.awaits _ _ hawaits) hidle
  | reads _ hreads => exact ⟨rfl, hreads.eq_nil hidle⟩

/-- A client that waits has its request or a reply under way. -/
theorem InStep.receiving (h : protocol.InStep Awaits client requests replies)
    (hreceiving : protocol.receiving client) : requests ≠ [] ∨ replies ≠ [] := by
  cases h with
  | asked request hawaits => exact Or.inl (List.cons_ne_nil _ _)
  | reads _ hreads =>
    right
    rintro rfl
    exact hreads hreceiving

/-- A client that does not wait may become any other that does not. -/
theorem InStep.move (hmatches : protocol.Matches Inv Awaits)
    (h : protocol.InStep Awaits client requests replies) (hidle : ¬ protocol.receiving client)
    (hnext : ¬ protocol.receiving next) : protocol.InStep Awaits next requests replies := by
  obtain ⟨rfl, rfl⟩ := h.idle hmatches hidle
  exact .reads [] hnext

theorem InStep.ask (hmatches : protocol.Matches Inv Awaits)
    (h : protocol.InStep Awaits client requests replies) {request : ρ}
    (hasks : protocol.asks client request next) :
    protocol.InStep Awaits next (requests ++ [request]) replies := by
  obtain ⟨hidle, hawaits⟩ := hmatches.asks _ _ _ hasks
  obtain ⟨rfl, rfl⟩ := h.idle hmatches hidle
  exact .asked request hawaits

theorem InStep.read {reply : τ} (h : protocol.InStep Awaits client requests (reply :: replies))
    (hreads : protocol.reads client reply next) :
    protocol.InStep Awaits next requests replies := by
  cases h with
  | reads _ hall => exact .reads replies (hall.2.2 next hreads)

/-- The first request is the only one, and its replies find an empty channel. -/
theorem InStep.request {request : ρ}
    (h : protocol.InStep Awaits client (request :: requests) replies) :
    Awaits client request ∧ requests = [] ∧ replies = [] := by
  cases h with
  | asked _ hawaits => exact ⟨hawaits, rfl, rfl⟩

end Rules

section Networks

variable {protocol} {Inv : σ → Prop} {Awaits : κ → ρ → Prop} {net next last : Network ι σ κ ρ τ}

/-- Every client is in step, with its channels. -/
structure AllInStep (Inv : σ → Prop) (Awaits : κ → ρ → Prop) (net : Network ι σ κ ρ τ) : Prop where
  inv : Inv net.state
  clients : ∀ i, protocol.InStep Awaits (net.clients i) (net.requests i) (net.replies i)

theorem Step.allInStep [DecidableEq ι] (hmatches : protocol.Matches Inv Awaits)
    (h : protocol.AllInStep Inv Awaits net) (hstep : protocol.Step net next) :
    protocol.AllInStep Inv Awaits next := by
  cases hstep with
  | ask i request client hasks =>
    refine ⟨h.inv, fun j => ?_⟩
    by_cases hj : j = i
    · subst hj
      simpa using (h.clients j).ask hmatches hasks
    · simpa [hj] using h.clients j
  | read i reply rest client hreplies hreads =>
    refine ⟨h.inv, fun j => ?_⟩
    by_cases hj : j = i
    · subst hj
      have hin := h.clients j
      rw [hreplies] at hin
      simpa using hin.read hreads
    · simpa [hj] using h.clients j
  | move i client hmoves =>
    obtain ⟨hidle, hnext⟩ := hmatches.moves _ _ hmoves
    refine ⟨h.inv, fun j => ?_⟩
    by_cases hj : j = i
    · subst hj
      simpa using (h.clients j).move hmatches hidle hnext
    · simpa [hj] using h.clients j
  | serve i request rest state replies hrequests hserves =>
    have hin := h.clients i
    rw [hrequests] at hin
    obtain ⟨hawaits, rfl, hempty⟩ := hin.request
    obtain ⟨hinv, hreads, hothers⟩ := hmatches.serves _ _ _ _ _ _ h.inv hawaits hserves
    refine ⟨hinv, fun j => ?_⟩
    by_cases hj : j = i
    · subst hj
      simpa [hempty] using InStep.reads _ hreads
    · simpa [hj, hothers j hj] using h.clients j
  | turn state replies hturns =>
    obtain ⟨hinv, hnone⟩ := hmatches.turns _ _ _ h.inv hturns
    refine ⟨hinv, fun j => ?_⟩
    simpa [hnone] using h.clients j

/-- The lock step rule: clients that are in step stay so in every run. -/
theorem AllInStep.run [DecidableEq ι] (hmatches : protocol.Matches Inv Awaits)
    (h : protocol.AllInStep Inv Awaits net)
    (hrun : Relation.ReflTransGen protocol.Step net last) : protocol.AllInStep Inv Awaits last := by
  induction hrun with
  | refl => exact h
  | tail _ hstep ih => exact hstep.allInStep hmatches ih

end Networks

section Waiting

variable {protocol} {Inv : σ → Prop} {Awaits : κ → ρ → Prop} {net next last : Network ι σ κ ρ τ}
  {i : ι} {bound n : Nat}

variable [DecidableEq ι]

variable (protocol) in
/-- A step that brings a client nearer to its last reply. -/
inductive Delivers (i : ι) (net : Network ι σ κ ρ τ) : Network ι σ κ ρ τ → Prop
  | read (reply : τ) (rest : List τ) (client : κ) (hreplies : net.replies i = reply :: rest)
    (hreads : protocol.reads (net.clients i) reply client) :
    Delivers i net { net with
      clients := Function.update net.clients i client
      replies := Function.update net.replies i rest }
  | serve (request : ρ) (rest : List ρ) (state : σ) (replies : ι → List τ)
    (hrequests : net.requests i = request :: rest)
    (hserves : protocol.serves net.state i request state replies) :
    Delivers i net { net with
      state
      requests := Function.update net.requests i rest
      replies := fun j => net.replies j ++ replies j }

variable (protocol) in
/-- A run in which a client waits, with the number of deliveries to it. -/
inductive Waits (i : ι) (net : Network ι σ κ ρ τ) : Nat → Network ι σ κ ρ τ → Prop
  | refl : Waits i net 0 net
  | deliver (n : Nat) (middle last : Network ι σ κ ρ τ) (hwaits : Waits i net n middle)
    (hdelivers : protocol.Delivers i middle last) : Waits i net (n + 1) last
  | other (n : Nat) (middle last : Network ι σ κ ρ τ) (hwaits : Waits i net n middle)
    (hreceiving : protocol.receiving (middle.clients i)) (hstep : protocol.Step middle last) :
    Waits i net n last

theorem Delivers.step (h : protocol.Delivers i net next) : protocol.Step net next := by
  cases h with
  | read reply rest client hreplies hreads => exact .read i reply rest client hreplies hreads
  | serve request rest state replies hrequests hserves =>
    exact .serve i request rest state replies hrequests hserves

theorem Waits.run (h : protocol.Waits i net n last) :
    Relation.ReflTransGen protocol.Step net last := by
  induction h with
  | refl => exact .refl
  | deliver n middle last _ hdelivers ih => exact ih.tail hdelivers.step
  | other n middle last _ _ hstep ih => exact ih.tail hstep

end Waiting

end Protocol

end rc_project.request_reply
