import Thallium.Network.Sessions
import Thallium.Network.UpperLayer
import Thallium.Coordinator

/-!
# A model behind a server (network/server.cpp:64-77, behavior.cpp:7-21, connection.hpp:169-182)

`RunServer` puts a model on top of a server. A message that has been read on a connection is given to the
model, and what the model asks for in turn is done at once, on that connection and on others.

| here | there |
| --- | --- |
| `ServerModel`      | `ServerModel`: `logic`, and what it asks of `lower`, `disconnector` and `stopper` |
| `callOn`, `elsewhere` | `RealConnectionManager::send`, `disconnect`, `AsyncServer::stop` |
| `Served`           | the server, its clients and the model; `clientOf`, `heard` are not in the source |
| `ServedEvent.message` | `when_payload_received` with what `logic` does in it |

An exception that leaves the model ends the loop: then no event of the server comes any more. The read
that the handler would have asked for is there in the model, and never completes.

* `message_serverEnd`, `message_serverEnd_other` — a message, seen from each of the connections.
* `run_inv` — the model has heard what the connections have read, and the connections have queued what it
  has said.
* `conversation` — what a client and the model know of each other, with the network in between.
-/
namespace Thallium.Network
open Message EventRun

/-! ## The model -/

/-- The connection a request is about, and what is asked of it. -/
def callOf : Request → Option (ConnId × Conn.UpperCall)
  | .send connId msg => some (connId, .send msg)
  | .disconnect connId => some (connId, .disconnect)
  | .stop => none

def callOn (connId : ConnId) (r : Request) : Option Conn.UpperCall :=
  (callOf r).bind fun p => if p.1 = connId then some p.2 else none

theorem callOn_eq_some {connId : ConnId} {r : Request} {call : Conn.UpperCall} :
    callOn connId r = some call ↔ callOf r = some (connId, call) := by
  rw [callOn, Option.bind_eq_some_iff]
  constructor
  · rintro ⟨⟨k, call'⟩, hcall, hk⟩
    split at hk
    · rename_i heq
      cases hk
      cases heq
      exact hcall
    · cases hk
  · intro hcall
    exact ⟨(connId, call), hcall, if_pos rfl⟩

/-- The messages among what is asked of a connection. -/
theorem sentTo_eq_filterMap (connId : ConnId) (rs : List Request) :
    sentTo connId rs = (rs.filterMap (callOn connId)).filterMap Conn.UpperCall.message? := by
  rw [List.filterMap_filterMap, sentTo]
  apply List.filterMap_congr
  intro r _
  cases r with
  | send k msg =>
    by_cases hk : k = connId
    · simp [callOn, callOf, hk, Conn.UpperCall.message?]
    · simp [callOn, callOf, hk]
  | disconnect k =>
    by_cases hk : k = connId
    · simp [callOn, callOf, hk, Conn.UpperCall.message?]
    · simp [callOn, callOf, hk]
  | stop => rfl

/-- What is put on top of a server. A call of `receive` is a message on a connection, and what a handler
finds in the memory it does not initialise. -/
structure ServerModel (σ : Type) where
  Call : Type
  connId : Call → ConnId
  bytes : Call → List UInt8
  init : σ
  receive : σ → Call → σ
  /-- All it has asked of the layer below. -/
  requests : σ → List Request
  requests_prefix : ∀ ds d, requests (run receive init ds) <+: requests (receive (run receive init ds) d)
  /-- It answers connections it has heard of only. -/
  addressed : ∀ ds, ∀ r ∈ requests (run receive init ds), ∀ p, callOf r = some p → ∃ d ∈ ds, connId d = p.1

variable {C σ : Type} {m : ServerModel σ}

namespace ServerModel

/-- What it asks for when it is given a message. -/
def asked (m : ServerModel σ) (s : σ) (d : m.Call) : List Request :=
  (m.requests (m.receive s d)).drop (m.requests s).length

theorem requests_receive {s : σ} {ds : List m.Call} (hs : s = run m.receive m.init ds) (d : m.Call) :
    m.requests (m.receive s d) = m.requests s ++ m.asked s d := by
  subst hs
  obtain ⟨rest, hrest⟩ := m.requests_prefix ds d
  rw [asked, ← hrest, List.drop_left]

/-- The messages on one connection. -/
def heardOn (m : ServerModel σ) (connId : ConnId) (ds : List m.Call) : List (List UInt8) :=
  (ds.filter fun d => m.connId d = connId).map m.bytes

theorem heardOn_concat (k : ConnId) (ds : List m.Call) (d : m.Call) :
    m.heardOn k (ds ++ [d]) = m.heardOn k ds ++ if m.connId d = k then [m.bytes d] else [] := by
  rw [heardOn, List.filter_append, List.map_append]
  by_cases hk : m.connId d = k
  · rw [if_pos hk, List.filter_cons_of_pos (by simpa using hk)]
    rfl
  · rw [if_neg hk, List.filter_cons_of_neg (by simpa using hk)]
    rfl

/-- Nothing is asked of a connection it has not heard of. -/
theorem filterMap_callOn_unheard {ds : List m.Call} {k : ConnId} (h : ∀ d ∈ ds, m.connId d ≠ k) :
    (m.requests (run m.receive m.init ds)).filterMap (callOn k) = [] := by
  rw [List.filterMap_eq_nil_iff]
  intro r hr
  cases hcall : callOn k r with
  | none => rfl
  | some call =>
    obtain ⟨d, hd, hk⟩ := m.addressed ds r hr _ (callOn_eq_some.mp hcall)
    exact absurd hk (h d hd)

end ServerModel

/-! ## Model, server and clients -/

structure Served (C : Type) (m : ServerModel σ) where
  sessions : Sessions C
  model : σ
  /-- Whose connection an id is. -/
  clientOf : ConnId → Option C
  /-- The calls of `receive`. -/
  heard : List m.Call

/-- Something happens that the model is not told of, or the server reads a message on the connection of a
client. -/
inductive ServedEvent (C : Type) (m : ServerModel σ) where
  | network (e : SessionEvent C)
  | message (c : C) (i : Nat) (ec : ErrorCode) (data : List UInt8) (call : m.Call)

namespace Served
variable {d : Served C m}

/-- What is asked of other connections than `connId`, and of the server. -/
def elsewhere (clientOf : ConnId → Option C) (connId : ConnId) (r : Request) : Option (SessionEvent C) :=
  match callOf r with
  | none => some .stop
  | some (k, call) =>
    if k = connId then none else (clientOf k).map fun c => .link c (.conn .far (.upper call))

/-- What the network does when the server reads a message on the connection of `c`. -/
def answer (d : Served C m) (c : C) (i : Nat) (ec : ErrorCode) (data : List UInt8) (call : m.Call) :
    List (SessionEvent C) :=
  let asked := m.asked d.model call
  .link c (.conn .far (.readDone i ec data (asked.filterMap (callOn (m.connId call))))) ::
    asked.filterMap (elsewhere d.clientOf (m.connId call))

/-- No event of the far end of a connection that the model would be told of, and nothing is asked but by the
model. -/
def Unnoticed (n : Sessions C) : SessionEvent C → Prop
  | .link c (.conn .far e) => (n.serverEnd c).conn.Quiet e
  | .link _ (.conn .near _) | .link _ (.transmit ..) | .accepted .. | .notAccepted .. => True
  | .stop => False

def Legal (d : Served C m) : ServedEvent C m → Prop
  | .network e => d.sessions.Legal e ∧ Unnoticed d.sessions e
  | .message c i ec data call =>
    (∃ id, d.sessions.session c = some id ∧ id.toBitVec = m.connId call) ∧
      d.sessions.Legal (.link c (.conn .far (.readDone i ec data []))) ∧
      (d.sessions.serverEnd c).conn.given? i ec data = some (m.bytes call)

/-- `RunServer`, and clients that have all connected. -/
def start (m : ServerModel σ) (server : AsyncServer) (kind : C → ConnKind) (clients peer : C → Peer) :
    Served C m where
  sessions := .start server kind clients peer
  model := m.init
  clientOf := fun _ => none
  heard := []

/-! ### What the model and the connections have of each other -/

/-- What the model has heard of a client. -/
def heardFrom (d : Served C m) (c : C) : List (List UInt8) :=
  (d.sessions.session c).elim [] fun id => m.heardOn id.toBitVec d.heard

/-- What it has asked to be sent to a client. -/
def saidTo (d : Served C m) (c : C) : List (List UInt8) :=
  (d.sessions.session c).elim [] fun id => sentTo id.toBitVec (m.requests d.model)

/-- **The invariant.** `kinds` are the classes at the two ends of a connection. -/
structure Inv (kinds : C → Side → ConnKind) (d : Served C m) : Prop where
  sessions : d.sessions.Inv
  links : ∀ c, (d.sessions.link c).Inv (kinds c)
  clientOf : ∀ k c, d.clientOf k = some c ↔ ∃ id, d.sessions.session c = some id ∧ id.toBitVec = k
  model : d.model = run m.receive m.init d.heard
  known : ∀ call ∈ d.heard, ∃ c, d.clientOf (m.connId call) = some c
  heard : ∀ c, (d.sessions.serverEnd c).conn.recv.delivered = d.heardFrom c
  said : ∀ c, (d.sessions.serverEnd c).conn.said = d.saidTo c
  /-- Two messages are never put in the wrong order. -/
  ordered : ∀ c, (d.saidTo c).length ≤ 2 →
    Ordered (d.sessions.serverEnd c).conn.isOpen (d.sessions.serverEnd c).conn.send

theorem heardFrom_eq {d' : Served C m} {c : C} (hs : d'.sessions.session c = d.sessions.session c)
    (hh : d'.heard = d.heard) : d'.heardFrom c = d.heardFrom c := by
  rw [heardFrom, hs, hh, heardFrom]

theorem saidTo_eq {d' : Served C m} {c : C} (hs : d'.sessions.session c = d.sessions.session c)
    (hm : d'.model = d.model) : d'.saidTo c = d.saidTo c := by
  rw [saidTo, hs, hm, saidTo]

/-- Calls of the far end, and a stop. -/
def Asks (n : Sessions C) (e : SessionEvent C) : Prop :=
  e = .stop ∨ ∃ c call, e = .link c (.conn .far (.upper call)) ∧ (n.session c).isSome = true

namespace Inv
variable {kinds : C → Side → ConnKind} {c : C} {k : ConnId}

theorem uniq (h : d.Inv kinds) (k k' : ConnId) (c : C) (hk : d.clientOf k = some c)
    (hk' : d.clientOf k' = some c) : k = k' := by
  obtain ⟨id, hid, rfl⟩ := (h.clientOf k c).mp hk
  obtain ⟨id', hid', rfl⟩ := (h.clientOf k' c).mp hk'
  rw [hid] at hid'
  cases hid'
  rfl

/-- A connection that the model has not heard of has not been told anything. -/
theorem silent (h : d.Inv kinds) (hk : d.clientOf k = none) :
    m.heardOn k d.heard = [] ∧ sentTo k (m.requests d.model) = [] := by
  have hunheard : ∀ call ∈ d.heard, m.connId call ≠ k := by
    rintro call hcall rfl
    obtain ⟨c, hc⟩ := h.known call hcall
    rw [hk] at hc
    cases hc
  constructor
  · rw [ServerModel.heardOn, List.filter_eq_nil_iff.mpr fun call hcall => by simpa using hunheard call hcall]
    rfl
  · rw [h.model, sentTo_eq_filterMap, ServerModel.filterMap_callOn_unheard hunheard]
    rfl

/-- With at most two messages said, at most two wait. -/
theorem atMostTwo (h : d.Inv kinds) (hkind : kinds c .far ≠ .clientWithHeartbeat)
    (hle : (d.saidTo c).length ≤ 2) {e : LinkEvent} (hl : (d.sessions.link c).Legal e) :
    Link.AtMostTwoQueued .far (d.sessions.link c) e := by
  cases e with
  | transmit k i n => trivial
  | conn k e =>
    cases e with
    | readDone | waitDone | upper => trivial
    | writeDone i ec n up =>
      rintro rfl
      rcases h.ordered c hle with hq | ⟨-, hstalled, -⟩
      · obtain ⟨done, henq, -⟩ := hq.split
        have hlen := length_messages ((h.links c).flows .far).frames
          (by rw [(h.links c).kinds .far]; exact hkind)
        have hsaid : messages (d.sessions.serverEnd c).conn.send.enqueued = d.saidTo c := h.said c
        have htotal := congrArg List.length henq
        rw [List.length_append] at htotal
        have hlen : (d.saidTo c).length = (d.sessions.serverEnd c).conn.send.enqueued.length := hsaid ▸ hlen
        show (d.sessions.serverEnd c).conn.send.writeQueue.length ≤ 2
        omega
      · obtain ⟨⟨op, hop, -⟩, -⟩ := hl
        have hnone : (d.sessions.link c .far).conn.send.writes = [] := hstalled.writes
        rw [hnone] at hop
        cases hop

/-- What is asked elsewhere goes to clients that are accepted. -/
theorem elsewhere_asks (h : d.Inv kinds) {rs : List Request} {e : SessionEvent C}
    (he : e ∈ rs.filterMap (elsewhere d.clientOf k)) : Asks d.sessions e := by
  obtain ⟨r, -, hr⟩ := List.mem_filterMap.mp he
  rw [elsewhere] at hr
  split at hr
  · cases hr
    exact .inl rfl
  · split at hr
    · cases hr
    · obtain ⟨c, hc, rfl⟩ := Option.map_eq_some_iff.mp hr
      obtain ⟨id, hid, -⟩ := (h.clientOf _ c).mp hc
      exact .inr ⟨c, _, rfl, by rw [hid]; rfl⟩

/-- What the upper layer does then does not matter for a read. -/
theorem legal_readDone {i : Nat} {ec : ErrorCode} {data : List UInt8}
    (hl : d.sessions.Legal (.link c (.conn .far (.readDone i ec data []))))
    (up : List Conn.UpperCall) : d.sessions.Legal (.link c (.conn .far (.readDone i ec data up))) := by
  obtain ⟨⟨hconn, -, hread⟩, hside⟩ := hl
  refine ⟨⟨hconn, trivial, ?_⟩, hside⟩
  rintro i' ec' data' up' heq
  cases heq
  exact hread i ec data [] rfl

/-! ### What a client and the model know of each other -/

/-- What the model has heard of a client, the client has written. -/
theorem heardFrom_prefix (h : d.Inv kinds)
    (hshort : ∀ msg ∈ messages (d.sessions.clients c).conn.send.written, msg.length < 2 ^ 32) :
    d.heardFrom c <+: messages (d.sessions.clients c).conn.send.written := by
  rw [← h.heard c]
  exact ((h.links c).follows .far hshort).delivered

theorem heardFrom_atRest (h : d.Inv kinds)
    (hcompat : kinds c .near = .clientWithHeartbeat → kinds c .far = .serverWithHeartbeat)
    (hshort : ∀ msg ∈ messages (d.sessions.clients c).conn.send.written, msg.length < 2 ^ 32)
    (hrest : (d.sessions.link c).AtRest .far) :
    d.heardFrom c = messages (d.sessions.clients c).conn.send.written := by
  rw [← h.heard c]
  exact (h.links c).atRest (k := .far) hcompat hshort hrest

/-- What has been handed to `async_write` for a client, the model has said to it. -/
theorem handed_said (h : d.Inv kinds) {msg : List UInt8} (hmsg : msg ∈ (d.sessions.link c).handed .far) :
    msg ∈ d.saidTo c := by
  rw [← h.said c]
  obtain ⟨b, hb, hmsg⟩ := List.mem_filterMap.mp hmsg
  exact List.mem_filterMap.mpr ⟨b, ((h.links c).flows .far).written b hb, hmsg⟩

/-- A client is told nothing but what the model has said to it. -/
theorem told (h : d.Inv kinds) (hshort : ∀ msg ∈ d.saidTo c, msg.length < 2 ^ 32) {msg : List UInt8}
    (hmsg : msg ∈ (d.sessions.clients c).conn.recv.delivered) : msg ∈ d.saidTo c := by
  have hpre := ((h.links c).follows .near fun msg hmsg => hshort msg (h.handed_said hmsg)).delivered
  exact h.handed_said (hpre.subset hmsg)

/-- Two messages come in order, and at rest both have come. -/
theorem told_inOrder (h : d.Inv kinds) (hkind : kinds c .far ≠ .clientWithHeartbeat)
    (hshort : ∀ msg ∈ d.saidTo c, msg.length < 2 ^ 32) (hle : (d.saidTo c).length ≤ 2) :
    (d.sessions.clients c).conn.recv.delivered <+: d.saidTo c ∧
      ((d.sessions.link c).AtRest .near → (d.sessions.clients c).conn.recv.delivered = d.saidTo c) := by
  have hlink := h.links c
  have hord := h.ordered c hle
  have hshort' : (d.sessions.link c).Short .far := fun msg hmsg => hshort msg (h.handed_said hmsg)
  rw [← h.said c]
  constructor
  · refine ((hlink.follows .near hshort').delivered).trans ?_
    obtain ⟨rest, hrest⟩ := hord.prefix_enqueued
    rw [Conn.said, ← hrest, messages_append]
    exact List.prefix_append _ _
  · intro hrest
    have hall := hlink.atRest (k := .near) (fun hk => absurd hk hkind) hshort' hrest
    have hwritten := hord.written_all (hrest.isOpen .far) hrest.writes
    rw [Conn.said, ← hwritten]
    exact hall

end Inv

/-! ### One event -/

variable [DecidableEq C]

/-- An accept files a connection. -/
def filed (d : Served C m) : SessionEvent C → ConnId → Option C
  | .accepted c _ _ =>
    match Sessions.nextSession d.sessions.server with
    | none => d.clientOf
    | some id => Function.update d.clientOf id.toBitVec (some c)
  | .link .. | .notAccepted .. | .stop => d.clientOf

def step (d : Served C m) : ServedEvent C m → Served C m
  | .network e => { d with sessions := d.sessions.step e, clientOf := d.filed e }
  | .message c i ec data call =>
    { d with
      sessions := run Sessions.step d.sessions (d.answer c i ec data call)
      model := m.receive d.model call
      heard := d.heard ++ [call] }

section Connections
variable {n : Sessions C} {c c' : C} {k k' : ConnId} {r : Request}

/-- They can come at any time, and nobody is accepted in them. -/
theorem asks_run {es : List (SessionEvent C)} (h : ∀ e ∈ es, Asks n e) :
    EachStep Sessions.step Sessions.Legal n es ∧ (run Sessions.step n es).session = n.session := by
  induction es generalizing n with
  | nil => exact ⟨trivial, rfl⟩
  | cons e es ih =>
    have hstep : n.Legal e ∧ (n.step e).session = n.session := by
      rcases h e List.mem_cons_self with rfl | ⟨c, call, rfl, hsome⟩
      · exact ⟨trivial, rfl⟩
      · exact ⟨⟨⟨trivial, trivial, by simp⟩, fun _ => hsome⟩, rfl⟩
    have hrest : ∀ e' ∈ es, Asks (n.step e) e' := by
      intro e' he'
      have hasks := h e' (List.mem_cons_of_mem e he')
      rw [Asks] at hasks ⊢
      rw [hstep.2]
      exact hasks
    obtain ⟨hlegal, hsession⟩ := ih hrest
    exact ⟨⟨hstep.1, hlegal⟩, hsession.trans hstep.2⟩

variable {clientOf : ConnId → Option C}

/-- What is asked of a client, by its id: nothing twice, and nothing of another. -/
theorem own_elsewhere (huniq : ∀ k k' c, clientOf k = some c → clientOf k' = some c → k = k')
    (hk : clientOf k' = some c') :
    (elsewhere clientOf k r).bind (Sessions.own c') =
      if k' = k then none else (callOn k' r).map fun call => .conn .far (.upper call) := by
  rw [elsewhere, callOn]
  cases hcall : callOf r with
  | none => rw [Option.bind_none, Option.map_none, ite_self]; rfl
  | some p =>
    obtain ⟨j, call⟩ := p
    rw [Option.bind_some]
    by_cases hj : j = k'
    · subst hj
      by_cases hjk : j = k
      · simp only [if_pos hjk, Option.bind_none]
      · simp only [if_neg hjk, hk, if_true, Option.map_some, Option.bind_some, Sessions.own]
    · have hother : ∀ c, clientOf j = some c → c ≠ c' := by
        rintro c hc rfl
        exact hj (huniq j k' c hc hk)
      simp only [if_neg hj, Option.map_none, ite_self]
      split
      · rfl
      · cases hc : clientOf j with
        | none => rfl
        | some c => simp only [Option.map_some, Option.bind_some, Sessions.own, if_neg (hother c hc)]

/-- Nothing is asked of those who are not accepted. -/
theorem own_elsewhere_none (hnone : ∀ k, clientOf k ≠ some c') :
    (elsewhere clientOf k r).bind (Sessions.own c') = none := by
  rw [elsewhere]
  cases hcall : callOf r with
  | none => rfl
  | some p =>
    obtain ⟨j, call⟩ := p
    simp only
    split
    · rfl
    · cases hc : clientOf j with
      | none => rfl
      | some c =>
        have hne : c ≠ c' := by
          rintro rfl
          exact hnone j hc
        simp only [Option.map_some, Option.bind_some, Sessions.own, if_neg hne]

/-- Calls at the far end of a link. -/
theorem run_calls (l : Link) (calls : List Conn.UpperCall) :
    (run Link.step l (calls.map fun call => .conn .far (.upper call)) .far).conn =
      calls.foldl Conn.upperCall (l .far).conn := by
  induction calls generalizing l with
  | nil => rfl
  | cons call calls ih =>
    rw [List.map_cons, run, ih, Link.step_self_conn]
    rfl

end Connections

namespace Inv
variable {kinds : C → Side → ConnKind} {c c' : C}

/-! ### An event the model is not told of -/

/-- **The far end of a connection** then gives it nothing, and has nothing more to say. -/
theorem network_serverEnd (h : d.Inv kinds) (hkind : kinds c .far ≠ .clientWithHeartbeat)
    {e : SessionEvent C} (hl : d.sessions.Legal e) (hq : Unnoticed d.sessions e) :
    ((d.sessions.step e).serverEnd c).conn.recv.delivered = (d.sessions.serverEnd c).conn.recv.delivered ∧
      ((d.sessions.step e).serverEnd c).conn.said = (d.sessions.serverEnd c).conn.said := by
  have hlink : (d.sessions.step e).serverEnd c = _ := congrFun (Sessions.step_link (c := c) h.sessions hl) .far
  rw [hlink]
  cases hown : Sessions.own c e with
  | none => exact ⟨rfl, rfl⟩
  | some f =>
    cases e with
    | accepted | notAccepted | stop => cases hown
    | link c' f' =>
      rw [Sessions.own] at hown
      split at hown
      · rename_i hc
        cases hown
        cases hc
        cases f with
        | transmit j i n => cases j <;> exact ⟨rfl, rfl⟩
        | conn j e =>
          cases j with
          | near => exact ⟨rfl, rfl⟩
          | far => exact Conn.step_quiet (((h.links c).kinds .far).symm ▸ hkind) hq
      · cases hown

theorem network_ordered (h : d.Inv kinds) (hkind : kinds c .far ≠ .clientWithHeartbeat)
    (hle : (d.saidTo c).length ≤ 2) {e : SessionEvent C} (hl : d.sessions.Legal e) :
    Ordered ((d.sessions.step e).serverEnd c).conn.isOpen ((d.sessions.step e).serverEnd c).conn.send := by
  have hlink : (d.sessions.step e).serverEnd c = _ := congrFun (Sessions.step_link (c := c) h.sessions hl) .far
  have hord := h.ordered c hle
  rw [hlink]
  cases hown : Sessions.own c e with
  | none => exact hord
  | some f =>
    have hlegal := Sessions.own_legal hl hown
    exact Link.step_ordered _ f (h.links c) hlegal (h.atMostTwo hkind hle hlegal) hord

theorem step_links (h : d.Inv kinds) {e : SessionEvent C} (hl : d.sessions.Legal e) (c : C) :
    ((d.sessions.step e).link c).Inv (kinds c) := by
  rw [Sessions.step_link h.sessions hl]
  cases hown : Sessions.own c e with
  | none => exact h.links c
  | some f => exact Link.step_inv _ f (h.links c) (Sessions.own_legal hl hown)

/-- An accept gives the client an id that is nobody's, or none. -/
theorem filed_accepted (h : d.Inv kinds) {i : Nat} {endpoint : String × Int32} (hnone : d.sessions.session c = none) :
    (∀ k c', (d.step (.network (.accepted c i endpoint))).clientOf k = some c' ↔
        ∃ id, (d.step (.network (.accepted c i endpoint))).sessions.session c' = some id ∧ id.toBitVec = k) ∧
      (∀ k c', d.clientOf k = some c' → (d.step (.network (.accepted c i endpoint))).clientOf k = some c') ∧
      ∀ c', (d.step (.network (.accepted c i endpoint))).heardFrom c' = d.heardFrom c' ∧
        (d.step (.network (.accepted c i endpoint))).saidTo c' = d.saidTo c' := by
  set d' := d.step (.network (.accepted c i endpoint)) with hd'
  have hself : d'.sessions.session c = Sessions.nextSession d.sessions.server := Function.update_self ..
  have hother : ∀ c', c' ≠ c → d'.sessions.session c' = d.sessions.session c' :=
    fun c' hc => Function.update_of_ne hc ..
  have hclientOf : d'.clientOf = d.filed (.accepted c i endpoint) := rfl
  cases hnext : Sessions.nextSession d.sessions.server with
  | none =>
    have hsession : d'.sessions.session = d.sessions.session := by
      funext c'
      by_cases hc : c' = c
      · rw [hc, hself, hnext, hnone]
      · exact hother c' hc
    simp only [filed, hnext] at hclientOf
    rw [hclientOf, hsession]
    exact ⟨h.clientOf, fun _ _ hk => hk, fun c' =>
      ⟨heardFrom_eq (congrFun hsession c') rfl, saidTo_eq (congrFun hsession c') rfl⟩⟩
  | some id =>
    rw [hnext] at hself
    simp only [filed, hnext] at hclientOf
    have hfresh : d.clientOf id.toBitVec = none := by
      cases hk : d.clientOf id.toBitVec with
      | none => rfl
      | some c' =>
        obtain ⟨id', hid', heq⟩ := (h.clientOf _ c').mp hk
        rw [Int32.toBitVec_inj.mp heq] at hid'
        exact absurd hid' (h.sessions.fresh hnext c')
    have hkeeps : ∀ k, k ≠ id.toBitVec → d'.clientOf k = d.clientOf k := by
      intro k hk
      rw [hclientOf, Function.update_of_ne hk]
    refine ⟨fun k c' => ?_, fun k c' hk => ?_, fun c' => ?_⟩
    · by_cases hk : k = id.toBitVec
      · rw [hclientOf, hk, Function.update_self, Option.some.injEq]
        constructor
        · rintro rfl
          exact ⟨id, hself, rfl⟩
        · rintro ⟨id', hid', heq⟩
          by_contra hc
          rw [Int32.toBitVec_inj.mp heq, hother c' (Ne.symm hc)] at hid'
          exact h.sessions.fresh hnext c' hid'
      · rw [hkeeps k hk, h.clientOf]
        by_cases hc : c' = c
        · rw [hc, hself, hnone]
          refine iff_of_false ?_ ?_
          · rintro ⟨_, hid, -⟩
            cases hid
          · rintro ⟨_, hid, rfl⟩
            cases hid
            exact hk rfl
        · rw [hother c' hc]
    · rw [hkeeps k, hk]
      rintro rfl
      rw [hfresh] at hk
      cases hk
    · by_cases hc : c' = c
      · obtain ⟨hheard, hsaid⟩ := h.silent hfresh
        rw [hc, heardFrom, heardFrom, saidTo, saidTo, hself, hnone]
        exact ⟨hheard, hsaid⟩
      · exact ⟨heardFrom_eq (hother c' hc) rfl, saidTo_eq (hother c' hc) rfl⟩

theorem step_session_network {e : SessionEvent C} (he : ∀ c i endpoint, e ≠ .accepted c i endpoint) :
    (d.sessions.step e).session = d.sessions.session ∧ d.filed e = d.clientOf := by
  cases e with
  | accepted c i endpoint => exact absurd rfl (he c i endpoint)
  | notAccepted | stop => exact ⟨rfl, rfl⟩
  | link c e =>
    cases e with
    | transmit k i n => cases k <;> exact ⟨rfl, rfl⟩
    | conn k e => cases k <;> exact ⟨rfl, rfl⟩

/-- **An event the model is not told of.** -/
theorem network_inv (h : d.Inv kinds) (hkind : ∀ c, kinds c .far ≠ .clientWithHeartbeat) {e : SessionEvent C}
    (hl : d.Legal (.network e)) : (d.step (.network e)).Inv kinds := by
  obtain ⟨hlegal, hq⟩ := hl
  have hfile : (∀ k c', (d.step (.network e)).clientOf k = some c' ↔
        ∃ id, (d.step (.network e)).sessions.session c' = some id ∧ id.toBitVec = k) ∧
      (∀ k c', d.clientOf k = some c' → (d.step (.network e)).clientOf k = some c') ∧
      ∀ c', (d.step (.network e)).heardFrom c' = d.heardFrom c' ∧ (d.step (.network e)).saidTo c' = d.saidTo c' := by
    by_cases he : ∃ c i endpoint, e = .accepted c i endpoint
    · obtain ⟨c, i, endpoint, rfl⟩ := he
      exact h.filed_accepted hlegal.1
    · obtain ⟨hsession, hfiled⟩ := step_session_network (d := d) fun c i endpoint heq => he ⟨c, i, endpoint, heq⟩
      have hclientOf : (d.step (.network e)).clientOf = d.clientOf := hfiled
      have hsessions : (d.step (.network e)).sessions.session = d.sessions.session := hsession
      refine ⟨?_, ?_, fun c' => ⟨?_, ?_⟩⟩
      · rw [hclientOf, hsessions]
        exact h.clientOf
      · rw [hclientOf]
        exact fun _ _ hk => hk
      · exact heardFrom_eq (congrFun hsessions c') rfl
      · exact saidTo_eq (congrFun hsessions c') rfl
  obtain ⟨hclientOf, hkeeps, hsame⟩ := hfile
  refine ⟨Sessions.step_inv _ e h.sessions hlegal, h.step_links hlegal, hclientOf, h.model, ?_, ?_, ?_, ?_⟩
  · intro call hcall
    obtain ⟨c, hc⟩ := h.known call hcall
    exact ⟨c, hkeeps _ c hc⟩
  · intro c
    rw [(hsame c).1, ← h.heard c]
    exact (h.network_serverEnd (hkind c) hlegal hq).1
  · intro c
    rw [(hsame c).2, ← h.said c]
    exact (h.network_serverEnd (hkind c) hlegal hq).2
  · intro c hle
    rw [(hsame c).2] at hle
    exact h.network_ordered (hkind c) hle hlegal

/-! ### A message -/

section Messages
variable {i : Nat} {ec : ErrorCode} {data : List UInt8} {call : m.Call}

/-- The server can do all of it, and accepts nobody meanwhile. -/
theorem answer_legal (h : d.Inv kinds) (hl : d.Legal (.message c i ec data call)) :
    EachStep Sessions.step Sessions.Legal d.sessions (d.answer c i ec data call) ∧
      (run Sessions.step d.sessions (d.answer c i ec data call)).session = d.sessions.session := by
  set asked := m.asked d.model call
  have hread : d.sessions.Legal (.link c (.conn .far
      (.readDone i ec data (asked.filterMap (callOn (m.connId call)))))) := legal_readDone hl.2.1 _
  have hrest : ∀ e ∈ asked.filterMap (elsewhere d.clientOf (m.connId call)),
      Asks (d.sessions.step (.link c (.conn .far
        (.readDone i ec data (asked.filterMap (callOn (m.connId call))))))) e := by
    intro e he
    exact h.elsewhere_asks he
  obtain ⟨hlegal, hsession⟩ := asks_run hrest
  exact ⟨⟨hread, hlegal⟩, hsession⟩

/-- **The connection it was read on.** -/
theorem message_serverEnd (h : d.Inv kinds) (hl : d.Legal (.message c i ec data call)) :
    ((d.step (.message c i ec data call)).sessions.serverEnd c).conn =
      (d.sessions.serverEnd c).conn.readDone i ec data
        ((m.asked d.model call).filterMap (callOn (m.connId call))) := by
  obtain ⟨⟨id, hid, hk⟩, -⟩ := id hl
  have hc : d.clientOf (m.connId call) = some c := (h.clientOf _ c).mpr ⟨id, hid, hk⟩
  have hrun := (Sessions.run_link h.sessions (h.answer_legal hl).1 c).2
  have hnone : ((m.asked d.model call).filterMap (elsewhere d.clientOf (m.connId call))).filterMap
      (Sessions.own c) = [] := by
    rw [List.filterMap_filterMap, List.filterMap_eq_nil_iff]
    intro r _
    rw [own_elsewhere h.uniq hc, if_pos rfl]
  have hfar : (d.step (.message c i ec data call)).sessions.serverEnd c = _ := congrFun hrun .far
  have hown : Sessions.own c (.link c (.conn .far (.readDone i ec data
      ((m.asked d.model call).filterMap (callOn (m.connId call)))))) = some _ := if_pos rfl
  rw [hfar, answer, List.filterMap_cons_some hown, hnone, run, run_nil, Link.step_self_conn]
  rfl

/-- **Another connection.** -/
theorem message_serverEnd_other (h : d.Inv kinds) (hl : d.Legal (.message c i ec data call)) (hne : c' ≠ c) :
    ((d.step (.message c i ec data call)).sessions.serverEnd c').conn =
      ((d.sessions.session c').elim [] fun id => (m.asked d.model call).filterMap (callOn id.toBitVec)).foldl
        Conn.upperCall (d.sessions.serverEnd c').conn := by
  obtain ⟨⟨id, hid, hk⟩, -⟩ := id hl
  have hc : d.clientOf (m.connId call) = some c := (h.clientOf _ c).mpr ⟨id, hid, hk⟩
  have hrun := (Sessions.run_link h.sessions (h.answer_legal hl).1 c').2
  have hfar : (d.step (.message c i ec data call)).sessions.serverEnd c' = _ := congrFun hrun .far
  have hown : Sessions.own c' (.link c (.conn .far (.readDone i ec data
      ((m.asked d.model call).filterMap (callOn (m.connId call)))))) = none := if_neg (Ne.symm hne)
  rw [hfar, answer, List.filterMap_cons_none hown, List.filterMap_filterMap]
  cases hs : d.sessions.session c' with
  | none =>
    have hnone : ∀ k, d.clientOf k ≠ some c' := by
      intro k hk
      obtain ⟨id', hid', -⟩ := (h.clientOf k c').mp hk
      rw [hs] at hid'
      cases hid'
    rw [List.filterMap_eq_nil_iff.mpr fun r _ => own_elsewhere_none hnone]
    rfl
  | some id' =>
    have hc' : d.clientOf id'.toBitVec = some c' := (h.clientOf _ c').mpr ⟨id', hs, rfl⟩
    have hne' : id'.toBitVec ≠ m.connId call := by
      intro heq
      rw [heq, hc] at hc'
      exact hne (Option.some.inj hc').symm
    have hcalls : ∀ r, (elsewhere d.clientOf (m.connId call) r).bind (Sessions.own c') =
        (callOn id'.toBitVec r).map fun call => .conn .far (.upper call) := by
      intro r
      rw [own_elsewhere h.uniq hc', if_neg hne']
    rw [List.filterMap_congr fun r _ => hcalls r, ← List.map_filterMap, run_calls]
    rfl

/-- What the model has asked for goes to whom it is meant for. -/
theorem message_saidTo (d : Served C m) (hmodel : d.model = run m.receive m.init d.heard)
    (hs : (run Sessions.step d.sessions (d.answer c i ec data call)).session = d.sessions.session) (c' : C) :
    (d.step (.message c i ec data call)).saidTo c' = d.saidTo c' ++
      (((d.sessions.session c').elim [] fun id => (m.asked d.model call).filterMap (callOn id.toBitVec)).filterMap
        Conn.UpperCall.message?) := by
  have hsession : (d.step (.message c i ec data call)).sessions.session c' = d.sessions.session c' := congrFun hs c'
  have hreceive : (d.step (.message c i ec data call)).model = m.receive d.model call := rfl
  rw [saidTo, saidTo, hsession, hreceive, m.requests_receive hmodel]
  cases d.sessions.session c' with
  | none => rfl
  | some id =>
    simp only [Option.elim_some]
    rw [sentTo_append, sentTo_eq_filterMap id.toBitVec (m.asked d.model call)]

theorem message_heardFrom (h : d.Inv kinds) (hl : d.Legal (.message c i ec data call)) (c' : C) :
    (d.step (.message c i ec data call)).heardFrom c' =
      d.heardFrom c' ++ if c' = c then [m.bytes call] else [] := by
  obtain ⟨⟨id, hid, hk⟩, -⟩ := id hl
  have hsession : (d.step (.message c i ec data call)).sessions.session c' = d.sessions.session c' :=
    congrFun (h.answer_legal hl).2 c'
  have hheard : (d.step (.message c i ec data call)).heard = d.heard ++ [call] := rfl
  rw [heardFrom, heardFrom, hsession, hheard]
  cases hs : d.sessions.session c' with
  | none =>
    have hne : c' ≠ c := by
      rintro rfl
      rw [hs] at hid
      cases hid
    rw [if_neg hne]
    rfl
  | some id' =>
    have hiff : m.connId call = id'.toBitVec ↔ c' = c := by
      rw [← hk, Int32.toBitVec_inj]
      constructor
      · rintro rfl
        exact h.sessions.apart c' c id hs hid
      · rintro rfl
        rw [hs] at hid
        exact (Option.some.inj hid).symm
    simp only [Option.elim_some]
    rw [m.heardOn_concat]
    simp only [hiff]

/-- **A message**, on the connection of a client. -/
theorem message_inv (h : d.Inv kinds) (hl : d.Legal (.message c i ec data call)) :
    (d.step (.message c i ec data call)).Inv kinds := by
  obtain ⟨hlegal, hsession⟩ := h.answer_legal hl
  have hgiven := Conn.readDone_given hl.2.2 ((m.asked d.model call).filterMap (callOn (m.connId call)))
  have hself := h.message_serverEnd hl
  have hsaid := message_saidTo d h.model hsession
  have hcalls : ((d.sessions.session c).elim [] fun id => (m.asked d.model call).filterMap (callOn id.toBitVec)) =
      (m.asked d.model call).filterMap (callOn (m.connId call)) := by
    obtain ⟨id, hid, hk⟩ := hl.1
    rw [hid, Option.elim_some, hk]
  refine ⟨?_, fun c' => ?_, ?_, ?_, ?_, fun c' => ?_, fun c' => ?_, fun c' hle => ?_⟩
  · exact run_history_legal (J := fun _ (n : Sessions C) => n.Inv) h.sessions
      (fun _ n e h hl => Sessions.step_inv n e h hl) hlegal
  · obtain ⟨hlink, hrun⟩ := Sessions.run_link h.sessions hlegal c'
    show ((run Sessions.step d.sessions _).link c').Inv (kinds c')
    rw [hrun]
    exact run_history_legal (J := fun _ (l : Link) => l.Inv (kinds c')) (h.links c')
      (fun _ l e h hl => l.step_inv e h hl) hlink
  · show ∀ k c', d.clientOf k = some c' ↔ ∃ id, (run Sessions.step d.sessions _).session c' = some id ∧ _
    rw [hsession]
    exact h.clientOf
  · show m.receive d.model call = run m.receive m.init (d.heard ++ [call])
    rw [run_append, ← h.model]
    rfl
  · intro call' hcall'
    rcases List.mem_append.mp hcall' with hcall' | hcall'
    · exact h.known call' hcall'
    · rw [List.mem_singleton.mp hcall']
      obtain ⟨id, hid, hk⟩ := hl.1
      exact ⟨c, (h.clientOf _ c).mpr ⟨id, hid, hk⟩⟩
  · rw [h.message_heardFrom hl, ← h.heard c']
    by_cases hc : c' = c
    · rw [if_pos hc, hc, hself]
      exact hgiven.1
    · rw [if_neg hc, List.append_nil, h.message_serverEnd_other hl hc]
      exact (Conn.upperCalls_effect _ _).delivered
  · rw [hsaid, ← h.said c']
    by_cases hc : c' = c
    · rw [hc, hcalls, hself]
      exact hgiven.2
    · rw [h.message_serverEnd_other hl hc]
      exact Conn.upperCalls_said _ _
  · have hle' : (d.saidTo c').length ≤ 2 := by
      rw [hsaid, List.length_append] at hle
      omega
    have hord := h.ordered c' hle'
    by_cases hc : c' = c
    · rw [hc] at hord ⊢
      rw [hself]
      exact hord.posts (Conn.readDone_postsTo _ i ec data _).posts
    · rw [h.message_serverEnd_other hl hc]
      exact hord.posts (Conn.upperCalls_postsTo _ _).posts

end Messages

/-- **One event.** -/
theorem step_inv (hkind : ∀ c, kinds c .far ≠ .clientWithHeartbeat) (d : Served C m) (e : ServedEvent C m)
    (h : d.Inv kinds) (hl : d.Legal e) : (d.step e).Inv kinds := by
  cases e with
  | network e => exact h.network_inv hkind hl
  | message c i ec data call => exact h.message_inv hl

end Inv

/-! ### Runs -/

section Runs
variable {server : AsyncServer} {kind : C → ConnKind} {clients peer : C → Peer} {es : List (ServedEvent C m)}

omit [DecidableEq C] in
theorem start_inv (m : ServerModel σ) (server : AsyncServer) (kind : C → ConnKind) (clients peer : C → Peer) :
    (start m server kind clients peer).Inv (Sessions.kinds server kind) := by
  have hnone : ∀ c, ((Sessions.start server kind clients peer).serverEnd c).conn =
      .start server.cmanager.kind (peer c).socketStr (peer c).padding (peer c).slack := fun _ => rfl
  have hframe : ∀ c, ((Sessions.start server kind clients peer).serverEnd c).conn.send = ⟨[], [], [], []⟩ := by
    intro c
    rw [hnone]
    exact (Conn.doReceiveMessage_frame _).send
  refine ⟨Sessions.start_inv .., fun c => ?_, fun k c => ?_, rfl, ?_, fun c => ?_, fun c => ?_, fun c _ => ?_⟩
  · show ((Sessions.start server kind clients peer).link c).Inv _
    rw [Sessions.start_link]
    exact Link.start_inv ..
  · refine iff_of_false (fun h => by cases h) ?_
    rintro ⟨id, hid, -⟩
    cases hid
  · intro call hcall
    cases hcall
  · rfl
  · show messages ((Sessions.start server kind clients peer).serverEnd c).conn.send.enqueued = []
    rw [hframe]
    rfl
  · show Ordered _ ((Sessions.start server kind clients peer).serverEnd c).conn.send
    rw [hframe]
    exact .inl ⟨by simp, ⟨[], rfl, rfl⟩, rfl, by simp⟩

theorem run_inv (hkind : server.cmanager.kind ≠ .clientWithHeartbeat)
    (hl : EachStep step Legal (start m server kind clients peer) es) :
    (run step (start m server kind clients peer) es).Inv (Sessions.kinds server kind) :=
  run_history_legal (J := fun _ (d : Served C m) => d.Inv (Sessions.kinds server kind)) (start_inv m server kind clients peer)
    (fun _ d e h hl => Inv.step_inv (fun _ => hkind) d e h hl) hl

/-- A server makes no clients. -/
theorem kind_of_start {opened : Except Exception Unit} {listening : Except Exception UInt16} {port : UInt16}
    {heartbeat : Bool} (hs : AsyncServer.start opened listening (.new port heartbeat) = .ok () server) :
    server.cmanager.kind ≠ .clientWithHeartbeat := by
  rw [AsyncServer.start_kind hs]
  cases heartbeat with
  | true => decide
  | false => decide

omit [DecidableEq C] in
/-- A client that sends heartbeats is watched, if the server has been started with a heartbeat. -/
theorem compat_of_start {opened : Except Exception Unit} {listening : Except Exception UInt16} {port : UInt16}
    {heartbeat : Bool} (hs : AsyncServer.start opened listening (.new port heartbeat) = .ok () server) {c : C}
    (hbeat : kind c = .clientWithHeartbeat → heartbeat = true) :
    Sessions.kinds server kind c .near = .clientWithHeartbeat →
      Sessions.kinds server kind c .far = .serverWithHeartbeat := by
  intro hk
  show server.cmanager.kind = _
  rw [AsyncServer.start_kind hs, hbeat hk]
  rfl

end Runs

section Example

/-- A message of 17 bytes. -/
def hello : List UInt8 := List.replicate 17 0

def oneClient (m : ServerModel σ) : Served Unit m :=
  start m AsyncServer.oneListening (fun _ => .client) (fun _ => MultiClient.peer) fun _ => MultiClient.peer

/-- The client is accepted and sends it, and its header is read. -/
def helloArrives (m : ServerModel σ) : List (ServedEvent Unit m) :=
  [.network (.accepted () 0 ("127.0.0.1", 4000)), .network (.link () (.conn .near (.upper (.send hello)))),
    .network (.link () (.transmit .near 0 25)), .network (.link () (.conn .near (.writeDone 0 success 25 []))),
    .network (.link () (.conn .far (.readDone 0 success (headerToString Link.zeros (normalHeader hello)) [])))]

theorem helloArrives_legal (m : ServerModel σ) : EachStep step Legal (oneClient m) (helloArrives m) := by
  refine ⟨⟨⟨rfl, _, rfl, fun h => absurd h (by decide)⟩, trivial⟩,
    ⟨⟨⟨trivial, trivial, by simp⟩, fun h => (by cases h)⟩, trivial⟩,
    ⟨⟨⟨rfl, _, rfl, Nat.le_refl 25⟩, fun h => (by cases h)⟩, trivial⟩,
    ⟨⟨⟨⟨_, rfl, Nat.le_refl 25, fun _ => rfl, fun h => absurd h (by decide)⟩, ⟨_, _, rfl, rfl, rfl⟩, by simp⟩,
      fun h => (by cases h)⟩, trivial⟩,
    ⟨⟨⟨⟨_, rfl, Nat.le_refl 8, fun _ => rfl, fun h => absurd h (by decide)⟩, trivial, ?_⟩, fun _ => rfl⟩, rfl, rfl⟩,
    trivial⟩
  rintro i ec data up heq
  cases heq
  exact ⟨hello, rfl⟩

/-- The model is told of it. -/
def helloHeard (m : ServerModel σ) (call : m.Call) : List (ServedEvent Unit m) :=
  helloArrives m ++ [.message () 0 success hello call]

theorem helloHeard_legal (m : ServerModel σ) {call : m.Call} (hk : m.connId call = 0) (hb : m.bytes call = hello) :
    EachStep step Legal (oneClient m) (helloHeard m call) := by
  obtain ⟨hopen, hsize, hreads, -⟩ := (Conn.start_ready .server "127.0.0.1:4000" (fun _ => Link.zeros) 0).readDone_head
    Link.zeros (show hello.length ≤ bufferSize by decide)
  refine eachStep_append.mpr ⟨helloArrives_legal m, ⟨⟨0, rfl, hk.symm⟩, ⟨⟨⟨⟨.payload 17, 17, false⟩, ?_, by decide,
    fun _ => rfl, fun h => absurd h (by decide)⟩, trivial, ?_⟩, fun _ => rfl⟩, ?_⟩, trivial⟩
  · exact congrArg (fun reads : List ReadOp => reads[0]?) hreads
  · rintro i ec data up heq
    cases heq
    exact ⟨[], rfl⟩
  · rw [hb]
    exact Conn.given?_body hopen hsize hreads (by decide)

end Example

end Served

end Thallium.Network
