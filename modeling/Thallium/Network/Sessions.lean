import Thallium.Network.Server
import Thallium.Network.Link

/-!
# A server and its clients (network/server.cpp:17-62, network/connection.hpp:132-185)

A server holds any number of connections, and the handlers of all of them run in one loop. No connection is
filed in place of another and none is taken out, so what happens to one leaves the others alone. With the
network in between, each client and the server's connection for it are a `Link`.

| here | there |
| --- | --- |
| `conn?`, `own`     | `holdings[conn_id]`, and what happens to that connection |
| `Sessions`         | the server, its clients, what is on the sockets, and which connection is whose |
| `SessionEvent`     | Boost.Asio, the upper layers and the kernel, on either side |
| `Sessions.link`    | a client and the server's connection for it |

* `step_accepted_cases`, `step_conn?` — what an event does to what the server holds.
* `connection_own` — a connection is what its own events have made of it.
* `link_run` — so are the two ends of each connection.
* `delivered_everyClient` — every client and the server understand one another.
-/
namespace Thallium.Network
open EventRun

/-- What happens to the connection with the id `id`. -/
def ServerEvent.own (id : Int32) : ServerEvent → Option Conn.Event
  | .connection connId e => if connId = id then some e else none
  | .accepted .. | .stop => none

namespace AsyncServer

/-- The connection held under an id. -/
def conn? (s : AsyncServer) (id : Int32) : Option Conn :=
  (s.cmanager.holdings.lookup id).join.map Holding.conn

/-! ## What a step does to the connections -/

section Steps
variable {s : AsyncServer} {id : Int32} {c : Conn} {e : ServerEvent}

theorem conn?_eq_some : s.conn? id = some c ↔ ∃ h, s.cmanager.holdings.lookup id = some (some h) ∧ h.conn = c := by
  rw [conn?, Option.map_eq_some_iff]
  exact exists_congr fun h => and_congr_left fun _ => Option.join_eq_some_iff

/-- Where nothing is held there is no connection. -/
theorem conn?_eq_none (h : id ∉ s.cmanager.holdings) : s.conn? id = none := by
  rw [conn?, Finmap.lookup_eq_none.mpr h]
  rfl

/-- The connection is not filed. -/
theorem whenAccept_refused {ec : ErrorCode} (h0 : ec.value = 0) {endpoint : String × Int32}
    {peer : Except Exception Peer} {f : Fault} {m : RealConnectionManager}
    (hm : RealConnectionManager.newConnection endpoint peer (-1) s.cmanager = .error f m) :
    whenAccept ec ⟨.ok endpoint, peer⟩ s = .error f { s with cmanager := m } := by
  have hmanager := onManager_error (s := s) hm
  rw [whenAccept, if_pos h0, attempt_bind_ok rfl, log_accepting]
  simp only [pure_bind_apply, get_bind_apply, bind_error_apply hmanager]

theorem step_accepted_ok {ec : ErrorCode} (h0 : ec.value = 0) (i : Nat) (endpoint : String × Int32) (peer : Peer)
    (hid : s.cmanager.connId (-1) ∉ s.cmanager.holdings) :
    s.step (.accepted i ec ⟨.ok endpoint, .ok peer⟩) =
      { s with accepts := s.accepts.eraseIdx i }.filed endpoint peer := by
  rw [step, exec, modify_bind_apply,
    whenAccept_ok (s := { s with accepts := s.accepts.eraseIdx i }) h0 rfl rfl hid]

/-- **A completed accept** files a connection under an id that is free, or files none. -/
theorem step_accepted_cases (s : AsyncServer) (i : Nat) (ec : ErrorCode) (accepted : Accepted) :
    ((s.step (.accepted i ec accepted)).cmanager.holdings = s.cmanager.holdings ∧
        (s.step (.accepted i ec accepted)).cmanager.kind = s.cmanager.kind) ∨
      ∃ endpoint peer, ec.value = 0 ∧ accepted = ⟨.ok endpoint, .ok peer⟩ ∧
        s.cmanager.connId (-1) ∉ s.cmanager.holdings ∧
        s.step (.accepted i ec accepted) =
          { s with accepts := s.accepts.eraseIdx i }.filed endpoint peer := by
  by_cases h0 : ec.value = 0
  · obtain ⟨endpoint, peer⟩ := accepted
    cases endpoint with
    | error e =>
      rw [step, exec, modify_bind_apply, whenAccept, if_pos h0, attempt_bind_error rfl]
      exact .inl ⟨rfl, rfl⟩
    | ok endpoint =>
      by_cases hid : s.cmanager.connId (-1) ∈ s.cmanager.holdings
      · rw [step, exec, modify_bind_apply,
          whenAccept_refused (s := { s with accepts := s.accepts.eraseIdx i }) h0
          (RealConnectionManager.newConnection_raises endpoint peer hid)]
        exact .inl ⟨rfl, rfl⟩
      · cases peer with
        | error e =>
          rw [step, exec, modify_bind_apply,
            whenAccept_refused (s := { s with accepts := s.accepts.eraseIdx i }) h0
            (RealConnectionManager.newConnection_throws endpoint e hid)]
          exact .inl ⟨rfl, rfl⟩
        | ok peer =>
          exact .inr ⟨endpoint, peer, h0, rfl, hid, step_accepted_ok h0 i endpoint peer hid⟩
  · rw [step, exec, modify_bind_apply, whenAccept_fails h0]
    exact .inl ⟨rfl, rfl⟩

/-- Something happens to a connection that is there. -/
theorem step_connection (hc : s.conn? id = some c) (e : Conn.Event) :
    ∃ h, s.cmanager.holdings.lookup id = some (some h) ∧ h.conn = c ∧
      s.step (.connection id e) = { s with
        cmanager.holdings := s.cmanager.holdings.insert id (some { h with conn := c.step e }) } := by
  obtain ⟨h, hlook, rfl⟩ := conn?_eq_some.mp hc
  have hmanager := onManager_ok (s := s) (RealConnectionManager.onConnection_held hlook (·.step e))
  exact ⟨h, hlook, rfl, by rw [step, exec, hmanager]⟩

theorem legal_connection {e : Conn.Event} : s.Legal (.connection id e) ↔ ∃ c, s.conn? id = some c := by
  constructor
  · rintro ⟨h, hlook⟩
    exact ⟨h.conn, conn?_eq_some.mpr ⟨h, hlook, rfl⟩⟩
  · rintro ⟨c, hc⟩
    obtain ⟨h, hlook, -⟩ := conn?_eq_some.mp hc
    exact ⟨h, hlook⟩

theorem step_kind (hl : s.Legal e) : (s.step e).cmanager.kind = s.cmanager.kind := by
  cases e with
  | stop => rfl
  | accepted i ec accepted =>
    rcases s.step_accepted_cases i ec accepted with ⟨-, hkind⟩ | ⟨endpoint, peer, -, -, -, hstep⟩
    · exact hkind
    · rw [hstep]
      rfl
  | connection connId e =>
    obtain ⟨c, hc⟩ := legal_connection.mp hl
    obtain ⟨h, -, -, hstep⟩ := step_connection hc e
    rw [hstep]

/-- **One event of the server**, seen from a connection. -/
theorem step_conn? (hc : s.conn? id = some c) (hl : s.Legal e) :
    (s.step e).conn? id = some (run Conn.step c (e.own id).toList) := by
  obtain ⟨h, hlook, hconn⟩ := conn?_eq_some.mp hc
  refine conn?_eq_some.mpr ?_
  cases e with
  | stop => exact ⟨h, hlook, hconn⟩
  | accepted i ec accepted =>
    refine ⟨h, ?_, hconn⟩
    rcases s.step_accepted_cases i ec accepted with ⟨hsame, -⟩ | ⟨endpoint, peer, -, -, hnew, hstep⟩
    · rw [hsame, hlook]
    · have hne : id ≠ s.cmanager.connId (-1) := by
        rintro rfl
        exact hnew (Finmap.mem_iff.mpr ⟨_, hlook⟩)
      rw [hstep]
      exact (Finmap.lookup_insert_of_ne _ hne).trans hlook
  | connection connId e =>
    obtain ⟨c', hc'⟩ := legal_connection.mp hl
    obtain ⟨h', hlook', hconn', hstep⟩ := step_connection hc' e
    rw [hstep]
    by_cases hid : connId = id
    · subst hid
      rw [hc'] at hc
      cases hc
      refine ⟨{ h' with conn := c.step e }, Finmap.lookup_insert _, ?_⟩
      rw [ServerEvent.own, if_pos rfl]
      rfl
    · refine ⟨h, (Finmap.lookup_insert_of_ne _ (Ne.symm hid)).trans hlook, ?_⟩
      rw [ServerEvent.own, if_neg hid]
      exact hconn

/-- An event that brings a connection is an accept that went well. -/
theorem step_brings (hnone : s.conn? id = none) (hl : s.Legal e) (hc : (s.step e).conn? id = some c) :
    ∃ i ec endpoint peer, e = .accepted i ec ⟨.ok endpoint, .ok peer⟩ ∧ ec.value = 0 ∧
      id = s.cmanager.connId (-1) ∧
      c = .start s.cmanager.kind peer.socketStr peer.padding peer.slack := by
  obtain ⟨h, hlook, rfl⟩ := conn?_eq_some.mp hc
  have habsent : ∀ h, s.cmanager.holdings.lookup id ≠ some (some h) := by
    intro h hlook
    rw [conn?_eq_some.mpr ⟨h, hlook, rfl⟩] at hnone
    cases hnone
  cases e with
  | stop => exact absurd hlook (habsent h)
  | accepted i ec accepted =>
    rcases s.step_accepted_cases i ec accepted with ⟨hsame, -⟩ | ⟨endpoint, peer, h0, rfl, -, hstep⟩
    · rw [hsame] at hlook
      exact absurd hlook (habsent h)
    · rw [hstep] at hlook
      by_cases hid : id = s.cmanager.connId (-1)
      · refine ⟨i, ec, endpoint, peer, rfl, h0, hid, ?_⟩
        subst hid
        have hfiled := (Finmap.lookup_insert _).symm.trans hlook
        cases hfiled
        rfl
      · exact absurd ((Finmap.lookup_insert_of_ne _ hid).symm.trans hlook) (habsent h)
  | connection connId e =>
    obtain ⟨c', hc'⟩ := legal_connection.mp hl
    obtain ⟨h', hlook', -, hstep⟩ := step_connection hc' e
    have hne : id ≠ connId := by
      rintro rfl
      exact habsent h' hlook'
    rw [hstep] at hlook
    exact absurd ((Finmap.lookup_insert_of_ne _ hne).symm.trans hlook) (habsent h)

end Steps

/-! ## Runs -/

theorem run_kind {s : AsyncServer} {es : List ServerEvent} (hl : EachStep step Legal s es) :
    (run step s es).cmanager.kind = s.cmanager.kind :=
  run_history_legal (J := fun _ (t : AsyncServer) => t.cmanager.kind = s.cmanager.kind) rfl
    (fun _ _ _ h hl => (step_kind hl).trans h) hl

/-- The class of the connections it makes. -/
theorem start_kind {opened : Except Exception Unit} {listening : Except Exception UInt16} {port : UInt16}
    {heartbeat : Bool} {s : AsyncServer} (hs : start opened listening (new port heartbeat) = .ok () s) :
    s.cmanager.kind = if heartbeat then .serverWithHeartbeat else .server := by
  rw [start] at hs
  cases opened with
  | error e => cases hs
  | ok _ =>
    cases listening with
    | error e => cases hs
    | ok localPort =>
      cases hs
      rfl

/-- **A connection is what its own events have made of it.** In any legal run of a started server, with
accepts that succeed, fail and throw and ids that come round again, each connection held under an id was made
by one accept that succeeded, when nothing was held under that id, and its state is the one its own events
alone lead to from there, whatever happened to the other connections. -/
theorem connection_own {opened : Except Exception Unit} {listening : Except Exception UInt16} {port : UInt16}
    {heartbeat : Bool} {s : AsyncServer} (hs : start opened listening (new port heartbeat) = .ok () s)
    {es : List ServerEvent} (hl : EachStep step Legal s es) {id : Int32} {c : Conn}
    (hc : (run step s es).conn? id = some c) :
    ∃ before i ec endpoint peer after,
      es = before ++ .accepted i ec ⟨.ok endpoint, .ok peer⟩ :: after ∧ ec.value = 0 ∧
      (run step s before).conn? id = none ∧ id = (run step s before).cmanager.connId (-1) ∧
      c = run Conn.step (.start (if heartbeat then .serverWithHeartbeat else .server) peer.socketStr
        peer.padding peer.slack) (after.filterMap (ServerEvent.own id)) := by
  have hempty := inv_start hs
  have hnone : s.conn? id = none := by
    apply conn?_eq_none
    rw [hempty.held, hempty.created]
    exact List.not_mem_nil
  have hkind := start_kind hs
  have hstep : ∀ (t : AsyncServer) (e : ServerEvent) (c : Conn), t.conn? id = some c → t.Legal e →
      (t.step e).conn? id = some (run Conn.step c (e.own id).toList) := fun _ _ _ hc hl => step_conn? hc hl
  obtain ⟨before, e, after, c₀, rfl, hbefore, hborn, rfl⟩ := component_born hstep hnone hl hc
  obtain ⟨hlb, hle, -⟩ := eachStep_append.mp hl
  obtain ⟨i, ec, endpoint, peer, rfl, h0, hid, rfl⟩ := step_brings hbefore hle hborn
  refine ⟨before, i, ec, endpoint, peer, after, rfl, h0, hbefore, hid, ?_⟩
  rw [run_kind hlb, hkind]

/-- Two clients are accepted, and something is sent to the first. -/
def twoClients : List ServerEvent :=
  [.accepted 0 success someone, .accepted 0 success someone, .connection 0 (.upper (.send [7]))]

theorem twoClients_legal : EachStep step Legal oneListening twoClients :=
  ⟨⟨_, rfl, fun h => absurd h (by decide)⟩, ⟨_, rfl, fun h => absurd h (by decide)⟩, ⟨_, rfl⟩, trivial⟩

/-- The second connection knows nothing of it. -/
theorem connection_own_second :
    ∃ before i ec endpoint peer after,
      twoClients = before ++ .accepted i ec ⟨.ok endpoint, .ok peer⟩ :: after ∧ ec.value = 0 ∧
      (run step oneListening before).conn? 1 = none ∧
      1 = (run step oneListening before).cmanager.connId (-1) ∧
      Conn.start .server MultiClient.peer.socketStr MultiClient.peer.padding MultiClient.peer.slack =
        run Conn.step (.start .server peer.socketStr peer.padding peer.slack)
          (after.filterMap (ServerEvent.own 1)) := by
  have hs : start (.ok ()) (.ok 4000) (new 4000 false) = .ok () oneListening := rfl
  exact connection_own hs twoClients_legal rfl

end AsyncServer

/-! ## Clients and server -/

/-- What the network has of the server's end of a connection. -/
structure Socket where
  outgoing : List (List UInt8)
  transmitted : List UInt8
  consumed : Nat

def Endpoint.socket (p : Endpoint) : Socket := ⟨p.outgoing, p.transmitted, p.consumed⟩

/-- `session` is the id of a client's connection at the server, once it is accepted; `peer` is what the server
finds when it accepts it. -/
structure Sessions (C : Type) where
  server : AsyncServer
  clients : C → Endpoint
  peer : C → Peer
  session : C → Option Int32
  sockets : C → Socket

/-- Something happens at either end of the connection of a client; the server accepts a client, or an accept
comes to nothing; the server stops accepting. -/
inductive SessionEvent (C : Type) where
  | link (c : C) (e : LinkEvent)
  | accepted (c : C) (i : Nat) (endpoint : String × Int32)
  | notAccepted (i : Nat) (ec : ErrorCode) (accepted : Accepted)
  | stop

def LinkEvent.side : LinkEvent → Side
  | .transmit k _ _ | .conn k _ => k

namespace Sessions
variable {C : Type}

/-- The server's end of the connection of a client; before it is accepted nothing happens there. -/
def serverEnd (n : Sessions C) (c : C) : Endpoint where
  conn := ((n.session c).bind n.server.conn?).getD
    (.start n.server.cmanager.kind (n.peer c).socketStr (n.peer c).padding (n.peer c).slack)
  outgoing := (n.sockets c).outgoing
  transmitted := (n.sockets c).transmitted
  consumed := (n.sockets c).consumed

/-- A client and the server's connection for it. -/
def link (n : Sessions C) (c : C) : Link
  | .near => n.clients c
  | .far => n.serverEnd c

/-- The id of the client that is accepted next; nobody gets an id that is held. -/
def nextSession (s : AsyncServer) : Option Int32 :=
  if s.cmanager.connId (-1) ∈ s.cmanager.holdings then none else some (s.cmanager.connId (-1))

/-- Each link is used as a link is, the server's end of it once the client is accepted; a client is accepted
once. -/
def Legal (n : Sessions C) : SessionEvent C → Prop
  | .link c e => (n.link c).Legal e ∧ (e.side = .far → (n.session c).isSome = true)
  | .accepted c i endpoint => n.session c = none ∧
      n.server.Legal (.accepted i success ⟨.ok endpoint, .ok (n.peer c)⟩)
  | .notAccepted i ec accepted => n.server.Legal (.accepted i ec accepted) ∧
      ¬ ServerEvent.Succeeds (.accepted i ec accepted)
  | .stop => True

/-- A server, and clients that have all connected. -/
def start (server : AsyncServer) (kind : C → ConnKind) (clients peer : C → Peer) : Sessions C where
  server := server
  clients := fun c => .start (kind c) (clients c).socketStr (clients c).padding (clients c).slack
  peer := peer
  session := fun _ => none
  sockets := fun _ => ⟨[], [], 0⟩

/-- Every client that is accepted has a connection of its own. -/
structure Inv (n : Sessions C) : Prop where
  held : ∀ c id, n.session c = some id → ∃ conn, n.server.conn? id = some conn
  apart : ∀ c c' id, n.session c = some id → n.session c' = some id → c = c'

section Links
variable {n n' : Sessions C} {c : C}

/-- An event of the server that is not one of the connection of `c`. -/
theorem serverEnd_eq (h : n.Inv) {e : ServerEvent} (hl : n.server.Legal e)
    (hown : ∀ id, n.session c = some id → e.own id = none) (hserver : n'.server = n.server.step e)
    (hsession : n'.session c = n.session c) (hpeer : n'.peer = n.peer)
    (hsockets : n'.sockets c = n.sockets c) : n'.serverEnd c = n.serverEnd c := by
  have hconn : (n.session c).bind (n.server.step e).conn? = (n.session c).bind n.server.conn? := by
    cases hid : n.session c with
    | none => rfl
    | some id =>
      obtain ⟨conn, hheld⟩ := h.held c id hid
      rw [Option.bind_some, Option.bind_some, AsyncServer.step_conn? hheld hl, hown id hid, hheld]
      rfl
  simp only [serverEnd, hserver, hsession, hpeer, hsockets, hconn, AsyncServer.step_kind hl]

theorem serverEnd_of {p : Endpoint} (hconn : (n.serverEnd c).conn = p.conn) (hsocket : n.sockets c = p.socket) :
    n.serverEnd c = p := by
  obtain ⟨conn, outgoing, transmitted, consumed⟩ := p
  rw [serverEnd, hsocket] at hconn ⊢
  exact congrArg (fun conn => (⟨conn, outgoing, transmitted, consumed⟩ : Endpoint)) hconn

theorem link_near {p : Endpoint} (hclient : n'.clients c = p) (hserver : n'.serverEnd c = n.serverEnd c) :
    n'.link c = Function.update (n.link c) .near p := by
  funext k
  cases k with
  | near => exact hclient
  | far => exact hserver

theorem link_far {p : Endpoint} (hclient : n'.clients c = n.clients c) (hserver : n'.serverEnd c = p) :
    n'.link c = Function.update (n.link c) .far p := by
  funext k
  cases k with
  | near => exact hclient
  | far => exact hserver

theorem link_eq (hclient : n'.clients c = n.clients c) (hserver : n'.serverEnd c = n.serverEnd c) :
    n'.link c = n.link c := by
  funext k
  cases k with
  | near => exact hclient
  | far => exact hserver

end Links

/-! ### One event -/

variable [DecidableEq C]

/-- What happens to the connection of the client `c`. -/
def own (c : C) : SessionEvent C → Option LinkEvent
  | .link c' e => if c' = c then some e else none
  | .accepted .. | .notAccepted .. | .stop => none

def step (n : Sessions C) : SessionEvent C → Sessions C
  | .link c (.transmit .near i k) =>
    { n with clients := Function.update n.clients c ((n.clients c).transmit i k) }
  | .link c (.conn .near e) =>
    { n with clients := Function.update n.clients c ((n.clients c).arrive e) }
  | .link c (.transmit .far i k) =>
    { n with sockets := Function.update n.sockets c ((n.serverEnd c).transmit i k).socket }
  | .link c (.conn .far e) => { n with
      server := (n.session c).elim n.server fun id => n.server.step (.connection id e)
      sockets := Function.update n.sockets c ((n.serverEnd c).arrive e).socket }
  | .accepted c i endpoint => { n with
      server := n.server.step (.accepted i success ⟨.ok endpoint, .ok (n.peer c)⟩)
      session := Function.update n.session c (nextSession n.server) }
  | .notAccepted i ec accepted => { n with server := n.server.step (.accepted i ec accepted) }
  | .stop => { n with server := n.server.step .stop }

section Steps
variable {n n' : Sessions C} {c : C} {e : SessionEvent C}

omit [DecidableEq C] in
/-- What the server holds for the client it accepts. -/
theorem nextSession_conn? (s : AsyncServer) (i : Nat) (endpoint : String × Int32) (peer : Peer) :
    (nextSession s).bind (s.step (.accepted i success ⟨.ok endpoint, .ok peer⟩)).conn? =
      (nextSession s).map fun _ => .start s.cmanager.kind peer.socketStr peer.padding peer.slack := by
  rw [nextSession]
  split
  · rfl
  · rename_i hid
    rw [AsyncServer.step_accepted_ok rfl i endpoint peer hid]
    exact AsyncServer.conn?_eq_some.mpr ⟨_, Finmap.lookup_insert _, rfl⟩

/-- An event of the connection of `c`, at the server. -/
theorem serverEnd_connection (h : n.Inv) {id : Int32} (hid : n.session c = some id) (e : Conn.Event) :
    (n.step (.link c (.conn .far e))).serverEnd c = (n.serverEnd c).arrive e := by
  obtain ⟨conn, hheld⟩ := h.held c id hid
  have hlegal : n.server.Legal (.connection id e) := AsyncServer.legal_connection.mpr ⟨conn, hheld⟩
  have hserver : (n.step (.link c (.conn .far e))).server.conn? id = some (conn.step e) := by
    rw [step, hid]
    have hstep := AsyncServer.step_conn? hheld hlegal
    rw [ServerEvent.own, if_pos rfl] at hstep
    exact hstep
  have hconn : (n.serverEnd c).conn = conn := by rw [serverEnd, hid, Option.bind_some, hheld]; rfl
  have hconn' : ((n.step (.link c (.conn .far e))).serverEnd c).conn = conn.step e := by
    have hsession : (n.step (.link c (.conn .far e))).session c = some id := hid
    rw [serverEnd, hsession, Option.bind_some, hserver]
    rfl
  have hsocket : (n.step (.link c (.conn .far e))).sockets c = ((n.serverEnd c).arrive e).socket :=
    Function.update_self ..
  refine serverEnd_of ?_ hsocket
  show _ = (n.serverEnd c).conn.step e
  rw [hconn', hconn]

/-- **One event**, seen from the connection of one client. -/
theorem step_link (h : n.Inv) (hl : n.Legal e) :
    (n.step e).link c = run Link.step (n.link c) (own c e).toList := by
  cases e with
  | link c' e =>
    by_cases hc : c' = c
    · subst hc
      rw [own, if_pos rfl, Option.toList_some, run, run_nil]
      cases e with
      | transmit k i m =>
        cases k with
        | near => exact link_near (Function.update_self ..) rfl
        | far => exact link_far rfl (serverEnd_of rfl (Function.update_self ..))
      | conn k e =>
        cases k with
        | near => exact link_near (Function.update_self ..) rfl
        | far =>
          obtain ⟨id, hid⟩ := Option.isSome_iff_exists.mp (hl.2 rfl)
          exact link_far rfl (serverEnd_connection h hid e)
    · rw [own, if_neg hc, Option.toList_none, run_nil]
      cases e with
      | transmit k i m =>
        cases k with
        | near => exact link_eq (Function.update_of_ne (Ne.symm hc) ..) rfl
        | far =>
          refine link_eq rfl (serverEnd_of rfl ?_)
          exact Function.update_of_ne (Ne.symm hc) ..
      | conn k e =>
        cases k with
        | near => exact link_eq (Function.update_of_ne (Ne.symm hc) ..) rfl
        | far =>
          obtain ⟨id, hid⟩ := Option.isSome_iff_exists.mp (hl.2 rfl)
          have hlegal : n.server.Legal (.connection id e) :=
            AsyncServer.legal_connection.mpr (h.held c' id hid)
          have hown : ∀ id', n.session c = some id' → ServerEvent.own id' (.connection id e) = none := by
            intro id' hid'
            refine if_neg ?_
            rintro rfl
            exact hc (h.apart c' c id hid hid')
          refine link_eq rfl (serverEnd_eq h hlegal hown ?_ rfl rfl (Function.update_of_ne (Ne.symm hc) ..))
          rw [step, hid]
          rfl
  | accepted c' i endpoint =>
    rw [own, Option.toList_none, run_nil]
    refine link_eq rfl ?_
    by_cases hc : c' = c
    · subst hc
      have hsession : (n.step (.accepted c' i endpoint)).session c' = nextSession n.server :=
        Function.update_self ..
      have hconn := nextSession_conn? n.server i endpoint (n.peer c')
      have hkind := AsyncServer.step_kind hl.2
      refine serverEnd_of ?_ rfl
      rw [serverEnd, hsession, serverEnd, hl.1]
      show ((nextSession n.server).bind (n.server.step _).conn?).getD _ = _
      rw [hconn]
      cases nextSession n.server with
      | none =>
        show Conn.start (n.server.step _).cmanager.kind .. = _
        rw [hkind]
        rfl
      | some id => rfl
    · exact serverEnd_eq h hl.2 (fun _ _ => rfl) rfl (Function.update_of_ne (Ne.symm hc) ..) rfl rfl
  | notAccepted i ec accepted =>
    exact link_eq rfl (serverEnd_eq h hl.1 (fun _ _ => rfl) rfl rfl rfl rfl)
  | stop => exact link_eq rfl (serverEnd_eq (e := .stop) h trivial (fun _ _ => rfl) rfl rfl rfl rfl)

omit [DecidableEq C] in
/-- An event of the server that accepts nobody. -/
theorem Inv.of_server (h : n.Inv) {e : ServerEvent} (hl : n.server.Legal e)
    (hserver : n'.server = n.server.step e) (hsession : n'.session = n.session) : n'.Inv := by
  refine ⟨fun c id hid => ?_, fun c c' id hid hid' => ?_⟩
  · rw [hsession] at hid
    obtain ⟨conn, hheld⟩ := h.held c id hid
    rw [hserver]
    exact ⟨_, AsyncServer.step_conn? hheld hl⟩
  · rw [hsession] at hid hid'
    exact h.apart c c' id hid hid'

omit [DecidableEq C] in
/-- A client that is accepted gets an id that nobody has. -/
theorem Inv.fresh (h : n.Inv) {id : Int32} (hnext : nextSession n.server = some id) (c : C) :
    n.session c ≠ some id := by
  intro hid
  obtain ⟨conn, hheld⟩ := h.held c id hid
  rw [nextSession] at hnext
  split at hnext
  · cases hnext
  · rename_i hnew
    cases hnext
    rw [AsyncServer.conn?_eq_none hnew] at hheld
    cases hheld

theorem inv_accepted (h : n.Inv) {i : Nat} {endpoint : String × Int32} (hl : n.Legal (.accepted c i endpoint)) :
    (n.step (.accepted c i endpoint)).Inv := by
  have hself : (n.step (.accepted c i endpoint)).session c = nextSession n.server := Function.update_self ..
  have hother : ∀ c', c' ≠ c → (n.step (.accepted c i endpoint)).session c' = n.session c' :=
    fun c' hc => Function.update_of_ne hc ..
  refine ⟨fun c' id hid => ?_, fun c₁ c₂ id hid₁ hid₂ => ?_⟩
  · by_cases hc : c' = c
    · rw [hc, hself] at hid
      have hconn := nextSession_conn? n.server i endpoint (n.peer c)
      rw [hid] at hconn
      exact ⟨_, hconn⟩
    · rw [hother c' hc] at hid
      obtain ⟨conn, hheld⟩ := h.held c' id hid
      exact ⟨_, AsyncServer.step_conn? hheld hl.2⟩
  · by_cases hc₁ : c₁ = c <;> by_cases hc₂ : c₂ = c
    · rw [hc₁, hc₂]
    · rw [hc₁, hself] at hid₁
      rw [hother c₂ hc₂] at hid₂
      exact absurd hid₂ (h.fresh hid₁ c₂)
    · rw [hc₂, hself] at hid₂
      rw [hother c₁ hc₁] at hid₁
      exact absurd hid₁ (h.fresh hid₂ c₁)
    · rw [hother c₁ hc₁] at hid₁
      rw [hother c₂ hc₂] at hid₂
      exact h.apart c₁ c₂ id hid₁ hid₂

theorem step_inv (n : Sessions C) (e : SessionEvent C) (h : n.Inv) (hl : n.Legal e) : (n.step e).Inv := by
  cases e with
  | link c e =>
    cases e with
    | transmit k i m => cases k <;> exact ⟨h.held, h.apart⟩
    | conn k e =>
      cases k with
      | near => exact ⟨h.held, h.apart⟩
      | far =>
        obtain ⟨id, hid⟩ := Option.isSome_iff_exists.mp (hl.2 rfl)
        refine h.of_server (AsyncServer.legal_connection.mpr (h.held c id hid)) ?_ rfl (e := .connection id e)
        rw [step, hid]
        rfl
  | accepted c i endpoint => exact inv_accepted h hl
  | notAccepted i ec accepted => exact h.of_server hl.1 rfl rfl
  | stop => exact h.of_server (e := .stop) trivial rfl rfl

end Steps

/-! ### Runs -/

section Runs
variable {server : AsyncServer} {kind : C → ConnKind} {clients peer : C → Peer} {es : List (SessionEvent C)}

omit [DecidableEq C] in
theorem start_inv (server : AsyncServer) (kind : C → ConnKind) (clients peer : C → Peer) :
    (start server kind clients peer).Inv :=
  ⟨fun c id h => (by cases h), fun c c' id h => (by cases h)⟩

/-- The classes at the two ends. -/
def kinds (server : AsyncServer) (kind : C → ConnKind) (c : C) : Side → ConnKind
  | .near => kind c
  | .far => server.cmanager.kind

def peers (clients peer : C → Peer) (c : C) : Side → Peer
  | .near => clients c
  | .far => peer c

omit [DecidableEq C] in
theorem start_link (c : C) :
    (start server kind clients peer).link c = Link.start (kinds server kind c)
      (fun k => (peers clients peer c k).socketStr) (fun k => (peers clients peer c k).padding)
      fun k => (peers clients peer c k).slack := by
  funext k
  cases k <;> rfl

theorem own_legal {n : Sessions C} {e : SessionEvent C} {c : C} {f : LinkEvent} (hl : n.Legal e)
    (hf : own c e = some f) : (n.link c).Legal f := by
  cases e with
  | link c' e =>
    rw [own] at hf
    split at hf
    · rename_i hc
      cases hf
      cases hc
      exact hl.1
    · cases hf
  | accepted | notAccepted | stop => cases hf

/-- A run, seen from the connection of one client. -/
theorem run_link {n : Sessions C} (h : n.Inv) (hl : EachStep step Legal n es) (c : C) :
    EachStep Link.step Link.Legal (n.link c) (es.filterMap (own c)) ∧
      (run step n es).link c = run Link.step (n.link c) (es.filterMap (own c)) := by
  have hlegal : EachStep step (fun n e => n.Inv ∧ n.Legal e) n es :=
    eachStep_of_invariant step_inv (fun n e h hl => ⟨h, hl⟩) h hl
  have hstep : ∀ (n : Sessions C) (e : SessionEvent C) (l : Link), some (n.link c) = some l →
      n.Inv ∧ n.Legal e → some ((n.step e).link c) = some (run Link.step l (own c e).toList) := by
    intro n e l hlook h
    cases hlook
    exact congrArg some (step_link h.1 h.2)
  have hown : ∀ (n : Sessions C) (e : SessionEvent C) (l : Link) (f : LinkEvent), some (n.link c) = some l →
      n.Inv ∧ n.Legal e → own c e = some f → l.Legal f := by
    intro n e l f hlook h hf
    cases hlook
    exact own_legal h.2 hf
  exact ⟨component_eachStep hstep hown rfl hlegal, Option.some.inj (run_component hstep rfl hlegal)⟩

/-- **The connection of a client is a link of its own**, whatever the server does for others. -/
theorem link_run (hl : EachStep step Legal (start server kind clients peer) es) (c : C) :
    let l := Link.start (kinds server kind c) (fun k => (peers clients peer c k).socketStr)
      (fun k => (peers clients peer c k).padding) fun k => (peers clients peer c k).slack
    EachStep Link.step Link.Legal l (es.filterMap (own c)) ∧
      (run step (start server kind clients peer) es).link c = run Link.step l (es.filterMap (own c)) := by
  intro l
  have hrun := run_link (start_inv server kind clients peer) hl c
  rwa [start_link] at hrun

/-- **Every client and the server understand one another.** For any number of clients, over any legal run of
the server, its clients and the network, with the events of all connections in any order: what the server is
given on the connection of a client is a prefix of what that client has handed to `async_write`, and what the
client is given is a prefix of what the server has handed to `async_write` on that connection, as long as
those are shorter than 2³² bytes. Nothing of what happens on other connections is mixed in. -/
theorem delivered_everyClient (hl : EachStep step Legal (start server kind clients peer) es) {c : C} {id : Int32}
    {conn : Conn} (hid : (run step (start server kind clients peer) es).session c = some id)
    (hconn : (run step (start server kind clients peer) es).server.conn? id = some conn) :
    let client := ((run step (start server kind clients peer) es).clients c).conn
    ((∀ msg ∈ messages client.send.written, msg.length < 2 ^ 32) →
        conn.recv.delivered <+: messages client.send.written) ∧
      ((∀ msg ∈ messages conn.send.written, msg.length < 2 ^ 32) →
        client.recv.delivered <+: messages conn.send.written) := by
  intro client
  obtain ⟨hlegal, hlink⟩ := link_run hl c
  have hinv := Link.run_inv hlegal
  rw [← hlink] at hinv
  have hfar : ((run step (start server kind clients peer) es).link c .far).conn = conn := by
    show ((run step (start server kind clients peer) es).serverEnd c).conn = conn
    rw [serverEnd, hid, Option.bind_some, hconn]
    rfl
  have hdown := hinv.follows .far
  have hup := hinv.follows .near
  rw [Link.Short, Link.handed] at hdown hup
  refine ⟨fun hshort => ?_, fun hshort => ?_⟩
  · rw [← hfar]
    exact (hdown hshort).delivered
  · rw [← hfar] at hshort ⊢
    exact (hup hshort).delivered

end Runs

section Example

/-- Two clients. -/
def twoConnected : Sessions Bool :=
  start AsyncServer.oneListening (fun _ => .client) (fun _ => MultiClient.peer) fun _ => MultiClient.peer

/-- Both are accepted, and one of them sends something. -/
def oneSends : List (SessionEvent Bool) :=
  [.accepted true 0 ("127.0.0.1", 4000), .accepted false 0 ("127.0.0.1", 4000),
    .link true (.conn .near (.upper (.send [7]))), .link true (.transmit .near 0 8)]

theorem oneSends_legal : EachStep step Legal twoConnected oneSends :=
  ⟨⟨rfl, _, rfl, fun h => absurd h (by decide)⟩, ⟨rfl, _, rfl, fun h => absurd h (by decide)⟩,
    ⟨⟨trivial, trivial, by simp⟩, fun h => (by cases h)⟩, ⟨⟨rfl, _, rfl, by decide⟩, fun h => (by cases h)⟩, trivial⟩

theorem delivered_everyClient_two :
    ∃ conn, (run step twoConnected oneSends).server.conn? 0 = some conn ∧
      conn.recv.delivered <+: messages ((run step twoConnected oneSends).clients true).conn.send.written := by
  have hsession : (run step twoConnected oneSends).session true = some 0 := rfl
  exact ⟨_, rfl, (delivered_everyClient oneSends_legal hsession rfl).1 (by decide)⟩

end Example

end Sessions
end Thallium.Network
