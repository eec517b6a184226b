import Thallium.Network.ConnectionManager

/-!
# The accept loop of a server (network/server.cpp:17-62)

`start` asks for one connection, and the handler of a connection that is accepted asks for the next. Between
the completions of accepts anything may happen to the connections that are there. A handler that throws leaves
what it has done so far.

| here | there |
| --- | --- |
| `AsyncServer`  | server.hpp:14; `created` is not there: the ids of the connections, in order |
| `AcceptOp`     | an `async_accept` in flight |
| `Accepted`     | the socket it hands over: what `remote_endpoint` gives (server.cpp:35), and what the connection finds (connection.cpp:43) |
| `start`, `stop`, `doAccept`, `whenAccept` | server.cpp:27-62 |
| `ServerEvent`  | Boost.Asio, the connections and `stop` |

* `whenAccept_ok`, `whenAccept_fails`, `whenAccept_throws` — the ways a completion can take.
* `inv_accepted`, `lost_accepted` — what each leaves.
* `keepsAccepting_iff` — the runs in which the server goes on accepting.
-/
namespace Thallium.Network
open EventRun

structure AcceptOp where
  cancelled : Bool
  deriving DecidableEq, Repr

structure Accepted where
  endpoint : Except Exception (String × Int32)
  peer : Except Exception Peer

structure AsyncServer where
  port : UInt16
  isOpen : Bool
  accepts : List AcceptOp
  cmanager : RealConnectionManager
  created : List Int32

namespace AsyncServer

/-- A member function of the server. -/
abbrev Call : Type := EStateM Fault AsyncServer Unit

def new (port : UInt16) (heartbeat : Bool) : AsyncServer :=
  ⟨port, false, [], .new (if heartbeat then .serverWithHeartbeat else .server), []⟩

/-- What may throw. -/
def attempt {α : Type} (r : Except Exception α) : EStateM Fault AsyncServer α :=
  match r with
  | .ok a => pure a
  | .error e => throw (.raised e)

/-- A call of `_cmanager`. -/
def onManager (x : EStateM Fault RealConnectionManager Unit) : Call :=
  fun s => match x s.cmanager with
    | .ok _ m => .ok () { s with cmanager := m }
    | .error e m => .error e { s with cmanager := m }

/-- `do_accept` (server.cpp:27). -/
def doAccept : Call := modify fun s => { s with accepts := s.accepts ++ [⟨false⟩] }

/-- `when_accept` (server.cpp:31). The id is the one `new_connection` assigns. -/
def whenAccept (ec : ErrorCode) (accepted : Accepted) : Call := do
  if ec.value = 0 then
    let endpoint ← attempt accepted.endpoint
    discard (attempt (format "Accepting connection from \x7b\x7d" [endpoint.1]))
    let id := (← get).cmanager.connId (-1)
    onManager (RealConnectionManager.newConnection endpoint accepted.peer (-1))
    modify fun s => { s with created := s.created ++ [id] }
    doAccept
  else if ec.value = operationAborted then
    return -- the text of this log is not formatted
  else
    discard (attempt (format "Accept failed: \x7b\x7d" [ec.message]))

/-- `stop` (server.cpp:45). -/
def stop : Call :=
  modify fun s => { s with accepts := s.accepts.map fun _ => ⟨true⟩, isOpen := false }

/-- `start` (server.cpp:51). `opened` and `listening` are what `open` comes to, and `bind`, `listen` and
`local_endpoint`. -/
def start (opened : Except Exception Unit) (listening : Except Exception UInt16) : Call := do
  attempt opened
  modify fun s => { s with isOpen := true }
  let localPort ← attempt listening
  modify fun s => { s with port := if s.port = 0 then localPort else s.port }
  doAccept

end AsyncServer

/-- The `i`-th accept in flight completes; something happens to a connection; `stop` is called. -/
inductive ServerEvent where
  | accepted (i : Nat) (ec : ErrorCode) (accepted : Accepted)
  | connection (connId : Int32) (e : Conn.Event)
  | stop

/-- An accept succeeds. -/
def ServerEvent.isSuccess : ServerEvent → Bool
  | accepted _ ec _ => ec.value == 0
  | connection .. | stop => false

namespace AsyncServer

def exec : ServerEvent → Call
  | .accepted i ec accepted => do
    modify fun s => { s with accepts := s.accepts.eraseIdx i }
    whenAccept ec accepted
  | .connection connId e => onManager (RealConnectionManager.onConnection connId (·.step e))
  | .stop => stop

def step (s : AsyncServer) (e : ServerEvent) : AsyncServer :=
  match exec e s with
  | .ok _ s' => s'
  | .error _ s' => s'

/-- Only accepts in flight complete, only cancelled ones with `operation_aborted`, and things happen to
connections that are there. -/
def Legal (s : AsyncServer) : ServerEvent → Prop
  | .accepted i ec _ => ∃ op, s.accepts[i]? = some op ∧ (ec.value = operationAborted → op.cancelled = true)
  | .connection connId _ => ∃ h, s.cmanager.holdings.lookup connId = some (some h)
  | .stop => True

/-- A success files one connection, under an id that none had before. -/
def Yields (s : AsyncServer) : ServerEvent → Prop
  | .accepted i ec accepted => ec.value = 0 → ∃ id h, id ∉ s.created ∧
      (s.step (.accepted i ec accepted)).created = s.created ++ [id] ∧
      (s.step (.accepted i ec accepted)).cmanager.holdings = s.cmanager.holdings.insert id (some h)
  | .connection _ _ | .stop => True

/-- One accept is in flight between any two handlers, and each success yields a connection. -/
def KeepsAccepting (s : AsyncServer) (es : List ServerEvent) : Prop :=
  Always step (fun s => s.accepts.length = 1) s es ∧ EachStep step Yields s es

end AsyncServer

/-- An accept succeeds, and its peer is still there when it is asked for its address. -/
def ServerEvent.Succeeds : ServerEvent → Prop
  | .accepted _ ec peer => ec.value = 0 ∧ peer.endpoint.isOk = true ∧ peer.peer.isOk = true
  | .connection _ _ | .stop => True

namespace AsyncServer

/-! ## What a completion does -/

section Completions
variable {s : AsyncServer} {ec : ErrorCode} {accepted : Accepted}

theorem exists_of_isOk {α : Type} {r : Except Exception α} (h : r.isOk = true) : ∃ a, r = .ok a := by
  cases r with
  | error e => cases h
  | ok a => exact ⟨a, rfl⟩

theorem attempt_bind_ok {α β : Type} {r : Except Exception α} {a : α} (hr : r = .ok a)
    (f : α → EStateM Fault AsyncServer β) (s : AsyncServer) : (attempt r >>= f) s = f a s := by
  rw [hr]
  rfl

theorem attempt_bind_error {α β : Type} {r : Except Exception α} {e : Exception} (hr : r = .error e)
    (f : α → EStateM Fault AsyncServer β) (s : AsyncServer) :
    (attempt r >>= f) s = .error (.raised e) s := by
  rw [hr]
  rfl

theorem log_accepting (endpoint : String) :
    (discard (attempt (format "Accepting connection from \x7b\x7d" [endpoint])) : Call) = pure () := by
  have htext : format "Accepting connection from \x7b\x7d" [endpoint] =
      .ok ("Accepting connection from " ++ endpoint) := format_text_position _ endpoint rfl (by decide)
  rw [htext]
  rfl

theorem log_failed (message : String) :
    (discard (attempt (format "Accept failed: \x7b\x7d" [message])) : Call) = pure () := by
  have htext : format "Accept failed: \x7b\x7d" [message] = .ok ("Accept failed: " ++ message) :=
    format_text_position _ message rfl (by decide)
  rw [htext]
  rfl

theorem whenAccept_fails (h : ec.value ≠ 0) : whenAccept ec accepted s = .ok () s := by
  rw [whenAccept, if_neg h, log_failed]
  split <;> rfl

/-- The server after a connection was accepted and filed. -/
def filed (s : AsyncServer) (endpoint : String × Int32) (peer : Peer) : AsyncServer :=
  { s with
    accepts := s.accepts ++ [⟨false⟩]
    created := s.created ++ [s.cmanager.connId (-1)]
    cmanager := { s.cmanager with
      nextId := s.cmanager.connId (-1) + 1
      holdings := s.cmanager.holdings.insert (s.cmanager.connId (-1)) (some
        ⟨.start s.cmanager.kind peer.socketStr peer.padding peer.slack, endpoint,
          s.cmanager.disconnects.length⟩) } }

theorem onManager_ok {x : EStateM Fault RealConnectionManager Unit} {m : RealConnectionManager}
    (hx : x s.cmanager = .ok () m) : onManager x s = .ok () { s with cmanager := m } := by
  simp only [onManager, hx]

theorem onManager_error {x : EStateM Fault RealConnectionManager Unit} {e : Fault}
    {m : RealConnectionManager} (hx : x s.cmanager = .error e m) :
    onManager x s = .error e { s with cmanager := m } := by
  simp only [onManager, hx]

theorem whenAccept_ok {endpoint : String × Int32} {peer : Peer} (h : ec.value = 0)
    (hendpoint : accepted.endpoint = .ok endpoint) (hpeer : accepted.peer = .ok peer)
    (hnew : s.cmanager.connId (-1) ∉ s.cmanager.holdings) :
    whenAccept ec accepted s = .ok () (s.filed endpoint peer) := by
  have hmanager := onManager_ok (s := s) (RealConnectionManager.newConnection_ok endpoint peer hnew)
  rw [whenAccept, if_pos h, attempt_bind_ok hendpoint, log_accepting, hpeer]
  simp only [pure_bind_apply, get_bind_apply, bind_apply hmanager, modify_bind_apply]
  rfl

/-- The peer has gone: no accept is asked for. -/
theorem whenAccept_throws (h : ec.value = 0) (hnew : s.cmanager.connId (-1) ∉ s.cmanager.holdings)
    (hgone : ¬ (accepted.endpoint.isOk = true ∧ accepted.peer.isOk = true)) :
    ∃ e s', whenAccept ec accepted s = .error e s' ∧ s'.accepts = s.accepts := by
  rw [whenAccept, if_pos h]
  cases hendpoint : accepted.endpoint with
  | error e => exact ⟨_, s, attempt_bind_error rfl _ s, rfl⟩
  | ok endpoint =>
    cases hpeer : accepted.peer with
    | ok peer => exact absurd ⟨by rw [hendpoint]; rfl, by rw [hpeer]; rfl⟩ hgone
    | error e =>
      have hmanager := onManager_error (s := s) (RealConnectionManager.newConnection_throws endpoint e hnew)
      rw [attempt_bind_ok rfl, log_accepting]
      simp only [pure_bind_apply, get_bind_apply, bind_error_apply hmanager]
      exact ⟨_, _, rfl, rfl⟩

end Completions

/-! ## What holds between the handlers -/

/-- One accept is in flight, and the `n` connections have the first `n` ids. -/
structure Inv (n : Nat) (s : AsyncServer) : Prop where
  accepts : s.accepts = [⟨false⟩]
  created : s.created = (List.range n).map Int32.ofNat
  next : s.cmanager.nextId = Int32.ofNat n
  held : ∀ id, id ∈ s.cmanager.holdings ↔ id ∈ s.created

/-- Below 2^31 an `int` that counts up does not come back. -/
theorem int32_ofNat_inj {i j : Nat} (hi : i < 2 ^ 31) (hj : j < 2 ^ 31) (h : Int32.ofNat i = Int32.ofNat j) :
    i = j := by
  have hint := congrArg Int32.toInt h
  rw [Int32.toInt_ofNat_of_lt hi, Int32.toInt_ofNat_of_lt hj] at hint
  exact Int.ofNat.inj hint

section Steps
variable {n : Nat} {s : AsyncServer} {i : Nat} {ec : ErrorCode} {accepted : Accepted}

theorem inv_start {opened : Except Exception Unit} {listening : Except Exception UInt16} {port : UInt16}
    {heartbeat : Bool} (hs : start opened listening (new port heartbeat) = .ok () s) : Inv 0 s := by
  rw [start] at hs
  cases opened with
  | error e => cases hs
  | ok _ =>
    cases listening with
    | error e => cases hs
    | ok localPort =>
      cases hs
      refine ⟨rfl, rfl, rfl, ?_⟩
      intro id
      exact iff_of_false Finmap.notMem_empty List.not_mem_nil

/-- The id assigned next is new. -/
theorem Inv.fresh (h : Inv n s) (hn : n < 2 ^ 31) : s.cmanager.connId (-1) ∉ s.created := by
  have hid : s.cmanager.connId (-1) = Int32.ofNat n := h.next
  rw [hid, h.created]
  intro hmem
  obtain ⟨j, hj, heq⟩ := List.mem_map.mp hmem
  have hlt := List.mem_range.mp hj
  exact Nat.ne_of_lt hlt (int32_ofNat_inj (hlt.trans hn) hn heq)

/-- Only the one accept that is in flight can complete. -/
theorem step_accepted (h : Inv n s) (hl : s.Legal (.accepted i ec accepted)) :
    s.step (.accepted i ec accepted) =
      match whenAccept ec accepted { s with accepts := [] } with
      | .ok _ s' => s'
      | .error _ s' => s' := by
  obtain ⟨op, hop, -⟩ := hl
  have hi : i = 0 := by
    have hlt := (List.getElem?_eq_some_iff.mp hop).1
    rw [h.accepts, List.length_singleton] at hlt
    omega
  subst hi
  have hnone : s.accepts.eraseIdx 0 = [] := by rw [h.accepts]; rfl
  rw [step, exec, modify_bind_apply, hnone]

/-- **A success**, with its peer still there. -/
theorem inv_accepted (h : Inv n s) (hn : n < 2 ^ 31) (hl : s.Legal (.accepted i ec accepted))
    (hsucc : ServerEvent.Succeeds (.accepted i ec accepted)) :
    Inv (n + 1) (s.step (.accepted i ec accepted)) ∧ s.Yields (.accepted i ec accepted) := by
  obtain ⟨h0, hendpoint, hpeer⟩ := hsucc
  obtain ⟨endpoint, hendpoint⟩ := exists_of_isOk hendpoint
  obtain ⟨peer, hpeer⟩ := exists_of_isOk hpeer
  have hfresh := h.fresh hn
  have hnew : s.cmanager.connId (-1) ∉ s.cmanager.holdings := fun hin => hfresh ((h.held _).mp hin)
  have hstep : s.step (.accepted i ec accepted) = { s with accepts := [] }.filed endpoint peer := by
    rw [step_accepted h hl, whenAccept_ok (s := { s with accepts := [] }) h0 hendpoint hpeer hnew]
  refine ⟨?_, ?_⟩
  · rw [hstep]
    have hid : s.cmanager.connId (-1) = Int32.ofNat n := h.next
    refine ⟨rfl, ?_, ?_, ?_⟩
    · show s.created ++ [s.cmanager.connId (-1)] = _
      rw [List.range_succ, List.map_append, ← h.created, hid]
      rfl
    · show s.cmanager.connId (-1) + 1 = _
      rw [hid, Int32.ofNat_add]
      rfl
    · intro id
      show id ∈ s.cmanager.holdings.insert _ _ ↔ id ∈ s.created ++ [s.cmanager.connId (-1)]
      rw [Finmap.mem_insert, h.held, List.mem_append, List.mem_singleton]
      exact or_comm
  · intro _
    rw [hstep]
    exact ⟨_, _, hfresh, rfl, rfl⟩

/-- **A failure**, or a peer that has gone: no accept is in flight any more. -/
theorem lost_accepted (h : Inv n s) (hn : ec.value = 0 → n < 2 ^ 31) (hl : s.Legal (.accepted i ec accepted))
    (hfail : ¬ ServerEvent.Succeeds (.accepted i ec accepted)) :
    (s.step (.accepted i ec accepted)).accepts = [] := by
  rw [step_accepted h hl]
  by_cases h0 : ec.value = 0
  · have hnew : s.cmanager.connId (-1) ∉ s.cmanager.holdings := fun hin =>
      h.fresh (hn h0) ((h.held _).mp hin)
    obtain ⟨e, s', hs', haccepts⟩ := whenAccept_throws (s := { s with accepts := [] }) h0 hnew
      fun hboth => hfail ⟨h0, hboth⟩
    rw [hs']
    exact haccepts
  · rw [whenAccept_fails h0]

theorem inv_connection (h : Inv n s) {connId : Int32} {e : Conn.Event}
    (hl : s.Legal (.connection connId e)) : Inv n (s.step (.connection connId e)) := by
  obtain ⟨holding, hlook⟩ := hl
  have hmanager := onManager_ok (s := s) (RealConnectionManager.onConnection_held hlook (·.step e))
  rw [step, exec, hmanager]
  refine ⟨h.accepts, h.created, h.next, ?_⟩
  intro id
  rw [← h.held, Finmap.mem_insert]
  refine or_iff_right_of_imp ?_
  rintro rfl
  exact Finmap.mem_iff.mpr ⟨_, hlook⟩

end Steps

/-! ## Runs -/

theorem keepsAccepting_cons {s : AsyncServer} {e : ServerEvent} {es : List ServerEvent} :
    KeepsAccepting s (e :: es) ↔ s.accepts.length = 1 ∧ s.Yields e ∧ KeepsAccepting (s.step e) es := by
  simp only [KeepsAccepting, Always, EachStep]
  tauto

theorem keepsAccepting_of_inv {es : List ServerEvent} {n : Nat} {s : AsyncServer} (h : Inv n s)
    (hl : EachStep step Legal s es) (hrun : .stop ∉ es) (hlt : n + es.countP ServerEvent.isSuccess ≤ 2 ^ 31) :
    KeepsAccepting s es ↔ ∀ e ∈ es, e.Succeeds := by
  have hone : s.accepts.length = 1 := by rw [h.accepts, List.length_singleton]
  induction es generalizing n s with
  | nil => exact iff_of_true ⟨hone, trivial⟩ (fun e he => nomatch he)
  | cons e es ih =>
    have hrest : .stop ∉ es := fun hin => hrun (List.mem_cons_of_mem _ hin)
    rw [keepsAccepting_cons, List.forall_mem_cons, and_iff_right hone]
    cases e with
    | stop => exact absurd List.mem_cons_self hrun
    | connection connId e =>
      have hinv := inv_connection h hl.1
      have hone' : (s.step (.connection connId e)).accepts.length = 1 := by
        rw [hinv.accepts, List.length_singleton]
      have hih := ih hinv hl.2 hrest hlt hone'
      exact and_congr Iff.rfl hih
    | accepted i ec accepted =>
      have hcount : ec.value = 0 → n + 1 + es.countP ServerEvent.isSuccess ≤ 2 ^ 31 := by
        intro h0
        have hcounts : ServerEvent.isSuccess (.accepted i ec accepted) = true := beq_iff_eq.mpr h0
        rw [List.countP_cons_of_pos hcounts] at hlt
        omega
      by_cases hsucc : ServerEvent.Succeeds (.accepted i ec accepted)
      · have hle := hcount hsucc.1
        obtain ⟨hinv, hyields⟩ := inv_accepted h (by omega) hl.1 hsucc
        have hone' : (s.step (.accepted i ec accepted)).accepts.length = 1 := by
          rw [hinv.accepts, List.length_singleton]
        have hih := ih hinv hl.2 hrest hle hone'
        exact and_congr (iff_of_true hyields hsucc) hih
      · refine iff_of_false ?_ fun hall => hsucc hall.1
        rintro ⟨-, halways, -⟩
        have hzero := halways.here
        rw [lost_accepted h (fun h0 => by have := hcount h0; omega) hl.1 hsucc] at hzero
        cases hzero

/-- **Exact condition of a server that goes on accepting.** In every run of a started server before `stop`,
with fewer than `2 ^ 31` connections, one accept is in flight between any two handlers and each that succeeds files
one connection under an id that none had before, **iff** no accept fails and the peer of each is still there
when it is asked for its address. -/
theorem keepsAccepting_iff {opened : Except Exception Unit} {listening : Except Exception UInt16}
    {port : UInt16} {heartbeat : Bool} {s : AsyncServer}
    (hs : start opened listening (new port heartbeat) = .ok () s) (es : List ServerEvent)
    (hl : EachStep step Legal s es) (hrun : .stop ∉ es) (hlt : es.countP ServerEvent.isSuccess < 2 ^ 31) :
    KeepsAccepting s es ↔ ∀ e ∈ es, e.Succeeds :=
  keepsAccepting_of_inv (inv_start hs) hl hrun (by omega)

section Example

def oneListening : AsyncServer := ⟨4000, true, [⟨false⟩], .new .server, []⟩

def someone : Accepted := ⟨.ok ("127.0.0.1", 4000), .ok MultiClient.peer⟩

/-- Two clients. -/
theorem keepsAccepting_two :
    oneListening.KeepsAccepting [.accepted 0 success someone, .accepted 0 success someone] := by
  have hs : start (.ok ()) (.ok 4000) (new 4000 false) = .ok () oneListening := rfl
  refine (keepsAccepting_iff hs _ ?_ ?_ ?_).mpr ?_
  · exact ⟨⟨_, rfl, fun h => absurd h (by decide)⟩, ⟨_, rfl, fun h => absurd h (by decide)⟩, trivial⟩
  · simp
  · decide
  · intro e he
    simp only [List.mem_cons, List.not_mem_nil, or_false, or_self] at he
    subst he
    exact ⟨rfl, rfl, rfl⟩

/-- No more file descriptors for a moment: the server accepts nobody any more. -/
theorem not_keepsAccepting_emfile :
    EachStep step Legal oneListening [.accepted 0 ⟨24, "Too many open files"⟩ someone] ∧
      ¬ oneListening.KeepsAccepting [.accepted 0 ⟨24, "Too many open files"⟩ someone] := by
  refine ⟨⟨⟨_, rfl, fun h => absurd h (by decide)⟩, trivial⟩, ?_⟩
  rintro ⟨⟨-, hone⟩, -⟩
  have hnone : (oneListening.step (.accepted 0 ⟨24, "Too many open files"⟩ someone)).accepts = [] := by
    rw [step, exec, modify_bind_apply, whenAccept_fails (by decide)]
    rfl
  have hlength := hone.here
  rw [hnone] at hlength
  cases hlength

end Example

end AsyncServer
end Thallium.Network
