import Thallium.Lib.EventRun
import Thallium.Network.Connection

/-!
# The connection manager and the multi client (connection.hpp:132-185, client.cpp:113-160)

`RealConnectionManager` files connections under ids and never takes one out again. `MultiClient`
connects to an id of its address book when something is sent to it, and remembers in `established`
which ids it has connected to and not disconnected since. An `int` wraps. The logs, which all have as
many arguments as places, are left out.

| here | there |
| --- | --- |
| `Holding`               | a connection in `holdings`; `address` and `since` are not there: what its socket was connected to, and how many `disconnect` calls came before it |
| `RealConnectionManager` | connection.hpp:133; `disconnects` is not there: the ids `disconnect` was called with |
| `Peer`                  | a connected socket: its text, and what memory the connection finds |
| `MultiClient`           | client.hpp:40 |
| `ClientEvent`           | the calls of the upper layer, and what happens to a connection in between; what the upper layer calls when it is called back is an event of its own |

* `send_established`, `send_connects`, `send_raises` — the ways a `send` can take.
* `delivered_iff` — one call, from any state that keeps the two structures in step (`Inv`).
* `eachStep_delivered_iff` — which calls come through, in every run.
-/
namespace Thallium.Network
open EventRun

/-- What an operation ends with if it does not return. -/
inductive Fault where
  | raised (e : Exception)
  | nullDereference

/-! ## The manager -/

structure Peer where
  socketStr : String
  padding : Nat → Message.Padding
  slack : Nat

structure Holding where
  conn : Conn
  address : String × Int32
  since : Nat

structure RealConnectionManager where
  kind : ConnKind
  holdings : Finmap fun _ : Int32 => Option Holding
  nextId : Int32
  disconnects : List Int32

namespace RealConnectionManager

def new (kind : ConnKind) : RealConnectionManager := ⟨kind, ∅, 0, []⟩

/-- The id a new connection gets: the given one, or the next if that is negative. -/
def connId (m : RealConnectionManager) (givenId : Int32) : Int32 :=
  if 0 ≤ givenId then givenId else m.nextId

/-- `new_connection` (connection.hpp:148): `next_id` is set before the id is checked. `peer` is what the
constructor of the connection finds: `remote_endpoint` throws if the peer has gone (connection.cpp:43). -/
def newConnection (address : String × Int32) (peer : Except Exception Peer) (givenId : Int32) :
    EStateM Fault RealConnectionManager Unit := do
  let m ← get
  let connId := m.connId givenId
  modify fun m => { m with nextId := connId + 1 }
  if connId ∈ m.holdings then throw (.raised (.logicError "The conn id exist!"))
  match peer with
  | .error e => throw (.raised e)
  | .ok peer =>
    modify fun m => { m with holdings := m.holdings.insert connId (some
      ⟨.start m.kind peer.socketStr peer.padding peer.slack, address, m.disconnects.length⟩) }

/-- `holdings[conn_id]->…`: files a null pointer under an id that is not there. -/
def onConnection (connId : Int32) (f : Conn → Conn) : EStateM Fault RealConnectionManager Unit := do
  match (← get).holdings.lookup connId with
  | some (some h) =>
    modify fun m => { m with holdings := m.holdings.insert connId (some { h with conn := f h.conn }) }
  | some none => throw .nullDereference
  | none =>
    modify fun m => { m with holdings := m.holdings.insert connId none }
    throw .nullDereference

/-- `send` (connection.hpp:169). -/
def send (connId : Int32) (msg : List UInt8) : EStateM Fault RealConnectionManager Unit :=
  onConnection connId (·.upperCall (.send msg))

/-- `disconnect` (connection.hpp:172). -/
def disconnect (connId : Int32) : EStateM Fault RealConnectionManager Unit := do
  modify fun m => { m with disconnects := m.disconnects ++ [connId] }
  onConnection connId (·.upperCall .disconnect)

section Operations
variable {m : RealConnectionManager} {id : Int32} {h : Holding}

theorem connId_eq_iff : m.connId id = id ↔ 0 ≤ id ∨ m.nextId = id := by
  unfold connId
  split
  · rename_i hid
    exact ⟨fun _ => .inl hid, fun _ => rfl⟩
  · rename_i hid
    exact ⟨.inr, fun h => h.resolve_left hid⟩

theorem onConnection_held (hid : m.holdings.lookup id = some (some h)) (f : Conn → Conn) :
    onConnection id f m =
      .ok () { m with holdings := m.holdings.insert id (some { h with conn := f h.conn }) } := by
  rw [onConnection, get_bind_apply, hid]
  rfl

theorem onConnection_missing (hid : ∀ h, m.holdings.lookup id ≠ some (some h)) (f : Conn → Conn) :
    ∃ m', onConnection id f m = .error .nullDereference m' := by
  rw [onConnection, get_bind_apply]
  rcases hlook : m.holdings.lookup id with _ | _ | h
  · exact ⟨_, rfl⟩
  · exact ⟨_, rfl⟩
  · exact absurd hlook (hid h)

theorem newConnection_ok (address : String × Int32) (peer : Peer) (hid : m.connId id ∉ m.holdings) :
    newConnection address (.ok peer) id m = .ok () { m with
      nextId := m.connId id + 1
      holdings := m.holdings.insert (m.connId id) (some
        ⟨.start m.kind peer.socketStr peer.padding peer.slack, address, m.disconnects.length⟩) } := by
  simp [newConnection, hid]

/-- Also for the connection that has been closed: it is still there. -/
theorem newConnection_raises (address : String × Int32) (peer : Except Exception Peer)
    (hid : m.connId id ∈ m.holdings) :
    newConnection address peer id m =
      .error (.raised (.logicError "The conn id exist!")) { m with nextId := m.connId id + 1 } := by
  simp only [newConnection, get_bind_apply, modify_bind_apply, if_pos hid]
  rfl

theorem newConnection_throws (address : String × Int32) (e : Exception) (hid : m.connId id ∉ m.holdings) :
    newConnection address (.error e) id m = .error (.raised e) { m with nextId := m.connId id + 1 } := by
  simp [newConnection, hid]

end Operations
end RealConnectionManager

/-! ## The client -/

structure MultiClient where
  addressBook : Finmap fun _ : Int32 => String × Int32
  conmanager : RealConnectionManager
  established : Finset Int32

namespace MultiClient

def start (addressBook : Finmap fun _ : Int32 => String × Int32) : MultiClient :=
  ⟨addressBook, .new .client, ∅⟩

/-- A call of `conmanager`. -/
def onManager (x : EStateM Fault RealConnectionManager Unit) : EStateM Fault MultiClient Unit :=
  fun s => match x s.conmanager with
    | .ok _ m => .ok () { s with conmanager := m }
    | .error e m => .error e { s with conmanager := m }

/-- `do_connect` (client.cpp:121). `attempt` is what `try_resovle` and `try_connect` come to; the peer
does not go before its connection is made. -/
def doConnect (connId : Int32) (attempt : Except Exception Peer) : EStateM Fault MultiClient Unit := do
  let s ← get
  -- `address_book[conn_id]` enters an empty address under an id that is not there
  let address := (s.addressBook.lookup connId).getD ("", 0)
  if connId ∉ s.addressBook then
    modify fun s => { s with addressBook := s.addressBook.insert connId address }
  match attempt with
  | .error e => throw (.raised e)
  | .ok peer =>
    onManager (RealConnectionManager.newConnection address (.ok peer) connId)
    modify fun s => { s with established := insert connId s.established }

/-- `send` (client.cpp:142). -/
def send (connId : Int32) (msg : List UInt8) (attempt : Except Exception Peer) :
    EStateM Fault MultiClient Unit := do
  if connId ∉ (← get).established then doConnect connId attempt
  onManager (RealConnectionManager.send connId msg)

/-- `disconnect` (client.cpp:148). -/
def disconnect (connId : Int32) : EStateM Fault MultiClient Unit := do
  onManager (RealConnectionManager.disconnect connId)
  modify fun s => { s with established := s.established.erase connId }

end MultiClient

inductive ClientEvent where
  | send (connId : Int32) (msg : List UInt8) (attempt : Except Exception Peer)
  | disconnect (connId : Int32)
  | network (connId : Int32) (e : Conn.Event)

/-- An operation completes, and the upper layer does nothing when it is called back. -/
def Conn.Event.Completion : Conn.Event → Prop
  | .readDone _ _ _ up | .writeDone _ _ _ up | .waitDone _ _ up => up = []
  | .upper _ => False

namespace MultiClient

def exec : ClientEvent → EStateM Fault MultiClient Unit
  | .send connId msg attempt => send connId msg attempt
  | .disconnect connId => disconnect connId
  | .network connId e => onManager (RealConnectionManager.onConnection connId (·.step e))

/-- An operation that faults leaves what it has done so far. -/
def step (s : MultiClient) (e : ClientEvent) : MultiClient :=
  match exec e s with
  | .ok _ s' => s'
  | .error _ s' => s'

/-- The connection held under an id. -/
def held? (s : MultiClient) (connId : Int32) : Option Holding :=
  (s.conmanager.holdings.lookup connId).join

/-- All that was ever enqueued on the connection held under an id. -/
def enqueued (s : MultiClient) (connId : Int32) : List BufferSequence :=
  match s.held? connId with
  | some h => h.conn.send.enqueued
  | none => []

/-- A message as it is enqueued, behind its header. -/
def message (pad : Message.Padding) (msg : List UInt8) : List (List UInt8) :=
  [Message.headerToString pad ⟨Message.HeaderMessageType.normal.value, UInt32.ofNat msg.length⟩, msg]

/-- Ids are in the address book, and connecting succeeds. -/
def Legal (s : MultiClient) : ClientEvent → Prop
  | .send connId _ attempt => connId ∈ s.addressBook ∧ attempt.isOk = true
  | .disconnect connId => connId ∈ s.addressBook
  | .network connId e => (s.held? connId).isSome = true ∧ e.Completion

/-- The call returns, and a message is enqueued on an open connection to the id that was created after
the last `disconnect` of it. -/
def Delivered (s : MultiClient) : ClientEvent → Prop
  | .send connId msg attempt => ∃ s' h pad, send connId msg attempt s = .ok () s' ∧
      s'.held? connId = some h ∧ h.conn.isOpen = true ∧ s.addressBook.lookup connId = some h.address ∧
      connId ∉ s'.conmanager.disconnects.drop h.since ∧
      s'.enqueued connId = s.enqueued connId ++ [⟨(s.enqueued connId).length, message pad msg⟩]
  | .disconnect connId => ∃ s', disconnect connId s = .ok () s'
  | .network _ _ => True

/-- A `send` is the first to an id that is not negative, or its connection is still open and has not
been disconnected; a `disconnect` comes after a `send`. -/
def Connects (s : MultiClient) : ClientEvent → Prop
  | .send connId _ _ =>
    if connId ∈ s.established then ∃ h, s.held? connId = some h ∧ h.conn.isOpen = true
    else connId ∉ s.conmanager.holdings ∧ (0 ≤ connId ∨ s.conmanager.nextId = connId)
  | .disconnect connId => (s.held? connId).isSome = true
  | .network _ _ => True

/-! ## What each call does -/

section Calls
variable {s : MultiClient} {id : Int32} {h : Holding} {address : String × Int32}

theorem held?_eq_some : s.held? id = some h ↔ s.conmanager.holdings.lookup id = some (some h) :=
  Option.join_eq_some_iff

theorem held?_eq_none : s.held? id = none ↔ ∀ h, s.conmanager.holdings.lookup id ≠ some (some h) := by
  constructor
  · intro hnone h hlook
    rw [held?_eq_some.mpr hlook] at hnone
    cases hnone
  · intro hlook
    cases hid : s.held? id with
    | none => rfl
    | some h => exact absurd (held?_eq_some.mp hid) (hlook h)

theorem onManager_ok {x : EStateM Fault RealConnectionManager Unit} {m : RealConnectionManager}
    (hx : x s.conmanager = .ok () m) : onManager x s = .ok () { s with conmanager := m } := by
  simp only [onManager, hx]

theorem onManager_error {x : EStateM Fault RealConnectionManager Unit} {e : Fault}
    {m : RealConnectionManager} (hx : x s.conmanager = .error e m) :
    onManager x s = .error e { s with conmanager := m } := by
  simp only [onManager, hx]

/-- The connection held under `id` becomes `conn`. -/
def setConn (s : MultiClient) (id : Int32) (h : Holding) (conn : Conn) : MultiClient :=
  { s with conmanager.holdings := s.conmanager.holdings.insert id (some { h with conn := conn }) }

theorem onConnection_apply (hid : s.held? id = some h) (f : Conn → Conn) :
    onManager (RealConnectionManager.onConnection id f) s = .ok () (s.setConn id h (f h.conn)) :=
  onManager_ok (RealConnectionManager.onConnection_held (held?_eq_some.mp hid) f)

theorem onConnection_null (hid : s.held? id = none) (f : Conn → Conn) :
    ∃ s', onManager (RealConnectionManager.onConnection id f) s = .error .nullDereference s' := by
  obtain ⟨m', hm'⟩ := RealConnectionManager.onConnection_missing (held?_eq_none.mp hid) f
  exact ⟨_, onManager_error hm'⟩

theorem send_established (hin : id ∈ s.established) (hid : s.held? id = some h) (msg : List UInt8)
    (attempt : Except Exception Peer) :
    send id msg attempt s = .ok () (s.setConn id h (h.conn.upperCall (.send msg))) := by
  have happly := onConnection_apply hid (·.upperCall (.send msg))
  simp only [send, get_bind_apply, not_true, hin]
  exact happly

/-- After `do_connect`, the new connection under the id the manager picked. -/
def connected (s : MultiClient) (id : Int32) (address : String × Int32) (peer : Peer) : MultiClient :=
  { s with
    conmanager := { s.conmanager with
      nextId := s.conmanager.connId id + 1
      holdings := s.conmanager.holdings.insert (s.conmanager.connId id) (some
        ⟨.start s.conmanager.kind peer.socketStr peer.padding peer.slack, address,
          s.conmanager.disconnects.length⟩) }
    established := insert id s.established }

theorem doConnect_ok (hbook : s.addressBook.lookup id = some address) (peer : Peer)
    (hnew : s.conmanager.connId id ∉ s.conmanager.holdings) :
    doConnect id (.ok peer) s = .ok () (s.connected id address peer) := by
  have hmem : id ∈ s.addressBook := Finmap.mem_iff.mpr ⟨address, hbook⟩
  have hmanager := onManager_ok (s := s) (RealConnectionManager.newConnection_ok address peer hnew)
  simp only [doConnect, get_bind_apply, hbook, Option.getD_some, hmem, not_true, if_false]
  rw [bind_apply hmanager]
  rfl

theorem doConnect_raises (hbook : s.addressBook.lookup id = some address) (peer : Peer)
    (hheld : s.conmanager.connId id ∈ s.conmanager.holdings) :
    ∃ s', doConnect id (.ok peer) s = .error (.raised (.logicError "The conn id exist!")) s' := by
  have hmem : id ∈ s.addressBook := Finmap.mem_iff.mpr ⟨address, hbook⟩
  have hmanager := onManager_error (s := s) (RealConnectionManager.newConnection_raises address (.ok peer) hheld)
  simp only [doConnect, get_bind_apply, hbook, Option.getD_some, hmem, not_true, if_false]
  rw [bind_error_apply hmanager]
  exact ⟨_, rfl⟩

theorem send_connects (hout : id ∉ s.established) {attempt : Except Exception Peer} {s' : MultiClient}
    (hconnect : doConnect id attempt s = .ok () s') (msg : List UInt8) :
    send id msg attempt s = onManager (RealConnectionManager.send id msg) s' := by
  simp only [send, get_bind_apply, hout, not_false_eq_true, if_true]
  rw [bind_apply hconnect]

theorem send_raises (hout : id ∉ s.established) {attempt : Except Exception Peer} {e : Fault}
    {s' : MultiClient} (hconnect : doConnect id attempt s = .error e s') (msg : List UInt8) :
    send id msg attempt s = .error e s' := by
  simp only [send, get_bind_apply, hout, not_false_eq_true, if_true]
  rw [bind_error_apply hconnect]

/-- After `disconnect` of the connection held under `id`. -/
def disconnected (s : MultiClient) (id : Int32) (h : Holding) : MultiClient :=
  { s with
    conmanager := { s.conmanager with
      disconnects := s.conmanager.disconnects ++ [id]
      holdings := s.conmanager.holdings.insert id
        (some { h with conn := h.conn.upperCall .disconnect }) }
    established := s.established.erase id }

theorem disconnect_ok (hid : s.held? id = some h) : disconnect id s = .ok () (s.disconnected id h) := by
  have hmanager := RealConnectionManager.onConnection_held
    (m := { s.conmanager with disconnects := s.conmanager.disconnects ++ [id] }) (held?_eq_some.mp hid)
    (·.upperCall .disconnect)
  rw [disconnect, bind_apply (onManager_ok (x := RealConnectionManager.disconnect id) hmanager)]
  rfl

theorem disconnect_null (hid : s.held? id = none) :
    ∃ s', disconnect id s = .error .nullDereference s' := by
  obtain ⟨m', hm'⟩ := RealConnectionManager.onConnection_missing
    (m := { s.conmanager with disconnects := s.conmanager.disconnects ++ [id] }) (held?_eq_none.mp hid)
    (·.upperCall .disconnect)
  rw [disconnect, bind_error_apply (onManager_error (x := RealConnectionManager.disconnect id) hm')]
  exact ⟨_, rfl⟩

theorem held?_insert {s' : MultiClient} {o : Option Holding}
    (hs : s'.conmanager.holdings = s.conmanager.holdings.insert id o) (id' : Int32) :
    s'.held? id' = if id' = id then o else s.held? id' := by
  unfold held?
  rw [hs]
  by_cases hid : id' = id
  · rw [hid, Finmap.lookup_insert, if_pos rfl]
    rfl
  · rw [Finmap.lookup_insert_of_ne _ hid, if_neg hid]

theorem held?_setConn (s : MultiClient) (id : Int32) (h : Holding) (conn : Conn) (id' : Int32) :
    (s.setConn id h conn).held? id' = if id' = id then some { h with conn := conn } else s.held? id' :=
  held?_insert rfl id'

theorem held?_connected (s : MultiClient) (id : Int32) (address : String × Int32) (peer : Peer)
    (id' : Int32) : (s.connected id address peer).held? id' =
      if id' = s.conmanager.connId id then
        some ⟨.start s.conmanager.kind peer.socketStr peer.padding peer.slack, address,
          s.conmanager.disconnects.length⟩
      else s.held? id' :=
  held?_insert rfl id'

theorem held?_disconnected (s : MultiClient) (id : Int32) (h : Holding) (id' : Int32) :
    (s.disconnected id h).held? id' =
      if id' = id then some { h with conn := h.conn.upperCall .disconnect } else s.held? id' :=
  held?_insert rfl id'

/-- What a message sent on the connection held under `id` comes to. -/
theorem held?_sent (hid : s.held? id = some h) (msg : List UInt8) :
    ∃ h' pad, (s.setConn id h (h.conn.upperCall (.send msg))).held? id = some h' ∧
      h'.conn.isOpen = h.conn.isOpen ∧ h'.address = h.address ∧ h'.since = h.since ∧
      (s.setConn id h (h.conn.upperCall (.send msg))).enqueued id =
        s.enqueued id ++ [⟨(s.enqueued id).length, message pad msg⟩] := by
  have hheld := (held?_setConn s id h (h.conn.upperCall (.send msg)) id).trans (if_pos rfl)
  refine ⟨_, h.conn.padding h.conn.send.enqueued.length, hheld, rfl, rfl, rfl, ?_⟩
  rw [enqueued, hheld, enqueued, hid]
  exact Sender.push_enqueued _ _

end Calls

/-! ## What holds between the calls -/

/-- `established` is what has been connected and not disconnected since. -/
structure Inv (s : MultiClient) : Prop where
  held : ∀ id ∈ s.established, (s.held? id).isSome = true
  address : ∀ id h, s.held? id = some h → s.addressBook.lookup id = some h.address
  since : ∀ id h, s.held? id = some h → h.since ≤ s.conmanager.disconnects.length
  fresh : ∀ id h, s.held? id = some h →
    (id ∈ s.established ↔ id ∉ s.conmanager.disconnects.drop h.since)

theorem inv_start (addressBook : Finmap fun _ : Int32 => String × Int32) : (start addressBook).Inv := by
  have hnone : ∀ id, (start addressBook).held? id = none := by
    intro id
    simp [held?, start, RealConnectionManager.new]
  refine ⟨?_, ?_, ?_, ?_⟩
  · intro id hid
    exact absurd hid (Finset.notMem_empty id)
  all_goals
    intro id h hid
    rw [hnone] at hid
    cases hid

section Steps
variable {s : MultiClient} {id : Int32} {h : Holding} {address : String × Int32}

/-- A step that files one connection and leaves all other ids as they are. -/
theorem Inv.file (hi : s.Inv) {s' : MultiClient} {h' : Holding}
    (hheld : ∀ id', s'.held? id' = if id' = id then some h' else s.held? id')
    (hbook : s'.addressBook = s.addressBook) (haddress : s.addressBook.lookup id = some h'.address)
    (hlength : s.conmanager.disconnects.length ≤ s'.conmanager.disconnects.length)
    (hsince : h'.since ≤ s'.conmanager.disconnects.length)
    (hfresh : id ∈ s'.established ↔ id ∉ s'.conmanager.disconnects.drop h'.since)
    (hothers : ∀ id', id' ≠ id → (id' ∈ s'.established ↔ id' ∈ s.established) ∧
      ∀ n ≤ s.conmanager.disconnects.length,
        (id' ∈ s'.conmanager.disconnects.drop n ↔ id' ∈ s.conmanager.disconnects.drop n)) : s'.Inv := by
  have hcases : ∀ id' h₁, s'.held? id' = some h₁ →
      id' = id ∧ h₁ = h' ∨ id' ≠ id ∧ s.held? id' = some h₁ := by
    intro id' h₁ hid'
    rw [hheld] at hid'
    by_cases heq : id' = id
    · rw [if_pos heq] at hid'
      exact .inl ⟨heq, (Option.some.inj hid').symm⟩
    · rw [if_neg heq] at hid'
      exact .inr ⟨heq, hid'⟩
  refine ⟨?_, ?_, ?_, ?_⟩
  · intro id' hin
    rw [hheld]
    by_cases heq : id' = id
    · rw [if_pos heq]
      rfl
    · rw [if_neg heq]
      exact hi.held id' ((hothers id' heq).1.mp hin)
  · intro id' h₁ hid'
    rw [hbook]
    rcases hcases id' h₁ hid' with ⟨rfl, rfl⟩ | ⟨-, hold⟩
    · exact haddress
    · exact hi.address id' h₁ hold
  · intro id' h₁ hid'
    rcases hcases id' h₁ hid' with ⟨rfl, rfl⟩ | ⟨-, hold⟩
    · exact hsince
    · exact (hi.since id' h₁ hold).trans hlength
  · intro id' h₁ hid'
    rcases hcases id' h₁ hid' with ⟨rfl, rfl⟩ | ⟨hne, hold⟩
    · exact hfresh
    · rw [(hothers id' hne).1, (hothers id' hne).2 _ (hi.since id' h₁ hold)]
      exact hi.fresh id' h₁ hold

theorem inv_setConn (hi : s.Inv) (hid : s.held? id = some h) (conn : Conn) :
    (s.setConn id h conn).Inv :=
  hi.file (held?_setConn s id h conn) rfl (hi.address id h hid) (Nat.le_refl _) (hi.since id h hid)
    (hi.fresh id h hid) (fun _ _ => ⟨Iff.rfl, fun _ _ => Iff.rfl⟩)

theorem inv_connected (hi : s.Inv) (hbook : s.addressBook.lookup id = some address)
    (hid : s.conmanager.connId id = id) (peer : Peer) : (s.connected id address peer).Inv := by
  have hheld := held?_connected s id address peer
  rw [hid] at hheld
  refine hi.file hheld rfl hbook (Nat.le_refl _) (Nat.le_refl _) ?_ ?_
  · simp [connected]
  · intro id' hne
    refine ⟨?_, fun _ _ => Iff.rfl⟩
    simp [connected, hne]

theorem inv_disconnected (hi : s.Inv) (hid : s.held? id = some h) : (s.disconnected id h).Inv := by
  have hsince := hi.since id h hid
  have hlength : s.conmanager.disconnects.length ≤ (s.conmanager.disconnects ++ [id]).length := by
    simp
  refine hi.file (held?_disconnected s id h) rfl (hi.address id h hid) hlength (hsince.trans hlength) ?_ ?_
  · simp [disconnected, List.drop_append_of_le_length hsince]
  · intro id' hne
    refine ⟨by simp [disconnected, hne], ?_⟩
    intro n hn
    simp [disconnected, List.drop_append_of_le_length hn, hne]

/-! ## Which calls come through -/

theorem delivered_send_established (hi : s.Inv) (hin : id ∈ s.established) (msg : List UInt8)
    (attempt : Except Exception Peer) :
    s.Delivered (.send id msg attempt) ↔ ∃ h, s.held? id = some h ∧ h.conn.isOpen = true := by
  obtain ⟨h, hid⟩ := Option.isSome_iff_exists.mp (hi.held id hin)
  obtain ⟨h', pad, hid', hopen, haddr, hsince, henq⟩ := held?_sent hid msg
  have hsend := send_established hin hid msg attempt
  constructor
  · rintro ⟨s', h₁, _, hsend', hid₁, hopen₁, -⟩
    rw [hsend] at hsend'
    cases hsend'
    rw [hid'] at hid₁
    cases hid₁
    exact ⟨h, hid, hopen ▸ hopen₁⟩
  · rintro ⟨h₁, hid₁, hopen₁⟩
    rw [hid] at hid₁
    cases hid₁
    refine ⟨_, h', pad, hsend, hid', hopen.trans hopen₁, ?_, ?_, henq⟩
    · rw [haddr]
      exact hi.address id h hid
    · rw [hsince]
      exact (hi.fresh id h hid).mp hin

section New
variable (hout : id ∉ s.established) (hbook : s.addressBook.lookup id = some address) (msg : List UInt8)
  (peer : Peer)
include hout hbook

/-- The manager still holds a connection under the id, disconnected or closed. -/
theorem not_delivered_held (hheld : s.conmanager.connId id ∈ s.conmanager.holdings) :
    ¬ s.Delivered (.send id msg (.ok peer)) := by
  obtain ⟨s', hconnect⟩ := doConnect_raises hbook peer hheld
  rintro ⟨_, _, _, hsend, -⟩
  rw [send_raises hout hconnect] at hsend
  cases hsend

theorem delivered_connected (hnew : s.conmanager.connId id ∉ s.conmanager.holdings)
    (heq : s.conmanager.connId id = id) : s.Delivered (.send id msg (.ok peer)) := by
  have hheld := (held?_connected s id address peer id).trans (if_pos heq.symm)
  obtain ⟨h', pad, hid', hopen, haddr, hsince, henq⟩ := held?_sent hheld msg
  have hnone : s.held? id = none := by
    rw [held?, Finmap.lookup_eq_none.mpr (heq ▸ hnew)]
    rfl
  have henq₀ : (s.connected id address peer).enqueued id = s.enqueued id := by
    rw [enqueued, hheld, enqueued, hnone]
    rfl
  rw [henq₀] at henq
  refine ⟨_, h', pad, ?_, hid', hopen.trans rfl, by rw [haddr]; exact hbook, ?_, henq⟩
  · rw [send_connects hout (doConnect_ok hbook peer hnew)]
    exact onConnection_apply hheld _
  · rw [hsince]
    simp [setConn, connected]

/-- The new connection has gone under another id. -/
theorem not_delivered_elsewhere (hi : s.Inv)
    (hnew : s.conmanager.connId id ∉ s.conmanager.holdings) (hne : s.conmanager.connId id ≠ id) :
    ¬ s.Delivered (.send id msg (.ok peer)) := by
  have hheld := (held?_connected s id address peer id).trans (if_neg (Ne.symm hne))
  rintro ⟨s', h₁, _, hsend, hid₁, -, -, hfresh, -⟩
  rw [send_connects hout (doConnect_ok hbook peer hnew)] at hsend
  cases hid : s.held? id with
  | none =>
    rw [hid] at hheld
    obtain ⟨_, hnull⟩ := onConnection_null hheld (·.upperCall (.send msg))
    have hfault := hsend.symm.trans hnull
    cases hfault
  | some h =>
    -- an older one is there, disconnected since
    rw [hid] at hheld
    have hreturned := hsend.symm.trans (onConnection_apply hheld (·.upperCall (.send msg)))
    cases hreturned
    obtain ⟨h', _, hid', -, -, hsince, -⟩ := held?_sent hheld msg
    rw [hid'] at hid₁
    cases hid₁
    rw [hsince] at hfresh
    exact absurd ((hi.fresh id h hid).mpr hfresh) hout

theorem delivered_send_new (hi : s.Inv) :
    s.Delivered (.send id msg (.ok peer)) ↔
      id ∉ s.conmanager.holdings ∧ (0 ≤ id ∨ s.conmanager.nextId = id) := by
  rw [← RealConnectionManager.connId_eq_iff]
  constructor
  · intro hd
    have hnew : s.conmanager.connId id ∉ s.conmanager.holdings :=
      fun hheld => not_delivered_held hout hbook msg peer hheld hd
    have heq : s.conmanager.connId id = id := by
      by_contra hne
      exact not_delivered_elsewhere hout hbook msg peer hi hnew hne hd
    exact ⟨heq ▸ hnew, heq⟩
  · rintro ⟨hnew, heq⟩
    exact delivered_connected hout hbook msg peer (heq.symm ▸ hnew) heq

end New

theorem delivered_disconnect : s.Delivered (.disconnect id) ↔ (s.held? id).isSome = true := by
  cases hid : s.held? id with
  | none =>
    obtain ⟨s', hnull⟩ := disconnect_null hid
    refine ⟨?_, fun h => by cases h⟩
    rintro ⟨_, hok⟩
    rw [hnull] at hok
    cases hok
  | some h => exact ⟨fun _ => rfl, fun _ => ⟨_, disconnect_ok hid⟩⟩

theorem delivered_iff (s : MultiClient) (e : ClientEvent) (hi : s.Inv) (hl : s.Legal e) :
    s.Delivered e ↔ s.Connects e := by
  cases e with
  | send id msg attempt =>
    obtain ⟨hmem, hok⟩ := hl
    simp only [Connects]
    split
    · rename_i hin
      exact delivered_send_established hi hin msg attempt
    · rename_i hout
      obtain ⟨address, hbook⟩ := Finmap.mem_iff.mp hmem
      cases attempt with
      | error e => cases hok
      | ok peer => exact delivered_send_new hout hbook msg peer hi
  | disconnect id => exact delivered_disconnect
  | network id e => exact Iff.rfl

theorem inv_step (s : MultiClient) (e : ClientEvent) (hi : s.Inv) (hl : s.Legal e) (hc : s.Connects e) :
    (s.step e).Inv := by
  cases e with
  | send id msg attempt =>
    obtain ⟨hmem, hok⟩ := hl
    simp only [Connects] at hc
    split at hc
    · rename_i hin
      obtain ⟨h, hid, -⟩ := hc
      have hstep : s.step (.send id msg attempt) = s.setConn id h (h.conn.upperCall (.send msg)) := by
        rw [step, exec, send_established hin hid]
      rw [hstep]
      exact inv_setConn hi hid _
    · rename_i hout
      obtain ⟨hnew, hpick⟩ := hc
      have heq := RealConnectionManager.connId_eq_iff.mpr hpick
      obtain ⟨address, hbook⟩ := Finmap.mem_iff.mp hmem
      cases attempt with
      | error e => cases hok
      | ok peer =>
        obtain ⟨h, hheld⟩ : ∃ h, (s.connected id address peer).held? id = some h :=
          ⟨_, (held?_connected s id address peer id).trans (if_pos heq.symm)⟩
        have hstep : s.step (.send id msg (.ok peer)) =
            (s.connected id address peer).setConn id h (h.conn.upperCall (.send msg)) := by
          rw [step, exec, send_connects hout (doConnect_ok hbook peer (heq.symm ▸ hnew)),
            RealConnectionManager.send, onConnection_apply hheld]
        rw [hstep]
        exact inv_setConn (inv_connected hi hbook heq peer) hheld _
  | disconnect id =>
    obtain ⟨h, hid⟩ := Option.isSome_iff_exists.mp hc
    have hstep : s.step (.disconnect id) = s.disconnected id h := by
      rw [step, exec, disconnect_ok hid]
    rw [hstep]
    exact inv_disconnected hi hid
  | network id e =>
    obtain ⟨h, hid⟩ := Option.isSome_iff_exists.mp hl.1
    have hstep : s.step (.network id e) = s.setConn id h (h.conn.step e) := by
      rw [step, exec, onConnection_apply hid]
    rw [hstep]
    exact inv_setConn hi hid _

end Steps

/-! ## Runs -/

/-- **Sending and disconnecting.** In a run of calls with ids of the address book, where connecting
succeeds, every call returns and every message is enqueued on an open connection created after the last
`disconnect` of its id, **iff** nothing is sent to an id once it is disconnected or its connection has
closed, nothing is disconnected that was never sent to, and a connection to a negative id is only asked
for when that id is the next. -/
theorem eachStep_delivered_iff (addressBook : Finmap fun _ : Int32 => String × Int32)
    (es : List ClientEvent) (hl : EachStep step Legal (start addressBook) es) :
    EachStep step Delivered (start addressBook) es ↔ EachStep step Connects (start addressBook) es :=
  eachStep_iff inv_step delivered_iff (inv_start addressBook) hl

section Example

def oneServer : Finmap fun _ : Int32 => String × Int32 := Finmap.singleton 0 ("127.0.0.1", 4000)

def peer : Peer := ⟨"127.0.0.1:4000", fun _ => ⟨[0, 0, 0], rfl⟩, 0⟩

/-- Two messages, then the end. -/
theorem eachStep_delivered_two :
    EachStep step Delivered (start oneServer)
      [.send 0 [1] (.ok peer), .send 0 [2] (.ok peer), .disconnect 0] := by
  refine (eachStep_delivered_iff _ _ ?_).mpr ?_
  · exact ⟨⟨by decide, rfl⟩, ⟨by decide, rfl⟩, (by decide : (0 : Int32) ∈ oneServer), trivial⟩
  · have hnew : (start oneServer).Connects (.send 0 [1] (.ok peer)) := by
      rw [Connects, if_neg (by decide)]
      decide
    exact ⟨hnew, ⟨_, rfl, rfl⟩, rfl, trivial⟩

/-- The server is not connected to again. -/
theorem not_eachStep_delivered_reconnect :
    ¬ EachStep step Delivered (start oneServer)
      [.send 0 [1] (.ok peer), .disconnect 0, .send 0 [2] (.ok peer)] := by
  rintro ⟨-, -, ⟨s', -, -, hsend, -⟩, -⟩
  have hbook : (step (step (start oneServer) (.send 0 [1] (.ok peer))) (.disconnect 0)).addressBook.lookup
      0 = some ("127.0.0.1", 4000) := rfl
  obtain ⟨_, hconnect⟩ := doConnect_raises hbook peer (by decide)
  rw [send_raises (by decide) hconnect] at hsend
  cases hsend

end Example

end MultiClient
end Thallium.Network
