import Mathlib.Data.Finset.Sort
import Mathlib.Data.Int.Interval
import Mathlib.Data.List.Perm.Subperm
import Thallium.Lib.EventRun
import Thallium.RuntimeProtocol
import Thallium.Strings.Join

/-!
# The coordinator and its workers (src/coordinator.cpp:76-162, include/coordinator.hpp)

Each worker introduces itself with a cookie it was started with. The coordinator strikes the cookie
off, enters the connection and answers; once as many connections are entered as cookies were issued it
sends all of them the map of their peers.

| here | there |
| --- | --- |
| `UnorderedMap`, `Rehash`           | `unordered_map<int, V>`; how an insertion may rearrange its nodes |
| `Request`                          | `send`, `disconnect`, `stop` (network/behavior.cpp:7-21) |
| `assertMessageType`                | coordinator.cpp:76 |
| `CoordinatorServer.firstconnection`, `broadcast`, `peersinfo`, `logic` | coordinator.cpp:98-130, behavior.hpp:75 |
| `WorkerDeamon.initLogic`, `firstconnectionOk`, `recvWorkerInfo`, `logic` | coordinator.cpp:137-162 |
| `dataServerText`, `peerItems`      | worker.hpp:17, the loop of `recv_worker_info` (coordinator.cpp:152) |
| `CoordinatorServer.redeemed`, `broadcasts` | not in the source: the history |

* `firstconnection_eq` — what one `Firsconnection` does, with the wire and the logs gone.
* `always_balanced_iff` — cookies left and workers entered add up to `worker_num` over any run **iff** no
  connection redeems a second cookie.
-/
namespace Thallium
open Message Serializer EventRun Strings

/-! ## Containers -/

/-- A connection id: an `int`. -/
abbrev ConnId : Type := BitVec 32

/-- A hash table may put its nodes in another order when one is inserted. -/
structure Rehash where
  nodes : {V : Type} → List (ConnId × V) → List (ConnId × V)
  perm : ∀ {V : Type} (l : List (ConnId × V)), (nodes l).Perm l

/-- `std::unordered_map<int, V>`: its nodes in iteration order. -/
structure UnorderedMap (V : Type) where
  nodes : List (ConnId × V)
  nodup : (nodes.map Prod.fst).Nodup

namespace UnorderedMap
variable {V : Type}

def empty : UnorderedMap V := ⟨[], List.nodup_nil⟩

def keys (m : UnorderedMap V) : List ConnId := m.nodes.map Prod.fst

def size (m : UnorderedMap V) : Nat := m.nodes.length

theorem keys_replace (nodes : List (ConnId × V)) (k : ConnId) (v : V) :
    (nodes.map fun e => if e.1 = k then (k, v) else e).map Prod.fst = nodes.map Prod.fst := by
  rw [List.map_map]
  apply List.map_congr_left
  intro e _
  by_cases he : e.1 = k
  · simp [he]
  · simp [he]

theorem keys_insert (h : Rehash) (nodes : List (ConnId × V)) (k : ConnId) (v : V) :
    ((h.nodes (nodes ++ [(k, v)])).map Prod.fst).Perm (nodes.map Prod.fst ++ [k]) := by
  have hperm := (h.perm (nodes ++ [(k, v)])).map Prod.fst
  rwa [List.map_append] at hperm

/-- `m[k] = v`. -/
def set (h : Rehash) (k : ConnId) (v : V) (m : UnorderedMap V) : UnorderedMap V :=
  if hk : k ∈ m.keys then
    ⟨m.nodes.map fun e => if e.1 = k then (k, v) else e, by rw [keys_replace]; exact m.nodup⟩
  else
    ⟨h.nodes (m.nodes ++ [(k, v)]), by
      rw [(keys_insert h m.nodes k v).nodup_iff, ← List.concat_eq_append]
      exact List.Nodup.concat hk m.nodup⟩

theorem nodup_keys (m : UnorderedMap V) : m.keys.Nodup := m.nodup

theorem length_keys (m : UnorderedMap V) : m.keys.length = m.size := List.length_map _

/-- A key that is there keeps its place. -/
theorem keys_set_of_mem (h : Rehash) {k : ConnId} (v : V) {m : UnorderedMap V} (hk : k ∈ m.keys) :
    (m.set h k v).keys = m.keys := by
  rw [set, dif_pos hk]
  exact keys_replace m.nodes k v

/-- A key that is not is one more. -/
theorem keys_set_of_not_mem (h : Rehash) {k : ConnId} (v : V) {m : UnorderedMap V} (hk : k ∉ m.keys) :
    (m.set h k v).keys.Perm (m.keys ++ [k]) := by
  rw [set, dif_neg hk]
  exact keys_insert h m.nodes k v

theorem size_set_of_mem (h : Rehash) {k : ConnId} (v : V) {m : UnorderedMap V} (hk : k ∈ m.keys) :
    (m.set h k v).size = m.size := by
  rw [← length_keys, ← length_keys, keys_set_of_mem h v hk]

theorem size_set_of_not_mem (h : Rehash) {k : ConnId} (v : V) {m : UnorderedMap V}
    (hk : k ∉ m.keys) : (m.set h k v).size = m.size + 1 := by
  rw [← length_keys, ← length_keys, (keys_set_of_not_mem h v hk).length_eq, List.length_append]
  rfl

/-- What is in a map that has been set is what was set, or was there. -/
theorem mem_nodes_set {h : Rehash} {k : ConnId} {v : V} {m : UnorderedMap V} {e : ConnId × V}
    (he : e ∈ (m.set h k v).nodes) : e = (k, v) ∨ e ∈ m.nodes := by
  unfold set at he
  split at he
  · obtain ⟨e', he', rfl⟩ := List.mem_map.mp he
    split
    · exact .inl rfl
    · exact .inr he'
  · rcases List.mem_append.mp ((h.perm _).mem_iff.mp he) with hold | hnew
    · exact .inr hold
    · exact .inl (List.mem_singleton.mp hnew)

/-- There are no more nodes than `int`s. -/
theorem size_le (m : UnorderedMap V) : m.nodes.length ≤ 2 ^ 32 := by
  have hnodup : (m.keys.map BitVec.toNat).Nodup :=
    m.nodup.map fun _ _ h => BitVec.eq_of_toNat_eq h
  have hsub : m.keys.map BitVec.toNat ⊆ List.range (2 ^ 32) := by
    intro n hn
    obtain ⟨k, -, rfl⟩ := List.mem_map.mp hn
    exact List.mem_range.mpr k.isLt
  have hle := (hnodup.subperm hsub).length_le
  rwa [List.length_map, length_keys, List.length_range] at hle

theorem size_lt (m : UnorderedMap V) : m.nodes.length < 2 ^ 64 :=
  m.size_le.trans_lt (by decide)

end UnorderedMap

/-- `PlaceObj` (place.hpp:20). -/
structure PlaceObj where
  rank : ConnId
  isLocal : Bool
  deriving DecidableEq, Repr

/-! ## Models and their requests -/

/-- What a model asks of the layer below. -/
inductive Request where
  | send (connId : ConnId) (msg : List UInt8)
  | disconnect (connId : ConnId)
  | stop
  deriving DecidableEq, Repr

/-- The messages for one connection. -/
def sentTo (connId : ConnId) (requests : List Request) : List (List UInt8) :=
  requests.filterMap fun
    | .send dest msg => if dest = connId then some msg else none
    | .disconnect _ | .stop => none

section Handlers
variable {σ : Type}

/-- `error_state` (behavior.hpp:81). -/
def errorState (errmsg : String) : EStateM Exception σ Unit := throw (.runtimeError errmsg)

/-- How a stream prints a `MessageType`: as the character it is. -/
def messageTypeText (messageType : BitVec 8) : String :=
  String.singleton (Char.ofNat messageType.toNat)

/-- `assert_message_type` (coordinator.cpp:76). -/
def assertMessageType (buf : ReadOnlyBuffer) (expected : MessageType) : EStateM Exception σ Unit := do
  let received ← raising (readHeaderMessagetype buf)
  if received = expected.value then return
  let msg ← raising (format "Unexpected Message: expected \x7b\x7d but received \x7b\x7d"
    [messageTypeText expected.value, messageTypeText received])
  errorState msg

/-- A step that throws at most, in a handler that may do worse. -/
def throwing {α : Type} (step : EStateM Exception σ α) : EStateM Fault σ α := fun s =>
  match step s with
  | .ok a s' => .ok a s'
  | .error e s' => .error (.thrown e) s'

/-- What may fail in any way, in a handler. -/
def faulting {α : Type} (r : Except Fault α) : EStateM Fault σ α :=
  match r with
  | .ok a => pure a
  | .error e => throw e

theorem faulting_bind_apply {α β : Type} {r : Except Fault α} {a : α} (hr : r = .ok a)
    (f : α → EStateM Fault σ β) (s : σ) : (faulting r >>= f) s = f a s := by
  rw [hr]
  rfl

end Handlers

/-! ## The coordinator -/

/-- The values of `current_state`. -/
inductive CoordinatorState where
  | firstconnection
  | peersinfo
  deriving DecidableEq, Repr

/-- `CoordinatorServer` (coordinator.hpp:31), with what it has asked of the layer below, the cookies it
has struck off and the buffers it has broadcast. -/
structure CoordinatorServer where
  cookies : Finset FirstConCookie
  workers : UnorderedMap PlaceObj
  workerInfo : UnorderedMap WorkerInfo
  workerNum : Nat
  currentState : CoordinatorState
  requests : List Request
  redeemed : List FirstConCookie
  broadcasts : List (List UInt8)

/-- The message made of the entered workers. -/
def peerMap (workerInfo : UnorderedMap WorkerInfo) : MsgClass.workerInfoMap.Obj :=
  (⟨workerInfo.nodes, workerInfo.size_lt⟩, ())

namespace CoordinatorServer

abbrev Handler : Type := EStateM Exception CoordinatorServer Unit

/-- The constructor (coordinator.cpp:87): `draw i` is the `i`-th cookie it makes. -/
def new (workerSize : Nat) (draw : Nat → FirstConCookie) : CoordinatorServer where
  cookies := (List.range workerSize).foldl (fun cookies i => insert (draw i) cookies) ∅
  workers := .empty
  workerInfo := .empty
  workerNum := workerSize
  currentState := .firstconnection
  requests := []
  redeemed := []
  broadcasts := []

/-- A call of the layer below. -/
def ask (request : Request) (s : CoordinatorServer) : CoordinatorServer :=
  { s with requests := s.requests ++ [request] }

/-- `broadcast` (coordinator.cpp:120). -/
def broadcast (buf : List UInt8) (s : CoordinatorServer) : CoordinatorServer :=
  { s with
    requests := s.requests ++ s.workers.keys.map fun dest => .send dest buf
    broadcasts := s.broadcasts ++ [buf] }

/-- The end of `firstconnection` (coordinator.cpp:112-117), which illegal cookies reach as well. -/
def broadcastWhenAll : Handler := do
  let s ← get
  if s.workers.size = s.workerNum then
    modify fun s => { s with currentState := .peersinfo }
    let buf ← raising (toBuffer .workerInfoMap (peerMap s.workerInfo))
    modify (broadcast buf)
    modify (ask .stop)

/-- `firstconnection` (coordinator.cpp:98). `msg` is the message `from_buffer` default-constructs. -/
def firstconnection (h : Rehash) (connId : ConnId) (buf : ReadOnlyBuffer)
    (msg : MsgClass.firsconnection.Val) : Handler := do
  assertMessageType buf .firstconnection
  let f ← raising (fromBuffer .firsconnection buf msg)
  let firstcookie : FirstConCookie := f.1
  if firstcookie ∉ (← get).cookies then
    modify (ask (.disconnect connId))
  else
    modify fun s => { s with
      cookies := s.cookies.erase firstcookie
      redeemed := s.redeemed ++ [firstcookie]
      workers := s.workers.set h connId ⟨connId, false⟩
      workerInfo := s.workerInfo.set h connId f.workerInfo }
    log "Worker \x7b\x7d registered." [toString connId.toInt]
    let reply ← raising (toBuffer .firsconnectionOK ())
    modify (ask (.send connId reply))
  broadcastWhenAll

/-- `peersinfo` (coordinator.cpp:130). -/
def peersinfo : Handler := pure ()

/-- `logic` (behavior.hpp:85). -/
def logic (h : Rehash) (connId : ConnId) (buf : ReadOnlyBuffer) (msg : MsgClass.firsconnection.Val) :
    Handler := do
  match (← get).currentState with
  | .firstconnection => firstconnection h connId buf msg
  | .peersinfo => peersinfo

end CoordinatorServer

/-! ## The workers -/

/-- The values of `current_state`. -/
inductive WorkerState where
  | firstconnectionOk
  | recvWorkerInfo
  deriving DecidableEq, Repr

/-- `WorkerDeamon` (coordinator.hpp:49), with what it has asked of the layer below. -/
structure WorkerDeamon where
  fcCookie : FirstConCookie
  workerInfo : WorkerInfo
  currentState : WorkerState
  requests : List Request

namespace WorkerDeamon

abbrev Handler : Type := EStateM Fault WorkerDeamon Unit

/-- A worker that has been constructed with a cookie. -/
def holding (cookie : FirstConCookie) (info : WorkerInfo) : WorkerDeamon :=
  ⟨cookie, info, .firstconnectionOk, []⟩

/-- The constructor (coordinator.cpp:132). -/
def new (cookie : String) (info : WorkerInfo) : Except Exception WorkerDeamon := do
  return holding (← fromPrintable cookie) info

/-- A worker is started with the printed form of a cookie. -/
theorem new_toPrintable (cookie : FirstConCookie) (info : WorkerInfo) :
    new (toPrintable cookie) info = .ok (holding cookie info) := by
  rw [new, fromPrintable_toPrintable]
  rfl

def ask (request : Request) (s : WorkerDeamon) : WorkerDeamon :=
  { s with requests := s.requests ++ [request] }

/-- What a worker says first. -/
def introduction (cookie : FirstConCookie) (info : WorkerInfo) : MsgClass.firsconnection.Obj :=
  (cookie, info, ())

/-- `init_logic` (coordinator.cpp:137): `send_to_server` sends on connection 0. -/
def initLogic : Handler := do
  let s ← get
  let buf ← throwing (raising (toBuffer .firsconnection (introduction s.fcCookie s.workerInfo)))
  modify (ask (.send 0 buf))

/-- `firstconnection_ok` (coordinator.cpp:142). -/
def firstconnectionOk (buf : ReadOnlyBuffer) : Handler := do
  throwing (assertMessageType buf .firstconnectionok)
  modify fun s => { s with currentState := .recvWorkerInfo }

/-- `std::to_string`. -/
def decimal (n : Int) : List (BitVec 8) := (toString n).toList.map fun c => BitVec.ofNat 8 c.toNat

theorem length_decimal {n : Int} (h : n.natAbs < 10 ^ 10) : (decimal n).length ≤ 11 := by
  rw [decimal, List.length_map, String.length_toList]
  cases n with
  | ofNat m =>
    have hle : (Nat.repr m).length ≤ 10 := (Nat.length_repr_le_iff (by decide)).mpr h
    exact hle.trans (by decide)
  | negSucc m =>
    have hle : (Nat.repr (m + 1)).length ≤ 10 := (Nat.length_repr_le_iff (by decide)).mpr h
    show ("-" ++ Nat.repr (m + 1)).length ≤ 11
    rw [String.length_append]
    show 1 + _ ≤ 11
    omega

theorem length_decimal_toInt (k : ConnId) : (decimal k.toInt).length ≤ 11 := by
  have hlow := k.le_toInt
  have hhigh := k.toInt_lt
  exact length_decimal (by omega)

/-- `WorkerDataServerInfo::to_string` (worker.hpp:17). -/
def dataServerText (info : WorkerInfo) : Except Exception (BasicString .char) :=
  let text := info.addr.val.map UInt8.toBitVec ++ 58#8 :: decimal info.port.toNat
  if h : text.length ≤ maxSize 1 then .ok ⟨text, h⟩
  else .error (.lengthError "basic_string::append")

/-- The items of one worker in the log text (coordinator.cpp:153-155). -/
def peerItem (workerInfo : MapOf ConnId WorkerInfo) (k : Int) : Except Exception (List (BasicString .char)) :=
  match workerInfo.lookup (BitVec.ofInt 32 k) with
  | none => .ok []
  | some info => do
    let text ← dataServerText info
    return [⟨decimal (BitVec.ofInt 32 k).toInt, (length_decimal_toInt _).trans (by decide)⟩, text,
      ⟨[44, 32], by decide⟩]

/-- `items` (coordinator.cpp:151-156), by key: the order of the map is not fixed. -/
def peerItems (workerInfo : MapOf ConnId WorkerInfo) : Except Exception (List (BasicString .char)) := do
  let items ← ((workerInfo.keys.image BitVec.toInt).sort (· ≤ ·)).mapM (peerItem workerInfo)
  return items.flatten

/-- The separator of the items. -/
def noText : BasicString .char := ⟨[], Nat.zero_le _⟩

/-- `recv_worker_info` (coordinator.cpp:148). `msg` is the message `from_buffer` default-constructs. -/
def recvWorkerInfo (connId : ConnId) (buf : ReadOnlyBuffer) (msg : MsgClass.workerInfoMap.Val) :
    Handler := do
  let wInfo ← throwing (raising (fromBuffer .workerInfoMap buf msg))
  let items ← throwing (raising (peerItems wInfo.1))
  let addresses ← faulting (stringJoin items noText)
  throwing (log "Peer addresses: \x7b\x7d" [String.ofList (addresses.map fun c => Char.ofNat c.toNat)])
  modify (ask (.disconnect connId))
  modify (ask .stop)

/-- `logic` (behavior.hpp:85). -/
def logic (connId : ConnId) (buf : ReadOnlyBuffer) (msg : MsgClass.workerInfoMap.Val) : Handler := do
  match (← get).currentState with
  | .firstconnectionOk => firstconnectionOk buf
  | .recvWorkerInfo => recvWorkerInfo connId buf msg

end WorkerDeamon

/-! ## What one message does -/

theorem sentTo_append (c : ConnId) (rs rs' : List Request) :
    sentTo c (rs ++ rs') = sentTo c rs ++ sentTo c rs' := List.filterMap_append

theorem sentTo_send (c dest : ConnId) (msg : List UInt8) :
    sentTo c [.send dest msg] = if dest = c then [msg] else [] := by
  by_cases hc : dest = c
  · simp [sentTo, hc]
  · simp [sentTo, hc]

/-- A message sent to each of some connections reaches each of them once. -/
theorem sentTo_broadcast (c : ConnId) (msg : List UInt8) {dests : List ConnId} (hd : dests.Nodup) :
    sentTo c (dests.map fun dest => .send dest msg) = if c ∈ dests then [msg] else [] := by
  induction dests with
  | nil => rfl
  | cons dest dests ih =>
    obtain ⟨hnot, hd'⟩ := List.nodup_cons.mp hd
    have hsplit : sentTo c ((dest :: dests).map fun dest => .send dest msg) =
        sentTo c [.send dest msg] ++ sentTo c (dests.map fun dest => .send dest msg) :=
      sentTo_append c [.send dest msg] _
    rw [hsplit, sentTo_send, ih hd']
    by_cases hc : dest = c
    · subst hc
      simp [hnot]
    · simp [hc, Ne.symm hc]

/-- A message of the expected type passes. -/
theorem assertMessageType_eq {σ : Type} (c : MsgClass) (m : c.Obj) (buf : ReadOnlyBuffer)
    (hbuf : buf.bytes = c.bytes m) :
    (assertMessageType buf c.messageType : EStateM Exception σ Unit) = pure () := by
  unfold assertMessageType
  rw [readHeaderMessagetype_eq c m buf hbuf]
  funext s
  simp only [raising, pure_bind_apply, if_true]

/-- A cookie is bytes, so an object is its value. -/
theorem firstConCookie_value (c : firstConCookie.Obj) : firstConCookie.value c = c := by
  obtain ⟨data, ⟨⟩⟩ := c
  show (Sized.map id data, ()) = (data, ())
  congr 1
  ext1
  exact List.map_id _

/-- The keys of a map are those of its nodes. -/
theorem mem_mapOfNodes {V : Type} (nodes : List (ConnId × V)) (k : ConnId) :
    k ∈ mapOfNodes nodes ↔ k ∈ nodes.map Prod.fst := by
  have hfold : ∀ m : MapOf ConnId V, k ∈ nodes.foldl (fun m e => m.insert e.1 e.2) m ↔
      k ∈ m ∨ k ∈ nodes.map Prod.fst := by
    induction nodes with
    | nil => simp
    | cons e nodes ih =>
      intro m
      rw [List.foldl_cons, ih, Finmap.mem_insert, List.map_cons, List.mem_cons, or_assoc, or_left_comm]
  rw [mapOfNodes, hfold]
  simp [Finmap.notMem_empty]

/-- What is found in a map is in one of its nodes. -/
theorem mem_of_lookup_mapOfNodes {V : Type} {nodes : List (ConnId × V)} {k : ConnId} {v : V}
    (h : (mapOfNodes nodes).lookup k = some v) : (k, v) ∈ nodes := by
  have hfold : ∀ m : MapOf ConnId V, (nodes.foldl (fun m e => m.insert e.1 e.2) m).lookup k = some v →
      m.lookup k = some v ∨ (k, v) ∈ nodes := by
    clear h
    induction nodes with
    | nil => exact fun _ => .inl
    | cons e nodes ih =>
      intro m hm
      rcases ih _ hm with hnew | hmem
      · by_cases hk : k = e.1
        · subst hk
          rw [Finmap.lookup_insert] at hnew
          obtain rfl := Option.some.inj hnew
          exact .inr List.mem_cons_self
        · rw [Finmap.lookup_insert_of_ne _ hk] at hnew
          exact .inl hnew
      · exact .inr (List.mem_cons_of_mem _ hmem)
  rcases hfold ∅ h with hempty | hmem
  · cases hempty
  · exact hmem

/-- No address is known of anybody in the map. -/
def UnorderedMap.Unaddressed (m : UnorderedMap WorkerInfo) : Prop := ∀ e ∈ m.nodes, e.2.addr.val = []

theorem UnorderedMap.Unaddressed.set {m : UnorderedMap WorkerInfo} (hm : m.Unaddressed) (h : Rehash)
    (connId : ConnId) {info : WorkerInfo} (hinfo : info.addr.val = []) :
    (m.set h connId info).Unaddressed := by
  intro e he
  rcases mem_nodes_set he with rfl | hold
  · exact hinfo
  · exact hm e hold

/-- A `Firsconnection` brings no address: what is stored with it is the default-constructed one. -/
theorem addr_of_fresh {d : MsgClass.firsconnection.Val} (hd : MsgClass.firsconnection.Fresh d) :
    d.workerInfo.addr.val = [] :=
  hd.2.1.1.2.1

/-- A node of the peer map, as it is written. -/
def nodeBytes (e : ConnId × WorkerInfo) : List UInt8 :=
  (Ty.trivial 4 : Ty False).bytes e.1 ++ Thallium.workerInfo.bytes e.2

theorem length_nodeBytes {e : ConnId × WorkerInfo} (he : e.2.addr.val = []) : (nodeBytes e).length = 14 := by
  obtain ⟨k, ⟨⟨port, ⟨addr, hsize⟩, ⟨⟩⟩, ⟨⟩⟩⟩ := e
  obtain rfl : addr = [] := he
  rfl

/-- So the peer map always fits into a buffer. -/
theorem UnorderedMap.Unaddressed.fits {m : UnorderedMap WorkerInfo} (hm : m.Unaddressed) :
    (MsgClass.workerInfoMap.bytes (peerMap m)).length ≤ maxSize 1 := by
  have hbytes : MsgClass.workerInfoMap.bytes (peerMap m) =
      (2 : UInt8) :: (lengthBytes m.nodes.length ++ m.nodes.flatMap nodeBytes ++ [] ++ []) := rfl
  have hnodes : (m.nodes.flatMap nodeBytes).length = m.nodes.length * 14 := by
    rw [List.length_flatMap, List.map_congr_left fun e he => length_nodeBytes (hm e he), List.map_const',
      List.sum_replicate_nat]
  have hsize := m.size_le
  rw [hbytes, List.append_nil, List.append_nil, List.length_cons, List.length_append, length_lengthBytes,
    hnodes, maxSize_one]
  show 8 + _ + 1 ≤ _
  omega

/-- **The peer map read back** has the entered connections as its keys. -/
theorem fromBuffer_peerMap (workerInfo : UnorderedMap WorkerInfo) (buf : ReadOnlyBuffer)
    (hbuf : buf.bytes = MsgClass.workerInfoMap.bytes (peerMap workerInfo))
    (d : MsgClass.workerInfoMap.Val) (hd : MsgClass.workerInfoMap.Fresh d) :
    ∃ m : MapOf ConnId WorkerInfo, fromBuffer .workerInfoMap buf d = .ok (m, ()) ∧
      ∀ c, c ∈ m ↔ c ∈ workerInfo.keys := by
  refine ⟨mapOfNodes (workerInfo.nodes.map fun e => (e.1, Thallium.workerInfo.value e.2)), ?_,
    fun c => ?_⟩
  · exact fromBuffer_eq .workerInfoMap (peerMap workerInfo) d hd buf hbuf
  · rw [mem_mapOfNodes, List.map_map]
    rfl

namespace CoordinatorServer

variable {h : Rehash} {connId : ConnId} {cookie : FirstConCookie} {info : WorkerInfo}

/-- The worker behind a cookie that is still out is entered and answered. -/
def register (h : Rehash) (connId : ConnId) (cookie : FirstConCookie) (info : WorkerInfo)
    (s : CoordinatorServer) : CoordinatorServer :=
  { s with
    cookies := s.cookies.erase cookie
    redeemed := s.redeemed ++ [cookie]
    workers := s.workers.set h connId ⟨connId, false⟩
    workerInfo := s.workerInfo.set h connId info
    requests := s.requests ++ [.send connId (MsgClass.firsconnectionOK.bytes ())] }

/-- All workers are told of each other. -/
def announce (s : CoordinatorServer) : CoordinatorServer :=
  let s' := { s with currentState := .peersinfo }.broadcast
    (MsgClass.workerInfoMap.bytes (peerMap s.workerInfo))
  s'.ask .stop

/-- What a `Firsconnection` does in `firstconnection`. -/
def received (h : Rehash) (connId : ConnId) (cookie : FirstConCookie) (info : WorkerInfo)
    (s : CoordinatorServer) : CoordinatorServer :=
  let s' := if cookie ∈ s.cookies then s.register h connId cookie info
    else s.ask (.disconnect connId)
  if s'.workers.size = s'.workerNum then s'.announce else s'

theorem broadcastWhenAll_eq {s : CoordinatorServer} (hs : s.workerInfo.Unaddressed) :
    broadcastWhenAll s = .ok () (if s.workers.size = s.workerNum then s.announce else s) := by
  unfold broadcastWhenAll
  simp only [get_bind_apply]
  by_cases hall : s.workers.size = s.workerNum
  · simp only [if_pos hall, modify_bind_apply]
    rw [raising_bind_apply (toBuffer_eq hs.fits)]
    rfl
  · simp only [if_neg hall]
    rfl

/-- **A `Firsconnection`** never throws. Its `worker_info` is the default-constructed one. -/
theorem firstconnection_eq {s : CoordinatorServer} (hs : s.workerInfo.Unaddressed)
    (m : MsgClass.firsconnection.Obj)
    (buf : ReadOnlyBuffer) (hbuf : buf.bytes = MsgClass.firsconnection.bytes m)
    (d : MsgClass.firsconnection.Val) (hd : MsgClass.firsconnection.Fresh d) :
    firstconnection h connId buf d s = .ok () (s.received h connId m.firstcookie d.workerInfo) := by
  have hassert : (assertMessageType buf .firstconnection : Handler) = pure () :=
    assertMessageType_eq .firsconnection m buf hbuf
  have hfrom : fromBuffer .firsconnection buf d = .ok (m.firstcookie, d.2) := by
    rw [fromBuffer_firsconnection m d hd buf hbuf, firstConCookie_value]
    rfl
  unfold firstconnection received
  rw [hassert, pure_bind_apply, raising_bind_apply hfrom]
  simp only [get_bind_apply]
  by_cases hc : m.firstcookie ∈ s.cookies
  · have hset := hs.set h connId (addr_of_fresh hd)
    have hlog : (log "Worker \x7b\x7d registered." [toString connId.toInt] : Handler) = pure () := rfl
    rw [if_neg (not_not_intro hc), modify_bind_apply, log_bind_apply hlog,
      raising_bind_apply toBuffer_firsconnectionOK, modify_bind_apply, broadcastWhenAll_eq hset, if_pos hc]
    rfl
  · have hsame : (s.ask (.disconnect connId)).workerInfo.Unaddressed := hs
    rw [if_pos hc, modify_bind_apply, broadcastWhenAll_eq hsame, if_neg hc]

/-- What a `Firsconnection` does in any state. -/
def onMessage (h : Rehash) (connId : ConnId) (cookie : FirstConCookie) (info : WorkerInfo)
    (s : CoordinatorServer) : CoordinatorServer :=
  match s.currentState with
  | .firstconnection => s.received h connId cookie info
  | .peersinfo => s

theorem onMessage_firstconnection {s : CoordinatorServer} (hs : s.currentState = .firstconnection) :
    s.onMessage h connId cookie info = s.received h connId cookie info := by
  unfold onMessage
  rw [hs]

theorem onMessage_peersinfo {s : CoordinatorServer} (hs : s.currentState = .peersinfo) :
    s.onMessage h connId cookie info = s := by
  unfold onMessage
  rw [hs]

/-- **`logic`** on a `Firsconnection`. -/
theorem logic_eq {s : CoordinatorServer} (hs : s.workerInfo.Unaddressed) (m : MsgClass.firsconnection.Obj)
    (buf : ReadOnlyBuffer) (hbuf : buf.bytes = MsgClass.firsconnection.bytes m)
    (d : MsgClass.firsconnection.Val) (hd : MsgClass.firsconnection.Fresh d) :
    logic h connId buf d s = .ok () (s.onMessage h connId m.firstcookie d.workerInfo) := by
  unfold logic onMessage
  simp only [get_bind_apply]
  cases s.currentState with
  | firstconnection => exact firstconnection_eq hs m buf hbuf d hd
  | peersinfo => rfl

theorem received_illegal {s : CoordinatorServer} (hcookie : cookie ∉ s.cookies)
    (hmore : s.workers.size ≠ s.workerNum) :
    s.received h connId cookie info = s.ask (.disconnect connId) := by
  unfold received
  rw [if_neg hcookie]
  exact if_neg hmore

theorem received_legal {s : CoordinatorServer} (hcookie : cookie ∈ s.cookies) :
    s.received h connId cookie info =
      if (s.workers.set h connId ⟨connId, false⟩).size = s.workerNum then
        (s.register h connId cookie info).announce
      else s.register h connId cookie info := by
  unfold received
  rw [if_pos hcookie]
  rfl

/-- The cookies a coordinator starts with. -/
theorem new_cookies (workerSize : Nat) (draw : Nat → FirstConCookie) :
    (new workerSize draw).cookies = (Finset.range workerSize).image draw := by
  show (List.range workerSize).foldl _ ∅ = _
  induction workerSize with
  | zero => rfl
  | succ n ih =>
    rw [List.range_succ, List.foldl_append, ih, Finset.range_add_one, Finset.image_insert]
    rfl

end CoordinatorServer

namespace WorkerDeamon

@[simp] theorem ask_fcCookie (r : Request) (s : WorkerDeamon) : (s.ask r).fcCookie = s.fcCookie := rfl
@[simp] theorem ask_workerInfo (r : Request) (s : WorkerDeamon) :
    (s.ask r).workerInfo = s.workerInfo := rfl
@[simp] theorem ask_currentState (r : Request) (s : WorkerDeamon) :
    (s.ask r).currentState = s.currentState := rfl

/-- **`init_logic`** sends the introduction. -/
theorem initLogic_eq (s : WorkerDeamon) :
    initLogic s = .ok () (s.ask (.send 0
      (MsgClass.firsconnection.bytes (introduction s.fcCookie s.workerInfo)))) := by
  have hbuf := toBuffer_firsconnection (introduction s.fcCookie s.workerInfo)
  unfold initLogic
  rw [get_bind_apply, hbuf]
  rfl

/-- **The answer** moves the worker on. -/
theorem firstconnectionOk_eq (s : WorkerDeamon) (buf : ReadOnlyBuffer)
    (hbuf : buf.bytes = MsgClass.firsconnectionOK.bytes ()) :
    firstconnectionOk buf s = .ok () { s with currentState := .recvWorkerInfo } := by
  have hassert : (assertMessageType buf .firstconnectionok : EStateM Exception WorkerDeamon Unit) = pure () :=
    assertMessageType_eq .firsconnectionOK () buf hbuf
  unfold firstconnectionOk
  rw [hassert]
  rfl

/-- The texts of a loop, put together. -/
theorem mapM_length_le {α β : Type} {f : α → Except Exception (List β)} {size : β → Nat} {n : Nat}
    (hf : ∀ a, ∃ bs, f a = .ok bs ∧ (bs.map size).sum ≤ n) (l : List α) :
    ∃ bss, l.mapM f = .ok bss ∧ (bss.flatten.map size).sum ≤ l.length * n := by
  induction l with
  | nil => exact ⟨[], rfl, Nat.zero_le _⟩
  | cons a l ih =>
    obtain ⟨bs, hbs, hle⟩ := hf a
    obtain ⟨bss, hbss, hles⟩ := ih
    refine ⟨bs :: bss, by rw [List.mapM_cons, hbs, hbss]; rfl, ?_⟩
    rw [List.flatten_cons, List.map_append, List.sum_append, List.length_cons, Nat.succ_mul]
    omega

/-- There are no more keys than `int`s. -/
theorem card_keys_le (m : MapOf ConnId WorkerInfo) : (m.keys.image BitVec.toInt).card ≤ 2 ^ 32 := by
  have hsub : m.keys.image BitVec.toInt ⊆ Finset.Ico (-2 ^ 31) (2 ^ 31) := by
    intro k hk
    obtain ⟨connId, -, rfl⟩ := Finset.mem_image.mp hk
    exact Finset.mem_Ico.mpr ⟨connId.le_toInt, connId.toInt_lt⟩
  have hcard := Finset.card_le_card hsub
  rw [Int.card_Ico] at hcard
  exact hcard.trans (by decide)

theorem peerItem_length_le {m : MapOf ConnId WorkerInfo}
    (hm : ∀ k info, m.lookup k = some info → info.addr.val.length ≤ 2 ^ 30) (k : Int) :
    ∃ items, peerItem m k = .ok items ∧ (items.map (·.val.length)).sum ≤ 2 ^ 30 + 25 := by
  unfold peerItem
  cases hk : m.lookup (BitVec.ofInt 32 k) with
  | none => exact ⟨[], rfl, Nat.zero_le _⟩
  | some info =>
    have haddr := hm _ info hk
    have hport : (decimal info.port.toNat).length ≤ 11 := length_decimal (by have := info.port.isLt; omega)
    have hnumber := length_decimal_toInt (BitVec.ofInt 32 k)
    have hlen : (info.addr.val.map UInt8.toBitVec ++ 58#8 :: decimal info.port.toNat).length ≤
        2 ^ 30 + 12 := by
      rw [List.length_append, List.length_map, List.length_cons]
      omega
    have htext := hlen.trans (by decide : 2 ^ 30 + 12 ≤ maxSize 1)
    refine ⟨[⟨decimal (BitVec.ofInt 32 k).toInt, (length_decimal_toInt _).trans (by decide)⟩, ⟨_, htext⟩,
      ⟨[44, 32], by decide⟩], by simp only [dataServerText, dif_pos htext]; rfl, ?_⟩
    show (decimal (BitVec.ofInt 32 k).toInt).length +
      ((info.addr.val.map UInt8.toBitVec ++ 58#8 :: decimal info.port.toNat).length + (2 + 0)) ≤ _
    omega

/-- The log text fits into its array if no address is longer than `2^30` characters. -/
theorem peerItems_fits {m : MapOf ConnId WorkerInfo}
    (hm : ∀ k info, m.lookup k = some info → info.addr.val.length ≤ 2 ^ 30) :
    ∃ items, peerItems m = .ok items ∧ Fits items noText := by
  obtain ⟨items, hitems, hle⟩ := mapM_length_le (peerItem_length_le hm)
    ((m.keys.image BitVec.toInt).sort (· ≤ ·))
  rw [Finset.length_sort] at hle
  refine ⟨items.flatten, by rw [peerItems, hitems]; rfl, ?_⟩
  have hsum : (items.flatten.map (·.val.length)).sum ≤ 2 ^ 32 * (2 ^ 30 + 25) :=
    hle.trans (Nat.mul_le_mul_right _ (card_keys_le m))
  have htotal : totalLength items.flatten noText = (items.flatten.map (·.val.length)).sum := Nat.add_zero _
  rw [Fits, htotal]
  show (_ + 1) * 1 ≤ _
  omega

/-- **The peer map** is taken, whatever addresses of up to `2^30` characters are in it. -/
theorem recvWorkerInfo_eq (s : WorkerDeamon) (connId : ConnId) {workerInfo : UnorderedMap WorkerInfo}
    (hinfo : ∀ e ∈ workerInfo.nodes, e.2.addr.val.length ≤ 2 ^ 30)
    (buf : ReadOnlyBuffer) (hbuf : buf.bytes = MsgClass.workerInfoMap.bytes (peerMap workerInfo))
    (d : MsgClass.workerInfoMap.Val) (hd : MsgClass.workerInfoMap.Fresh d) :
    recvWorkerInfo connId buf d s = .ok () ((s.ask (.disconnect connId)).ask .stop) := by
  have hfrom := fromBuffer_eq .workerInfoMap (peerMap workerInfo) d hd buf hbuf
  obtain ⟨items, hitems, hfits⟩ : ∃ items, peerItems (mapOfNodes
      (workerInfo.nodes.map fun e => (e.1, Thallium.workerInfo.value e.2))) = .ok items ∧ Fits items noText := by
    refine peerItems_fits fun k info hk => ?_
    obtain ⟨e, he, hnode⟩ := List.mem_map.mp (mem_of_lookup_mapOfNodes hk)
    obtain ⟨-, rfl⟩ := Prod.mk.inj hnode
    exact hinfo e he
  obtain ⟨addresses, haddresses⟩ := stringJoin_ok hfits
  unfold recvWorkerInfo
  rw [hfrom]
  show (throwing (raising (peerItems (mapOfNodes
    (workerInfo.nodes.map fun e => (e.1, Thallium.workerInfo.value e.2))))) >>= _) s = _
  rw [hitems]
  show (faulting (stringJoin items noText) >>= _) s = _
  rw [faulting_bind_apply haddresses]
  rfl

end WorkerDeamon

/-! ## Cookies and workers -/

/-- A `Firsconnection` that arrives on a connection, in a buffer that may lie anywhere, with the
message `from_buffer` default-constructs. -/
structure Arrival where
  connId : ConnId
  message : MsgClass.firsconnection.Obj
  buf : ReadOnlyBuffer
  isMessage : buf.bytes = MsgClass.firsconnection.bytes message
  msg : MsgClass.firsconnection.Val
  fresh : MsgClass.firsconnection.Fresh msg

/-- The cookie it carries. -/
def Arrival.firstcookie (a : Arrival) : FirstConCookie := a.message.firstcookie

/-- A worker without an address introduces itself; the buffer starts at address 0. -/
def Arrival.introduction (connId : ConnId) (cookie : FirstConCookie) : Arrival :=
  let m : MsgClass.firsconnection.Obj := (cookie, workerInfo.init, ())
  { connId
    message := m
    buf := ⟨0, MsgClass.firsconnection.bytes m, by rw [length_bytes_firsconnection]; decide⟩
    isMessage := rfl
    msg := Ty.inits _
    fresh := Ty.freshes_inits _ }

namespace CoordinatorServer

/-- The coordinator after an arrival, whether the handler has thrown or not. -/
def arrive (h : Rehash) (s : CoordinatorServer) (a : Arrival) : CoordinatorServer :=
  match logic h a.connId a.buf a.msg s with
  | .ok _ s' => s'
  | .error _ s' => s'

/-- The cookies that are out and the workers entered add up, and once no cookie is out the peers are
known. -/
def Balanced (s : CoordinatorServer) : Prop :=
  (s.currentState = .firstconnection → s.cookies.card + s.workers.size = s.workerNum) ∧
    (s.cookies = ∅ → s.currentState = .peersinfo ∧
      s.broadcasts = [MsgClass.workerInfoMap.bytes (peerMap s.workerInfo)])

/-- A cookie that is out comes from a connection that has not redeemed one. -/
def FirstCookie (s : CoordinatorServer) (a : Arrival) : Prop :=
  s.currentState = .firstconnection → a.firstcookie ∈ s.cookies → a.connId ∉ s.workers.keys

/-- What carries `Balanced`: while cookies are out there are workers missing. -/
structure Filling (s : CoordinatorServer) : Prop where
  filling : s.currentState = .firstconnection →
    s.cookies.card + s.workers.size = s.workerNum ∧ s.workers.size < s.workerNum ∧ s.broadcasts = []
  filled : s.currentState = .peersinfo →
    s.broadcasts = [MsgClass.workerInfoMap.bytes (peerMap s.workerInfo)]
  unaddressed : s.workerInfo.Unaddressed

variable {h : Rehash} {s : CoordinatorServer} {a : Arrival}

theorem arrive_eq (h : Rehash) (a : Arrival) (hs : s.workerInfo.Unaddressed) :
    s.arrive h a = s.onMessage h a.connId a.firstcookie a.msg.workerInfo := by
  rw [arrive, logic_eq hs a.message a.buf a.isMessage a.msg a.fresh]
  rfl

theorem received_workerInfo (s : CoordinatorServer) :
    (s.received h connId cookie info).workerInfo =
      if cookie ∈ s.cookies then s.workerInfo.set h connId info else s.workerInfo := by
  unfold received
  by_cases hc : cookie ∈ s.cookies
  · simp only [if_pos hc]
    split <;> rfl
  · simp only [if_neg hc]
    split <;> rfl

/-- Arrivals bring no addresses. -/
theorem arrive_unaddressed (h : Rehash) (a : Arrival) (hs : s.workerInfo.Unaddressed) :
    (s.arrive h a).workerInfo.Unaddressed := by
  rw [arrive_eq h a hs]
  cases hstate : s.currentState with
  | peersinfo => rwa [onMessage_peersinfo hstate]
  | firstconnection =>
    rw [onMessage_firstconnection hstate, received_workerInfo]
    split
    · exact hs.set h a.connId (addr_of_fresh a.fresh)
    · exact hs

theorem Filling.balanced (hf : s.Filling) : s.Balanced := by
  refine ⟨fun hs => (hf.filling hs).1, fun hnone => ?_⟩
  cases hs : s.currentState with
  | firstconnection =>
    obtain ⟨hsum, hlt, -⟩ := hf.filling hs
    rw [hnone, Finset.card_empty] at hsum
    omega
  | peersinfo => exact ⟨rfl, hf.filled hs⟩

/-- One more worker, and one cookie less. -/
theorem arrive_filling (s : CoordinatorServer) (a : Arrival) (hf : s.Filling) (hc : s.FirstCookie a) :
    (s.arrive h a).Filling := by
  have haddr := arrive_unaddressed h a hf.unaddressed
  rw [arrive_eq h a hf.unaddressed] at haddr ⊢
  cases hs : s.currentState with
  | peersinfo =>
    rw [onMessage_peersinfo hs]
    exact hf
  | firstconnection =>
    rw [onMessage_firstconnection hs]
    obtain ⟨hsum, hlt, hnone⟩ := hf.filling hs
    by_cases hmem : a.firstcookie ∈ s.cookies
    · have hsize : (s.workers.set h a.connId ⟨a.connId, false⟩).size = s.workers.size + 1 :=
        UnorderedMap.size_set_of_not_mem h _ (hc hs hmem)
      have hcard : (s.cookies.erase a.firstcookie).card + 1 = s.cookies.card :=
        Finset.card_erase_add_one hmem
      rw [onMessage_firstconnection hs, received_legal hmem, hsize] at haddr
      simp only [received_legal hmem, hsize]
      split
      · -- the last worker
        rw [if_pos ‹_›] at haddr
        refine ⟨nofun, fun _ => ?_, haddr⟩
        simp only [announce, ask, broadcast, register, hnone, List.nil_append]
      · next hmore =>
        rw [if_neg hmore] at haddr
        refine ⟨fun _ => ⟨?_, ?_, hnone⟩, fun hs' => absurd (hs.symm.trans hs') (by decide), haddr⟩
        · simp only [register, hsize]
          omega
        · simp only [register, hsize]
          omega
    · -- an illegal cookie: nothing is complete
      simp only [received_illegal hmem (Nat.ne_of_lt hlt)]
      exact ⟨hf.filling, hf.filled, hf.unaddressed⟩

/-- A second cookie from one connection overwrites its first entry: a worker will be missing. -/
theorem arrive_notBalanced (s : CoordinatorServer) (a : Arrival) (hf : s.Filling)
    (hc : ¬ s.FirstCookie a) : ¬ (s.arrive h a).Balanced := by
  simp only [FirstCookie, not_forall, not_not] at hc
  obtain ⟨hs, hmem, hkey⟩ := hc
  obtain ⟨hsum, hlt, -⟩ := hf.filling hs
  have hsize : (s.workers.set h a.connId ⟨a.connId, false⟩).size = s.workers.size :=
    UnorderedMap.size_set_of_mem h _ hkey
  have hcard : (s.cookies.erase a.firstcookie).card + 1 = s.cookies.card :=
    Finset.card_erase_add_one hmem
  rw [arrive_eq h a hf.unaddressed, onMessage_firstconnection hs]
  simp only [received_legal hmem, hsize, if_neg (Nat.ne_of_lt hlt)]
  rintro ⟨hbalance, -⟩
  have hsum' := hbalance hs
  simp only [register, hsize] at hsum'
  omega

theorem new_filling {workerSize : Nat} {draw : Nat → FirstConCookie} (hpos : 0 < workerSize)
    (hdistinct : ∀ i < workerSize, ∀ j < workerSize, draw i = draw j → i = j) :
    (new workerSize draw).Filling := by
  have hinj : Set.InjOn draw (Finset.range workerSize) := by
    intro i hi j hj hij
    exact hdistinct i (Finset.mem_range.mp hi) j (Finset.mem_range.mp hj) hij
  refine ⟨fun _ => ⟨?_, hpos, rfl⟩, nofun, nofun⟩
  rw [new_cookies, Finset.card_image_of_injOn hinj, Finset.card_range]
  rfl

/-- **Exact condition of a complete registration.** A coordinator with at least one worker and
distinct cookies gets any `Firsconnection`s on any connections. In every state cookies and workers add
up to `worker_num` while it waits, and no cookie is out only when the peer map has been broadcast,
**iff** no connection redeems a cookie when it has already redeemed one. -/
theorem always_balanced_iff (h : Rehash) (workerSize : Nat) (draw : Nat → FirstConCookie)
    (hpos : 0 < workerSize)
    (hdistinct : ∀ i < workerSize, ∀ j < workerSize, draw i = draw j → i = j)
    (arrivals : List Arrival) :
    Always (arrive h) Balanced (new workerSize draw) arrivals ↔
      EachStep (arrive h) FirstCookie (new workerSize draw) arrivals := by
  have hlegal : EachStep (arrive h) (fun _ _ => True) (new workerSize draw) arrivals :=
    EachStep.of_forall (fun _ _ => trivial) _ _
  exact always_iff_eachStep (fun _ hf => hf.balanced) (fun s a hf _ hc => arrive_filling s a hf hc)
    (fun s a hf _ hc => arrive_notBalanced s a hf hc) (new_filling hpos hdistinct) hlegal

/-- A hash table that keeps its nodes as they were inserted. -/
def inOrder : Rehash := ⟨fun l => l, fun l => List.Perm.refl l⟩

/-- A cookie of equal bytes. -/
def uniformCookie (n : Nat) : FirstConCookie :=
  (⟨List.replicate 16 (BitVec.ofNat 8 n), List.length_replicate⟩, ())

/-- The only worker introduces itself. -/
theorem always_balanced_one :
    Always (arrive inOrder) Balanced (new 1 uniformCookie)
      [Arrival.introduction 0 (uniformCookie 0)] := by
  rw [always_balanced_iff inOrder 1 uniformCookie (by decide) (by omega)]
  exact ⟨fun _ _ hkey => absurd hkey (by decide), trivial⟩

/-- Of two cookies both come from one connection: no cookie is out, and the coordinator waits for a
second worker for ever. -/
theorem not_always_balanced_two_cookies :
    ¬ Always (arrive inOrder) Balanced (new 2 uniformCookie)
      [Arrival.introduction 0 (uniformCookie 0), Arrival.introduction 0 (uniformCookie 1)] := by
  rintro ⟨-, -, -, hdone⟩
  have hnone : (((new 2 uniformCookie).arrive inOrder (Arrival.introduction 0 (uniformCookie 0))).arrive
      inOrder (Arrival.introduction 0 (uniformCookie 1))).cookies = ∅ := by decide
  have hwaits : (((new 2 uniformCookie).arrive inOrder (Arrival.introduction 0 (uniformCookie 0))).arrive
      inOrder (Arrival.introduction 0 (uniformCookie 1))).currentState = .firstconnection := by decide
  exact absurd (hwaits.symm.trans (hdone hnone).1) (by decide)

end CoordinatorServer

end Thallium
