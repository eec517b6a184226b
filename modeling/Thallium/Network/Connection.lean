import Thallium.Network.Protocol

/-!
# Connections (network/connection.cpp, connection.hpp, heartbeat.cpp)

A connection as a machine driven by the completions of the asynchronous operations it has in
flight and by its upper layer. What Boost.Asio does with an operation is the event: any error
code, and the bytes transferred. Handlers run in `Handler`, which keeps the state when they
throw: every log text is formatted where the source formats it, and `format` can throw.

| here | there |
| --- | --- |
| `ConnKind`                                  | the four connection classes (connection.hpp:66-116) |
| `Receiver`, `Sender`, `Conn.waits`          | `_receive_buffer`, `_header_buffer`, the reads; `_write_queue`, the writes; the heartbeat timer |
| `whenHeaderReceived`, `whenPayloadReceived`, `doReceivePayload`, `doReceiveMessage` | connection.cpp:47-113 |
| `whenMessageSent`, `doWrite`, `doSendHeader`, `doSendMessage` | connection.cpp:115-195 |
| `connectionClose`, `headerParser`, `handleEof` | connection.cpp:197-328, dispatched on the class |
| `whenTimeout`, `sendHeartbeat`, `sendAndReset` | connection.cpp:261, :306, heartbeat.cpp:51 |
| `Event`, `step`, `Legal`                    | Boost.Asio and the upper layer |
| `BufferSequence.ident`                      | not in the source: which `buffer_sequence` object it is |
| `enqueued`, `written`, `delivered`, `thrown`, `disconnected`, `sentAfterClose` | not in the source: the history |

* `readDone_header`, `readDone_payload`, `writeDone_eq`, `waitDone_server`, `waitDone_client` — what
  one completion does, with the logs gone.
-/
namespace Thallium.Network
open Message Serializer

/-! ## The parts of a connection -/

inductive ConnKind where
  | server
  | serverWithHeartbeat
  | client
  | clientWithHeartbeat
  deriving DecidableEq, Repr

/-- `std::error_code`: zero is success. The code compares values only, whatever their category. -/
structure ErrorCode where
  value : Int
  message : String
  deriving DecidableEq, Repr

/-- `Connection::buffer_size` (connection.hpp:30). -/
def bufferSize : Nat := 8192

/-- `std::error_code` of a success. -/
def success : ErrorCode := ⟨0, "Success"⟩

/-- `asio::error::operation_aborted`. -/
def operationAborted : Int := 125

/-- `asio::error::misc_errors::eof`. -/
def eof : Int := 2

/-- `_receive_buffer`: a `vector<char>`. -/
structure ReceiveBuffer where
  data : List UInt8
  capacity : Nat
  size_le : data.length ≤ capacity

namespace ReceiveBuffer

/-- `_receive_buffer.resize(_receive_buffer.capacity())`. -/
def resizeToCapacity (b : ReceiveBuffer) : ReceiveBuffer where
  data := b.data ++ List.replicate (b.capacity - b.data.length) 0
  capacity := b.capacity
  size_le := by have := b.size_le; simp; omega

/-- A read has put `src` at the front of the buffer. -/
def fill (b : ReceiveBuffer) (src : List UInt8) : ReceiveBuffer where
  data := copyTo b.data 0 (src.take b.data.length)
  capacity := b.capacity
  size_le := by
    have := b.size_le
    rw [length_copyTo (by simp)]
    exact this

end ReceiveBuffer

/-- Where a read puts its bytes, and with which `length` its handler is bound. -/
inductive ReadTarget where
  | header
  | payload (length : Nat)
  deriving DecidableEq, Repr

/-- An `async_read` in flight. It fills `size` bytes. -/
structure ReadOp where
  target : ReadTarget
  size : Nat
  cancelled : Bool
  deriving DecidableEq, Repr

/-- An `async_write` in flight. -/
structure WriteOp where
  totalSize : Nat
  cancelled : Bool
  deriving DecidableEq, Repr

/-- An `async_wait` in flight. -/
structure WaitOp where
  cancelled : Bool
  deriving DecidableEq, Repr

/-- The receiving side, with the messages given to the upper layer so far. -/
structure Receiver where
  receiveBuffer : ReceiveBuffer
  headerBuffer : List UInt8
  reads : List ReadOp
  delivered : List (List UInt8)

/-- A `buffer_sequence` and which one it is: the `ident`-th that was pushed. -/
structure BufferSequence where
  ident : Nat
  bufs : List (List UInt8)
  deriving DecidableEq, Repr

/-- The sending side, with all that was pushed and all that was handed to `async_write`. -/
structure Sender where
  writeQueue : List BufferSequence
  writes : List WriteOp
  enqueued : List BufferSequence
  written : List BufferSequence
  deriving DecidableEq, Repr

/-- Which completion handler an exception left. -/
inductive Path where
  | read
  | write
  | wait
  deriving DecidableEq, Repr

structure Conn where
  kind : ConnKind
  socketStr : String
  /-- What the bytes between the members of the `n`-th header hold. -/
  padding : Nat → Padding
  isOpen : Bool
  recv : Receiver
  send : Sender
  waits : List WaitOp
  events : List ConnectionEvent
  thrown : List (Path × Exception)
  /-- The upper layer closed the connection. -/
  disconnected : Bool
  /-- The upper layer sent something on the closed connection. -/
  sentAfterClose : Bool

/-! ## Sending -/

def BufferSequence.totalSize (b : BufferSequence) : Nat := (b.bufs.map List.length).sum

namespace Sender

/-- `do_write` (connection.cpp:147): the *last* of the queue is written. `back()` of an empty queue
has no meaning; no caller has one. -/
def doWrite (q : Sender) : Sender :=
  match q.writeQueue.getLast? with
  | none => q
  | some bufSeq =>
    { q with
      writes := q.writes ++ [⟨bufSeq.totalSize, false⟩]
      written := q.written ++ [bufSeq] }

/-- `_write_queue.push`, and `do_write` if it was empty (connection.cpp:169-172, :190-194). -/
def push (bufs : List (List UInt8)) (q : Sender) : Sender :=
  let bufSeq : BufferSequence := ⟨q.enqueued.length, bufs⟩
  let q := { q with
    writeQueue := q.writeQueue ++ [bufSeq]
    enqueued := q.enqueued ++ [bufSeq] }
  if q.writeQueue.length = 1 then q.doWrite else q

/-- `_write_queue.pop`, and `do_write` if something is left (connection.cpp:142-144): the *first* of
the queue is dropped. -/
def pop (q : Sender) : Sender :=
  let q := { q with writeQueue := q.writeQueue.tail }
  if q.writeQueue.length > 0 then q.doWrite else q

def cancel (q : Sender) : Sender :=
  { q with writes := q.writes.map fun op => { op with cancelled := true } }

/-- The `i`-th write is no longer in flight. -/
def complete (i : Nat) (q : Sender) : Sender := { q with writes := q.writes.eraseIdx i }

theorem doWrite_enqueued (q : Sender) : q.doWrite.enqueued = q.enqueued := by
  unfold doWrite
  split <;> rfl

/-- A push adds one to what was enqueued, whether it is written at once or not. -/
theorem push_enqueued (q : Sender) (bufs : List (List UInt8)) :
    (q.push bufs).enqueued = q.enqueued ++ [⟨q.enqueued.length, bufs⟩] := by
  unfold push
  simp only
  split
  · exact doWrite_enqueued _
  · rfl

/-- What is popped is the front, what is written next is the back of the rest. -/
theorem pop_eq (q : Sender) :
    q.pop = { q with
      writeQueue := q.writeQueue.tail
      writes := q.writes ++ (q.writeQueue.tail.getLast?.map fun b => ⟨b.totalSize, false⟩).toList
      written := q.written ++ q.writeQueue.tail.getLast?.toList } := by
  unfold pop doWrite
  cases hlast : q.writeQueue.tail.getLast? with
  | none => simp [List.getLast?_eq_none_iff.mp hlast]
  | some b =>
    have hpos : q.writeQueue.tail.length > 0 :=
      List.length_pos_of_mem (List.mem_of_getLast? hlast)
    simp only [hlast, if_pos hpos]
    rfl

theorem pop_enqueued (q : Sender) : q.pop.enqueued = q.enqueued := by rw [pop_eq]

end Sender

namespace Conn

/-- `do_send_header` (connection.cpp:165). -/
def doSendHeader (headerBuf : List UInt8) (s : Conn) : Conn :=
  { s with send := s.send.push [headerBuf] }

/-- `do_send_message` (connection.cpp:175): the length is cut to 32 bits. -/
def doSendMessage (msg : List UInt8) (s : Conn) : Conn :=
  let h : Header := ⟨HeaderMessageType.normal.value, UInt32.ofNat msg.length⟩
  { s with send := s.send.push [headerToString (s.padding s.send.enqueued.length) h, msg] }

/-! ## Timers and closing -/

/-- `timer.cancel()` (heartbeat.cpp:28, :59). -/
def heartbeatStop (s : Conn) : Conn :=
  { s with waits := s.waits.map fun _ => ⟨true⟩ }

/-- `timer.expires_from_now(interval)`, which cancels what waits, and `timer.async_wait`
(heartbeat.cpp:18-26, :54-55). -/
def timerReset (s : Conn) : Conn :=
  { s with waits := (s.waits.map fun _ => ⟨true⟩) ++ [⟨false⟩] }

end Conn

/-- `holding_socket->cancel()`: the reads. -/
def Receiver.cancel (r : Receiver) : Receiver :=
  { r with reads := r.reads.map fun op => { op with cancelled := true } }

namespace Conn

/-- `Connection::connection_close` (connection.cpp:197). -/
def socketClose (s : Conn) : Conn :=
  if s.isOpen then { s with isOpen := false, recv := s.recv.cancel, send := s.send.cancel } else s

/-- `connection_close`: the classes with a heartbeat stop their timer first (connection.cpp:256, :325). -/
def connectionClose (s : Conn) : Conn :=
  match s.kind with
  | .server | .client => s.socketClose
  | .serverWithHeartbeat | .clientWithHeartbeat => s.heartbeatStop.socketClose

/-! ## The upper layer -/

/-- What the upper layer can ask of a connection (connection.hpp:169-174). -/
inductive UpperCall where
  | send (msg : List UInt8)
  | disconnect
  deriving DecidableEq, Repr

def upperCall (s : Conn) : UpperCall → Conn
  | .send msg => { s with sentAfterClose := s.sentAfterClose || !s.isOpen }.doSendMessage msg
  | .disconnect => { s with disconnected := s.disconnected || s.isOpen }.connectionClose

/-- `upper_layer_callback(_receive_buffer.data(), length)`, and what the upper layer does in it. -/
def upperLayerCallback (length : Nat) (up : List UpperCall) (s : Conn) : Conn :=
  up.foldl upperCall
    { s with recv.delivered := s.recv.delivered ++ [s.recv.receiveBuffer.data.take length] }

/-- `upper_layer_event_callback(e)`, and what the upper layer does in it. -/
def upperLayerEventCallback (e : ConnectionEvent) (up : List UpperCall) (s : Conn) : Conn :=
  up.foldl upperCall { s with events := s.events ++ [e] }

/-! ## Receiving -/

/-- `async_read`. -/
def asyncRead (target : ReadTarget) (size : Nat) (s : Conn) : Conn :=
  { s with recv.reads := s.recv.reads ++ [⟨target, size, false⟩] }

/-- `do_receive_message` (connection.cpp:107). -/
def doReceiveMessage (s : Conn) : Conn :=
  if s.isOpen then s.asyncRead .header headerSize else s

/-- `do_receive_payload` (connection.cpp:97): `asio::buffer(_receive_buffer, length)` covers no more
than the size of the buffer. -/
def doReceivePayload (length : Nat) (s : Conn) : Conn :=
  let s :=
    if length > s.recv.receiveBuffer.capacity then
      { s with recv.receiveBuffer := s.recv.receiveBuffer.resizeToCapacity }
    else s
  s.asyncRead (.payload length) (min s.recv.receiveBuffer.data.length length)

/-- A completion handler: the state is kept when it throws. -/
abbrev Handler : Type := EStateM Exception Conn Unit

/-- `handle_eof` (connection.cpp:221, :293); the classes log different texts. -/
def handleEof (up : List UpperCall) : Handler := do
  let s ← get
  match s.kind with
  | .server | .serverWithHeartbeat => log "Client: \x7b\x7d closes connection." [s.socketStr]
  | .client | .clientWithHeartbeat => log "Server: \x7b\x7d closes connection." [s.socketStr]
  modify connectionClose
  modify (upperLayerEventCallback .close up)

/-- `ServerConnection::header_parser` (connection.cpp:210). -/
def serverHeaderParser : Handler := do
  let h := stringToHeader (← get).recv.headerBuffer
  match HeaderMessageType.ofByte? h.msgType with
  | some .normal => modify (doReceivePayload h.bodyLength.toNat)
  | some .heartbeat | none => throw (.logicError "Should not be here!")

/-- `when_receive_heartbeat` (connection.cpp:250). -/
def whenReceiveHeartbeat : Handler := do
  log "Receive heartbeat from \x7b\x7d" [(← get).socketStr]
  modify timerReset

/-- `ServerConnectionWithHeartbeat::header_parser` (connection.cpp:234). -/
def serverWithHeartbeatHeaderParser : Handler := do
  let h := stringToHeader (← get).recv.headerBuffer
  match HeaderMessageType.ofByte? h.msgType with
  | some .heartbeat =>
    whenReceiveHeartbeat
    modify doReceiveMessage
  | some .normal => modify (doReceivePayload h.bodyLength.toNat)
  | none => throw (.logicError "Should not be here!")

/-- `ClientConnection::header_parser` (connection.cpp:282): no default. -/
def clientHeaderParser : Handler := do
  let h := stringToHeader (← get).recv.headerBuffer
  match HeaderMessageType.ofByte? h.msgType with
  | some .normal => modify (doReceivePayload h.bodyLength.toNat)
  | some .heartbeat | none => pure ()

/-- `header_parser`. -/
def headerParser : Handler := do
  match (← get).kind with
  | .server => serverHeaderParser
  | .serverWithHeartbeat => serverWithHeartbeatHeaderParser
  | .client | .clientWithHeartbeat => clientHeaderParser

/-- `when_header_received` (connection.cpp:47). -/
def whenHeaderReceived (ec : ErrorCode) (up : List UpperCall) : Handler := do
  let s ← get
  if ec.value ≠ 0 then
    if ec.value = operationAborted then log "Socket \x7b\x7d: Read canceled." [s.socketStr]
    else if ec.value = eof then handleEof up
    else
      log "Socket \x7b\x7d: Read error: \x7b\x7d" [s.socketStr, ec.message]
      modify connectionClose
  else if s.isOpen then headerParser

/-- `when_payload_received` (connection.cpp:65). -/
def whenPayloadReceived (length : Nat) (ec : ErrorCode) (bytesRead : Nat) (up : List UpperCall) :
    Handler := do
  let s ← get
  if ec.value ≠ 0 then
    if ec.value = operationAborted then
      log "Socket \x7b\x7d: Read canceled. But should not be cancelled here" [s.socketStr]
    else
      log "Socket \x7b\x7d: Read error: \x7b\x7d" [s.socketStr, ec.message]
      modify connectionClose
      return
  if bytesRead < length then
    log ("Message body need: \x7b\x7d but only received: \x7b\x7d. Maybe the " ++
        "peer: \x7b\x7d closes the connection") [toString length, toString bytesRead, s.socketStr]
    modify connectionClose
    return
  if (← get).isOpen then modify (upperLayerCallback length up)
  modify doReceiveMessage

/-- `when_message_sent` (connection.cpp:115). The text of the zero write has two places for three
arguments. -/
def whenMessageSent (length : Nat) (ec : ErrorCode) (bytesWrite : Nat) (up : List UpperCall) :
    Handler := do
  let s ← get
  if ec.value ≠ 0 then
    if ec.value = operationAborted then
      log "Socket \x7b\x7d: Write canceled. But should not be cancelled here." [s.socketStr]
    else
      log "Socket \x7b\x7d: Write error: \x7b\x7d" [s.socketStr, ec.message]
      modify connectionClose
      modify (upperLayerEventCallback .pipe up)
      return
  if bytesWrite ≤ length then
    if bytesWrite = 0 then
      log "Message need to write: \x7b\x7d but only wrote: \x7b\x7d. "
        [toString length, toString bytesWrite, s.socketStr]
      modify connectionClose
      return
  modify fun s => { s with send := s.send.pop }

/-- `when_timeout` (connection.cpp:261). -/
def whenTimeout (ec : ErrorCode) (up : List UpperCall) : Handler := do
  let s ← get
  if ec.value ≠ 0 then
    if ec.value = operationAborted then return
    else log "Error when \x7b\x7d timer expires: \x7b\x7d" [s.socketStr, ec.message]
  else
    log "Peer socket: \x7b\x7d timeout" [s.socketStr]
    modify connectionClose
    modify (upperLayerEventCallback .timeout up)

/-- `send_heartbeat` (connection.cpp:306). -/
def sendHeartbeat (ec : ErrorCode) : Handler := do
  let s ← get
  if ec.value ≠ 0 then
    if ec.value = operationAborted then
      log "Timer of socket id \x7b\x7d: \x7b\x7d" [s.socketStr, ec.message]
    else
      log "Error when \x7b\x7d timer expires: \x7b\x7d" [s.socketStr, ec.message]
    modify connectionClose
  else
    log "Send heartbeat to \x7b\x7d." [s.socketStr]
    let h : Header := ⟨HeaderMessageType.heartbeat.value, 0⟩
    modify (doSendHeader (headerToString (s.padding s.send.enqueued.length) h))

/-- `send_and_reset` (heartbeat.cpp:51). -/
def sendAndReset (ec : ErrorCode) : Handler := do
  sendHeartbeat ec
  if ec.value = 0 then modify timerReset

/-! ## The machine -/

/-- An exception leaves a handler. -/
def threw (path : Path) (e : Exception) (s : Conn) : Conn :=
  { s with thrown := s.thrown ++ [(path, e)] }

/-- A handler run by the event loop. -/
def finish (path : Path) (h : Handler) (s : Conn) : Conn :=
  match h s with
  | .ok _ s => s
  | .error e s => s.threw path e

/-- The `i`-th read is no longer in flight and has put `data` into its buffer. -/
def readCompleted (i : Nat) (op : ReadOp) (data : List UInt8) (s : Conn) : Conn :=
  let recv := { s.recv with reads := s.recv.reads.eraseIdx i }
  match op.target with
  | .header => { s with recv := { recv with headerBuffer := copyTo recv.headerBuffer 0 data } }
  | .payload _ => { s with recv := { recv with receiveBuffer := recv.receiveBuffer.fill data } }

/-- The completion of the `i`-th read: `data` are the bytes transferred. -/
def readDone (i : Nat) (ec : ErrorCode) (data : List UInt8) (up : List UpperCall) (s : Conn) : Conn :=
  match s.recv.reads[i]? with
  | none => s
  | some op =>
    finish .read
      (match op.target with
        | .header => whenHeaderReceived ec up
        | .payload length => whenPayloadReceived length ec data.length up)
      (s.readCompleted i op data)

/-- The completion of the `i`-th write: `n` bytes went out. -/
def writeDone (i : Nat) (ec : ErrorCode) (n : Nat) (up : List UpperCall) (s : Conn) : Conn :=
  match s.send.writes[i]? with
  | none => s
  | some op =>
    finish .write (whenMessageSent op.totalSize ec n up) { s with send := s.send.complete i }

/-- The completion of the `i`-th wait of the heartbeat timer. -/
def waitDone (i : Nat) (ec : ErrorCode) (up : List UpperCall) (s : Conn) : Conn :=
  match s.waits[i]? with
  | none => s
  | some _ =>
    let s := { s with waits := s.waits.eraseIdx i }
    match s.kind with
    | .serverWithHeartbeat => finish .wait (whenTimeout ec up) s
    | .clientWithHeartbeat => finish .wait (sendAndReset ec) s
    | .server | .client => s

/-- What happens to a connection. `up` is what the upper layer does if it is called back. -/
inductive Event where
  | readDone (i : Nat) (ec : ErrorCode) (data : List UInt8) (up : List UpperCall)
  | writeDone (i : Nat) (ec : ErrorCode) (n : Nat) (up : List UpperCall)
  | waitDone (i : Nat) (ec : ErrorCode) (up : List UpperCall)
  | upper (call : UpperCall)

def step (s : Conn) : Event → Conn
  | .readDone i ec data up => s.readDone i ec data up
  | .writeDone i ec n up => s.writeDone i ec n up
  | .waitDone i ec up => s.waitDone i ec up
  | .upper call => s.upperCall call

/-- What Boost.Asio can do: only operations in flight complete, a success has transferred everything,
and only a cancelled operation completes with `operation_aborted`. A cancelled one may complete
otherwise, if its handler was queued before. -/
def Legal (s : Conn) : Event → Prop
  | .readDone i ec data _ => ∃ op, s.recv.reads[i]? = some op ∧ data.length ≤ op.size ∧
      (ec.value = 0 → data.length = op.size) ∧ (ec.value = operationAborted → op.cancelled = true)
  | .writeDone i ec n _ => ∃ op, s.send.writes[i]? = some op ∧ n ≤ op.totalSize ∧
      (ec.value = 0 → n = op.totalSize) ∧ (ec.value = operationAborted → op.cancelled = true)
  | .waitDone i ec _ => ∃ op, s.waits[i]? = some op ∧
      (ec.value = operationAborted → op.cancelled = true)
  | .upper _ => True

/-- A connection after its constructor (connection.cpp:18, :232, :302) and the one call of
`do_receive_message` (connection.hpp:166). A `vector<char>(8192)` may have more capacity. -/
def start (kind : ConnKind) (socketStr : String) (padding : Nat → Padding) (slack : Nat) : Conn :=
  doReceiveMessage {
    kind, socketStr, padding
    isOpen := true
    recv := {
      receiveBuffer := ⟨List.replicate bufferSize 0, bufferSize + slack, by simp⟩
      headerBuffer := List.replicate headerSize 0
      reads := []
      delivered := [] }
    send := ⟨[], [], [], []⟩
    waits := match kind with
      | .server | .client => []
      | .serverWithHeartbeat | .clientWithHeartbeat => [⟨false⟩]
    events := []
    thrown := []
    disconnected := false
    sentAfterClose := false }

/-! ## What one completion does -/

section Completions
variable {s : Conn} {i : Nat} {ec : ErrorCode} {data : List UInt8} {n : Nat} {up : List UpperCall}

/-- What parsing a header does, by class and type. -/
def parsed (s : Conn) : Conn :=
  let h := stringToHeader s.recv.headerBuffer
  match HeaderMessageType.ofByte? h.msgType, s.kind with
  | some .normal, _ => s.doReceivePayload h.bodyLength.toNat
  | some .heartbeat, .serverWithHeartbeat => s.timerReset.doReceiveMessage
  | _, .server | _, .serverWithHeartbeat =>
    s.threw .read (.logicError "Should not be here!")
  | _, .client | _, .clientWithHeartbeat => s

theorem finish_headerParser (s : Conn) : finish .read headerParser s = s.parsed := by
  unfold finish headerParser parsed
  simp only [get_bind_apply]
  cases hk : s.kind <;>
    rcases ht : HeaderMessageType.ofByte? (stringToHeader s.recv.headerBuffer).msgType with _ | _ | _ <;>
    simp only [serverHeaderParser, serverWithHeartbeatHeaderParser, clientHeaderParser, get_bind_apply,
      ht, throw_apply, modify_apply, pure_apply]
  rfl

theorem finish_ok {path : Path} {h : Handler} {s' : Conn} (hrun : h s = .ok () s') :
    finish path h s = s' := by
  unfold finish
  rw [hrun]

theorem handleEof_eq (up : List UpperCall) (s : Conn) :
    handleEof up s = .ok () (s.connectionClose.upperLayerEventCallback .close up) := by
  unfold handleEof
  simp only [get_bind_apply]
  cases hk : s.kind <;> rfl

/-- **A header** has been read, or has not. -/
theorem readDone_header {op : ReadOp} (hop : s.recv.reads[i]? = some op)
    (htarget : op.target = .header) :
    s.readDone i ec data up =
      let s' := s.readCompleted i op data
      if ec.value = 0 then if s'.isOpen then s'.parsed else s'
      else if ec.value = operationAborted then s'
      else if ec.value = eof then s'.connectionClose.upperLayerEventCallback .close up
      else s'.connectionClose := by
  unfold readDone
  simp only [hop, htarget]
  generalize s.readCompleted i op data = s'
  by_cases h0 : ec.value = 0
  · by_cases hopen : s'.isOpen = true
    · simp only [if_pos h0, if_pos hopen, ← finish_headerParser]
      unfold finish whenHeaderReceived
      simp only [get_bind_apply, ne_eq, h0, not_true, if_false, hopen, if_true]
    · rw [if_pos h0, if_neg hopen]
      apply finish_ok
      simp only [whenHeaderReceived, get_bind_apply, ne_eq, h0, not_true, if_false, hopen]
      rfl
  · rw [if_neg h0]
    by_cases ha : ec.value = operationAborted
    · rw [if_pos ha]
      apply finish_ok
      simp only [whenHeaderReceived, get_bind_apply, ne_eq, if_pos h0, if_pos ha]
      rfl
    · rw [if_neg ha]
      by_cases he : ec.value = eof
      · rw [if_pos he]
        apply finish_ok
        simp only [whenHeaderReceived, get_bind_apply, ne_eq, if_pos h0, if_neg ha, if_pos he]
        exact handleEof_eq up s'
      · rw [if_neg he]
        apply finish_ok
        simp only [whenHeaderReceived, get_bind_apply, ne_eq, if_pos h0, if_neg ha, if_neg he]
        rfl

/-! The texts that more than one branch logs, each formatted once. -/

theorem log_readCanceled (socketStr : String) :
    (log "Socket \x7b\x7d: Read canceled. But should not be cancelled here" [socketStr] : Handler) =
      pure () := by
  rfl

theorem log_bodyShort (need received socketStr : String) :
    (log ("Message body need: \x7b\x7d but only received: \x7b\x7d. Maybe the " ++
      "peer: \x7b\x7d closes the connection") [need, received, socketStr] : Handler) = pure () := by
  rfl

theorem log_writeCanceled (socketStr : String) :
    (log "Socket \x7b\x7d: Write canceled. But should not be cancelled here." [socketStr] : Handler) =
      pure () := by
  rfl

/-- **A payload** has been read, or has not. -/
theorem readDone_payload {op : ReadOp} {length : Nat} (hop : s.recv.reads[i]? = some op)
    (htarget : op.target = .payload length) :
    s.readDone i ec data up =
      let s' := s.readCompleted i op data
      if (ec.value ≠ 0 ∧ ec.value ≠ operationAborted) ∨ data.length < length then s'.connectionClose
      else (if s'.isOpen then s'.upperLayerCallback length up else s').doReceiveMessage := by
  unfold readDone
  simp only [hop, htarget]
  generalize s.readCompleted i op data = s'
  apply finish_ok
  unfold whenPayloadReceived
  simp only [get_bind_apply]
  by_cases hfail : ec.value ≠ 0 ∧ ec.value ≠ operationAborted
  · simp only [ne_eq, if_pos hfail.1, if_neg hfail.2, if_pos (Or.inl hfail)]
    rfl
  · -- a success and a cancelled read go on alike
    have hskip : ec.value = 0 ∨ ec.value = operationAborted := by
      by_contra hn
      exact hfail ⟨fun h => hn (.inl h), fun h => hn (.inr h)⟩
    by_cases hshort : data.length < length
    · rw [if_pos (Or.inr hshort)]
      rcases hskip with h0 | ha
      · simp only [ne_eq, h0, not_true, if_false, hshort, if_true]
        rw [log_bind_apply (log_bodyShort _ _ _)]
        rfl
      · have h0 : ¬ ec.value = 0 := by rw [ha]; decide
        simp only [ne_eq, h0, not_false_eq_true, if_pos ha, hshort, if_true]
        rw [log_bind_apply (log_readCanceled _), log_bind_apply (log_bodyShort _ _ _)]
        rfl
    · rw [if_neg (not_or.mpr ⟨hfail, hshort⟩)]
      rcases hskip with h0 | ha <;> by_cases hopen : s'.isOpen = true
      · simp only [ne_eq, h0, not_true, if_false, hshort, get_bind_apply, hopen, if_true]
        rfl
      · simp only [ne_eq, h0, not_true, if_false, hshort, get_bind_apply, hopen]
        rfl
      · have h0 : ¬ ec.value = 0 := by rw [ha]; decide
        simp only [ne_eq, h0, not_false_eq_true, if_pos ha, hshort, if_false, if_true, hopen]
        rw [log_bind_apply (log_readCanceled _), get_bind_apply, if_pos hopen]
        rfl
      · have h0 : ¬ ec.value = 0 := by rw [ha]; decide
        simp only [ne_eq, h0, not_false_eq_true, if_pos ha, hshort, if_false, if_true, hopen]
        rw [log_bind_apply (log_readCanceled _), get_bind_apply, if_neg hopen]
        rfl

/-- What the zero write throws: its text has two places for three arguments. -/
def zeroWriteError (s : Conn) : Exception :=
  .formatError (s.socketStr ++
    String.ofList ("Too many argumetns given: ".toList.drop s.socketStr.length))

/-- **`when_message_sent`**, for every error code and every number of bytes. When no byte went out it throws
over its own log text. -/
theorem whenMessageSent_eq (length : Nat) :
    whenMessageSent length ec n up s =
      if ec.value ≠ 0 ∧ ec.value ≠ operationAborted then
        .ok () (s.connectionClose.upperLayerEventCallback .pipe up)
      else if n = 0 then .error s.zeroWriteError s
      else .ok () { s with send := s.send.pop } := by
  unfold whenMessageSent
  by_cases hfail : ec.value ≠ 0 ∧ ec.value ≠ operationAborted
  · rw [if_pos hfail]
    simp only [get_bind_apply, ne_eq, if_pos hfail.1, if_neg hfail.2]
    rfl
  · rw [if_neg hfail]
    -- a success and a cancelled write go on alike
    have hskip : ec.value = 0 ∨ ec.value = operationAborted := by
      by_contra hn
      exact hfail ⟨fun h => hn (.inl h), fun h => hn (.inr h)⟩
    by_cases hn : n = 0
    · rw [if_pos hn]
      rcases hskip with h0 | ha
      · simp only [get_bind_apply, ne_eq, h0, not_true, if_false, hn, Nat.zero_le, if_true]
        rfl
      · have h0 : ¬ ec.value = 0 := by rw [ha]; decide
        simp only [get_bind_apply, ne_eq, h0, not_false_eq_true, if_true, if_pos ha, hn, Nat.zero_le]
        rw [log_bind_apply (log_writeCanceled _)]
        rfl
    · rw [if_neg hn]
      rcases hskip with h0 | ha
      · simp only [get_bind_apply, ne_eq, h0, not_true, if_false, hn]
        split <;> rfl
      · have h0 : ¬ ec.value = 0 := by rw [ha]; decide
        simp only [get_bind_apply, ne_eq, h0, not_false_eq_true, if_true, if_pos ha, hn, if_false]
        split <;> rw [log_bind_apply (log_writeCanceled _)] <;> rfl

/-- **A write** is through, or has failed. When no byte went out the handler throws, and neither closes
nor goes on. -/
theorem writeDone_eq {op : WriteOp} (hop : s.send.writes[i]? = some op) :
    s.writeDone i ec n up =
      let s' := { s with send := s.send.complete i }
      if ec.value ≠ 0 ∧ ec.value ≠ operationAborted then
        s'.connectionClose.upperLayerEventCallback .pipe up
      else if n = 0 then s'.threw .write s.zeroWriteError
      else { s' with send := s'.send.pop } := by
  unfold writeDone
  simp only [hop]
  unfold finish
  rw [whenMessageSent_eq]
  by_cases hfail : ec.value ≠ 0 ∧ ec.value ≠ operationAborted
  · rw [if_pos hfail, if_pos hfail]
  · rw [if_neg hfail, if_neg hfail]
    by_cases hn : n = 0
    · rw [if_pos hn, if_pos hn]
      rfl
    · rw [if_neg hn, if_neg hn]

/-- **A wait** of a connection that watches for heartbeats. -/
theorem waitDone_server {op : WaitOp} (hop : s.waits[i]? = some op)
    (hk : s.kind = .serverWithHeartbeat) :
    s.waitDone i ec up =
      let s' := { s with waits := s.waits.eraseIdx i }
      if ec.value = 0 then s'.connectionClose.upperLayerEventCallback .timeout up else s' := by
  unfold waitDone
  simp only [hop, hk]
  apply finish_ok
  unfold whenTimeout
  by_cases h0 : ec.value = 0
  · simp only [get_bind_apply, ne_eq, h0, not_true, if_false, if_true]
    rfl
  · simp only [get_bind_apply, ne_eq, h0, not_false_eq_true, if_true, if_false]
    by_cases ha : ec.value = operationAborted
    · simp only [if_pos ha]
      rfl
    · simp only [if_neg ha]
      rfl

/-- **A wait** of a connection that sends heartbeats: the heartbeat goes out and the timer is set
again whether the connection is open or not. -/
theorem waitDone_client {op : WaitOp} (hop : s.waits[i]? = some op)
    (hk : s.kind = .clientWithHeartbeat) :
    s.waitDone i ec up =
      let s' := { s with waits := s.waits.eraseIdx i }
      if ec.value = 0 then
        (s'.doSendHeader (headerToString (s.padding s.send.enqueued.length)
          ⟨HeaderMessageType.heartbeat.value, 0⟩)).timerReset
      else s'.connectionClose := by
  unfold waitDone
  simp only [hop, hk]
  apply finish_ok
  unfold sendAndReset sendHeartbeat
  by_cases h0 : ec.value = 0
  · simp only [ne_eq, h0, not_true, if_false, if_true]
    rfl
  · by_cases ha : ec.value = operationAborted
    · simp only [ne_eq, h0, not_false_eq_true, if_true, if_false, if_pos ha]
      rfl
    · simp only [ne_eq, h0, not_false_eq_true, if_true, if_false, if_neg ha]
      rfl

/-- The other connections have no timer. -/
theorem waitDone_other {op : WaitOp} (hop : s.waits[i]? = some op)
    (hs : s.kind ≠ .serverWithHeartbeat) (hc : s.kind ≠ .clientWithHeartbeat) :
    s.waitDone i ec up = { s with waits := s.waits.eraseIdx i } := by
  unfold waitDone
  cases hk : s.kind <;> simp_all

end Completions

/-! ## What closing and the upper layer leave alone -/

section Frames
variable (s : Conn)

/-- Closing touches the operations in flight and nothing else. -/
theorem connectionClose_eq : ∃ recv send waits, recv.delivered = s.recv.delivered ∧
    s.connectionClose = { s with isOpen := false, recv := recv, send := send, waits := waits } := by
  have hsocket : ∀ s : Conn, ∃ recv send, recv.delivered = s.recv.delivered ∧
      s.socketClose = { s with isOpen := false, recv := recv, send := send } := by
    intro s
    unfold socketClose
    split
    · exact ⟨s.recv.cancel, s.send.cancel, rfl, rfl⟩
    · have hopen : s.isOpen = false := by simpa using ‹¬ s.isOpen = true›
      exact ⟨s.recv, s.send, rfl, by rw [← hopen]⟩
  unfold connectionClose
  split
  case h_1 | h_2 =>
    obtain ⟨recv, send, hd, h⟩ := hsocket s
    exact ⟨recv, send, s.waits, hd, h⟩
  case h_3 | h_4 =>
    obtain ⟨recv, send, hd, h⟩ := hsocket s.heartbeatStop
    exact ⟨recv, send, _, hd, h⟩

@[simp] theorem connectionClose_isOpen : s.connectionClose.isOpen = false := by
  obtain ⟨_, _, _, _, h⟩ := s.connectionClose_eq
  rw [h]

@[simp] theorem connectionClose_kind : s.connectionClose.kind = s.kind := by
  obtain ⟨_, _, _, _, h⟩ := s.connectionClose_eq
  rw [h]

@[simp] theorem connectionClose_thrown : s.connectionClose.thrown = s.thrown := by
  obtain ⟨_, _, _, _, h⟩ := s.connectionClose_eq
  rw [h]

@[simp] theorem connectionClose_events : s.connectionClose.events = s.events := by
  obtain ⟨_, _, _, _, h⟩ := s.connectionClose_eq
  rw [h]

@[simp] theorem connectionClose_disconnected : s.connectionClose.disconnected = s.disconnected := by
  obtain ⟨_, _, _, _, h⟩ := s.connectionClose_eq
  rw [h]

@[simp] theorem connectionClose_delivered :
    s.connectionClose.recv.delivered = s.recv.delivered := by
  obtain ⟨_, _, _, hd, h⟩ := s.connectionClose_eq
  rw [h]
  exact hd

/-- What calls of the upper layer do to the rest of a connection: they leave a closed connection
closed, and they leave an open one as it was or close it and say so. -/
structure UpperEffect (s s' : Conn) : Prop where
  kind : s'.kind = s.kind
  thrown : s'.thrown = s.thrown
  events : s'.events = s.events
  delivered : s'.recv.delivered = s.recv.delivered
  closed : s.isOpen = false → s'.isOpen = false ∧ s'.disconnected = s.disconnected
  opened : s.isOpen = true →
    (s'.isOpen = true ∧ s'.recv = s.recv ∧ s'.disconnected = s.disconnected) ∨
    (s'.isOpen = false ∧ s'.disconnected = true)

theorem UpperEffect.refl : UpperEffect s s :=
  ⟨rfl, rfl, rfl, rfl, fun h => ⟨h, rfl⟩, fun h => .inl ⟨h, rfl, rfl⟩⟩

variable {s} in
theorem UpperEffect.trans {s' s'' : Conn} (h : UpperEffect s s') (h' : UpperEffect s' s'') :
    UpperEffect s s'' where
  kind := h'.kind.trans h.kind
  thrown := h'.thrown.trans h.thrown
  events := h'.events.trans h.events
  delivered := h'.delivered.trans h.delivered
  closed hc := by
    obtain ⟨hc', hd'⟩ := h.closed hc
    obtain ⟨hc'', hd''⟩ := h'.closed hc'
    exact ⟨hc'', hd''.trans hd'⟩
  opened ho := by
    rcases h.opened ho with ⟨ho', hr', hd'⟩ | ⟨hc', hd'⟩
    · rcases h'.opened ho' with ⟨ho'', hr'', hd''⟩ | hc''
      · exact .inl ⟨ho'', hr''.trans hr', hd''.trans hd'⟩
      · exact .inr hc''
    · obtain ⟨hc'', hd''⟩ := h'.closed hc'
      exact .inr ⟨hc'', hd''.trans hd'⟩

theorem upperCall_effect (call : UpperCall) : UpperEffect s (s.upperCall call) := by
  cases call with
  | send msg => exact ⟨rfl, rfl, rfl, rfl, fun h => ⟨h, rfl⟩, fun h => .inl ⟨h, rfl, rfl⟩⟩
  | disconnect =>
    refine ⟨by simp [upperCall], by simp [upperCall], by simp [upperCall], by simp [upperCall],
      fun h => ?_, fun h => .inr ?_⟩
    · simp [upperCall, h]
    · simp [upperCall, h]

theorem upperCalls_effect (up : List UpperCall) : UpperEffect s (up.foldl upperCall s) := by
  induction up generalizing s with
  | nil => exact UpperEffect.refl s
  | cons call up ih => exact (s.upperCall_effect call).trans (ih _)

/-- A message that is delivered, and what the upper layer does then. -/
theorem upperLayerCallback_effect (length : Nat) (up : List UpperCall) :
    UpperEffect
      { s with recv.delivered := s.recv.delivered ++ [s.recv.receiveBuffer.data.take length] }
      (s.upperLayerCallback length up) :=
  upperCalls_effect _ up

/-- Closing and telling the upper layer, whatever it does then. -/
theorem notify_effect (e : ConnectionEvent) (up : List UpperCall) :
    (s.connectionClose.upperLayerEventCallback e up).isOpen = false ∧
      (s.connectionClose.upperLayerEventCallback e up).thrown = s.thrown ∧
      (s.connectionClose.upperLayerEventCallback e up).events = s.events ++ [e] ∧
      (s.connectionClose.upperLayerEventCallback e up).disconnected = s.disconnected ∧
      (s.connectionClose.upperLayerEventCallback e up).recv.delivered = s.recv.delivered := by
  have heff := upperCalls_effect { s.connectionClose with events := s.connectionClose.events ++ [e] } up
  obtain ⟨hclosed, hdisc⟩ := heff.closed s.connectionClose_isOpen
  rw [upperLayerEventCallback]
  refine ⟨hclosed, heff.thrown.trans s.connectionClose_thrown, ?_,
    hdisc.trans s.connectionClose_disconnected, heff.delivered.trans s.connectionClose_delivered⟩
  rw [heff.events, connectionClose_events]

/-- What one completed read leaves: the read is gone from the list, all else but its buffer is as it
was. -/
structure ReadFrame (s : Conn) (i : Nat) (s' : Conn) : Prop where
  isOpen : s'.isOpen = s.isOpen
  kind : s'.kind = s.kind
  thrown : s'.thrown = s.thrown
  reads : s'.recv.reads = s.recv.reads.eraseIdx i
  delivered : s'.recv.delivered = s.recv.delivered
  events : s'.events = s.events
  disconnected : s'.disconnected = s.disconnected

theorem readCompleted_frame (i : Nat) (op : ReadOp) (data : List UInt8) :
    ReadFrame s i (s.readCompleted i op data) := by
  unfold readCompleted
  cases op.target with
  | header => exact ⟨rfl, rfl, rfl, rfl, rfl, rfl, rfl⟩
  | payload length => exact ⟨rfl, rfl, rfl, rfl, rfl, rfl, rfl⟩

/-- What asking for the next read, or failing to, leaves as it was. -/
structure AskFrame (s s' : Conn) : Prop where
  isOpen : s'.isOpen = s.isOpen
  send : s'.send = s.send
  delivered : s'.recv.delivered = s.recv.delivered
  events : s'.events = s.events
  disconnected : s'.disconnected = s.disconnected

theorem AskFrame.refl : AskFrame s s := ⟨rfl, rfl, rfl, rfl, rfl⟩

theorem doReceiveMessage_frame : AskFrame s s.doReceiveMessage := by
  unfold doReceiveMessage
  split
  · exact ⟨rfl, rfl, rfl, rfl, rfl⟩
  · exact AskFrame.refl s

theorem doReceivePayload_frame (length : Nat) : AskFrame s (s.doReceivePayload length) := by
  unfold doReceivePayload
  split
  · exact ⟨rfl, rfl, rfl, rfl, rfl⟩
  · exact ⟨rfl, rfl, rfl, rfl, rfl⟩

theorem parsed_frame : AskFrame s s.parsed := by
  unfold parsed
  simp only
  split
  · exact s.doReceivePayload_frame _
  · have h := s.timerReset.doReceiveMessage_frame
    exact ⟨h.isOpen, h.send, h.delivered, h.events, h.disconnected⟩
  all_goals exact ⟨rfl, rfl, rfl, rfl, rfl⟩

end Frames

end Conn

end Thallium.Network
