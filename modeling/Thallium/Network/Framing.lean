import Thallium.Network.WriteQueue
import Thallium.Network.ReceiveLoop

/-!
# From one endpoint to the other (network/connection.cpp:65-113, :175-195)

A message is sent as a header with its length, cut to 32 bits, and the body. The receiver reads the
body into a buffer of 8192 bytes, which `do_receive_payload` never makes larger than its capacity.

| here | there |
| --- | --- |
| `normalHeader`, `frame` | the header `do_send_message` fills in, and the two buffers it queues |
| `sendEvents`            | sending messages, each written out before the next |
| `Conn.pump`             | Boost.Asio over a reliable byte stream: a read completes when its bytes are there |
| `Conn.Ready`, `Conn.Receives` | not in the source: between two messages; what the peer should see |

* `wire_run` — what a sender writes.
* `pump_frame`, `pump_frame_long` — one frame that fits the buffer, and one that does not.
* `receives_iff` — all messages arrive as they were sent and the connection stays open **iff** none of
  them is longer than the buffer.
-/
namespace Thallium.Network
open Message Serializer EventRun

/-! ## The sender -/

/-- The header of a message (connection.cpp:179). -/
def normalHeader (msg : List UInt8) : Header :=
  ⟨HeaderMessageType.normal.value, UInt32.ofNat msg.length⟩

/-- The bytes of a message on the wire. -/
def frame (padding : Padding) (msg : List UInt8) : List UInt8 :=
  headerToString padding (normalHeader msg) ++ msg

/-- A frame, its body cut after `n` bytes. -/
theorem frame_append (padding : Padding) (msg rest : List UInt8) (n : Nat) :
    frame padding msg ++ rest =
      headerToString padding (normalHeader msg) ++ (msg.take n ++ (msg.drop n ++ rest)) := by
  rw [frame, ← List.append_assoc (msg.take n), List.take_append_drop, List.append_assoc]

/-- Each message is passed to `do_send_message` and written out completely before the next. -/
def sendEvents (ms : List (List UInt8)) : List QueueEvent :=
  ms.flatMap fun msg => [.doSendMessage msg, .messageSent 0]

/-- What has been handed to `async_write`, as bytes. -/
def Sender.wire (q : Sender) : List UInt8 := q.written.flatMap fun b => b.bufs.flatten

/-- The frames of messages, numbered from `n`. -/
def frames (padding : Nat → Padding) : Nat → List (List UInt8) → List UInt8
  | _, [] => []
  | n, msg :: ms => frame (padding n) msg ++ frames padding (n + 1) ms

/-- One message, sent while nothing is queued. -/
theorem queueStep_sendMessage {s : Conn} {sent : List BufferSequence} (msg : List UInt8)
    (hs : s.send = ⟨[], [], sent, sent⟩) :
    queueStep (queueStep s (.doSendMessage msg)) (.messageSent 0) =
      { s with send :=
          let b : BufferSequence :=
            ⟨sent.length, [headerToString (s.padding sent.length) (normalHeader msg), msg]⟩
          ⟨[], [], sent ++ [b], sent ++ [b]⟩ } := by
  set b : BufferSequence :=
    ⟨sent.length, [headerToString (s.padding sent.length) (normalHeader msg), msg]⟩ with hb
  have hsend : queueStep s (.doSendMessage msg) =
      { s with send := ⟨[b], [⟨b.totalSize, false⟩], sent ++ [b], sent ++ [b]⟩ } := by
    simp [queueStep, Conn.doSendMessage, Sender.push, Sender.doWrite, hs, hb, normalHeader]
  have hsize : b.totalSize ≠ 0 := by simp [hb, BufferSequence.totalSize, headerSize]
  rw [hsend]
  simp only [queueStep, List.getElem?_cons_zero]
  rw [Conn.writeDone_eq (List.getElem?_cons_zero)]
  simp only [if_neg hsize]
  rfl

/-- **The bytes a sender writes** are the frames of its messages. -/
theorem wire_run (ms : List (List UInt8)) {s : Conn} {sent : List BufferSequence}
    (hs : s.send = ⟨[], [], sent, sent⟩) :
    (run queueStep s (sendEvents ms)).send.wire =
      s.send.wire ++ frames s.padding sent.length ms := by
  induction ms generalizing s sent with
  | nil => simp [sendEvents, frames]
  | cons msg ms ih =>
    have hrun : run queueStep s (sendEvents (msg :: ms)) =
        run queueStep (queueStep (queueStep s (.doSendMessage msg)) (.messageSent 0)) (sendEvents ms) :=
      rfl
    rw [hrun, queueStep_sendMessage msg hs, ih rfl]
    simp [Sender.wire, frames, frame, hs]

/-! ## The receiver -/

namespace Conn

/-- The event loop of a receiver on a byte stream, `fuel` reads of it. `react n` is what its upper
layer sends when it takes its `n`-th message. -/
def pump (react : Nat → List (List UInt8)) : Nat → Conn → List UInt8 → Conn
  | 0, s, _ => s
  | fuel + 1, s, stream =>
    match s.recv.reads with
    | [] => s
    | op :: _ =>
      if op.size ≤ stream.length then
        pump react fuel
          (s.readDone 0 success (stream.take op.size) ((react s.recv.delivered.length).map .send))
          (stream.drop op.size)
      else s

/-- Between two messages: the read of a header is in flight. -/
structure Ready (s : Conn) : Prop where
  isOpen : s.isOpen = true
  reads : s.recv.reads = [⟨.header, headerSize, false⟩]
  size : s.recv.receiveBuffer.data.length = bufferSize

variable {s : Conn} {react : Nat → List (List UInt8)}

theorem start_ready (kind : ConnKind) (socketStr : String) (padding : Nat → Padding) (slack : Nat) :
    (start kind socketStr padding slack).Ready :=
  ⟨rfl, rfl, List.length_replicate⟩

/-- A connection that only sends stays open, and its receiving side as it was. -/
theorem sends_frame (s : Conn) (msgs : List (List UInt8)) :
    ((msgs.map UpperCall.send).foldl upperCall s).isOpen = s.isOpen ∧
      ((msgs.map UpperCall.send).foldl upperCall s).recv = s.recv := by
  induction msgs generalizing s with
  | nil => exact ⟨rfl, rfl⟩
  | cons msg msgs ih => exact ih (s.upperCall (.send msg))

/-- No read, no progress. -/
theorem pump_of_no_read (hreads : s.recv.reads = []) (fuel : Nat) (stream : List UInt8) :
    pump react fuel s stream = s := by
  cases fuel with
  | zero => rfl
  | succ fuel => simp only [pump, hreads]

/-- One turn of the loop, when the stream starts with the bytes the read in flight waits for. -/
theorem pump_succ {op : ReadOp} {ops : List ReadOp} (hreads : s.recv.reads = op :: ops)
    {src rest : List UInt8} (hlen : src.length = op.size) (fuel : Nat) :
    pump react (fuel + 1) s (src ++ rest) =
      pump react fuel (s.readDone 0 success src ((react s.recv.delivered.length).map .send)) rest := by
  have hle : op.size ≤ (src ++ rest).length := by simp; omega
  simp only [pump, hreads, if_pos hle, List.take_left' hlen, List.drop_left' hlen]

/-! ## One frame -/

/-- A body that fits the buffer is asked for in one piece. -/
theorem doReceivePayload_fits (hsize : s.recv.receiveBuffer.data.length = bufferSize) {length : Nat}
    (hle : length ≤ bufferSize) :
    s.doReceivePayload length = s.asyncRead (.payload length) length := by
  have hcap := s.recv.receiveBuffer.size_le
  have hshort : ¬ length > s.recv.receiveBuffer.capacity := by omega
  have hmin : min s.recv.receiveBuffer.data.length length = length := by omega
  simp only [doReceivePayload, if_neg hshort, hmin]

/-- A longer one is not: the buffer keeps its size, or is resized to the capacity it has. -/
theorem doReceivePayload_long (hsize : s.recv.receiveBuffer.data.length = bufferSize) {length : Nat}
    (hlt : bufferSize < length) : ∃ buf size, size < length ∧
      s.doReceivePayload length =
        { s with recv.receiveBuffer := buf }.asyncRead (.payload length) size := by
  by_cases hcap : length > s.recv.receiveBuffer.capacity
  · refine ⟨s.recv.receiveBuffer.resizeToCapacity, _, ?_, by
      simp only [doReceivePayload, if_pos hcap]; rfl⟩
    have hle := s.recv.receiveBuffer.size_le
    simp only [ReceiveBuffer.resizeToCapacity, List.length_append, List.length_replicate]
    omega
  · refine ⟨s.recv.receiveBuffer, min s.recv.receiveBuffer.data.length length, by omega, ?_⟩
    simp only [doReceivePayload, if_neg hcap]

/-- What the read of a header leaves. -/
def headerRead (s : Conn) (header : List UInt8) : Conn :=
  s.readCompleted 0 ⟨.header, headerSize, false⟩ header

/-- **The header of a message** asks for its body, of the length cut to 32 bits. -/
theorem readDone_normalHeader (h : s.Ready) (padding : Padding) (msg : List UInt8)
    (up : List UpperCall) :
    s.readDone 0 success (headerToString padding (normalHeader msg)) up =
      (s.headerRead (headerToString padding (normalHeader msg))).doReceivePayload
        (msg.length % 2 ^ 32) := by
  have hop : s.recv.reads[0]? = some ⟨.header, headerSize, false⟩ := by rw [h.reads]; rfl
  have hheader : stringToHeader (s.headerRead
      (headerToString padding (normalHeader msg))).recv.headerBuffer = normalHeader msg := by
    rw [headerRead, stringToHeader_readCompleted rfl (length_headerToString _ _),
      stringToHeader_headerToString]
  have htype : HeaderMessageType.ofByte? (normalHeader msg).msgType = some .normal := rfl
  have hlength : (normalHeader msg).bodyLength.toNat = msg.length % 2 ^ 32 := UInt32.toNat_ofNat'
  have hopen : (s.headerRead (headerToString padding (normalHeader msg))).isOpen = true := h.isOpen
  rw [readDone_header hop rfl]
  rw [headerRead] at hheader hopen ⊢
  simp only [hopen, if_true, parsed, hheader, htype, hlength]
  rfl

/-- **A body that is there** is given to the upper layer, and the next header is asked for. -/
theorem readDone_body (hopen : s.isOpen = true)
    (hsize : s.recv.receiveBuffer.data.length = bufferSize) {body : List UInt8}
    (hreads : s.recv.reads = [⟨.payload body.length, body.length, false⟩])
    (hle : body.length ≤ bufferSize) (msgs : List (List UInt8)) :
    (s.readDone 0 success body (msgs.map .send)).Ready ∧
      (s.readDone 0 success body (msgs.map .send)).recv.delivered = s.recv.delivered ++ [body] := by
  have hop : s.recv.reads[0]? = some ⟨.payload body.length, body.length, false⟩ := by rw [hreads]; rfl
  have hnone : s.recv.reads.eraseIdx 0 = [] := by rw [hreads]; rfl
  set filled := s.readCompleted 0 ⟨.payload body.length, body.length, false⟩ body with hfilled
  have hbuf : filled.recv.receiveBuffer = s.recv.receiveBuffer.fill body := rfl
  have htake : filled.recv.receiveBuffer.data.take body.length = body := by
    have hfit : 0 + body.length ≤ s.recv.receiveBuffer.data.length := by omega
    have htaken := take_copyTo hfit
    rw [Nat.zero_add] at htaken
    simp only [hbuf, ReceiveBuffer.fill, List.take_of_length_le (hle.trans_eq hsize.symm), htaken]
    rfl
  have hlength : filled.recv.receiveBuffer.data.length = bufferSize := by
    rw [hbuf, ReceiveBuffer.fill, length_copyTo (by simp), hsize]
  obtain ⟨ho, hr⟩ := sends_frame
    { filled with recv.delivered := filled.recv.delivered ++ [body] } msgs
  have ho' : (filled.upperLayerCallback body.length (msgs.map .send)).isOpen = true := by
    rw [upperLayerCallback, htake, ho]
    exact hopen
  have hr' : (filled.upperLayerCallback body.length (msgs.map .send)).recv =
      { filled.recv with delivered := filled.recv.delivered ++ [body] } := by
    rw [upperLayerCallback, htake, hr]
  have hdone : s.readDone 0 success body (msgs.map .send) =
      (filled.upperLayerCallback body.length (msgs.map .send)).asyncRead .header headerSize := by
    have hopen' : filled.isOpen = true := hopen
    have hok : ¬ (((success.value ≠ 0) ∧ success.value ≠ operationAborted) ∨
        body.length < body.length) := by simp [success]
    rw [readDone_payload hop rfl]
    simp only [← hfilled, if_neg hok, hopen', if_true, doReceiveMessage, ho']
  rw [hdone]
  refine ⟨⟨ho', ?_, ?_⟩, ?_⟩
  · simp only [asyncRead, hr']
    rw [show filled.recv.reads = [] from hnone]
    rfl
  · simp only [asyncRead, hr']
    exact hlength
  · simp only [asyncRead, hr']
    rfl

theorem connectionClose_reads_nil (hnone : s.recv.reads = []) : s.connectionClose.recv.reads = [] := by
  have hsocket : ∀ s : Conn, s.recv.reads = [] → s.socketClose.recv.reads = [] := by
    intro s hnone
    unfold socketClose
    split
    · simp only [Receiver.cancel, hnone, List.map_nil]
    · exact hnone
  unfold connectionClose
  split
  · exact hsocket s hnone
  · exact hsocket s hnone
  · exact hsocket s.heartbeatStop hnone
  · exact hsocket s.heartbeatStop hnone

/-- **A body that is not all there** closes the connection, and no read is left. -/
theorem readDone_short {length size : Nat} (hreads : s.recv.reads = [⟨.payload length, size, false⟩])
    {data : List UInt8} (hlt : data.length < length) (up : List UpperCall) :
    (s.readDone 0 success data up).isOpen = false ∧ (s.readDone 0 success data up).recv.reads = [] := by
  have hop : s.recv.reads[0]? = some ⟨.payload length, size, false⟩ := by rw [hreads]; rfl
  have hnone : (s.readCompleted 0 ⟨.payload length, size, false⟩ data).recv.reads = [] := by
    rw [(readCompleted_frame _ _ _ _).reads, hreads]
    rfl
  rw [readDone_payload hop rfl]
  simp only [if_pos (Or.inr hlt)]
  refine ⟨connectionClose_isOpen _, ?_⟩
  exact connectionClose_reads_nil hnone

/-- **One frame** whose length field says what is there, two turns of the loop. -/
theorem pump_frame (react : Nat → List (List UInt8)) (h : s.Ready) (padding : Padding)
    {msg body : List UInt8} (hbody : body.length = msg.length % 2 ^ 32) (hle : body.length ≤ bufferSize) :
    ∃ s', s'.Ready ∧ s'.recv.delivered = s.recv.delivered ++ [body] ∧
      ∀ fuel rest, pump react (fuel + 2) s
        (headerToString padding (normalHeader msg) ++ (body ++ rest)) = pump react fuel s' rest := by
  set header := headerToString padding (normalHeader msg) with hheader
  set s₁ := s.readDone 0 success header ((react s.recv.delivered.length).map .send) with hs₁
  have heq : s₁ = (s.headerRead header).asyncRead (.payload body.length) body.length := by
    rw [hs₁, readDone_normalHeader h, ← hbody]
    have hsize : (s.headerRead header).recv.receiveBuffer.data.length = bufferSize := h.size
    exact doReceivePayload_fits hsize hle
  have hreads : s₁.recv.reads = [⟨.payload body.length, body.length, false⟩] := by
    rw [heq]
    simp only [asyncRead, headerRead, (readCompleted_frame _ _ _ _).reads, h.reads]
    rfl
  have hopen : s₁.isOpen = true := by
    rw [heq]
    exact h.isOpen
  have hsize : s₁.recv.receiveBuffer.data.length = bufferSize := by
    rw [heq]
    exact h.size
  have hdel : s₁.recv.delivered = s.recv.delivered := by
    rw [heq]
    rfl
  obtain ⟨hready, hdelivered⟩ := readDone_body hopen hsize hreads hle (react s₁.recv.delivered.length)
  refine ⟨_, hready, by rw [hdelivered, hdel], fun fuel rest => ?_⟩
  rw [pump_succ h.reads (length_headerToString _ _), ← hs₁, pump_succ hreads rfl]

/-- **A frame that does not fit the buffer** closes the connection. -/
theorem pump_frame_long (react : Nat → List (List UInt8)) (h : s.Ready) (padding : Padding)
    {msg : List UInt8} (hlong : bufferSize < msg.length % 2 ^ 32) (fuel : Nat) (rest : List UInt8) :
    (pump react (fuel + 2) s (frame padding msg ++ rest)).isOpen = false := by
  set header := headerToString padding (normalHeader msg) with hheader
  set s₁ := s.readDone 0 success header ((react s.recv.delivered.length).map .send) with hs₁
  have hsize : (s.headerRead header).recv.receiveBuffer.data.length = bufferSize := h.size
  obtain ⟨buf, size, hlt, heq⟩ := doReceivePayload_long hsize hlong
  have hmod : msg.length % 2 ^ 32 ≤ msg.length := Nat.mod_le _ _
  have hreads : s₁.recv.reads = [⟨.payload (msg.length % 2 ^ 32), size, false⟩] := by
    rw [hs₁, readDone_normalHeader h, heq]
    simp only [asyncRead, headerRead, (readCompleted_frame _ _ _ _).reads, h.reads]
    rfl
  have hdata : (msg.take size).length = size := by rw [List.length_take]; omega
  have hshort : (msg.take size).length < msg.length % 2 ^ 32 := by rwa [hdata]
  obtain ⟨hclosed, hnone⟩ :=
    readDone_short hreads hshort ((react s₁.recv.delivered.length).map .send)
  rw [frame_append padding msg rest size, pump_succ h.reads (length_headerToString _ _), ← hs₁,
    pump_succ hreads hdata, pump_of_no_read hnone]
  exact hclosed

/-! ## What the upper layer has been given -/

/-- Nothing that was delivered is taken back. -/
theorem readDone_delivered (s : Conn) (i : Nat) (ec : ErrorCode) (data : List UInt8)
    (up : List UpperCall) : s.recv.delivered <+: (s.readDone i ec data up).recv.delivered := by
  cases hop : s.recv.reads[i]? with
  | none => simp only [readDone, hop, List.prefix_rfl]
  | some op =>
    rw [← (readCompleted_frame s i op data).delivered]
    cases htarget : op.target with
    | header =>
      rw [readDone_header hop htarget]
      simp only
      split
      · split
        · rw [(parsed_frame _).delivered]
        · exact List.prefix_rfl
      · split
        · exact List.prefix_rfl
        · split
          · rw [(notify_effect _ .close up).2.2.2.2]
          · rw [connectionClose_delivered]
    | payload length =>
      rw [readDone_payload hop htarget]
      simp only
      split
      · rw [connectionClose_delivered]
      · rw [(doReceiveMessage_frame _).delivered]
        split
        · rw [(upperLayerCallback_effect _ length up).delivered]
          exact List.prefix_append _ _
        · exact List.prefix_rfl

theorem pump_delivered (react : Nat → List (List UInt8)) (fuel : Nat) (s : Conn)
    (stream : List UInt8) :
    s.recv.delivered <+: (pump react fuel s stream).recv.delivered := by
  induction fuel generalizing s stream with
  | zero => exact List.prefix_rfl
  | succ fuel ih =>
    unfold pump
    split
    · exact List.prefix_rfl
    · split
      · exact (readDone_delivered s _ _ _ _).trans (ih _ _)
      · exact List.prefix_rfl

/-! ## All frames -/

/-- The loop on the frames of messages: enough turns for all of them, and more. -/
theorem pump_frames (react : Nat → List (List UInt8)) (ms : List (List UInt8))
    (padding : Nat → Padding) (n fuel : Nat) (h : s.Ready) :
    let s' := pump react (fuel + 2 * ms.length) s (frames padding n ms)
    (s'.recv.delivered = s.recv.delivered ++ ms ∧ s'.isOpen = true) ↔
      ∀ msg ∈ ms, msg.length ≤ bufferSize := by
  induction ms generalizing s n fuel with
  | nil =>
    -- no header is there
    have hnone : pump react fuel s [] = s := by
      cases fuel with
      | zero => rfl
      | succ fuel =>
        have hlt : ¬ headerSize ≤ ([] : List UInt8).length := by decide
        simp only [pump, h.reads, if_neg hlt]
    simp [frames, hnone, h.isOpen]
  | cons msg ms ih =>
    have hfuel : fuel + 2 * (msg :: ms).length = fuel + 2 * ms.length + 2 := by
      rw [List.length_cons]
      omega
    simp only [hfuel, frames]
    by_cases hlong : bufferSize < msg.length % 2 ^ 32
    · -- the connection is closed
      have hclosed := pump_frame_long react h (padding n) hlong (fuel + 2 * ms.length)
        (frames padding (n + 1) ms)
      have hmod : msg.length % 2 ^ 32 ≤ msg.length := Nat.mod_le _ _
      constructor
      · rintro ⟨-, hopen⟩
        exact absurd (hclosed.symm.trans hopen) (by decide)
      · intro hall
        have := hall msg List.mem_cons_self
        omega
    · -- what the length field says is delivered
      have hmod : msg.length % 2 ^ 32 ≤ msg.length := Nat.mod_le _ _
      have hbody : (msg.take (msg.length % 2 ^ 32)).length = msg.length % 2 ^ 32 := by
        rw [List.length_take]
        omega
      obtain ⟨s', hready, hdel, hpump⟩ := pump_frame react h (padding n) hbody (by omega)
      rw [frame_append (padding n) msg _ (msg.length % 2 ^ 32), hpump]
      by_cases hfits : msg.length ≤ bufferSize
      · have hwhole : msg.length % 2 ^ 32 = msg.length :=
          Nat.mod_eq_of_lt (hfits.trans_lt (by decide))
        rw [hwhole, List.take_length] at hdel
        rw [hwhole, List.drop_length, List.nil_append]
        have hih := ih (n + 1) fuel hready
        simp only [hdel, List.append_assoc, List.singleton_append] at hih
        rw [hih, List.forall_mem_cons]
        exact ⟨fun hall => ⟨hfits, hall⟩, fun hall => hall.2⟩
      · -- a part of the message, which is longer than 32 bits can say
        constructor
        · rintro ⟨hdelivered, -⟩
          have hpre := pump_delivered react (fuel + 2 * ms.length) s'
            (msg.drop (msg.length % 2 ^ 32) ++ frames padding (n + 1) ms)
          rw [hdelivered, hdel, List.prefix_append_right_inj] at hpre
          have heq : msg.take (msg.length % 2 ^ 32) = msg :=
            (List.cons_prefix_cons.mp hpre).1
          have hcut := congrArg List.length heq
          omega
        · intro hall
          exact absurd (hall msg List.mem_cons_self) hfits

/-- The peer's upper layer is given the messages, and the connection stays open: with `react` and the
stream fixed, this holds from some number of reads on. -/
def Receives (react : Nat → List (List UInt8)) (s : Conn) (stream : List UInt8)
    (ms : List (List UInt8)) : Prop :=
  ∃ k, ∀ k' ≥ k, (pump react k' s stream).recv.delivered = ms ∧
    (pump react k' s stream).isOpen = true

end Conn

/-! ## End to end -/

/-- What an endpoint of class `kind`, just started, has written after sending messages. -/
def wireOf (kind : ConnKind) (socketStr : String) (padding : Nat → Padding) (slack : Nat)
    (ms : List (List UInt8)) : List UInt8 :=
  (run queueStep (Conn.start kind socketStr padding slack) (sendEvents ms)).send.wire

theorem wireOf_eq (kind : ConnKind) (socketStr : String) (padding : Nat → Padding) (slack : Nat)
    (ms : List (List UInt8)) : wireOf kind socketStr padding slack ms = frames padding 0 ms :=
  wire_run ms (show (Conn.start kind socketStr padding slack).send = ⟨[], [], [], []⟩ from rfl)

/-- The frames arrive at a ready connection iff they fit its buffer. -/
theorem Conn.Ready.receives_frames_iff {s : Conn} {react : Nat → List (List UInt8)} (h : s.Ready)
    (hdel : s.recv.delivered = []) (padding : Nat → Padding) (ms : List (List UInt8)) :
    s.Receives react (frames padding 0 ms) ms ↔ ∀ msg ∈ ms, msg.length ≤ bufferSize := by
  constructor
  · rintro ⟨k, hk⟩
    have hlate := hk (k + 2 * ms.length) (by omega)
    refine (pump_frames react ms padding 0 k h).mp ?_
    rwa [hdel, List.nil_append]
  · intro hall
    refine ⟨2 * ms.length, fun k' hk' => ?_⟩
    obtain ⟨fuel, rfl⟩ := Nat.exists_eq_add_of_le' hk'
    have hdone := (pump_frames react ms padding 0 fuel h).mpr hall
    rwa [hdel, List.nil_append] at hdone

/-- **Exact condition of end-to-end framing.** Messages are sent by one endpoint, each written out
before the next, and what it wrote is the byte stream of another, whose upper layer may send answers.
The upper layer there is given these messages, in this order and byte by byte, and the connection
stays open **iff** none of them is longer than the receive buffer of 8192 bytes. -/
theorem receives_iff (sender receiver : ConnKind) (senderStr receiverStr : String)
    (senderPadding receiverPadding : Nat → Padding) (senderSlack receiverSlack : Nat)
    (react : Nat → List (List UInt8)) (ms : List (List UInt8)) :
    (Conn.start receiver receiverStr receiverPadding receiverSlack).Receives react
        (wireOf sender senderStr senderPadding senderSlack ms) ms ↔
      ∀ msg ∈ ms, msg.length ≤ bufferSize := by
  rw [wireOf_eq]
  exact (Conn.start_ready receiver receiverStr receiverPadding receiverSlack).receives_frames_iff rfl _ ms

/-- One message of 8193 bytes closes the peer's connection. -/
theorem not_receives_long :
    ¬ (Conn.start .server "10.0.0.1:80" (fun _ => ⟨[0, 0, 0], rfl⟩) 0).Receives (fun _ => [])
      (wireOf .client "10.0.0.2:81" (fun _ => ⟨[0, 0, 0], rfl⟩) 0 [List.replicate 8193 65])
      [List.replicate 8193 65] := by
  rw [wireOf_eq, (Conn.start_ready _ _ _ _).receives_frames_iff rfl]
  intro hall
  have hlen := hall _ (List.mem_singleton_self _)
  rw [List.length_replicate] at hlen
  exact absurd hlen (by decide)

end Thallium.Network
