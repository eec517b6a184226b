import Thallium.Network.Framing
import Thallium.Network.WriteExclusion

/-!
# What goes out on a socket (network/connection.cpp:115-203, :306-321)

`async_write` puts the buffers of a sequence on the socket piece by piece. That no two messages are mixed
there rests on the write queue: another `async_write` is begun only when the one before it is over, or the
socket is closed.

| here | there |
| --- | --- |
| `Endpoint`, `Endpoint.transmit`  | Boost.Asio and the kernel: what each `async_write` has still to do, what is on the socket |
| `IsFrame`               | the sequences `send_heartbeat` and `do_send_message` build |
| `BufferSequence.message?` | not in the source: the message in a sequence |
| `Posts`                 | what all handlers but a `when_message_sent` that goes on do: `push`, `cancel` and `close` |
| `Endpoint.Flow`         | not in the source: the invariant of the sending side |

* `readDone_postsTo`, `writeDone_postsTo` — what an event does to the sending side and to the socket.
* `arrive_handsOver`, `transmit_flows` — what is on the socket is always a prefix of the frames handed over, one after the
  other.
-/
namespace Thallium.Network
open Message Serializer EventRun

/-! ## Frames -/

/-- The buffers a connection queues; only the client with a heartbeat queues heartbeats. -/
inductive IsFrame (kind : ConnKind) : List (List UInt8) → Prop
  | heartbeat (hk : kind = .clientWithHeartbeat) (padding : Padding) :
      IsFrame kind [headerToString padding ⟨HeaderMessageType.heartbeat.value, 0⟩]
  | message (padding : Padding) (msg : List UInt8) :
      IsFrame kind [headerToString padding (normalHeader msg), msg]

namespace BufferSequence

/-- A message has two buffers, a heartbeat one. -/
def message? (b : BufferSequence) : Option (List UInt8) :=
  match b.bufs with
  | [_, msg] => some msg
  | _ => none

def bytes (b : BufferSequence) : List UInt8 := b.bufs.flatten

theorem length_bytes (b : BufferSequence) : b.bytes.length = b.totalSize := by
  rw [bytes, totalSize, List.length_flatten]

end BufferSequence

/-- The messages among what was queued. -/
def messages (bs : List BufferSequence) : List (List UInt8) := bs.filterMap BufferSequence.message?

/-- The bytes of what was queued. -/
def bytesOf (bs : List BufferSequence) : List UInt8 := bs.flatMap BufferSequence.bytes

theorem messages_append (bs bs' : List BufferSequence) :
    messages (bs ++ bs') = messages bs ++ messages bs' := List.filterMap_append

theorem bytesOf_append (bs bs' : List BufferSequence) :
    bytesOf (bs ++ bs') = bytesOf bs ++ bytesOf bs' := List.flatMap_append

theorem bytesOf_cons (b : BufferSequence) (bs : List BufferSequence) :
    bytesOf (b :: bs) = b.bytes ++ bytesOf bs := List.flatMap_cons

theorem Sender.wire_eq (q : Sender) : q.wire = bytesOf q.written := rfl

/-- A frame has at least its header. -/
theorem IsFrame.length {kind : ConnKind} {b : BufferSequence} (h : IsFrame kind b.bufs) :
    headerSize ≤ b.bytes.length := by
  rw [BufferSequence.bytes]
  generalize b.bufs = bufs at h ⊢
  cases h with
  | heartbeat hk padding => simp
  | message padding msg => simp

/-! ## What the handlers do -/

/-- Pushes of frames and closings, from one sending side and state of the socket to another. -/
inductive Posts (kind : ConnKind) : Bool → Sender → Bool → Sender → Prop
  | refl (o : Bool) (q : Sender) : Posts kind o q o q
  | push {o o' : Bool} {q q' : Sender} {bufs : List (List UInt8)} (h : Posts kind o q o' q')
      (hframe : IsFrame kind bufs) : Posts kind o q o' (q'.push bufs)
  | close {o o' : Bool} {q q' : Sender} (h : Posts kind o q o' q') : Posts kind o q false q'.cancel

namespace Posts
variable {kind : ConnKind} {o o' o'' : Bool} {q q' q'' : Sender}

theorem trans (h : Posts kind o q o' q') (h' : Posts kind o' q' o'' q'') : Posts kind o q o'' q'' := by
  induction h' with
  | refl => exact h
  | push _ hframe ih => exact (ih h).push hframe
  | close _ ih => exact (ih h).close

/-- What is done to an open connection and closes it can be done to the closed one. -/
theorem of_closed (h : Posts kind o q o' q') : Posts kind false q false q' := by
  induction h with
  | refl => exact .refl _ _
  | push _ hframe ih => exact ih.push hframe
  | close _ ih => exact ih.close

/-- What is closed stays closed. -/
theorem isOpen_false (h : Posts kind o q o' q') (ho : o = false) : o' = false := by
  induction h with
  | refl => exact ho
  | push _ _ ih => exact ih
  | close => rfl

end Posts

namespace Conn
variable {s s' : Conn} {i : Nat} {ec : ErrorCode} {up : List UpperCall}

/-- What an event does to the sending side of a connection. -/
structure PostsTo (s s' : Conn) : Prop where
  kind : s'.kind = s.kind
  posts : Posts s.kind s.isOpen s.send s'.isOpen s'.send

theorem postsTo_of_eq (hk : s'.kind = s.kind) (ho : s'.isOpen = s.isOpen) (hs : s'.send = s.send) :
    PostsTo s s' := by
  refine ⟨hk, ?_⟩
  rw [ho, hs]
  exact .refl _ _

theorem PostsTo.trans {s'' : Conn} (h : PostsTo s s') (h' : PostsTo s' s'') : PostsTo s s'' :=
  ⟨h'.kind.trans h.kind, h.posts.trans (h.kind ▸ h'.posts)⟩

theorem socketClose_postsTo (s : Conn) : PostsTo s s.socketClose := by
  unfold socketClose
  split
  · exact ⟨rfl, (Posts.refl _ _).close⟩
  · exact postsTo_of_eq rfl rfl rfl

theorem connectionClose_postsTo (s : Conn) : PostsTo s s.connectionClose := by
  have hstop : PostsTo s s.heartbeatStop := postsTo_of_eq rfl rfl rfl
  unfold connectionClose
  split
  · exact s.socketClose_postsTo
  · exact s.socketClose_postsTo
  · exact hstop.trans s.heartbeatStop.socketClose_postsTo
  · exact hstop.trans s.heartbeatStop.socketClose_postsTo

theorem upperCall_postsTo (s : Conn) (call : UpperCall) : PostsTo s (s.upperCall call) := by
  cases call with
  | send msg => exact ⟨rfl, (Posts.refl _ _).push (.message _ msg)⟩
  | disconnect =>
    have hclose := connectionClose_postsTo { s with disconnected := s.disconnected || s.isOpen }
    exact ⟨hclose.kind, hclose.posts⟩

theorem upperCalls_postsTo (up : List UpperCall) (s : Conn) : PostsTo s (up.foldl upperCall s) := by
  induction up generalizing s with
  | nil => exact postsTo_of_eq rfl rfl rfl
  | cons call up ih => exact (s.upperCall_postsTo call).trans (ih _)

theorem notify_postsTo (s : Conn) (e : ConnectionEvent) (up : List UpperCall) :
    PostsTo s (s.connectionClose.upperLayerEventCallback e up) := by
  have hup := upperCalls_postsTo up { s.connectionClose with events := s.connectionClose.events ++ [e] }
  exact s.connectionClose_postsTo.trans ⟨hup.kind, hup.posts⟩

theorem upperLayerCallback_postsTo (s : Conn) (length : Nat) (up : List UpperCall) :
    PostsTo s (s.upperLayerCallback length up) := by
  have hup := upperCalls_postsTo up { s with
    recv.delivered := s.recv.delivered ++ [s.recv.receiveBuffer.data.take length] }
  exact ⟨hup.kind, hup.posts⟩

theorem doReceiveMessage_postsTo (s : Conn) : PostsTo s s.doReceiveMessage := by
  unfold doReceiveMessage
  split
  · exact postsTo_of_eq rfl rfl rfl
  · exact postsTo_of_eq rfl rfl rfl

theorem parsed_postsTo (s : Conn) : PostsTo s s.parsed := by
  refine postsTo_of_eq ?_ s.parsed_frame.isOpen s.parsed_frame.send
  unfold parsed
  simp only
  split
  · unfold doReceivePayload
    split
    · rfl
    · rfl
  · unfold doReceiveMessage
    split
    · rfl
    · rfl
  all_goals rfl

theorem readDone_postsTo (s : Conn) (i : Nat) (ec : ErrorCode) (data : List UInt8)
    (up : List UpperCall) : PostsTo s (s.readDone i ec data up) := by
  cases hop : s.recv.reads[i]? with
  | none =>
    rw [readDone, hop]
    exact postsTo_of_eq rfl rfl rfl
  | some op =>
    obtain ⟨hopen, hkind, -⟩ := readCompleted_frame s i op data
    refine (postsTo_of_eq hkind hopen (s.readCompleted_send i op data)).trans ?_
    cases ht : op.target with
    | header =>
      rw [readDone_header hop ht]
      generalize s.readCompleted i op data = s'
      simp only
      split
      · split
        · exact s'.parsed_postsTo
        · exact postsTo_of_eq rfl rfl rfl
      · split
        · exact postsTo_of_eq rfl rfl rfl
        · split
          · exact s'.notify_postsTo _ _
          · exact s'.connectionClose_postsTo
    | payload length =>
      rw [readDone_payload hop ht]
      generalize s.readCompleted i op data = s'
      simp only
      split
      · exact s'.connectionClose_postsTo
      · refine PostsTo.trans ?_ (doReceiveMessage_postsTo _)
        split
        · exact s'.upperLayerCallback_postsTo length up
        · exact postsTo_of_eq rfl rfl rfl

theorem waitDone_postsTo (s : Conn) (i : Nat) (ec : ErrorCode) (up : List UpperCall) :
    PostsTo s (s.waitDone i ec up) := by
  cases hop : s.waits[i]? with
  | none =>
    rw [waitDone, hop]
    exact postsTo_of_eq rfl rfl rfl
  | some op =>
    by_cases hserver : s.kind = .serverWithHeartbeat
    · rw [waitDone_server hop hserver]
      simp only
      split
      · have hnotify := notify_postsTo { s with waits := s.waits.eraseIdx i } .timeout up
        exact ⟨hnotify.kind, hnotify.posts⟩
      · exact postsTo_of_eq rfl rfl rfl
    · by_cases hclient : s.kind = .clientWithHeartbeat
      · rw [waitDone_client hop hclient]
        simp only
        split
        · exact ⟨rfl, (Posts.refl _ _).push (.heartbeat hclient _)⟩
        · have hclose := connectionClose_postsTo { s with waits := s.waits.eraseIdx i }
          exact ⟨hclose.kind, hclose.posts⟩
      · rw [waitDone_other hop hserver hclient]
        exact postsTo_of_eq rfl rfl rfl

/-- **A completed write** goes on with the next one in the queue, or throws because no byte went out, or
has closed the connection. -/
theorem writeDone_postsTo {op : WriteOp} (hop : s.send.writes[i]? = some op) (ec : ErrorCode) (n : Nat)
    (up : List UpperCall) :
    (s.writeDone i ec n up).kind = s.kind ∧
      ((ec.value = 0 ∨ ec.value = operationAborted) ∧ (s.writeDone i ec n up).isOpen = s.isOpen ∧
          (n ≠ 0 ∧ (s.writeDone i ec n up).send = (s.send.complete i).pop ∨
            n = 0 ∧ (s.writeDone i ec n up).send = s.send.complete i) ∨
        (s.writeDone i ec n up).isOpen = false ∧
          Posts s.kind s.isOpen (s.send.complete i) false (s.writeDone i ec n up).send) := by
  rw [writeDone_eq hop]
  by_cases hfail : ec.value ≠ 0 ∧ ec.value ≠ operationAborted
  · simp only [if_pos hfail]
    have hnotify := notify_postsTo { s with send := s.send.complete i } .pipe up
    have hclosed := (notify_effect { s with send := s.send.complete i } .pipe up).1
    exact ⟨hnotify.kind, .inr ⟨hclosed, hclosed ▸ hnotify.posts⟩⟩
  · have hskip : ec.value = 0 ∨ ec.value = operationAborted := by
      by_contra hn
      exact hfail ⟨fun h => hn (.inl h), fun h => hn (.inr h)⟩
    simp only [if_neg hfail]
    by_cases hn : n = 0
    · rw [if_pos hn]
      exact ⟨rfl, .inl ⟨hskip, rfl, .inr ⟨hn, rfl⟩⟩⟩
    · rw [if_neg hn]
      exact ⟨rfl, .inl ⟨hskip, rfl, .inl ⟨hn, rfl⟩⟩⟩

end Conn

/-! ## The socket -/

/-- A connection, what each of its writes in flight has still to put on the socket, what was put there, and
how many of the bytes that its peer put there it has read. -/
structure Endpoint where
  conn : Conn
  outgoing : List (List UInt8)
  transmitted : List UInt8
  consumed : Nat

namespace Endpoint

/-- The `i`-th write in flight puts `n` more bytes on the socket. -/
def transmit (i n : Nat) (p : Endpoint) : Endpoint :=
  { p with
    outgoing := p.outgoing.modify i (List.drop n)
    transmitted := p.transmitted ++ (p.outgoing.getD i []).take n }

/-- What is left of the writes in flight once the completed one is gone. -/
def unfinished (p : Endpoint) : Conn.Event → List (List UInt8)
  | .writeDone i _ _ _ => p.outgoing.eraseIdx i
  | _ => p.outgoing

/-- What the event hands to `async_write`. -/
def handedOver (p : Endpoint) (e : Conn.Event) : List BufferSequence :=
  (p.conn.step e).send.written.drop p.conn.send.written.length

/-- An event of the connection. -/
def arrive (p : Endpoint) (e : Conn.Event) : Endpoint where
  conn := p.conn.step e
  outgoing := p.unfinished e ++ (p.handedOver e).map BufferSequence.bytes
  transmitted := p.transmitted
  consumed := match e with
    | .readDone _ _ data _ => p.consumed + data.length
    | _ => p.consumed

def start (kind : ConnKind) (socketStr : String) (padding : Nat → Padding) (slack : Nat) : Endpoint :=
  ⟨.start kind socketStr padding slack, [], [], 0⟩

/-- The number of bytes a write completes with is what it has put on the socket. -/
def Written (p : Endpoint) : Conn.Event → Prop
  | .writeDone i _ n _ => ∃ op rest, p.conn.send.writes[i]? = some op ∧ p.outgoing[i]? = some rest ∧
      n + rest.length = op.totalSize
  | _ => True

end Endpoint

/-- **The sending side.** `o` says whether the socket is open. At most one write is in flight, and what it
has not put on the socket yet is what is missing there. -/
structure Flow (kind : ConnKind) (o : Bool) (q : Sender) (outgoing : List (List UInt8))
    (transmitted : List UInt8) : Prop where
  exclusive : q.Exclusive
  aligned : outgoing.length = q.writes.length
  running : o = true → ∀ op ∈ q.writes, op.cancelled = false
  stream : o = true → transmitted ++ outgoing.flatten = q.wire
  sound : transmitted <+: q.wire
  frames : ∀ b ∈ q.enqueued, IsFrame kind b.bufs
  queued : ∀ b ∈ q.writeQueue, b ∈ q.enqueued
  written : ∀ b ∈ q.written, b ∈ q.enqueued

namespace Flow
variable {kind : ConnKind} {o o' : Bool} {q q' : Sender} {out : List (List UInt8)} {tr : List UInt8}

theorem close (h : Flow kind o q out tr) : Flow kind false q.cancel out tr where
  exclusive := Sender.cancel_exclusive h.exclusive
  aligned := by simpa [Sender.cancel] using h.aligned
  running := fun ho => by cases ho
  stream := fun ho => by cases ho
  sound := h.sound
  frames := h.frames
  queued := h.queued
  written := h.written

/-- One more write, begun when none is in flight. -/
theorem doWrite (h : Flow kind o q out tr) (hw : q.writes = []) :
    ∃ new, q.doWrite.written = q.written ++ new ∧
      Flow kind o q.doWrite (out ++ new.map BufferSequence.bytes) tr := by
  have hout : out = [] := by
    apply List.eq_nil_of_length_eq_zero
    rw [h.aligned, hw]
    rfl
  have hexcl := Sender.doWrite_exclusive hw
  unfold Sender.doWrite at hexcl ⊢
  cases hb : q.writeQueue.getLast? with
  | none => exact ⟨[], by simp, by simpa using h⟩
  | some b =>
    rw [hb] at hexcl
    refine ⟨[b], rfl, hexcl, ?_, ?_, ?_, ?_, h.frames, h.queued, ?_⟩
    · simp [hout, hw]
    · simp [hw]
    · intro ho
      have hstream := h.stream ho
      rw [hout, List.flatten_nil, List.append_nil] at hstream
      rw [hstream, hout, Sender.wire_eq, Sender.wire_eq, bytesOf_append]
      simp [bytesOf]
    · rw [Sender.wire_eq, bytesOf_append]
      exact h.sound.trans (List.prefix_append _ _)
    · intro b' hb'
      rcases List.mem_append.mp hb' with hb' | hb'
      · exact h.written b' hb'
      · rw [List.mem_singleton.mp hb']
        exact h.queued b (List.mem_of_getLast? hb)

/-- **A push** begins a write only if the queue is empty. -/
theorem push (h : Flow kind o q out tr) {bufs : List (List UInt8)} (hframe : IsFrame kind bufs) :
    ∃ new, (q.push bufs).written = q.written ++ new ∧
      Flow kind o (q.push bufs) (out ++ new.map BufferSequence.bytes) tr := by
  have hframes : ∀ b ∈ q.enqueued ++ [⟨q.enqueued.length, bufs⟩], IsFrame kind b.bufs := by
    intro b hb
    rcases List.mem_append.mp hb with hb | hb
    · exact h.frames b hb
    · rw [List.mem_singleton.mp hb]
      exact hframe
  have hwritten : ∀ b ∈ q.written, b ∈ q.enqueued ++ [⟨q.enqueued.length, bufs⟩] :=
    fun b hb => List.mem_append_left _ (h.written b hb)
  have hexcl := Sender.push_exclusive h.exclusive bufs
  rcases Sender.push_cases q bufs with ⟨hq, hpush⟩ | ⟨-, hpush⟩
  · have hw := h.exclusive.writes_nil hq
    rw [hpush]
    refine doWrite ⟨?_, h.aligned, h.running, h.stream, h.sound, hframes, ?_, hwritten⟩ hw
    · refine ⟨by rw [hw]; exact Nat.zero_le 1, fun op hop => ?_⟩
      rw [hw] at hop
      cases hop
    · intro b hb
      exact List.mem_append_right _ hb
  · rw [hpush] at hexcl ⊢
    refine ⟨[], by simp, ?_⟩
    rw [List.map_nil, List.append_nil]
    refine ⟨hexcl, h.aligned, h.running, h.stream, h.sound, hframes, ?_, hwritten⟩
    intro b hb
    rcases List.mem_append.mp hb with hb | hb
    · exact List.mem_append_left _ (h.queued b hb)
    · exact List.mem_append_right _ hb

theorem posts (h : Flow kind o q out tr) (hp : Posts kind o q o' q') :
    ∃ new, q'.written = q.written ++ new ∧ Flow kind o' q' (out ++ new.map BufferSequence.bytes) tr := by
  induction hp with
  | refl => exact ⟨[], by simp, by simpa using h⟩
  | push _ hframe ih =>
    obtain ⟨new, hnew, hflow⟩ := ih h
    obtain ⟨new', hnew', hflow'⟩ := hflow.push hframe
    refine ⟨new ++ new', by rw [hnew', hnew, List.append_assoc], ?_⟩
    rw [List.map_append, ← List.append_assoc]
    exact hflow'
  | close _ ih =>
    obtain ⟨new, hnew, hflow⟩ := ih h
    exact ⟨new, hnew, hflow.close⟩

/-- The one write in flight. -/
theorem complete_writes (h : Flow kind o q out tr) {i : Nat} {op : WriteOp} (hop : q.writes[i]? = some op) :
    (q.complete i).writes = [] ∧ out.eraseIdx i = [] ∧ out.getD i [] = out.flatten := by
  have hone := h.exclusive.one
  have hlen := h.aligned
  have hi : i < q.writes.length := (List.getElem?_eq_some_iff.mp hop).1
  obtain rfl : i = 0 := by omega
  obtain ⟨rest, hout⟩ : ∃ rest, out = [rest] := List.length_eq_one_iff.mp (by omega)
  refine ⟨?_, by rw [hout]; rfl, by rw [hout]; simp⟩
  apply List.eq_nil_of_length_eq_zero
  rw [Sender.complete, List.length_eraseIdx_of_lt hi]
  omega

/-- A completed write, while its handler has not run: nothing is in flight. -/
theorem complete (h : Flow kind o q out tr) {i : Nat} {op : WriteOp} (hop : q.writes[i]? = some op)
    (hdone : o' = true → o = true ∧ out.getD i [] = []) :
    Flow kind o' (q.complete i) (out.eraseIdx i) tr := by
  obtain ⟨hw, hout, hrest⟩ := h.complete_writes hop
  refine ⟨?_, ?_, ?_, ?_, h.sound, h.frames, h.queued, h.written⟩
  · refine ⟨by rw [hw]; exact Nat.zero_le 1, fun op' hop' => ?_⟩
    rw [hw] at hop'
    cases hop'
  · rw [hw, hout]
    rfl
  · intro _ op' hop'
    rw [hw] at hop'
    cases hop'
  · intro ho'
    obtain ⟨ho, hnil⟩ := hdone ho'
    have hstream := h.stream ho
    rw [hrest] at hnil
    rw [hnil, List.append_nil] at hstream
    rw [hout, List.flatten_nil, List.append_nil]
    exact hstream

theorem pop (h : Flow kind o q out tr) (hw : q.writes = []) :
    ∃ new, q.pop.written = q.written ++ new ∧
      Flow kind o q.pop (out ++ new.map BufferSequence.bytes) tr := by
  have htail : Flow kind o { q with writeQueue := q.writeQueue.tail } out tr := by
    refine ⟨?_, h.aligned, h.running, h.stream, h.sound, h.frames, ?_, h.written⟩
    · refine ⟨h.exclusive.one, fun op hop => ?_⟩
      rw [hw] at hop
      cases hop
    · exact fun b hb => h.queued b (List.mem_of_mem_tail hb)
  unfold Sender.pop
  simp only
  split
  · exact htail.doWrite hw
  · exact ⟨[], by simp, by simpa using htail⟩

/-- What a write in flight writes is a whole frame. -/
theorem totalSize_pos (h : Flow kind o q out tr) {i : Nat} {op : WriteOp} (hop : q.writes[i]? = some op) :
    0 < op.totalSize := by
  obtain ⟨b, -, hb, hsize⟩ := h.exclusive.queued op (List.mem_of_getElem? hop)
  have hlen := (h.frames b (h.queued b hb)).length
  rw [hsize, ← b.length_bytes]
  exact Nat.lt_of_lt_of_le (by decide) hlen

end Flow

/-! ## One event -/

namespace Endpoint
variable {p : Endpoint}

/-- The sending side of an endpoint is in order. -/
def Flows (p : Endpoint) : Prop :=
  Flow p.conn.kind p.conn.isOpen p.conn.send p.outgoing p.transmitted

/-- An event keeps the kind, and what it hands over comes behind what was handed over before. -/
structure HandsOver (p : Endpoint) (e : Conn.Event) : Prop where
  kind : (p.arrive e).conn.kind = p.conn.kind
  written : p.conn.send.written <+: (p.arrive e).conn.send.written
  flows : (p.arrive e).Flows

/-- The sending side after an event, when what it did is known. -/
theorem handsOver_of {e : Conn.Event} (hkind : (p.conn.step e).kind = p.conn.kind)
    (hflow : ∃ new, (p.conn.step e).send.written = p.conn.send.written ++ new ∧
      Flow p.conn.kind (p.conn.step e).isOpen (p.conn.step e).send
        (p.unfinished e ++ new.map BufferSequence.bytes) p.transmitted) : p.HandsOver e := by
  obtain ⟨new, hnew, hflow⟩ := hflow
  refine ⟨hkind, ⟨new, hnew.symm⟩, ?_⟩
  have hover : p.handedOver e = new := by
    rw [handedOver, hnew, List.drop_left]
  unfold Flows arrive
  simp only
  rw [hkind, hover]
  exact hflow

/-- A write that has completed on a socket that is still open has put all of its frame there. -/
theorem written_all (h : p.Flows) {i : Nat} {ec : ErrorCode} {n : Nat} {up : List Conn.UpperCall}
    (hl : p.conn.Legal (.writeDone i ec n up)) (hw : p.Written (.writeDone i ec n up))
    (hskip : ec.value = 0 ∨ ec.value = operationAborted) (ho : p.conn.isOpen = true) :
    p.outgoing.getD i [] = [] := by
  obtain ⟨op, hop, -, hfull, habort⟩ := hl
  obtain ⟨op', rest, hop', hrest, hsum⟩ := hw
  obtain rfl : op = op' := Option.some.inj (hop.symm.trans hop')
  rcases hskip with h0 | ha
  · have hn := hfull h0
    have hnil : rest = [] := List.eq_nil_of_length_eq_zero (by omega)
    rw [List.getD_eq_getElem?_getD, hrest, hnil]
    rfl
  · -- only a write on a closed socket has been cancelled
    have hrunning := h.running ho op (List.mem_of_getElem? hop)
    rw [habort ha] at hrunning
    cases hrunning

/-- **One event of the connection.** -/
theorem arrive_handsOver (h : p.Flows) {e : Conn.Event} (hl : p.conn.Legal e) (hw : p.Written e) :
    p.HandsOver e := by
  cases e with
  | readDone i ec data up =>
    have hposts := p.conn.readDone_postsTo i ec data up
    exact handsOver_of hposts.kind (Flow.posts h hposts.posts)
  | waitDone i ec up =>
    have hposts := p.conn.waitDone_postsTo i ec up
    exact handsOver_of hposts.kind (Flow.posts h hposts.posts)
  | upper call =>
    have hposts := p.conn.upperCall_postsTo call
    exact handsOver_of hposts.kind (Flow.posts h hposts.posts)
  | writeDone i ec n up =>
    obtain ⟨op, hop, -⟩ := id hl
    obtain ⟨hkind, hcase⟩ := Conn.writeDone_postsTo hop ec n up
    refine handsOver_of hkind ?_
    have hout : p.unfinished (.writeDone i ec n up) = p.outgoing.eraseIdx i := rfl
    rw [Conn.step, hout]
    rcases hcase with ⟨hskip, hopen, hsend⟩ | ⟨hclosed, hposts⟩
    · have hcomplete : Flow p.conn.kind p.conn.isOpen (p.conn.send.complete i)
          (p.outgoing.eraseIdx i) p.transmitted :=
        Flow.complete h hop fun ho => ⟨ho, written_all h hl hw hskip ho⟩
      rw [hopen]
      rcases hsend with ⟨-, hsend⟩ | ⟨-, hsend⟩
      · rw [hsend]
        exact hcomplete.pop (Flow.complete_writes h hop).1
      · rw [hsend]
        exact ⟨[], by simp [Sender.complete], by simpa using hcomplete⟩
    · rw [hclosed]
      exact (Flow.complete h hop fun ho => by cases ho).posts hposts.of_closed

/-- **A piece of a frame** goes out. -/
theorem transmit_flows (h : p.Flows) (ho : p.conn.isOpen = true) {i n : Nat} {rest : List UInt8}
    (hrest : p.outgoing[i]? = some rest) : (p.transmit i n).Flows := by
  have hlen := h.aligned
  have hone := h.exclusive.one
  have hi : i < p.outgoing.length := (List.getElem?_eq_some_iff.mp hrest).1
  obtain rfl : i = 0 := by omega
  obtain ⟨rest', hout⟩ : ∃ rest', p.outgoing = [rest'] := List.length_eq_one_iff.mp (by omega)
  obtain rfl : rest' = rest := by simpa [hout] using hrest
  have hstream := h.stream ho
  have hnext : (p.transmitted ++ rest'.take n) ++ rest'.drop n = p.conn.send.wire := by
    rw [List.append_assoc, List.take_append_drop, ← hstream, hout]
    simp
  unfold Flows transmit
  simp only [hout, List.modify_zero_cons, List.getD_cons_zero]
  refine ⟨h.exclusive, ?_, h.running, fun _ => ?_, ⟨_, hnext⟩, h.frames, h.queued, h.written⟩
  · rw [← hlen, hout]
    rfl
  · rw [List.flatten_singleton]
    exact hnext

theorem start_flows (kind : ConnKind) (socketStr : String) (padding : Nat → Padding) (slack : Nat) :
    (start kind socketStr padding slack).Flows := by
  have hsend : (Conn.start kind socketStr padding slack).send = ⟨[], [], [], []⟩ :=
    (Conn.doReceiveMessage_frame _).send
  unfold Flows start
  simp only
  refine ⟨start_exclusive kind socketStr padding slack, ?_, ?_, ?_, ?_, ?_, ?_, ?_⟩ <;> rw [hsend] <;> simp [Sender.wire]

end Endpoint

end Thallium.Network
