import Thallium.Network.Transmission

/-!
# Two connections on one socket pair (network/connection.cpp:47-203, :282-321)

What one endpoint puts on the socket, the other one reads, in pieces of any size. Each side sends what it
likes when it likes, its heartbeats among it, and any operation can fail at any time.

| here | there |
| --- | --- |
| `Link`, `LinkEvent`, `Link.step` | two processes, a byte stream in each direction |
| `Link.Legal`       | Boost.Asio and TCP: reads complete with the next bytes of the stream |
| `Conn.Follows`     | not in the source: where the reading side is in the frames of its peer |
| `Ordered`          | not in the source: the write queue as long as no third message waits |
| `Link.AtRest`      | nothing is being written, and what is there is too little for the read in flight |

* `Link.step_inv` — one event of either side.
* `Link.delivered_inOrder` — no message is lost, changed, doubled or overtaken between `async_write` and
  the upper layer of the peer.
* `Link.delivered_atRest` — at rest all messages sent have been delivered.
-/
namespace Thallium.Network
open Message Serializer EventRun

/-! ## The reading side -/

/-- The bytes read are those of the next buffer, if there are as many. -/
theorem eq_of_prefix_append {data buf rest : List UInt8} (h : data <+: buf ++ rest)
    (hlen : data.length = buf.length) : data = buf :=
  (List.prefix_of_prefix_length_le h (List.prefix_append buf rest) (le_of_eq hlen)).eq_of_length hlen

namespace Conn
variable {s s' : Conn} {i : Nat} {ec : ErrorCode} {data : List UInt8} {up : List UpperCall}

/-- A connection of which `taken` has been read of the frames `sent` that a peer of class `sender` hands
over. -/
inductive Follows (s : Conn) (sender : ConnKind) (sent : List BufferSequence) (taken : List UInt8) : Prop
  /-- It is closed. -/
  | closed (hclosed : s.isOpen = false) (hdel : s.recv.delivered <+: messages sent)
  /-- It has read a heartbeat it does not know. -/
  | stuck (hsender : sender = .clientWithHeartbeat) (hkind : s.kind ≠ .serverWithHeartbeat)
      (hreads : s.recv.reads = []) (hdel : s.recv.delivered <+: messages sent)
  /-- It reads the header of the next frame. -/
  | header {done rest : List BufferSequence} (hsent : sent = done ++ rest)
      (hreads : s.recv.reads = [⟨.header, headerSize, false⟩]) (htaken : taken = bytesOf done)
      (hdel : s.recv.delivered = messages done)
  /-- It reads a message, or as much of it as the buffer takes. -/
  | payload {done rest : List BufferSequence} {b : BufferSequence} {padding : Padding} {msg : List UInt8}
      {size : Nat} (hsent : sent = done ++ b :: rest)
      (hb : b.bufs = [headerToString padding (normalHeader msg), msg])
      (hreads : s.recv.reads = [⟨.payload msg.length, size, false⟩]) (hsize : size ≤ msg.length)
      (hbuf : size ≤ s.recv.receiveBuffer.data.length)
      (htaken : taken = bytesOf done ++ headerToString padding (normalHeader msg))
      (hdel : s.recv.delivered = messages done)

namespace Follows
variable {sender : ConnKind} {sent new : List BufferSequence} {taken : List UInt8}

theorem delivered (h : s.Follows sender sent taken) : s.recv.delivered <+: messages sent := by
  cases h with
  | closed _ hdel => exact hdel
  | stuck _ _ _ hdel => exact hdel
  | header hsent _ _ hdel =>
    rw [hdel, hsent, messages_append]
    exact List.prefix_append _ _
  | payload hsent _ _ _ _ _ hdel =>
    rw [hdel, hsent, messages_append]
    exact List.prefix_append _ _

/-- The peer may send more. -/
theorem append (h : s.Follows sender sent taken) : s.Follows sender (sent ++ new) taken := by
  have hdel := h.delivered.trans (messages_append sent new ▸ List.prefix_append _ _)
  cases h with
  | closed hclosed => exact .closed hclosed hdel
  | stuck hsender hkind hreads => exact .stuck hsender hkind hreads hdel
  | header hsent hreads htaken hdel =>
    exact .header (by rw [hsent, List.append_assoc]) hreads htaken hdel
  | payload hsent hb hreads hsize hbuf htaken hdel =>
    exact .payload (by rw [hsent, List.append_assoc, List.cons_append]) hb hreads hsize hbuf htaken hdel

/-- What leaves the receiving side alone. -/
theorem of_eq (h : s.Follows sender sent taken) (hk : s'.kind = s.kind) (ho : s'.isOpen = s.isOpen)
    (hr : s'.recv = s.recv) : s'.Follows sender sent taken := by
  cases h with
  | closed hclosed hdel => exact .closed (ho.trans hclosed) (hr ▸ hdel)
  | stuck hsender hkind hreads hdel =>
    exact .stuck hsender (hk ▸ hkind) (hr ▸ hreads) (hr ▸ hdel)
  | header hsent hreads htaken hdel => exact .header hsent (hr ▸ hreads) htaken (hr ▸ hdel)
  | payload hsent hb hreads hsize hbuf htaken hdel =>
    exact .payload hsent hb (hr ▸ hreads) hsize (hr ▸ hbuf) htaken (hr ▸ hdel)

end Follows

/-- **A completion of a write or a wait, or a call of the upper layer**, leaves the receiving side alone or
closes. -/
theorem step_recv (s : Conn) (e : Event) (he : ∀ i ec data up, e ≠ .readDone i ec data up) :
    ((s.step e).isOpen = s.isOpen ∧ (s.step e).recv = s.recv) ∨
      ((s.step e).isOpen = false ∧ (s.step e).recv.delivered = s.recv.delivered) := by
  cases e with
  | readDone i ec data up => exact absurd rfl (he i ec data up)
  | writeDone i ec n up =>
    cases hop : s.send.writes[i]? with
    | none =>
      rw [step, writeDone, hop]
      exact .inl ⟨rfl, rfl⟩
    | some op =>
      rw [step, writeDone_eq hop]
      simp only
      split
      · obtain ⟨hclosed, -, -, -, hdel⟩ := notify_effect { s with send := s.send.complete i } .pipe up
        exact .inr ⟨hclosed, hdel⟩
      · split
        · exact .inl ⟨rfl, rfl⟩
        · exact .inl ⟨rfl, rfl⟩
  | waitDone i ec up =>
    cases hop : s.waits[i]? with
    | none =>
      rw [step, waitDone, hop]
      exact .inl ⟨rfl, rfl⟩
    | some op =>
      rw [step]
      by_cases hserver : s.kind = .serverWithHeartbeat
      · rw [waitDone_server hop hserver]
        simp only
        split
        · obtain ⟨hclosed, -, -, -, hdel⟩ := notify_effect { s with waits := s.waits.eraseIdx i } .timeout up
          exact .inr ⟨hclosed, hdel⟩
        · exact .inl ⟨rfl, rfl⟩
      · by_cases hclient : s.kind = .clientWithHeartbeat
        · rw [waitDone_client hop hclient]
          simp only
          split
          · exact .inl ⟨rfl, rfl⟩
          · exact .inr ⟨connectionClose_isOpen _, connectionClose_delivered _⟩
        · rw [waitDone_other hop hserver hclient]
          exact .inl ⟨rfl, rfl⟩
  | upper call =>
    have heff := s.upperCall_effect call
    cases hopen : s.isOpen with
    | false => exact .inr ⟨(heff.closed hopen).1, heff.delivered⟩
    | true =>
      rcases heff.opened hopen with ⟨ho, hr, -⟩ | ⟨hclosed, -⟩
      · exact .inl ⟨ho, hr⟩
      · exact .inr ⟨hclosed, heff.delivered⟩

section Reads
variable {sender : ConnKind} {sent done rest : List BufferSequence} {taken : List UInt8}

/-- The one read in flight. -/
theorem only_read {op op' : ReadOp} (hreads : s.recv.reads = [op]) (hop : s.recv.reads[i]? = some op') :
    i = 0 ∧ op' = op := by
  rw [hreads] at hop
  cases i with
  | zero => exact ⟨rfl, (Option.some.inj hop).symm⟩
  | succ i => simp at hop

/-- **Parsing the header of a frame.** -/
theorem parsed_follows {b : BufferSequence} (hframe : IsFrame sender b.bufs)
    (hshort : ∀ msg, b.message? = some msg → msg.length < 2 ^ 32) (hsent : sent = done ++ b :: rest)
    (hopen : s.isOpen = true) (hreads : s.recv.reads = []) (hdel : s.recv.delivered = messages done)
    (hdata : data.length = headerSize) (hread : stringToHeader s.recv.headerBuffer = stringToHeader data)
    (hnext : data <+: b.bytes) : s.parsed.Follows sender sent (bytesOf done ++ data) := by
  have hdel' : messages done <+: messages sent := by
    rw [hsent, messages_append]
    exact List.prefix_append _ _
  obtain ⟨ident, bufs⟩ := b
  cases hframe with
  | heartbeat hk padding =>
    have hbytes : (⟨ident, [headerToString padding ⟨HeaderMessageType.heartbeat.value, 0⟩]⟩ :
        BufferSequence).bytes = headerToString padding ⟨HeaderMessageType.heartbeat.value, 0⟩ := by
      simp [BufferSequence.bytes]
    rw [hbytes] at hnext
    have heq := hnext.eq_of_length (by rw [hdata, length_headerToString])
    have htype : HeaderMessageType.ofByte? (stringToHeader s.recv.headerBuffer).msgType = some .heartbeat := by
      rw [hread, heq, stringToHeader_headerToString]
      rfl
    have hstuck : s.kind ≠ .serverWithHeartbeat → ∀ thrown,
        ({ s with thrown := thrown } : Conn).Follows sender sent (bytesOf done ++ data) :=
      fun hkind thrown => .stuck hk hkind hreads (by rw [hdel]; exact hdel')
    unfold parsed
    simp only [htype]
    cases hkind : s.kind with
    | serverWithHeartbeat =>
      simp only [doReceiveMessage, timerReset, hopen, if_true]
      refine .header (hsent.trans (List.append_cons _ _ _)) ?_ ?_ ?_
      · simp [asyncRead, hreads]
      · rw [bytesOf_append, heq]
        simp [bytesOf, hbytes]
      · rw [messages_append]
        simp [asyncRead, hdel, messages, BufferSequence.message?]
    | server => exact hstuck (by simp [hkind]) _
    | client => exact hstuck (by simp [hkind]) _
    | clientWithHeartbeat => exact hstuck (by simp [hkind]) _
  | message padding msg =>
    have hbytes : (⟨ident, [headerToString padding (normalHeader msg), msg]⟩ : BufferSequence).bytes =
        headerToString padding (normalHeader msg) ++ msg := by
      simp [BufferSequence.bytes]
    rw [hbytes] at hnext
    have heq := eq_of_prefix_append hnext (by rw [hdata, length_headerToString])
    have hheader : stringToHeader s.recv.headerBuffer = normalHeader msg := by
      rw [hread, heq, stringToHeader_headerToString]
    have htype : HeaderMessageType.ofByte? (normalHeader msg).msgType = some .normal := rfl
    have hlength : (normalHeader msg).bodyLength.toNat = msg.length := by
      rw [normalHeader, UInt32.toNat_ofNat']
      exact Nat.mod_eq_of_lt (hshort msg rfl)
    unfold parsed
    simp only [hheader, htype, hlength]
    unfold doReceivePayload
    split
    · refine .payload hsent rfl (by simp [asyncRead, hreads]) (Nat.min_le_right _ _) (Nat.min_le_left _ _)
        (by rw [heq]) hdel
    · refine .payload hsent rfl (by simp [asyncRead, hreads]) (Nat.min_le_right _ _) (Nat.min_le_left _ _)
        (by rw [heq]) hdel

/-- **A read of a header** completes, or fails. -/
theorem readDone_header_follows (hopen : s.isOpen = true) (hframes : ∀ b ∈ sent, IsFrame sender b.bufs)
    (hshort : ∀ msg ∈ messages sent, msg.length < 2 ^ 32) (hsent : sent = done ++ rest)
    (hreads : s.recv.reads = [⟨.header, headerSize, false⟩]) (hdel : s.recv.delivered = messages done)
    (hl : s.Legal (.readDone i ec data up)) (hnext : data <+: bytesOf rest) :
    (s.readDone i ec data up).Follows sender sent (bytesOf done ++ data) := by
  obtain ⟨op, hop, -, hfull, habort⟩ := hl
  obtain ⟨rfl, rfl⟩ := only_read hreads hop
  obtain ⟨hopen', hkind', -, hreads', hdel', -, -⟩ :=
    readCompleted_frame s 0 ⟨.header, headerSize, false⟩ data
  have hprefix : s.recv.delivered <+: messages sent := by
    rw [hdel, hsent, messages_append]
    exact List.prefix_append _ _
  rw [readDone_header hop rfl]
  by_cases h0 : ec.value = 0
  · have hlen := hfull h0
    simp only [if_pos h0, hopen', hopen, if_true]
    cases rest with
    | nil =>
      -- the peer has not begun another frame
      have hnil : data = [] := List.prefix_nil.mp hnext
      rw [hnil] at hlen
      cases hlen
    | cons b rest =>
      have hmem : b ∈ sent := by
        rw [hsent]
        exact List.mem_append_right _ List.mem_cons_self
      have hframe := hframes b hmem
      have hwhole : data <+: b.bytes := by
        rw [bytesOf_cons] at hnext
        refine List.prefix_of_prefix_length_le hnext (List.prefix_append _ _) ?_
        rw [hlen]
        exact hframe.length
      refine parsed_follows hframe ?_ hsent (hopen'.trans hopen) ?_ (hdel'.trans hdel) hlen
        (stringToHeader_readCompleted rfl hlen) hwhole
      · intro msg hmsg
        exact hshort msg (List.mem_filterMap.mpr ⟨b, hmem, hmsg⟩)
      · rw [hreads', hreads]
        rfl
  · have ha : ¬ ec.value = operationAborted := fun ha => by cases habort ha
    simp only [if_neg h0, if_neg ha]
    split
    · obtain ⟨hclosed, -, -, -, hkept⟩ := notify_effect
        (s.readCompleted 0 ⟨.header, headerSize, false⟩ data) .close up
      exact .closed hclosed (by rw [hkept, hdel']; exact hprefix)
    · exact .closed (connectionClose_isOpen _) (by rw [connectionClose_delivered, hdel']; exact hprefix)

/-- **A read of a message** completes, or fails; the upper layer may close the connection when it is given
the message. -/
theorem readDone_payload_follows {b : BufferSequence} {padding : Padding} {msg : List UInt8} {size : Nat}
    (hopen : s.isOpen = true) (hsent : sent = done ++ b :: rest)
    (hb : b.bufs = [headerToString padding (normalHeader msg), msg])
    (hreads : s.recv.reads = [⟨.payload msg.length, size, false⟩]) (hsize : size ≤ msg.length)
    (hbuf : size ≤ s.recv.receiveBuffer.data.length) (hdel : s.recv.delivered = messages done)
    (hl : s.Legal (.readDone i ec data up)) (hnext : data <+: msg ++ bytesOf rest) :
    (s.readDone i ec data up).Follows sender sent
      (bytesOf done ++ headerToString padding (normalHeader msg) ++ data) := by
  obtain ⟨op, hop, hle, hfull, habort⟩ := hl
  obtain ⟨rfl, rfl⟩ := only_read hreads hop
  set s' := s.readCompleted 0 ⟨.payload msg.length, size, false⟩ data with hs'
  obtain ⟨hopen', -, -, hreads', hdel', -, -⟩ : ReadFrame s 0 s' := readCompleted_frame ..
  have hprefix : messages done <+: messages sent := by
    rw [hsent, messages_append]
    exact List.prefix_append _ _
  rw [readDone_payload hop rfl, ← hs']
  simp only
  split
  · refine .closed (connectionClose_isOpen _) ?_
    rw [connectionClose_delivered, hdel', hdel]
    exact hprefix
  · rename_i hok
    have hlen : data.length = msg.length := by
      have hlong : ¬ data.length < msg.length := fun h => hok (.inr h)
      have hle : data.length ≤ size := hle
      omega
    have heq : data = msg := eq_of_prefix_append hnext hlen
    have htake : s'.recv.receiveBuffer.data.take msg.length = msg := by
      have hfit : 0 + data.length ≤ s.recv.receiveBuffer.data.length := by
        have hle : data.length ≤ size := hle
        omega
      have hbuffer : s'.recv.receiveBuffer = s.recv.receiveBuffer.fill data := rfl
      have hall : data.take s.recv.receiveBuffer.data.length = data :=
        List.take_of_length_le (by omega)
      have htaken := take_copyTo hfit
      rw [Nat.zero_add, hlen] at htaken
      rw [hbuffer, ReceiveBuffer.fill]
      simp only [hall, htaken]
      exact heq
    have hmessages : messages (done ++ [b]) = messages done ++ [msg] := by
      rw [messages_append]
      simp [messages, BufferSequence.message?, hb]
    have heff := s'.upperLayerCallback_effect msg.length up
    rw [htake] at heff
    have hdelivered : (s'.upperLayerCallback msg.length up).recv.delivered = messages (done ++ [b]) := by
      rw [heff.delivered, hmessages]
      simp only
      rw [hdel', hdel]
    simp only [hopen', hopen, if_true]
    rcases heff.opened (hopen'.trans hopen) with ⟨ho, hr, -⟩ | ⟨hclosed, -⟩
    · rw [doReceiveMessage, if_pos ho]
      refine .header (hsent.trans (List.append_cons _ _ _)) ?_ ?_ hdelivered
      · simp only [asyncRead, hr, hreads', hreads]
        rfl
      · rw [bytesOf_append, heq]
        simp [bytesOf, BufferSequence.bytes, hb]
    · rw [doReceiveMessage, if_neg (by simp [hclosed])]
      refine .closed hclosed ?_
      rw [hdelivered, hsent.trans (List.append_cons done b rest), messages_append (done ++ [b])]
      exact List.prefix_append _ _

/-- **Any read** that completes with the next bytes of the frames of the peer. -/
theorem Follows.readDone (h : s.Follows sender sent taken) (hframes : ∀ b ∈ sent, IsFrame sender b.bufs)
    (hshort : ∀ msg ∈ messages sent, msg.length < 2 ^ 32) (hl : s.Legal (.readDone i ec data up))
    (hnext : taken ++ data <+: bytesOf sent) :
    (s.readDone i ec data up).Follows sender sent (taken ++ data) := by
  cases hopen : s.isOpen with
  | false =>
    refine .closed ((s.readDone_postsTo i ec data up).posts.isOpen_false hopen) ?_
    rw [cannotDeliver_of_closed hopen]
    exact h.delivered
  | true =>
    cases h with
    | closed hclosed =>
      rw [hopen] at hclosed
      cases hclosed
    | stuck _ _ hreads =>
      obtain ⟨op, hop, -⟩ := hl
      rw [hreads] at hop
      cases hop
    | header hsent hreads htaken hdel =>
      rw [htaken, hsent, bytesOf_append, List.prefix_append_right_inj] at hnext
      rw [htaken]
      exact readDone_header_follows hopen hframes hshort hsent hreads hdel hl hnext
    | payload hsent hb hreads hsize hbuf htaken hdel =>
      have hbytes : ∀ (b : BufferSequence) header msg, b.bufs = [header, msg] → b.bytes = header ++ msg := by
        intro b header msg hb
        simp [BufferSequence.bytes, hb]
      rw [htaken, hsent, bytesOf_append, bytesOf_cons, hbytes _ _ _ hb, List.append_assoc,
        List.prefix_append_right_inj, List.append_assoc, List.prefix_append_right_inj] at hnext
      rw [htaken]
      exact readDone_payload_follows hopen hsent hb hreads hsize hbuf hdel hl hnext

/-- **Any other event**. -/
theorem Follows.step_other (h : s.Follows sender sent taken) {e : Event}
    (he : ∀ i ec data up, e ≠ .readDone i ec data up) (hkind : (s.step e).kind = s.kind) :
    (s.step e).Follows sender sent taken := by
  rcases s.step_recv e he with ⟨ho, hr⟩ | ⟨hclosed, hdel⟩
  · exact h.of_eq hkind ho hr
  · exact .closed hclosed (by rw [hdel]; exact h.delivered)

end Reads
end Conn

/-! ## The link -/

inductive Side where
  | near
  | far
  deriving DecidableEq, Repr

def Side.other : Side → Side
  | near => far
  | far => near

@[simp] theorem Side.other_other (k : Side) : k.other.other = k := by cases k <;> rfl

theorem Side.other_ne (k : Side) : k.other ≠ k := by cases k <;> simp [other]

theorem Side.eq_or_eq_other (k j : Side) : j = k ∨ j = k.other := by
  cases k <;> cases j <;> simp [other]

/-- The two endpoints. -/
abbrev Link : Type := Side → Endpoint

inductive LinkEvent where
  | transmit (k : Side) (i n : Nat)
  | conn (k : Side) (e : Conn.Event)

namespace Link

/-- What is on the way to a side, or waits there. -/
def unread (l : Link) (k : Side) : List UInt8 := (l k.other).transmitted.drop (l k).consumed

/-- What the frames of the peer of a side have in them, as far as they were handed to `async_write`. -/
def handed (l : Link) (k : Side) : List (List UInt8) := messages (l k).conn.send.written

def step (l : Link) : LinkEvent → Link
  | .transmit k i n => Function.update l k ((l k).transmit i n)
  | .conn k e => Function.update l k ((l k).arrive e)

/-- A piece goes out on an open socket only; a read completes with the next bytes of the stream, after an
error with some of them. -/
def Legal (l : Link) : LinkEvent → Prop
  | .transmit k i n => (l k).conn.isOpen = true ∧
      ∃ rest, (l k).outgoing[i]? = some rest ∧ n ≤ rest.length
  | .conn k e => (l k).conn.Legal e ∧ (l k).Written e ∧
      ∀ i ec data up, e = .readDone i ec data up → data <+: l.unread k

def start (kind : Side → ConnKind) (socketStr : Side → String) (padding : Side → Nat → Padding)
    (slack : Side → Nat) : Link :=
  fun k => .start (kind k) (socketStr k) (padding k) (slack k)

/-- Lengths are sent with 32 bits. -/
def Short (l : Link) (k : Side) : Prop := ∀ msg ∈ l.handed k, msg.length < 2 ^ 32

/-- **The invariant**, in both directions. -/
structure Inv (kind : Side → ConnKind) (l : Link) : Prop where
  kinds : ∀ k, (l k).conn.kind = kind k
  flows : ∀ k, (l k).Flows
  consumed : ∀ k, (l k).consumed ≤ (l k.other).transmitted.length
  follows : ∀ k, l.Short k.other → (l k).conn.Follows (kind k.other) (l k.other).conn.send.written
    ((l k.other).transmitted.take (l k).consumed)

section Steps
variable {kind : Side → ConnKind} {l l' : Link} {k : Side}

theorem step_self_transmit (i n : Nat) : l.step (.transmit k i n) k = (l k).transmit i n :=
  Function.update_self ..

theorem step_self_conn (e : Conn.Event) : l.step (.conn k e) k = (l k).arrive e :=
  Function.update_self ..

theorem step_other_transmit (i n : Nat) : l.step (.transmit k i n) k.other = l k.other :=
  Function.update_of_ne k.other_ne ..

theorem step_other_conn (e : Conn.Event) : l.step (.conn k e) k.other = l k.other :=
  Function.update_of_ne k.other_ne ..

/-- What was written are frames. -/
theorem Inv.frames (h : l.Inv kind) (k : Side) : ∀ b ∈ (l k).conn.send.written, IsFrame (kind k) b.bufs := by
  intro b hb
  rw [← h.kinds k]
  exact (h.flows k).frames b ((h.flows k).written b hb)

/-- **The side that does nothing**, when its peer has written and put more on the socket. -/
theorem Inv.follows_other (h : l.Inv kind) (hself : l' k.other = l k.other)
    (hwritten : (l k).conn.send.written <+: (l' k).conn.send.written)
    (htransmitted : (l k).transmitted <+: (l' k).transmitted) :
    (l' k.other).consumed ≤ (l' k).transmitted.length ∧ (l'.Short k →
      (l' k.other).conn.Follows (kind k) (l' k).conn.send.written
        ((l' k).transmitted.take (l' k.other).consumed)) := by
  have hle := h.consumed k.other
  have hfollows := h.follows k.other
  rw [Side.other_other] at hle hfollows
  rw [hself]
  refine ⟨hle.trans htransmitted.length_le, fun hshort => ?_⟩
  obtain ⟨new, hnew⟩ := hwritten
  obtain ⟨more, hmore⟩ := htransmitted
  rw [← hnew, ← hmore, List.take_append_of_le_length hle]
  refine (hfollows fun msg hmsg => hshort msg ?_).append
  rw [handed, ← hnew, messages_append]
  exact List.mem_append_left _ hmsg

/-- **The side that acts**: what it reads are the next bytes of what its peer has put on the socket. -/
theorem Inv.follows_self (h : l.Inv kind) {e : Conn.Event} (hl : l.Legal (.conn k e))
    (hkind : ((l k).conn.step e).kind = (l k).conn.kind) :
    ((l k).arrive e).consumed ≤ (l k.other).transmitted.length ∧ (l.Short k.other →
      ((l k).arrive e).conn.Follows (kind k.other) (l k.other).conn.send.written
        ((l k.other).transmitted.take ((l k).arrive e).consumed)) := by
  obtain ⟨hlegal, -, hread⟩ := hl
  have hle := h.consumed k
  cases e with
  | readDone i ec data up =>
    obtain ⟨rest, hrest⟩ := hread i ec data up rfl
    have hstream : (l k.other).transmitted =
        (l k.other).transmitted.take (l k).consumed ++ data ++ rest := by
      rw [List.append_assoc, hrest, unread, List.take_append_drop]
    have hlen : ((l k.other).transmitted.take (l k).consumed ++ data).length =
        (l k).consumed + data.length := by
      rw [List.length_append, List.length_take_of_le hle]
    have htake : (l k.other).transmitted.take ((l k).consumed + data.length) =
        (l k.other).transmitted.take (l k).consumed ++ data := by
      conv_lhs => rw [hstream]
      exact List.take_left' hlen
    simp only [Endpoint.arrive, htake]
    refine ⟨?_, fun hshort => ?_⟩
    · have htotal := congrArg List.length hstream
      rw [List.length_append, hlen] at htotal
      omega
    · refine (h.follows k hshort).readDone (h.frames k.other) hshort hlegal ?_
      have hsound := (h.flows k.other).sound
      rw [Sender.wire_eq] at hsound
      refine List.IsPrefix.trans ?_ hsound
      rw [← htake]
      exact List.take_prefix _ _
  | writeDone | waitDone | upper =>
    exact ⟨hle, fun hshort => (h.follows k hshort).step_other (by simp) hkind⟩

/-- **One event of either side.** -/
theorem step_inv (l : Link) (e : LinkEvent) (h : l.Inv kind) (hl : l.Legal e) : (l.step e).Inv kind := by
  cases e with
  | transmit k i n =>
    have hself := l.step_self_transmit (k := k) i n
    have hother := l.step_other_transmit (k := k) i n
    obtain ⟨ho, rest, hrest, -⟩ := hl
    have hfollows := h.follows_other hother
      (by rw [hself]; exact List.prefix_rfl) (by rw [hself]; exact List.prefix_append _ _)
    refine ⟨fun j => ?_, fun j => ?_, fun j => ?_, fun j => ?_⟩ <;>
      rcases k.eq_or_eq_other j with rfl | rfl
    · rw [hself]
      exact h.kinds j
    · rw [hother]
      exact h.kinds _
    · rw [hself]
      exact Endpoint.transmit_flows (h.flows j) ho hrest
    · rw [hother]
      exact h.flows _
    · rw [hself, hother]
      exact h.consumed j
    · rw [Side.other_other]
      exact hfollows.1
    · rw [Short, handed, hself, hother]
      exact h.follows j
    · rw [Side.other_other]
      exact hfollows.2
  | conn k e =>
    have hself := l.step_self_conn (k := k) e
    have hother := l.step_other_conn (k := k) e
    have hover := Endpoint.arrive_handsOver (h.flows k) hl.1 hl.2.1
    have hown := h.follows_self hl hover.kind
    have hfollows := h.follows_other hother
      (by rw [hself]; exact hover.written) (by rw [hself]; exact List.prefix_rfl)
    refine ⟨fun j => ?_, fun j => ?_, fun j => ?_, fun j => ?_⟩ <;>
      rcases k.eq_or_eq_other j with rfl | rfl
    · rw [hself, hover.kind]
      exact h.kinds j
    · rw [hother]
      exact h.kinds _
    · rw [hself]
      exact hover.flows
    · rw [hother]
      exact h.flows _
    · rw [hself, hother]
      exact hown.1
    · rw [Side.other_other]
      exact hfollows.1
    · rw [Short, handed, hself, hother]
      exact hown.2
    · rw [Side.other_other]
      exact hfollows.2

theorem start_inv (kind : Side → ConnKind) (socketStr : Side → String) (padding : Side → Nat → Padding)
    (slack : Side → Nat) : (start kind socketStr padding slack).Inv kind := by
  refine ⟨fun k => rfl, fun k => Endpoint.start_flows .., fun k => Nat.zero_le _, fun k _ => ?_⟩
  have hnone : (start kind socketStr padding slack k.other).conn.send.written = [] ++ [] := rfl
  exact .header hnone rfl rfl rfl

theorem run_inv {socketStr : Side → String} {padding : Side → Nat → Padding} {slack : Side → Nat}
    {es : List LinkEvent} (hl : EachStep step Legal (start kind socketStr padding slack) es) :
    (run step (start kind socketStr padding slack) es).Inv kind :=
  run_history_legal (J := fun _ (l : Link) => l.Inv kind) (start_inv ..)
    (fun _ l e h hl => l.step_inv e h hl) hl

end Steps

end Link

/-! ## The order of the queue -/

/-- The queue is in order, or a write has failed and nothing is written any more. -/
def Ordered (o : Bool) (q : Sender) : Prop :=
  q.InOrder ∨ o = false ∧ q.Stalled ∧ q.written <+: q.enqueued

namespace Ordered
variable {kind : ConnKind} {o o' : Bool} {q q' : Sender}

theorem prefix_enqueued (h : Ordered o q) : q.written <+: q.enqueued := by
  rcases h with h | ⟨-, -, hpre⟩
  · exact h.writtenInOrder.1
  · exact hpre

/-- On an open socket with no write in flight all has been written. -/
theorem written_all (h : Ordered o q) (ho : o = true) (hw : q.writes = []) : q.written = q.enqueued := by
  rcases h with hq | ⟨hclosed, -⟩
  · have hflight := hq.inFlight
    rw [hw, List.map_nil] at hflight
    have hnil : q.writeQueue = [] := by
      cases hq' : q.writeQueue with
      | nil => rfl
      | cons b rest => rw [hq'] at hflight; simp at hflight
    exact hq.writtenInOrder.2 hnil
  · rw [ho] at hclosed
    cases hclosed

theorem push (h : Ordered o q) {bufs : List (List UInt8)} (hframe : IsFrame kind bufs) :
    Ordered o (q.push bufs) := by
  rcases h with h | ⟨ho, hstalled, hpre⟩
  · refine .inl (Sender.push_inOrder h ?_)
    rw [← BufferSequence.length_bytes]
    have hlen : headerSize ≤ (BufferSequence.mk q.enqueued.length bufs).bytes.length := IsFrame.length hframe
    exact Nat.lt_of_lt_of_le (by decide) hlen
  · obtain ⟨hstalled', hwritten⟩ := Sender.push_stalled hstalled bufs
    refine .inr ⟨ho, hstalled', ?_⟩
    rw [hwritten, Sender.push_enqueued]
    exact hpre.trans (List.prefix_append _ _)

theorem cancel (h : Ordered o q) : Ordered false q.cancel := by
  rcases h with h | ⟨-, hstalled, hpre⟩
  · refine .inl ⟨h.idents, h.split, ?_, h.sized⟩
    have hflight := h.inFlight
    simpa [Sender.cancel, Function.comp_def] using hflight
  · exact .inr ⟨rfl, Sender.cancel_stalled hstalled, hpre⟩

theorem posts (h : Ordered o q) (hp : Posts kind o q o' q') : Ordered o' q' := by
  induction hp with
  | refl => exact h
  | push _ hframe ih => exact (ih h).push hframe
  | close _ ih => exact (ih h).cancel

end Ordered

namespace Endpoint
variable {p : Endpoint}

/-- **One event** keeps the order, unless a third message waits when a write completes. -/
theorem arrive_ordered (hf : p.Flows) (h : Ordered p.conn.isOpen p.conn.send) {e : Conn.Event}
    (hl : p.conn.Legal e)
    (htwo : ∀ i ec n up, e = .writeDone i ec n up → p.conn.send.writeQueue.length ≤ 2) :
    Ordered (p.arrive e).conn.isOpen (p.arrive e).conn.send := by
  cases e with
  | readDone i ec data up => exact h.posts (p.conn.readDone_postsTo i ec data up).posts
  | waitDone i ec up => exact h.posts (p.conn.waitDone_postsTo i ec up).posts
  | upper call => exact h.posts (p.conn.upperCall_postsTo call).posts
  | writeDone i ec n up =>
    obtain ⟨op, hop, -, hfull, habort⟩ := hl
    have hi : i < p.conn.send.writes.length := (List.getElem?_eq_some_iff.mp hop).1
    have hq : p.conn.send.InOrder := by
      rcases h with h | ⟨-, hstalled, -⟩
      · exact h
      · rw [hstalled.writes] at hi
        exact absurd hi (Nat.not_lt_zero i)
    have hstalled : Ordered false (p.conn.send.complete i) :=
      .inr ⟨rfl, Sender.complete_stalled hf.exclusive hi, hq.writtenInOrder.1⟩
    obtain ⟨-, hcase⟩ := Conn.writeDone_postsTo hop ec n up
    rcases hcase with ⟨hskip, hopen, ⟨-, hsend⟩ | ⟨hzero, hsend⟩⟩ | ⟨hclosed, hposts⟩
    · have hpop := Sender.pop_inOrder hq hi (htwo i ec n up rfl)
      refine .inl ?_
      simp only [arrive, Conn.step, hsend]
      exact hpop
    · -- on an open socket a write that did not fail has put something there
      have hclosed : p.conn.isOpen = false := by
        cases ho : p.conn.isOpen with
        | false => rfl
        | true =>
          rcases hskip with h0 | ha
          · have hpos := Flow.totalSize_pos hf hop
            have hn := hfull h0
            omega
          · have hrunning := hf.running ho op (List.mem_of_getElem? hop)
            rw [habort ha] at hrunning
            cases hrunning
      simp only [arrive, Conn.step, hsend, hopen, hclosed]
      exact hstalled
    · simp only [arrive, Conn.step, hclosed]
      exact hstalled.posts hposts.of_closed

end Endpoint

/-! ## Runs -/

namespace Link
variable {kind : Side → ConnKind} {l : Link} {k : Side}

/-- What the upper layer of a side has sent. -/
def sent (l : Link) (k : Side) : List (List UInt8) := messages (l k).conn.send.enqueued

/-- No third message waits when a write of side `k` completes. -/
def AtMostTwoQueued (k : Side) (l : Link) : LinkEvent → Prop
  | .conn j (.writeDone ..) => j = k → (l k).conn.send.writeQueue.length ≤ 2
  | _ => True

/-- From the other side to `k` nothing is under way: nothing is being written, and what waits to be read is
not enough for the read in flight. -/
structure AtRest (l : Link) (k : Side) : Prop where
  isOpen : ∀ j, (l j).conn.isOpen = true
  writes : (l k.other).conn.send.writes = []
  reads : ∀ op ∈ (l k).conn.recv.reads, (l.unread k).length < op.size

/-- At rest everything that was handed over has been read. -/
theorem Inv.atRest (h : l.Inv kind) (hcompat : kind k.other = .clientWithHeartbeat → kind k = .serverWithHeartbeat)
    (hshort : l.Short k.other) (hrest : l.AtRest k) : (l k).conn.recv.delivered = l.handed k.other := by
  have hout : (l k.other).outgoing = [] := by
    apply List.eq_nil_of_length_eq_zero
    rw [(h.flows k.other).aligned, hrest.writes]
    rfl
  have hall : (l k.other).transmitted = bytesOf (l k.other).conn.send.written := by
    have hstream := (h.flows k.other).stream (hrest.isOpen k.other)
    rwa [hout, List.flatten_nil, List.append_nil] at hstream
  have hunread : ∀ done rest, bytesOf (l k.other).conn.send.written = done ++ rest →
      (l k.other).transmitted.take (l k).consumed = done → l.unread k = rest := by
    intro done rest hsplit htaken
    have hwhole := List.take_append_drop (l k).consumed (l k.other).transmitted
    rw [htaken, hall, hsplit] at hwhole
    rw [unread, hall, hsplit]
    exact List.append_cancel_left hwhole
  cases h.follows k hshort with
  | closed hclosed =>
    rw [hrest.isOpen k] at hclosed
    cases hclosed
  | stuck hsender hkind =>
    rw [h.kinds k] at hkind
    exact absurd (hcompat hsender) hkind
  | @header done rest hsent hreads htaken hdel =>
    have hless := hrest.reads _ (by rw [hreads]; exact List.mem_singleton_self _)
    rw [hunread (bytesOf done) (bytesOf rest) (by rw [hsent, bytesOf_append]) htaken] at hless
    rw [hdel, handed, hsent]
    cases rest with
    | nil => rw [List.append_nil]
    | cons b rest =>
      -- the header of the next frame would be there
      have hlong := (h.frames k.other b (by rw [hsent]; simp)).length
      rw [bytesOf_cons, List.length_append] at hless
      have hless : b.bytes.length + (bytesOf rest).length < headerSize := hless
      omega
  | @payload done rest b padding msg size hsent hb hreads hsize hbuf htaken hdel =>
    -- the message would be there
    have hless := hrest.reads _ (by rw [hreads]; exact List.mem_singleton_self _)
    have hbytes : b.bytes = headerToString padding (normalHeader msg) ++ msg := by
      simp [BufferSequence.bytes, hb]
    rw [hunread _ (msg ++ bytesOf rest) (by
      rw [hsent, bytesOf_append, bytesOf_cons, hbytes, List.append_assoc, List.append_assoc]) htaken,
      List.length_append] at hless
    have hless : msg.length + (bytesOf rest).length < size := hless
    omega

theorem step_ordered (l : Link) (e : LinkEvent) (h : l.Inv kind) (hl : l.Legal e)
    (htwo : AtMostTwoQueued k l e) (hord : Ordered (l k).conn.isOpen (l k).conn.send) :
    Ordered (l.step e k).conn.isOpen (l.step e k).conn.send := by
  cases e with
  | transmit j i n =>
    rcases j.eq_or_eq_other k with rfl | rfl
    · rw [step_self_transmit]
      exact hord
    · rw [step_other_transmit]
      exact hord
  | conn j e =>
    rcases j.eq_or_eq_other k with rfl | rfl
    · rw [step_self_conn]
      refine Endpoint.arrive_ordered (h.flows k) hord hl.1 ?_
      rintro i ec n up rfl
      exact htwo rfl
    · rw [step_other_conn]
      exact hord

section Runs
variable {socketStr : Side → String} {padding : Side → Nat → Padding} {slack : Side → Nat}
  {es : List LinkEvent}

theorem run_ordered (hl : EachStep step Legal (start kind socketStr padding slack) es)
    (htwo : EachStep step (AtMostTwoQueued k) (start kind socketStr padding slack) es) :
    let l := run step (start kind socketStr padding slack) es
    l.Inv kind ∧ Ordered (l k).conn.isOpen (l k).conn.send := by
  have hstart : Ordered (start kind socketStr padding slack k).conn.isOpen
      (start kind socketStr padding slack k).conn.send := by
    have hsend : (start kind socketStr padding slack k).conn.send = ⟨[], [], [], []⟩ :=
      (Conn.doReceiveMessage_frame _).send
    rw [hsend]
    exact .inl ⟨by simp, ⟨[], rfl, rfl⟩, rfl, by simp⟩
  refine run_history_legal
    (J := fun _ (l : Link) => l.Inv kind ∧ Ordered (l k).conn.isOpen (l k).conn.send)
    (L := fun l e => l.Legal e ∧ AtMostTwoQueued k l e) ⟨start_inv .., hstart⟩ ?_ ?_
  · rintro _ l e ⟨h, hord⟩ ⟨hl, htwo⟩
    exact ⟨l.step_inv e h hl, l.step_ordered e h hl htwo hord⟩
  · exact eachStep_and.mpr ⟨hl, htwo⟩

end Runs
end Link

/-! ## One message -/

/-- The header of a frame that fits the buffer has been read. -/
theorem Conn.Ready.readDone_head {s : Conn} (h : s.Ready) (padding : Padding) {msg : List UInt8}
    (hle : msg.length ≤ bufferSize) :
    let s' := s.readDone 0 success (headerToString padding (normalHeader msg)) []
    s'.isOpen = true ∧ s'.recv.receiveBuffer.data.length = bufferSize ∧
      s'.recv.reads = [⟨.payload msg.length, msg.length, false⟩] ∧ s'.recv.delivered = s.recv.delivered := by
  intro s'
  have hmod : msg.length % 2 ^ 32 = msg.length := Nat.mod_eq_of_lt (hle.trans_lt (by decide))
  have hs' : s' = (s.headerRead (headerToString padding (normalHeader msg))).asyncRead
      (.payload msg.length) msg.length := by
    have hheader := readDone_normalHeader h padding msg []
    have hsize : (s.headerRead (headerToString padding (normalHeader msg))).recv.receiveBuffer.data.length =
        bufferSize := h.size
    rw [hmod] at hheader
    exact hheader.trans (doReceivePayload_fits hsize hle)
  rw [hs']
  refine ⟨h.isOpen, h.size, ?_, rfl⟩
  simp only [asyncRead, headerRead, (readCompleted_frame _ _ _ _).reads, h.reads]
  rfl

/-- Two reads take it. -/
theorem Conn.Ready.readDone_frame {s : Conn} (h : s.Ready) (padding : Padding) {msg : List UInt8}
    (hle : msg.length ≤ bufferSize) (msgs : List (List UInt8)) :
    let s' := s.readDone 0 success (headerToString padding (normalHeader msg)) []
    (s'.readDone 0 success msg (msgs.map .send)).Ready ∧
      (s'.readDone 0 success msg (msgs.map .send)).recv.delivered = s.recv.delivered ++ [msg] := by
  intro s'
  obtain ⟨hopen, hsize, hreads, hdel⟩ := h.readDone_head padding hle
  obtain ⟨hready, hdelivered⟩ := readDone_body hopen hsize hreads hle msgs
  exact ⟨hready, hdelivered.trans (by rw [hdel])⟩

namespace Link

theorem zeros_length : ([0, 0, 0] : List UInt8).length = 3 := rfl

def zeros : Padding := ⟨[0, 0, 0], zeros_length⟩

def clientAndServer : Link :=
  start (fun | .near => .client | .far => .server) (fun _ => "10.0.0.1:80") (fun _ _ => zeros)
    (fun _ => 0)

/-- The header is read before the body is written. -/
def oneMessage : List LinkEvent :=
  [.conn .near (.upper (.send [7])), .transmit .near 0 8,
    .conn .far (.readDone 0 success (headerToString zeros (normalHeader [7])) []),
    .transmit .near 0 1, .conn .far (.readDone 0 success [7] []), .conn .near (.writeDone 0 success 9 [])]

theorem oneMessage_legal : EachStep step Legal clientAndServer oneMessage := by
  have hread := ((Conn.start_ready .server "10.0.0.1:80" (fun _ => zeros) 0).readDone_head
    zeros (show ([7] : List UInt8).length ≤ bufferSize by decide)).2.2.1
  refine ⟨⟨trivial, trivial, by simp⟩, ⟨rfl, _, rfl, by decide⟩,
    ⟨⟨_, rfl, by decide, by decide, by decide⟩, trivial, ?_⟩, ⟨rfl, _, rfl, by decide⟩,
    ⟨⟨⟨.payload 1, 1, false⟩, ?_, by decide, by decide, by decide⟩, trivial, ?_⟩,
    ⟨⟨_, rfl, by decide, by decide, by decide⟩, ⟨_, _, rfl, rfl, rfl⟩, by simp⟩, trivial⟩
  · rintro i ec data up heq
    cases heq
    exact ⟨[], rfl⟩
  · exact congrArg (fun reads : List ReadOp => reads[0]?) hread
  · rintro i ec data up heq
    cases heq
    exact ⟨[], rfl⟩

theorem oneMessage_far :
    (run step clientAndServer oneMessage .far).conn.Ready ∧
      (run step clientAndServer oneMessage .far).conn.recv.delivered = [[7]] :=
  (Conn.start_ready .server "10.0.0.1:80" (fun _ => zeros) 0).readDone_frame
    zeros (show ([7] : List UInt8).length ≤ bufferSize by decide) []

section Runs
variable {kind : Side → ConnKind} {socketStr : Side → String} {padding : Side → Nat → Padding}
  {slack : Side → Nat} {es : List LinkEvent}

/-- **Nothing is mixed on the socket.** Over any legal run of both sides, with reads, writes, timers and
calls of the upper layers in any order and failing at any time, the bytes a side has put on its socket are a
prefix of the frames it has handed to `async_write`, one whole frame after the other; and while the socket
is open at most one write is in flight, and what it has still to write is all that is missing. -/
theorem transmitted_unmixed (hl : EachStep step Legal (start kind socketStr padding slack) es) (k : Side) :
    let p := run step (start kind socketStr padding slack) es k
    p.transmitted <+: bytesOf p.conn.send.written ∧
      (p.conn.isOpen = true → p.conn.send.writes.length ≤ 1 ∧
        p.transmitted ++ p.outgoing.flatten = bytesOf p.conn.send.written) := by
  have hflow := (run_inv hl).flows k
  exact ⟨hflow.sound, fun ho => ⟨hflow.exclusive.one, hflow.stream ho⟩⟩

/-- The frame is on the socket, whole. -/
theorem transmitted_unmixed_oneMessage :
    (run step clientAndServer oneMessage .near).transmitted <+:
      bytesOf (run step clientAndServer oneMessage .near).conn.send.written :=
  (transmitted_unmixed oneMessage_legal .near).1

/-- **No message is lost, changed, doubled or overtaken on the way.** Between two connections of any
classes, over any legal run of both sides, what the upper layer of one side has been given is a prefix of
the messages the other side has handed to `async_write`, as long as those are shorter than 2³² bytes. -/
theorem delivered_inOrder (hl : EachStep step Legal (start kind socketStr padding slack) es) (k : Side) :
    let l := run step (start kind socketStr padding slack) es
    (∀ msg ∈ l.handed k.other, msg.length < 2 ^ 32) →
      (l k).conn.recv.delivered <+: l.handed k.other := by
  intro l hshort
  exact ((run_inv hl).follows k hshort).delivered

/-- The server has been given the message. -/
theorem delivered_inOrder_oneMessage :
    (run step clientAndServer oneMessage .far).conn.recv.delivered <+:
      (run step clientAndServer oneMessage).handed .near :=
  delivered_inOrder oneMessage_legal .far (by decide)

/-- **At rest all has arrived.** When the messages sent are shorter than 2³² bytes, the peer of a client with
heartbeats watches for them, and no third message waits whenever a write of the sending side completes: over any
legal run the messages delivered are a prefix of the messages sent, and once both sockets are open and nothing is
under way, they are all of them. -/
theorem delivered_atRest (hl : EachStep step Legal (start kind socketStr padding slack) es) {k : Side}
    (hcompat : kind k.other = .clientWithHeartbeat → kind k = .serverWithHeartbeat)
    (htwo : EachStep step (AtMostTwoQueued k.other) (start kind socketStr padding slack) es) :
    let l := run step (start kind socketStr padding slack) es
    (∀ msg ∈ l.sent k.other, msg.length < 2 ^ 32) →
      (l k).conn.recv.delivered <+: l.sent k.other ∧
        (l.AtRest k → (l k).conn.recv.delivered = l.sent k.other) := by
  intro l hsent
  obtain ⟨hinv, hord⟩ := run_ordered hl htwo
  have hpre : l.handed k.other <+: l.sent k.other := by
    obtain ⟨rest, hrest⟩ := hord.prefix_enqueued
    rw [handed, sent, ← hrest, messages_append]
    exact List.prefix_append _ _
  have hshort : l.Short k.other := fun msg hmsg => hsent msg (hpre.subset hmsg)
  refine ⟨(hinv.follows k hshort).delivered.trans hpre, fun hrest => ?_⟩
  rw [hinv.atRest hcompat hshort hrest, handed, sent, hord.written_all (hrest.isOpen _) hrest.writes]

/-- Nothing is under way then. -/
theorem delivered_atRest_oneMessage :
    (run step clientAndServer oneMessage .far).conn.recv.delivered =
      (run step clientAndServer oneMessage).sent .near := by
  refine (delivered_atRest oneMessage_legal (k := .far) (fun h => by cases h) ?_ (by decide)).2 ?_
  · exact ⟨trivial, trivial, trivial, trivial, trivial, fun _ => by decide, trivial⟩
  · refine ⟨fun j => ?_, rfl, ?_⟩
    · cases j with
      | near => rfl
      | far => exact oneMessage_far.1.isOpen
    · intro op hop
      have hop : op ∈ (run step clientAndServer oneMessage .far).conn.recv.reads := hop
      rw [oneMessage_far.1.reads] at hop
      rw [List.mem_singleton.mp hop]
      decide

end Runs
end Link

end Thallium.Network
