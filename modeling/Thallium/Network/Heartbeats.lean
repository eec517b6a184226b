import Thallium.Network.HeartbeatClock
import Thallium.Network.Link

/-!
# A client and a server with heartbeats (network/heartbeat.cpp, network/connection.cpp:47-203, :227-328)

The two ends of a link, each with its timer, on one clock. The client pushes a heartbeat behind what else
waits to be written, the bytes reach the server in pieces, and the server finds the heartbeat between the
messages.

| here | there |
| --- | --- |
| `ends`                | `ClientConnectionWithHeartbeat` (near) and `ServerConnectionWithHeartbeat` (far) |
| `Watched`, `Watched.step` | two processes, their sockets and timers |
| `beatsWithin`         | not in the source: how many heartbeats are complete in the first bytes of a stream |
| `Transit latency`     | not in the source: what is pushed has been read after `latency` ms |

* `Follows.beats` — a read finds the heartbeats that are complete with it.
* `Fresh.silence` — how long the server can have heard nothing.
* `neverSuspected` — a client that is there is not taken for lost.
-/
namespace Thallium.Network
open Message Serializer EventRun

/-! ## Heartbeats in a stream -/

/-- The heartbeats among what was queued: the frames without a message. -/
def beatsOf (bs : List BufferSequence) : Nat := bs.countP fun b => b.message?.isNone

/-- How many of them are complete in the first `n` bytes. -/
def beatsWithin : List BufferSequence → Nat → Nat
  | [], _ => 0
  | b :: bs, n =>
    if b.bytes.length ≤ n then (if b.message?.isNone then 1 else 0) + beatsWithin bs (n - b.bytes.length) else 0

theorem beatsOf_append (bs bs' : List BufferSequence) : beatsOf (bs ++ bs') = beatsOf bs + beatsOf bs' :=
  List.countP_append

theorem beatsOf_prefix {bs bs' : List BufferSequence} (h : bs <+: bs') : beatsOf bs ≤ beatsOf bs' :=
  h.sublist.countP_le

theorem beatsWithin_le (bs : List BufferSequence) (n : Nat) : beatsWithin bs n ≤ beatsOf bs := by
  induction bs generalizing n with
  | nil => simp [beatsWithin]
  | cons b bs ih =>
    have hle := ih (n - b.bytes.length)
    simp only [beatsWithin, beatsOf, List.countP_cons] at hle ⊢
    split <;> split <;> omega

/-- Past whole frames, and some bytes more. -/
theorem beatsWithin_past (done rest : List BufferSequence) (n : Nat) :
    beatsWithin (done ++ rest) ((bytesOf done).length + n) = beatsOf done + beatsWithin rest n := by
  induction done with
  | nil => simp [bytesOf, beatsOf]
  | cons b done ih =>
    have hle : b.bytes.length ≤ (bytesOf (b :: done)).length + n := by
      rw [bytesOf_cons, List.length_append]
      omega
    have hsub : (bytesOf (b :: done)).length + n - b.bytes.length = (bytesOf done).length + n := by
      rw [bytesOf_cons, List.length_append]
      omega
    rw [List.cons_append, beatsWithin, if_pos hle, hsub, ih, beatsOf, beatsOf, List.countP_cons]
    omega

section Frames
variable {kind : ConnKind} {bs bs' : List BufferSequence} {b : BufferSequence} {n : Nat}

/-- No frame is complete without a byte. -/
theorem beatsWithin_zero (h : ∀ b ∈ bs, IsFrame kind b.bufs) : beatsWithin bs 0 = 0 := by
  cases bs with
  | nil => rfl
  | cons b bs =>
    have hlen : headerSize ≤ b.bytes.length := IsFrame.length (h b List.mem_cons_self)
    have hpos : 0 < headerSize := by decide
    rw [beatsWithin, if_neg (by omega)]

/-- What comes behind does not matter. -/
theorem beatsWithin_append (h : ∀ b ∈ bs', IsFrame kind b.bufs) (hn : n ≤ (bytesOf bs).length) :
    beatsWithin (bs ++ bs') n = beatsWithin bs n := by
  induction bs generalizing n with
  | nil =>
    obtain rfl : n = 0 := by simpa [bytesOf] using hn
    exact beatsWithin_zero h
  | cons b bs ih =>
    rw [bytesOf_cons, List.length_append] at hn
    rw [List.cons_append, beatsWithin, beatsWithin]
    split
    · rw [ih (by omega)]
    · rfl

/-- In the middle of a message there is no heartbeat. -/
theorem beatsWithin_message (h : ∀ b ∈ bs, IsFrame kind b.bufs) (hb : b.message?.isNone = false)
    (hn : n ≤ b.bytes.length) : beatsWithin (b :: bs) n = 0 := by
  rw [beatsWithin, hb]
  split
  · rw [show n - b.bytes.length = 0 by omega, beatsWithin_zero h]
    rfl
  · rfl

end Frames

/-! ## Reading them -/

/-- **A read of a server that watches for heartbeats** processes a heartbeat just when one is complete
with the bytes read. -/
theorem Conn.Follows.beats {s : Conn} {sender : ConnKind} {sent : List BufferSequence} {taken data : List UInt8}
    {i : Nat} {ec : ErrorCode} {up : List Conn.UpperCall} (h : s.Follows sender sent taken)
    (hkind : s.kind = .serverWithHeartbeat) (hopen : s.isOpen = true)
    (hframes : ∀ b ∈ sent, IsFrame sender b.bufs) (hl : s.Legal (.readDone i ec data up))
    (hnext : taken ++ data <+: bytesOf sent) (hopen' : (s.readDone i ec data up).isOpen = true) :
    beatsWithin sent (taken.length + data.length) =
      beatsWithin sent taken.length + (s.heartbeatProcessed (.readDone i ec data up)).toNat := by
  obtain ⟨op, hop, hsize, hfull, habort⟩ := hl
  cases h with
  | closed hclosed =>
    rw [hopen] at hclosed
    cases hclosed
  | stuck _ hother => exact absurd hkind hother
  | @header done rest hsent hreads htaken hdel =>
    obtain ⟨rfl, rfl⟩ := Conn.only_read hreads hop
    by_cases h0 : ec.value = 0
    · have hlen := hfull h0
      rw [htaken, hsent, bytesOf_append, List.prefix_append_right_inj] at hnext
      have hdone := beatsWithin_past done rest 0
      rw [Nat.add_zero] at hdone
      rw [htaken, hsent, beatsWithin_past, hdone]
      have hrest : ∀ b ∈ rest, IsFrame sender b.bufs := fun b hb =>
        hframes b (by rw [hsent]; exact List.mem_append_right _ hb)
      rw [beatsWithin_zero hrest]
      cases rest with
      | nil =>
        rw [List.prefix_nil.mp hnext] at hlen
        cases hlen
      | cons b rest =>
        have hread : stringToHeader (s.readCompleted 0 ⟨.header, headerSize, false⟩ data).recv.headerBuffer =
            stringToHeader data := Conn.stringToHeader_readCompleted rfl hlen
        have hframe := hrest b List.mem_cons_self
        have hrest' : ∀ b ∈ rest, IsFrame sender b.bufs := fun b hb => hrest b (List.mem_cons_of_mem _ hb)
        have hwhole : data <+: b.bytes := by
          rw [bytesOf_cons] at hnext
          refine List.prefix_of_prefix_length_le hnext (List.prefix_append _ _) ?_
          rw [hlen]
          exact hframe.length
        obtain ⟨ident, bufs⟩ := b
        cases hframe with
        | heartbeat hk padding =>
          have hbytes : (⟨ident, [headerToString padding ⟨HeaderMessageType.heartbeat.value, 0⟩]⟩ :
              BufferSequence).bytes = headerToString padding ⟨HeaderMessageType.heartbeat.value, 0⟩ := by
            simp [BufferSequence.bytes]
          have heq := hwhole.eq_of_length (by rw [hlen, hbytes, length_headerToString])
          have hprocessed : s.heartbeatProcessed (.readDone 0 ec data up) = true := by
            simp only [Conn.heartbeatProcessed, hop, hread, hopen, hkind, h0]
            rw [heq, hbytes, stringToHeader_headerToString]
            rfl
          rw [hprocessed, beatsWithin, heq, if_pos (Nat.le_refl _), Nat.sub_self, beatsWithin_zero hrest']
          rfl
        | message padding msg =>
          have hbytes : (⟨ident, [headerToString padding (normalHeader msg), msg]⟩ : BufferSequence).bytes =
              headerToString padding (normalHeader msg) ++ msg := by
            simp [BufferSequence.bytes]
          have hlong : headerSize ≤ (⟨ident, [headerToString padding (normalHeader msg), msg]⟩ :
              BufferSequence).bytes.length := by simp [hbytes]
          rw [hbytes] at hwhole
          have heq := eq_of_prefix_append hwhole (by rw [hlen, length_headerToString])
          have hprocessed : s.heartbeatProcessed (.readDone 0 ec data up) = false := by
            simp only [Conn.heartbeatProcessed, hop, hread]
            rw [heq, stringToHeader_headerToString]
            simp [normalHeader, HeaderMessageType.ofByte?, HeaderMessageType.value]
          rw [hprocessed, hlen]
          rw [beatsWithin_message hrest' rfl hlong]
          rfl
    · -- a read that fails closes the connection
      have ha : ¬ ec.value = operationAborted := fun ha => by cases habort ha
      rw [Conn.readDone_header hop rfl] at hopen'
      simp only [if_neg h0, if_neg ha] at hopen'
      split at hopen'
      · rw [(Conn.notify_effect _ _ up).1] at hopen'
        cases hopen'
      · rw [Conn.connectionClose_isOpen] at hopen'
        cases hopen'
  | @payload done rest b padding msg size hsent hb hreads hsmall hbuf htaken hdel =>
    obtain ⟨rfl, rfl⟩ := Conn.only_read hreads hop
    have hprocessed : s.heartbeatProcessed (.readDone 0 ec data up) = false := by
      simp [Conn.heartbeatProcessed, hop]
    have hrest : ∀ b ∈ rest, IsFrame sender b.bufs := fun b hb =>
      hframes b (by rw [hsent]; exact List.mem_append_right _ (List.mem_cons_of_mem _ hb))
    have hmessage : b.message?.isNone = false := by simp [BufferSequence.message?, hb]
    have hbytes : b.bytes.length = headerSize + msg.length := by simp [BufferSequence.bytes, hb]
    have hsize : data.length ≤ size := hsize
    rw [hprocessed, htaken, hsent, List.length_append, length_headerToString, Nat.add_assoc, beatsWithin_past,
      beatsWithin_past, beatsWithin_message hrest hmessage (by omega), beatsWithin_message hrest hmessage (by omega)]
    rfl

/-! ## Sent, on the way, heard -/

/-- `beats` is when the client was made and when it pushed its heartbeats, `seen` how many of them the
server has processed, `last` when it did so last. -/
structure Fresh (period latency : Nat) (beats : List Nat) (seen last now : Nat) : Prop where
  paced : ∀ (i a b : Nat), beats[i]? = some a → beats[i + 1]? = some b → b ≤ a + period
  known : seen < beats.length
  transit : ∀ t ∈ beats.drop (seen + 1), now ≤ t + latency
  heard : ∀ t ∈ (beats.drop 1).take seen, t ≤ last

namespace Fresh
variable {period latency seen last now : Nat} {beats : List Nat}

/-- **How long the server can have heard nothing**, while the client pushes its heartbeats at their times. -/
theorem silence (h : Fresh period latency beats seen last now) (hrecent : now ≤ beats.getLastD 0 + period) :
    ∃ a, beats[seen]? = some a ∧ now ≤ a + period + latency ∧ (0 < seen → a ≤ last) := by
  have hbound := h.known
  have hseen : beats[seen]? = some beats[seen] := List.getElem?_eq_getElem hbound
  refine ⟨beats[seen], hseen, ?_, fun hpos => ?_⟩
  · by_cases hnext : seen + 1 < beats.length
    · -- the next heartbeat is on its way
      have hb := List.getElem?_eq_getElem hnext
      have hpaced := h.paced _ _ _ hseen hb
      have hway := h.transit beats[seen + 1] (List.mem_drop_iff_getElem.mpr ⟨0, by omega, by simp⟩)
      omega
    · -- it has heard the last one
      have hlast : beats.getLastD 0 = beats[seen] := by
        have hne : beats ≠ [] := List.ne_nil_of_length_pos (Nat.zero_lt_of_lt h.known)
        rw [List.getLastD_eq_getLast?, List.getLast?_eq_some_getLast hne, Option.getD_some, List.getLast_eq_getElem]
        congr 1
        have hle := h.known
        omega
      omega
  · refine h.heard _ (List.mem_iff_getElem?.mpr ⟨seen - 1, ?_⟩)
    rw [List.getElem?_take_of_lt (by omega), List.getElem?_drop, ← hseen]
    congr 1
    omega

theorem tick (h : Fresh period latency beats seen last now)
    (htransit : ∀ t ∈ beats.drop (seen + 1), now < t + latency) :
    Fresh period latency beats seen last (now + 1) :=
  ⟨h.paced, h.known, htransit, h.heard⟩

/-- The client pushes a heartbeat. -/
theorem push (h : Fresh period latency beats seen last now) (hrecent : now ≤ beats.getLastD 0 + period) :
    Fresh period latency (beats ++ [now]) seen last now := by
  have hknown := h.known
  refine ⟨?_, by rw [List.length_append]; omega, ?_, ?_⟩
  · intro i a b ha hb
    rcases getElem?_concat_eq_some.mp hb with hb | ⟨hi, rfl⟩
    · rw [List.getElem?_append_left (by have := (List.getElem?_eq_some_iff.mp hb).1; omega)] at ha
      exact h.paced i a b ha hb
    · rw [List.getElem?_append_left (by omega)] at ha
      have hlast : beats.getLastD 0 = a := by
        rw [List.getLastD_eq_getLast?, List.getLast?_eq_getElem?, ← hi, Nat.add_sub_cancel, ha]
        rfl
      rw [← hlast]
      exact hrecent
  · intro t ht
    rw [List.drop_append_of_le_length (by omega)] at ht
    rcases List.mem_append.mp ht with ht | ht
    · exact h.transit t ht
    · rw [List.mem_singleton.mp ht]
      omega
  · intro t ht
    rw [List.drop_append_of_le_length (by omega),
      List.take_append_of_le_length (by rw [List.length_drop]; omega)] at ht
    exact h.heard t ht

/-- The server processes one. -/
theorem hear (h : Fresh period latency beats seen last now) (hknown : seen + 1 < beats.length)
    (hpast : ∀ t ∈ beats, t ≤ now) : Fresh period latency beats (seen + 1) now now := by
  refine ⟨h.paced, hknown, ?_, ?_⟩
  · intro t ht
    rw [← List.drop_drop] at ht
    exact h.transit t (List.mem_of_mem_drop ht)
  · intro t ht
    exact hpast t (List.mem_of_mem_drop (List.mem_of_mem_take ht))

end Fresh

theorem beatsOf_heartbeat {b : BufferSequence} (hb : b.IsHeartbeat) : beatsOf [b] = 1 := by
  obtain ⟨pad, hb⟩ := hb
  simp [beatsOf, BufferSequence.message?, hb]

/-- All other frames of a client hold a message. -/
theorem beatsOf_eq_zero {kind : ConnKind} {bs : List BufferSequence} (hframes : ∀ b ∈ bs, IsFrame kind b.bufs)
    (hno : ∀ b ∈ bs, ¬ b.IsHeartbeat) : beatsOf bs = 0 := by
  refine List.countP_eq_zero.mpr fun b hb => ?_
  have hframe := hframes b hb
  have hbeat := hno b hb
  obtain ⟨ident, bufs⟩ := b
  cases hframe with
  | heartbeat _ padding => exact absurd ⟨padding, rfl⟩ hbeat
  | message padding msg => simp [BufferSequence.message?]

/-- As many heartbeats were enqueued as pushed. -/
def Clocked.Counted (c : Clocked) : Prop := c.beats.length = beatsOf c.conn.send.enqueued + 1

theorem Clocked.step_counted {p : HeartBeatPolicy} {c : Clocked} {e : ClockedEvent}
    (hkind : c.conn.kind = .clientWithHeartbeat) (h : c.Counted)
    (hframes : ∀ b ∈ (c.step p e).conn.send.enqueued, IsFrame .clientWithHeartbeat b.bufs) :
    (c.step p e).Counted := by
  rw [Counted] at h ⊢
  rcases step_beats (p := p) hkind e with ⟨-, b, -, -, hb, henq, hbeats⟩ | ⟨new, hnew, hno, hbeats⟩
  · rw [henq, hbeats, beatsOf_append, beatsOf_heartbeat hb, List.length_append, List.length_singleton, h]
  · have hzero : beatsOf new = 0 :=
      beatsOf_eq_zero (fun b hb => hframes b (hnew ▸ List.mem_append_right _ hb)) hno
    rw [hnew, hbeats, beatsOf_append, hzero, h]

/-! ## The two ends -/

def ends : Side → ConnKind
  | .near => .clientWithHeartbeat
  | .far => .serverWithHeartbeat

theorem withHeartbeat_ends (k : Side) : (ends k).withHeartbeat = true := by cases k <;> rfl

/-- The timer of an end, with what `Timed` and `Clocked` keep beside it. -/
structure Pulse where
  timers : List Timer
  heartbeats : Nat
  expiry : Nat
  beats : List Nat

def Clocked.pulse (c : Clocked) : Pulse := ⟨c.timed.timers, c.timed.heartbeats, c.expiry, c.beats⟩

structure Watched where
  link : Link
  pulse : Side → Pulse
  now : Nat

inductive WatchedEvent where
  | tick
  | transmit (k : Side) (i n : Nat)
  | expire (k : Side) (i : Nat)
  | conn (k : Side) (e : Conn.Event)

namespace WatchedEvent

/-- What the event is for the link. -/
def link? : WatchedEvent → Option LinkEvent
  | .transmit k i n => some (.transmit k i n)
  | .conn k e => some (.conn k e)
  | .tick | .expire .. => none

/-- What it is for an end. -/
def clocked? (k : Side) : WatchedEvent → Option ClockedEvent
  | .tick => some .tick
  | .transmit .. => none
  | .expire j i => if j = k then some (.timed (.expire i)) else none
  | .conn j e => if j = k then some (.timed (.conn e)) else none

end WatchedEvent

namespace Watched

def clocked (s : Watched) (k : Side) : Clocked :=
  ⟨⟨(s.link k).conn, (s.pulse k).timers, (s.pulse k).heartbeats⟩, s.now, (s.pulse k).expiry, (s.pulse k).beats⟩

/-- Both ends, as soon as the later one is made. -/
def start (p : HeartBeatPolicy) (socketStr : Side → String) (padding : Side → Nat → Padding)
    (slack : Side → Nat) (made : Side → Nat) : Watched where
  link := .start ends socketStr padding slack
  pulse k := (Clocked.start p (ends k) (socketStr k) (padding k) (slack k) (made k)
    (max (made .near) (made .far))).pulse
  now := max (made .near) (made .far)

def step (p : HeartBeatPolicy) (s : Watched) : WatchedEvent → Watched
  | .tick => { s with now := s.now + 1 }
  | .transmit k i n => { s with link := s.link.step (.transmit k i n) }
  | .expire k i =>
    { s with pulse := Function.update s.pulse k ((s.clocked k).step p (.timed (.expire i))).pulse }
  | .conn k e =>
    { s with
      link := s.link.step (.conn k e)
      pulse := Function.update s.pulse k ((s.clocked k).step p (.timed (.conn e))).pulse }

def Legal (s : Watched) (e : WatchedEvent) : Prop :=
  (∀ e', e.link? = some e' → s.link.Legal e') ∧ ∀ k e', e.clocked? k = some e' → (s.clocked k).Legal e'

/-- The loop of the client runs the handlers of its timer at most `late` ms after their time. -/
def Prompt (late : Nat) (s : Watched) (e : WatchedEvent) : Prop :=
  ∀ e', e.clocked? .near = some e' → (s.clocked .near).Prompt late e'

/-- At most two messages are queued at the client when a write completes. -/
def AtMostTwoQueued (s : Watched) (e : WatchedEvent) : Prop :=
  ∀ e', e.link? = some e' → Link.AtMostTwoQueued .near s.link e'

/-- The heartbeats the server has read to their last byte. -/
def arrived (s : Watched) : Nat :=
  beatsWithin (s.link .near).conn.send.written (s.link .far).consumed

/-- While both sockets are open, time does not pass as long as a heartbeat pushed `latency` ms ago has not
been read. -/
def Transit (latency : Nat) (s : Watched) : WatchedEvent → Prop
  | .tick => (s.link .near).conn.isOpen = true → (s.link .far).conn.isOpen = true →
      ∀ t ∈ (s.pulse .near).beats.drop (s.arrived + 1), s.now < t + latency
  | _ => True

section Steps
variable {p : HeartBeatPolicy} {s : Watched} {e : WatchedEvent} {k : Side}

theorem step_link (p : HeartBeatPolicy) (s : Watched) (e : WatchedEvent) :
    (s.step p e).link = run Link.step s.link e.link?.toList := by
  cases e <;> rfl

/-- A piece that goes out changes neither connection, nor what has been read. -/
theorem transmit_end (l : Link) (j : Side) (i n : Nat) (k : Side) :
    (l.step (.transmit j i n) k).conn = (l k).conn ∧ (l.step (.transmit j i n) k).consumed = (l k).consumed := by
  rcases j.eq_or_eq_other k with rfl | rfl
  · rw [Link.step_self_transmit]
    exact ⟨rfl, rfl⟩
  · rw [Link.step_other_transmit]
    exact ⟨rfl, rfl⟩

/-- **An end** takes its own events and hears the clock. -/
theorem step_clocked (p : HeartBeatPolicy) (s : Watched) (e : WatchedEvent) (k : Side) :
    (s.step p e).clocked k = run (Clocked.step p) (s.clocked k) (e.clocked? k).toList := by
  cases e with
  | tick => rfl
  | transmit j i n =>
    have hconn := (transmit_end s.link j i n k).1
    simp only [step, clocked, hconn, WatchedEvent.clocked?]
    rfl
  | expire j i =>
    by_cases hj : j = k
    · subst hj
      let c := (s.clocked j).step p (.timed (.expire i))
      have hconn : (s.link j).conn = c.timed.conn := (Timed.expire_conn (s.clocked j).timed i).symm
      simp only [step, clocked, WatchedEvent.clocked?, if_true, Function.update_self]
      exact congrArg (fun conn : Conn => (⟨⟨conn, c.timed.timers, c.timed.heartbeats⟩, s.now, c.expiry, c.beats⟩ :
        Clocked)) hconn
    · simp only [step, clocked, WatchedEvent.clocked?, if_neg hj, Function.update_of_ne (Ne.symm hj)]
      rfl
  | conn j e =>
    by_cases hj : j = k
    · subst hj
      simp only [step, clocked, WatchedEvent.clocked?, if_true, Function.update_self, Link.step_self_conn]
      rfl
    · have hother : s.link.step (.conn j e) k = s.link k := Function.update_of_ne (Ne.symm hj) ..
      simp only [step, clocked, WatchedEvent.clocked?, if_neg hj, Function.update_of_ne (Ne.symm hj), hother]
      rfl

theorem step_link_inv (h : s.link.Inv ends) (hl : s.Legal e) : (s.step p e).link.Inv ends := by
  rw [step_link]
  cases he : e.link? with
  | none => exact h
  | some e' => exact s.link.step_inv e' h (hl.1 e' he)

theorem step_clocked_inv (h : (s.clocked k).Inv p (ends k)) (hl : s.Legal e) :
    ((s.step p e).clocked k).Inv p (ends k) := by
  rw [step_clocked]
  cases he : e.clocked? k with
  | none => exact h
  | some e' => exact Clocked.step_clocked (withHeartbeat_ends k) _ e' h (hl.2 k e' he)

theorem step_near_onTime {late : Nat} (h : (s.clocked .near).Inv p .clientWithHeartbeat)
    (hon : (s.clocked .near).OnTime late) (hp : s.Prompt late e) : ((s.step p e).clocked .near).OnTime late := by
  rw [step_clocked]
  cases he : e.clocked? .near with
  | none => exact hon
  | some e' => exact Clocked.step_onTime rfl h hon (hp e' he)

theorem step_near_ordered (h : s.link.Inv ends) (hl : s.Legal e) (htwo : s.AtMostTwoQueued e)
    (hord : Ordered (s.link .near).conn.isOpen (s.link .near).conn.send) :
    Ordered ((s.step p e).link .near).conn.isOpen ((s.step p e).link .near).conn.send := by
  rw [step_link]
  cases he : e.link? with
  | none => exact hord
  | some e' => exact s.link.step_ordered e' h (hl.1 e' he) (htwo e' he) hord

/-- A closed connection stays closed. -/
theorem step_isOpen (h : (s.clocked k).Inv p (ends k)) (ho : ((s.step p e).link k).conn.isOpen = true) :
    (s.link k).conn.isOpen = true := by
  have hopen : (run (Clocked.step p) (s.clocked k) (e.clocked? k).toList).conn.isOpen = true := by
    rw [← step_clocked p s e k]
    exact ho
  cases he : e.clocked? k with
  | none =>
    rw [he] at hopen
    exact hopen
  | some e' =>
    rw [he] at hopen
    exact Clocked.isOpen_of_step (h.timed.kind ▸ withHeartbeat_ends k) hopen

/-- **What holds whether the ends are open or not.** -/
structure Base (p : HeartBeatPolicy) (late : Nat) (made : Side → Nat) (s : Watched) : Prop where
  link : s.link.Inv ends
  clocked : ∀ k, (s.clocked k).Inv p (ends k)
  onTime : (s.clocked .near).OnTime late
  ordered : Ordered (s.link .near).conn.isOpen (s.link .near).conn.send
  made : ∀ k, (s.pulse k).beats.head? = some (made k)
  counted : (s.clocked .near).Counted

/-- What the events of an end add to its heartbeats. -/
theorem beats_step (p : HeartBeatPolicy) (c : Clocked) (e : ClockedEvent) :
    (c.step p e).beats = c.beats ∨ (c.step p e).beats = c.beats ++ [c.now] := by
  cases e with
  | tick => exact .inl rfl
  | timed e =>
    cases e with
    | expire i => exact .inl rfl
    | conn e =>
      by_cases hb : c.conn.Beats e
      · exact .inr (if_pos hb)
      · exact .inl (if_neg hb)

theorem step_base {late : Nat} {made : Side → Nat} (h : s.Base p late made) (hl : s.Legal e)
    (htwo : s.AtMostTwoQueued e) (hp : s.Prompt late e) : (s.step p e).Base p late made := by
  have hlink := step_link_inv (p := p) h.link hl
  refine ⟨hlink, fun k => step_clocked_inv (h.clocked k) hl, step_near_onTime (h.clocked .near) h.onTime hp,
    step_near_ordered h.link hl htwo h.ordered, fun k => ?_, ?_⟩
  · have hbeats : ((s.step p e).pulse k).beats =
        (run (Clocked.step p) (s.clocked k) (e.clocked? k).toList).beats :=
      congrArg Clocked.beats (step_clocked p s e k)
    have hmade := h.made k
    rw [hbeats]
    cases e.clocked? k with
    | none => exact hmade
    | some e' =>
      rcases beats_step p (s.clocked k) e' with hsame | hnew
      · exact (congrArg List.head? hsame).trans hmade
      · refine (congrArg List.head? hnew).trans ?_
        rw [List.head?_append_of_ne_nil _ (h.clocked k).made]
        exact hmade
  · have hframes : ∀ b ∈ ((s.step p e).clocked .near).conn.send.enqueued, IsFrame .clientWithHeartbeat b.bufs := by
      intro b hb
      rw [← show ((s.step p e).link .near).conn.kind = .clientWithHeartbeat from hlink.kinds .near]
      exact (hlink.flows .near).frames b hb
    rw [step_clocked] at hframes ⊢
    cases he : e.clocked? .near with
    | none => exact h.counted
    | some e' =>
      rw [he] at hframes
      exact Clocked.step_counted (h.clocked .near).timed.kind h.counted hframes

/-! ## What the server has read -/

/-- The bytes a read completes with are the next ones of the frames of the client. -/
theorem next_bytes (h : s.link.Inv ends) {i : Nat} {ec : ErrorCode} {data : List UInt8} {up : List Conn.UpperCall}
    (hl : s.link.Legal (.conn .far (.readDone i ec data up))) :
    (s.link .near).transmitted.take (s.link .far).consumed ++ data <+:
      bytesOf (s.link .near).conn.send.written := by
  have hprefix : data <+: (s.link .near).transmitted.drop (s.link .far).consumed := hl.2.2 i ec data up rfl
  have hsound : (s.link .near).transmitted <+: bytesOf (s.link .near).conn.send.written := (h.flows .near).sound
  refine List.IsPrefix.trans ?_ hsound
  conv_rhs => rw [← List.take_append_drop (s.link .far).consumed (s.link .near).transmitted]
  exact (List.prefix_append_right_inj _).mpr hprefix

/-- What the server has read was written. -/
theorem consumed_le (h : s.link.Inv ends) :
    (s.link .far).consumed ≤ (bytesOf (s.link .near).conn.send.written).length :=
  (h.consumed .far).trans (h.flows .near).sound.length_le

theorem frames_near (h : s.link.Inv ends) :
    ∀ b ∈ (s.link .near).conn.send.written, IsFrame .clientWithHeartbeat b.bufs := h.frames .near

theorem written_near (h : s.link.Inv ends) {e : Conn.Event} (hl : s.link.Legal (.conn .near e)) :
    (s.link .near).conn.send.written <+: ((s.link .near).conn.step e).send.written :=
  (Endpoint.arrive_handsOver (h.flows .near) hl.1 hl.2.1).written

/-- **The client** writes more: that changes nothing about what has been read. -/
theorem arrived_near (h : s.link.Inv ends) {e : Conn.Event} (hl : s.link.Legal (.conn .near e)) :
    (s.step p (.conn .near e)).arrived = s.arrived := by
  have hinv : (s.step p (.conn .near e)).link.Inv ends := s.link.step_inv _ h hl
  obtain ⟨new, hnew⟩ := written_near h hl
  have hself : (s.step p (.conn .near e)).link .near = (s.link .near).arrive e :=
    Link.step_self_conn (l := s.link) (k := .near) e
  have hother : (s.step p (.conn .near e)).link .far = s.link .far := Link.step_other_conn (k := .near) e
  have hframes := frames_near hinv
  have hwritten : ((s.step p (.conn .near e)).link .near).conn.send.written =
      (s.link .near).conn.send.written ++ new := by
    rw [hself]
    exact hnew.symm
  rw [hwritten] at hframes
  rw [arrived, arrived, hwritten, hother]
  exact beatsWithin_append (fun b hb => hframes b (List.mem_append_right _ hb)) (consumed_le h)

/-- **The server** processes the heartbeats it reads, as long as it stays open. -/
theorem arrived_far (h : s.link.Inv ends) (hshort : s.link.Short .near) {e : Conn.Event}
    (hl : s.link.Legal (.conn .far e)) (ho : (s.link .far).conn.isOpen = true)
    (ho' : ((s.link .far).conn.step e).isOpen = true) :
    (s.step p (.conn .far e)).arrived = s.arrived + ((s.link .far).conn.heartbeatProcessed e).toNat := by
  have hself : (s.step p (.conn .far e)).link .far = (s.link .far).arrive e :=
    Link.step_self_conn (l := s.link) (k := .far) e
  have hother : (s.step p (.conn .far e)).link .near = s.link .near := Link.step_other_conn (k := .far) e
  rw [arrived, arrived, hother, hself]
  cases e with
  | readDone i ec data up =>
    have hfollows := h.follows .far hshort
    have hbeats := hfollows.beats (h.kinds .far) ho (h.frames .near) hl.1 (next_bytes h hl) ho'
    rw [List.length_take_of_le (h.consumed .far)] at hbeats
    exact hbeats
  | writeDone | waitDone | upper => rfl

/-- What a call of a handler of one end does to the two timers. -/
theorem pulse_self (e : Conn.Event) :
    (s.step p (.conn k e)).pulse k = ((s.clocked k).step p (.timed (.conn e))).pulse := Function.update_self ..

theorem pulse_other (e : Conn.Event) : (s.step p (.conn k e)).pulse k.other = s.pulse k.other :=
  Function.update_of_ne k.other_ne ..

/-- **What holds while the client is open.** -/
structure Alert (p : HeartBeatPolicy) (late latency : Nat) (s : Watched) : Prop where
  trusting : (s.clocked .far).Trusting
  read : (s.link .far).conn.isOpen = true → (s.pulse .far).heartbeats = s.arrived
  fresh : (s.link .far).conn.isOpen = true → Fresh (p.interval + late) latency (s.pulse .near).beats
    (s.pulse .far).heartbeats ((s.pulse .far).beats.getLastD 0) s.now

section Alert
variable {late latency : Nat} {made : Side → Nat}

/-- The client is not late with its next heartbeat. -/
theorem Base.recent (h : s.Base p late made) (hopen : (s.link .near).conn.isOpen = true) :
    s.now ≤ (s.pulse .near).beats.getLastD 0 + (p.interval + late) := by
  have hnow := h.onTime hopen
  rw [Clocked.expiry_client (h.clocked .near), Nat.add_assoc] at hnow
  exact hnow

/-- **The timer of the server** does not expire while both ends are open. -/
theorem Base.in_time (h : s.Base p late made) (hf : Fresh (p.interval + late) latency (s.pulse .near).beats
      (s.pulse .far).heartbeats ((s.pulse .far).beats.getLastD 0) s.now)
    (hopen : (s.link .near).conn.isOpen = true) (hagain : p.interval + late + latency < p.timeout)
    (hfirst : made .near + p.interval + late + latency < made .far + p.serverInitialTimeout) :
    (s.clocked .far).now < (s.clocked .far).expiry := by
  obtain ⟨a, ha, hnow, hlast⟩ := hf.silence (h.recent hopen)
  have hkind : (s.clocked .far).conn.kind = .serverWithHeartbeat := h.link.kinds .far
  have hcount : (s.pulse .far).beats.length = (s.pulse .far).heartbeats + 1 := (h.clocked .far).counted rfl
  have hexpiry := (h.clocked .far).expiry
  rw [Clocked.allowance, show (s.clocked .far).beats.length = _ from hcount, hkind] at hexpiry
  have hlastBeat : (s.clocked .far).lastBeat = (s.pulse .far).beats.getLastD 0 := rfl
  rw [hexpiry, hlastBeat, show (s.clocked .far).now = s.now from rfl]
  by_cases hnone : (s.pulse .far).heartbeats = 0
  · -- the first heartbeat is awaited
    rw [hnone] at ha hcount
    have hnear : a = made .near := by
      have hmade := h.made .near
      rw [List.head?_eq_getElem?, ha] at hmade
      exact Option.some.inj hmade
    have hfar : (s.pulse .far).beats.getLastD 0 = made .far := by
      obtain ⟨b, hb⟩ := List.length_eq_one_iff.mp hcount
      have hmade := h.made .far
      rw [hb] at hmade ⊢
      exact Option.some.inj hmade
    rw [hfar, hnone]
    simp only [Nat.zero_add, if_true, HeartBeatPolicy.first]
    omega
  · have hheard := hlast (Nat.pos_of_ne_zero hnone)
    rw [if_neg (by omega)]
    simp only [HeartBeatPolicy.again]
    omega

/-- The heartbeats a client has pushed, and those of them the server knows. -/
theorem Base.known (h : s.Base p late made) : s.arrived + 1 ≤ (s.pulse .near).beats.length := by
  have hcounted : (s.pulse .near).beats.length = beatsOf (s.link .near).conn.send.enqueued + 1 := h.counted
  have hle := beatsWithin_le (s.link .near).conn.send.written (s.link .far).consumed
  have hle' := beatsOf_prefix h.ordered.prefix_enqueued
  rw [hcounted, arrived]
  omega

/-- **An event of the client.** -/
theorem alert_near (h : s.Base p late made) (ha : s.Alert p late latency) {e : Conn.Event}
    (hl : s.link.Legal (.conn .near e)) (hopen : (s.link .near).conn.isOpen = true) :
    (s.step p (.conn .near e)).Alert p late latency := by
  have hfar : (s.step p (.conn .near e)).clocked .far = s.clocked .far := step_clocked p s (.conn .near e) .far
  have hpulse : (s.step p (.conn .near e)).pulse .far = s.pulse .far := pulse_other (k := .near) e
  have hlink : (s.step p (.conn .near e)).link .far = s.link .far := Link.step_other_conn (k := .near) e
  refine ⟨by rw [hfar]; exact ha.trusting, fun ho => ?_, fun ho => ?_⟩
  · rw [hlink] at ho
    rw [hpulse, arrived_near h.link hl]
    exact ha.read ho
  · rw [hlink] at ho
    have hbeats : ((s.step p (.conn .near e)).pulse .near).beats =
        if (s.clocked .near).conn.Beats e then (s.pulse .near).beats ++ [s.now] else (s.pulse .near).beats :=
      congrArg Pulse.beats (pulse_self (k := .near) e)
    rw [hpulse, hbeats]
    split
    · exact (ha.fresh ho).push (h.recent hopen)
    · exact ha.fresh ho

/-- **An event of the server.** -/
theorem alert_far (h : s.Base p late made) (ha : s.Alert p late latency) (hshort : s.link.Short .near)
    {e : Conn.Event} (hl : s.Legal (.conn .far e)) (hnext : (s.step p (.conn .far e)).Base p late made)
    (hin : (s.link .far).conn.isOpen = true → (s.clocked .far).now < (s.clocked .far).expiry) :
    (s.step p (.conn .far e)).Alert p late latency := by
  have hclocked : (s.step p (.conn .far e)).clocked .far = (s.clocked .far).step p (.timed (.conn e)) :=
    step_clocked p s (.conn .far e) .far
  have hlink : (s.step p (.conn .far e)).link .far = (s.link .far).arrive e :=
    Link.step_self_conn (l := s.link) (k := .far) e
  have hpulse := pulse_self (p := p) (s := s) (k := .far) e
  have hlegal : s.link.Legal (.conn .far e) := hl.1 _ rfl
  have hstill : ((s.step p (.conn .far e)).link .far).conn.isOpen = true → (s.link .far).conn.isOpen = true :=
    step_isOpen (h.clocked .far)
  have hread : ((s.step p (.conn .far e)).link .far).conn.isOpen = true →
      ((s.step p (.conn .far e)).pulse .far).heartbeats = (s.step p (.conn .far e)).arrived := by
    intro ho'
    have ho := hstill ho'
    rw [hlink] at ho'
    rw [hpulse, arrived_far h.link hshort hlegal ho ho', ← ha.read ho]
    rfl
  refine ⟨?_, hread, fun ho' => ?_⟩
  · rw [hclocked]
    exact Clocked.step_trusting (h.clocked .far) ha.trusting (hl.2 .far _ rfl) hin
  · have ho := hstill ho'
    have hnear : (s.step p (.conn .far e)).pulse .near = s.pulse .near := pulse_other (k := .far) e
    have hfresh := ha.fresh ho
    have hbeats : ((s.step p (.conn .far e)).pulse .far).beats =
        if (s.link .far).conn.Beats e then (s.pulse .far).beats ++ [s.now] else (s.pulse .far).beats :=
      congrArg Pulse.beats hpulse
    have hheartbeats : ((s.step p (.conn .far e)).pulse .far).heartbeats =
        (s.pulse .far).heartbeats + ((s.link .far).conn.heartbeatProcessed e).toNat :=
      congrArg Pulse.heartbeats hpulse
    have hknown := hnext.known
    rw [← hread ho', hnear] at hknown
    rw [hnear, hbeats]
    by_cases hb : (s.link .far).conn.Beats e
    · rw [(Clocked.beats_server (h.link.kinds .far) hb).1] at hheartbeats
      rw [hheartbeats] at hknown ⊢
      rw [if_pos hb, List.getLastD_concat]
      exact hfresh.hear hknown (h.clocked .near).past
    · have hnone : (s.link .far).conn.heartbeatProcessed e = false :=
        Bool.eq_false_iff.mpr fun hp => hb (.inl hp)
      rw [hnone] at hheartbeats
      rw [hheartbeats, if_neg hb]
      exact hfresh

/-- The time of a wait is up: the heartbeats are as they were. -/
theorem pulse_expire (s : Watched) (j : Side) (i : Nat) (k : Side) :
    ((s.step p (.expire j i)).pulse k).beats = (s.pulse k).beats ∧
      ((s.step p (.expire j i)).pulse k).heartbeats = (s.pulse k).heartbeats := by
  simp only [step]
  by_cases hk : k = j
  · subst hk
    rw [Function.update_self]
    exact ⟨rfl, Timed.expire_heartbeats _ i⟩
  · rw [Function.update_of_ne hk]
    exact ⟨rfl, rfl⟩

/-- **One event**, while the client is open. -/
theorem step_alert (h : s.Base p late made) (ha : s.Alert p late latency) (hshort : s.link.Short .near)
    (hopen : (s.link .near).conn.isOpen = true) (hl : s.Legal e) (htransit : s.Transit latency e)
    (hnext : (s.step p e).Base p late made)
    (hin : (s.link .far).conn.isOpen = true → (s.clocked .far).now < (s.clocked .far).expiry) :
    (s.step p e).Alert p late latency := by
  cases e with
  | tick =>
    refine ⟨⟨ha.trusting.running, ha.trusting.silent⟩, ha.read, fun ho => ?_⟩
    refine (ha.fresh ho).tick ?_
    rw [ha.read ho]
    exact htransit hopen ho
  | transmit j i n =>
    have hfar := transmit_end s.link j i n .far
    have hnear := transmit_end s.link j i n .near
    have hclocked : (s.step p (.transmit j i n)).clocked .far = s.clocked .far := step_clocked p s _ .far
    have harrived : (s.step p (.transmit j i n)).arrived = s.arrived := by
      rw [arrived, arrived]
      simp only [step, hnear.1, hfar.2]
    refine ⟨by rw [hclocked]; exact ha.trusting, fun ho => ?_, fun ho => ?_⟩
    · rw [harrived]
      exact ha.read (by simpa only [step, hfar.1] using ho)
    · exact ha.fresh (by simpa only [step, hfar.1] using ho)
  | expire j i =>
    obtain ⟨hbeats, -⟩ := pulse_expire (p := p) s j i .near
    obtain ⟨hbeats', hheartbeats⟩ := pulse_expire (p := p) s j i .far
    refine ⟨?_, fun ho => ?_, fun ho => ?_⟩
    · rw [step_clocked]
      cases he : WatchedEvent.clocked? .far (.expire j i) with
      | none => exact ha.trusting
      | some e' => exact Clocked.step_trusting (h.clocked .far) ha.trusting (hl.2 .far e' he) hin
    · rw [hheartbeats]
      exact ha.read ho
    · rw [hbeats, hbeats', hheartbeats]
      exact ha.fresh ho
  | conn j e =>
    cases j with
    | near => exact alert_near h ha (hl.1 _ rfl) hopen
    | far => exact alert_far h ha hshort hl hnext hin

/-- What was short enough before is so still. -/
theorem short_of_step (h : s.link.Inv ends) (hl : s.Legal e) (hshort : (s.step p e).link.Short .near) :
    s.link.Short .near := by
  cases e with
  | tick | expire => exact hshort
  | transmit j i n =>
    intro msg hmsg
    refine hshort msg ?_
    rw [Link.handed, show (s.step p (.transmit j i n)).link = s.link.step (.transmit j i n) from rfl,
      (transmit_end s.link j i n .near).1]
    exact hmsg
  | conn j e =>
    intro msg hmsg
    refine hshort msg ?_
    cases j with
    | near =>
      have hself : (s.step p (.conn .near e)).link .near = (s.link .near).arrive e :=
        Link.step_self_conn (l := s.link) (k := .near) e
      obtain ⟨new, hnew⟩ := written_near h (hl.1 _ rfl)
      rw [Link.handed, hself]
      show msg ∈ messages ((s.link .near).conn.step e).send.written
      rw [← hnew, messages_append]
      exact List.mem_append_left _ hmsg
    | far =>
      have hother : (s.step p (.conn .far e)).link .near = s.link .near := Link.step_other_conn (k := .far) e
      rw [Link.handed, hother]
      exact hmsg

end Alert
end Steps

/-! ## Runs -/

section Runs
variable {p : HeartBeatPolicy} {socketStr : Side → String} {padding : Side → Nat → Padding} {slack made : Side → Nat}
  {late latency : Nat} {es : List WatchedEvent}

theorem start_clocked (k : Side) :
    (start p socketStr padding slack made).clocked k = .start p (ends k) (socketStr k) (padding k) (slack k)
      (made k) (max (made .near) (made .far)) := rfl

theorem start_base (hmade : made .far ≤ made .near + p.interval + late) :
    (start p socketStr padding slack made).Base p late made := by
  have hsend : ((start p socketStr padding slack made).link .near).conn.send = ⟨[], [], [], []⟩ :=
    (Conn.doReceiveMessage_frame _).send
  refine ⟨Link.start_inv .., fun k => ?_, fun _ => ?_, ?_, fun k => rfl, ?_⟩
  · rw [start_clocked]
    refine Clocked.start_inv p (withHeartbeat_ends k) _ _ _ ?_
    cases k
    · exact Nat.le_max_left _ _
    · exact Nat.le_max_right _ _
  · show max (made .near) (made .far) ≤ made .near + p.interval + late
    omega
  · rw [hsend]
    exact .inl ⟨by simp, ⟨[], rfl, rfl⟩, rfl, by simp⟩
  · rw [Clocked.Counted, show ((start p socketStr padding slack made).clocked .near).conn.send = _ from hsend]
    rfl

theorem start_alert : (start p socketStr padding slack made).Alert p late latency := by
  refine ⟨⟨?_, ?_⟩, fun _ => rfl, fun _ => ⟨?_, ?_, ?_, ?_⟩⟩
  · intro timer htimer
    obtain ⟨op, -, rfl⟩ := List.mem_map.mp htimer
    rfl
  · exact List.not_mem_nil
  · intro i a b _ hb
    cases hb
  · exact Nat.zero_lt_one
  · intro t ht
    cases ht
  · intro t ht
    cases ht

/-- **A client that is there is not taken for lost.** A client with heartbeats, whose messages are shorter than
2³² bytes, and its server, whose end is made at most one interval and `late` ms after that of the client: over any
legal run of both, in which at most two messages are queued at the client whenever a write completes, the loop of
the client runs the handlers of its timer at most `late` ms after their time, and what the client pushes has been
read by the server after `latency` ms; if one interval, `late` and `latency` together are less than the timeout,
and, counted from the constructor of the client, end before the initial timeout of the server: the server never
reports a timeout while the client is open. -/
theorem neverSuspected
    (hl : EachStep (step p) Legal (start p socketStr padding slack made) es)
    (htwo : EachStep (step p) AtMostTwoQueued (start p socketStr padding slack made) es)
    (hprompt : EachStep (step p) (Prompt late) (start p socketStr padding slack made) es)
    (htransit : EachStep (step p) (Transit latency) (start p socketStr padding slack made) es)
    (hmade : made .far ≤ made .near + p.interval + late)
    (hagain : p.interval + late + latency < p.timeout)
    (hfirst : made .near + p.interval + late + latency < made .far + p.serverInitialTimeout) :
    let s := run (step p) (start p socketStr padding slack made) es
    (∀ msg ∈ s.link.handed .near, msg.length < 2 ^ 32) → (s.link .near).conn.isOpen = true →
      ConnectionEvent.timeout ∉ (s.link .far).conn.events := by
  intro s hshort hopen
  have hinv := run_history_legal
    (J := fun _ (s : Watched) => s.Base p late made ∧
      (s.link.Short .near → (s.link .near).conn.isOpen = true → s.Alert p late latency))
    (L := fun s e => s.Legal e ∧ s.AtMostTwoQueued e ∧ s.Prompt late e ∧ s.Transit latency e)
    ⟨start_base hmade, fun _ _ => start_alert⟩ ?_
    (eachStep_and.mpr ⟨hl, eachStep_and.mpr ⟨htwo, eachStep_and.mpr ⟨hprompt, htransit⟩⟩⟩)
  · exact (hinv.2 hshort hopen).trusting.silent
  · rintro - s e ⟨h, ha⟩ ⟨hl, htwo, hp, htransit⟩
    have hnext := step_base h hl htwo hp
    refine ⟨hnext, fun hshort' hopen' => ?_⟩
    have hshort := short_of_step h.link hl hshort'
    have hopen := step_isOpen (h.clocked .near) hopen'
    have halert := ha hshort hopen
    exact step_alert h halert hshort hopen hl htransit hnext
      fun ho => h.in_time (halert.fresh ho) hopen hagain hfirst

/-- Both ends are made at once. -/
def atOnce : Watched :=
  start .standard (fun _ => "10.0.0.1:80") (fun _ _ => Link.zeros) (fun _ => 0) fun _ => 0

/-- The first heartbeat goes out and is read within a millisecond. -/
def oneBeat : List WatchedEvent :=
  [.tick, .tick, .expire .near 0, .conn .near (.waitDone 0 success []), .transmit .near 0 8,
    .conn .far (.readDone 0 success (headerToString Link.zeros ⟨HeaderMessageType.heartbeat.value, 0⟩) []),
    .conn .near (.writeDone 0 success 8 []), .tick]

theorem legal_tick (s : Watched) : s.Legal .tick :=
  ⟨(fun e' he => by cases he), fun k e' he => by cases he; trivial⟩

theorem legal_transmit {s : Watched} {k : Side} {i n : Nat} (h : s.link.Legal (.transmit k i n)) :
    s.Legal (.transmit k i n) :=
  ⟨(fun e' he => by cases he; exact h), fun j e' he => by cases he⟩

theorem legal_expire {s : Watched} {k : Side} {i : Nat} (h : (s.clocked k).Legal (.timed (.expire i))) :
    s.Legal (.expire k i) := by
  refine ⟨(fun e' he => by cases he), fun j e' he => ?_⟩
  simp only [WatchedEvent.clocked?, Option.ite_none_right_eq_some, Option.some.injEq] at he
  obtain ⟨rfl, rfl⟩ := he
  exact h

theorem legal_conn {s : Watched} {k : Side} {e : Conn.Event} (h : s.link.Legal (.conn k e))
    (h' : ∀ i ec up, e = .waitDone i ec up → (s.clocked k).Legal (.timed (.conn e))) : s.Legal (.conn k e) := by
  refine ⟨(fun e' he => by cases he; exact h), fun j e' he => ?_⟩
  simp only [WatchedEvent.clocked?, Option.ite_none_right_eq_some, Option.some.injEq] at he
  obtain ⟨rfl, rfl⟩ := he
  cases e with
  | waitDone i ec up => exact h' i ec up rfl
  | readDone | writeDone | upper => exact ⟨⟨h.1, by simp⟩, by simp⟩

theorem oneBeat_legal : EachStep (step .standard) Legal atOnce oneBeat := by
  refine ⟨legal_tick _, legal_tick _, legal_expire ⟨⟨⟨0, none⟩, ⟨false⟩, rfl, rfl, rfl, rfl⟩, by decide⟩,
    legal_conn ⟨⟨⟨false⟩, rfl, by decide⟩, trivial, by simp⟩ ?_, legal_transmit ⟨rfl, _, rfl, by decide⟩,
    legal_conn ⟨⟨⟨.header, 8, false⟩, rfl, by decide, by decide, by decide⟩, trivial, ?_⟩ (by simp),
    legal_conn ⟨⟨_, rfl, by decide, by decide, by decide⟩, ⟨_, _, rfl, rfl, rfl⟩, by simp⟩ (by simp),
    legal_tick _, trivial⟩
  · intro i ec up he
    cases he
    refine ⟨⟨⟨⟨false⟩, rfl, by decide⟩, ?_⟩, ?_⟩
    · intro i ec up he
      cases he
      exact ⟨⟨0, some 0⟩, ⟨false⟩, rfl, rfl, by decide, by decide⟩
    · intro i ec up he
      cases he
      exact ⟨⟨0, some 0⟩, ⟨false⟩, rfl, rfl, .inl (by decide)⟩
  · intro i ec data up he
    cases he
    exact ⟨[], rfl⟩

/-- The server has heard the client. -/
theorem neverSuspected_oneBeat :
    ConnectionEvent.timeout ∉ (run (step .standard) atOnce oneBeat |>.link .far).conn.events := by
  refine @neverSuspected _ _ _ _ _ 0 1 _ oneBeat_legal ?_ ?_ ?_ (by decide) (by decide) (by decide) ?_ rfl
  · refine ⟨?_, ?_, ?_, ?_, ?_, ?_, ?_, ?_, trivial⟩ <;> intro e' he <;> cases he <;> try trivial
    exact fun _ => by decide
  · refine ⟨?_, ?_, ?_, ?_, ?_, ?_, ?_, ?_, trivial⟩ <;> intro e' he <;> cases he <;> try trivial
    all_goals exact fun _ => by decide
  · exact ⟨fun _ _ => by decide, fun _ _ => by decide, trivial, trivial, trivial, trivial, trivial,
      fun _ _ => by decide, trivial⟩
  · exact fun msg hmsg => by cases hmsg

end Runs
end Watched

end Thallium.Network
