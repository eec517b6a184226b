import Thallium.Lib.EventRun
import Thallium.Network.Connection

/-!
# The write queue (network/connection.cpp:115-195)

`do_send_message` and `do_send_header` push behind the queue, `do_write` writes the message at the
*back*, the completion pops the one at the *front*. With at most two messages queued the two agree;
with a third one waiting, the completion pops one message and writes another.

| here | there |
| --- | --- |
| `QueueEvent`, `queueStep`  | calls of `do_send_message`, `do_send_header`, and successful completions |
| `Sender.WrittenInOrder`    | not in the source: what the queue is for |
| `Sender.InOrder`           | not in the source: the invariant while no third message waits |

* `push_inOrder`, `pop_inOrder`, `pop_outOfOrder` — what one operation does to the invariant.
* `always_writtenInOrder_iff` — the messages are written once each and in the order they were
  enqueued **iff** at every completion at most two are queued.
-/
namespace Thallium.Network
open Message Serializer EventRun

/-! ## The run -/

inductive QueueEvent where
  | doSendMessage (msg : List UInt8)
  | doSendHeader (h : Header)
  | messageSent (i : Nat)

/-- A header is sent as `send_heartbeat` does it (connection.cpp:316-319). A completion is the
successful one of the `i`-th write in flight, with all its bytes written. -/
def queueStep (s : Conn) : QueueEvent → Conn
  | .doSendMessage msg => s.doSendMessage msg
  | .doSendHeader h => s.doSendHeader (headerToString (s.padding s.send.enqueued.length) h)
  | .messageSent i =>
    match s.send.writes[i]? with
    | none => s
    | some op => s.writeDone i success op.totalSize []

/-- Only a write in flight completes. -/
def QueueLegal (s : Conn) : QueueEvent → Prop
  | .messageSent i => i < s.send.writes.length
  | _ => True

/-- What is handed to `async_write` is what was enqueued, in that order; once the queue is empty it
is all of it. -/
def Sender.WrittenInOrder (q : Sender) : Prop :=
  q.written <+: q.enqueued ∧ (q.writeQueue = [] → q.written = q.enqueued)

/-- No third message waits when a write completes. -/
def AtMostTwoQueued (s : Conn) : QueueEvent → Prop
  | .messageSent _ => s.send.writeQueue.length ≤ 2
  | _ => True

instance (s : Conn) : (e : QueueEvent) → Decidable (QueueLegal s e)
  | .messageSent i => inferInstanceAs (Decidable (i < s.send.writes.length))
  | .doSendMessage _ => .isTrue trivial
  | .doSendHeader _ => .isTrue trivial

instance (s : Conn) : (e : QueueEvent) → Decidable (AtMostTwoQueued s e)
  | .messageSent _ => inferInstanceAs (Decidable (s.send.writeQueue.length ≤ 2))
  | .doSendMessage _ => .isTrue trivial
  | .doSendHeader _ => .isTrue trivial

/-! ## The invariant -/

/-- The front of the queue is in flight, all before it is written, nothing else is. -/
structure Sender.InOrder (q : Sender) : Prop where
  idents : ∀ (i : Nat) (b : BufferSequence), q.enqueued[i]? = some b → b.ident = i
  split : ∃ done, q.enqueued = done ++ q.writeQueue ∧ q.written = done ++ q.writeQueue.take 1
  inFlight : q.writes.map WriteOp.totalSize = (q.writeQueue.take 1).map BufferSequence.totalSize
  sized : ∀ b ∈ q.enqueued, 0 < b.totalSize

namespace Sender
variable {q : Sender} {i : Nat}

theorem InOrder.writtenInOrder (h : q.InOrder) : q.WrittenInOrder := by
  obtain ⟨done, henq, hwr⟩ := h.split
  rw [WrittenInOrder, henq, hwr]
  constructor
  · exact List.prefix_append_right_inj done |>.mpr (List.take_prefix 1 _)
  · intro hnil
    rw [hnil, List.take_nil]

/-- The queue holds a message while a write is in flight. -/
theorem InOrder.queue_ne_nil (h : q.InOrder) (hi : i < q.writes.length) : q.writeQueue ≠ [] := by
  intro hnil
  have hlen := congrArg List.length h.inFlight
  rw [hnil, List.take_nil, List.map_nil, List.length_map, List.length_nil] at hlen
  omega

theorem InOrder.eraseIdx_writes (h : q.InOrder) (hi : i < q.writes.length) :
    q.writes.eraseIdx i = [] := by
  have hlen := congrArg List.length h.inFlight
  rw [List.length_map, List.length_map, List.length_take] at hlen
  apply List.eq_nil_of_length_eq_zero
  rw [List.length_eraseIdx_of_lt hi]
  omega

theorem InOrder.totalSize_pos (h : q.InOrder) {op : WriteOp} (hop : q.writes[i]? = some op) :
    0 < op.totalSize := by
  have hmem : op.totalSize ∈ q.writes.map WriteOp.totalSize :=
    List.mem_map_of_mem (List.mem_of_getElem? hop)
  rw [h.inFlight] at hmem
  obtain ⟨b, hb, hsize⟩ := List.mem_map.mp hmem
  obtain ⟨done, henq, -⟩ := h.split
  rw [← hsize]
  apply h.sized b
  rw [henq]
  exact List.mem_append_right _ (List.mem_of_mem_take hb)

/-- **Enqueuing** keeps the order, however many messages wait. -/
theorem push_inOrder (h : q.InOrder) {bufs : List (List UInt8)}
    (hsize : 0 < (⟨q.enqueued.length, bufs⟩ : BufferSequence).totalSize) : (q.push bufs).InOrder := by
  obtain ⟨done, henq, hwr⟩ := h.split
  have hidents : ∀ (i : Nat) (b : BufferSequence),
      (q.enqueued ++ [⟨q.enqueued.length, bufs⟩])[i]? = some b → b.ident = i := by
    intro i b hb
    rcases getElem?_concat_eq_some.mp hb with hb | ⟨rfl, rfl⟩
    · exact h.idents i b hb
    · rfl
  have hsized : ∀ b ∈ q.enqueued ++ [⟨q.enqueued.length, bufs⟩], 0 < b.totalSize := by
    intro b hb
    rcases List.mem_append.mp hb with hb | hb
    · exact h.sized b hb
    · rw [List.mem_singleton.mp hb]
      exact hsize
  have hflight := h.inFlight
  unfold push
  cases hq : q.writeQueue with
  | nil =>
    -- the message is written at once
    rw [hq] at henq hwr hflight
    have hwrites : q.writes = [] := List.map_eq_nil_iff.mp hflight
    simp only [List.nil_append, List.length_singleton, if_true, doWrite, List.getLast?_singleton]
    exact ⟨hidents, ⟨done, by rw [henq, List.append_nil], by simp [hwr]⟩, by simp [hwrites], hsized⟩
  | cons b rest =>
    rw [hq] at henq hwr hflight
    rw [if_neg (by simp)]
    exact ⟨hidents, ⟨done, by rw [henq, List.append_assoc], by simpa using hwr⟩,
      by simpa using hflight, hsized⟩

/-- **A completion** with at most two messages queued keeps the order: the back of what is left is
its front. -/
theorem pop_inOrder (h : q.InOrder) (hi : i < q.writes.length) (htwo : q.writeQueue.length ≤ 2) :
    (q.complete i).pop.InOrder := by
  obtain ⟨done, henq, hwr⟩ := h.split
  have hwrites := h.eraseIdx_writes hi
  rcases hq : q.writeQueue with _ | ⟨b, _ | ⟨c, _ | ⟨d, rest⟩⟩⟩
  · exact absurd hq (h.queue_ne_nil hi)
  · have hpop : (q.complete i).pop = ⟨[], [], q.enqueued, q.written⟩ := by
      simp [pop, complete, hq, hwrites]
    rw [hq] at henq hwr
    rw [hpop]
    exact ⟨h.idents, ⟨done ++ [b], by simpa using henq, by simpa using hwr⟩, rfl, h.sized⟩
  · have hpop : (q.complete i).pop =
        ⟨[c], [⟨c.totalSize, false⟩], q.enqueued, q.written ++ [c]⟩ := by
      simp [pop, complete, hq, hwrites, doWrite]
    rw [hq] at henq hwr
    rw [hpop]
    exact ⟨h.idents, ⟨done ++ [b], by simpa using henq, by simp [hwr]⟩, rfl, h.sized⟩
  · rw [hq] at htwo
    simp at htwo

/-- **A completion** with three messages queued writes the last of them in the place of the second. -/
theorem pop_outOfOrder (h : q.InOrder) (hthree : 3 ≤ q.writeQueue.length) :
    ¬ (q.complete i).pop.WrittenInOrder := by
  obtain ⟨done, henq, hwr⟩ := h.split
  rcases hq : q.writeQueue with _ | ⟨b, _ | ⟨c, _ | ⟨d, rest⟩⟩⟩
  case nil => rw [hq] at hthree; simp at hthree
  case cons.nil => rw [hq] at hthree; simp at hthree
  case cons.cons.nil => rw [hq] at hthree; simp at hthree
  obtain ⟨init, last, hlast⟩ : ∃ init last, d :: rest = init ++ [last] :=
    ⟨_, _, (List.dropLast_append_getLast (List.cons_ne_nil d rest)).symm⟩
  rw [hq, hlast] at henq hwr
  rw [hlast] at hq
  have hback : (c :: (init ++ [last])).getLast? = some last := by
    rw [← List.cons_append, List.getLast?_concat]
  have hwritten : (q.complete i).pop.written = done ++ b :: [last] := by
    simp [pop, complete, hq, doWrite, hback, hwr]
  have henqueued : (q.complete i).pop.enqueued = done ++ b :: c :: (init ++ [last]) := by
    rw [← henq]
    simp [pop, complete, hq, doWrite, hback]
  rintro ⟨hpre, -⟩
  rw [hwritten, henqueued, List.prefix_append_right_inj, List.cons_prefix_cons,
    List.cons_prefix_cons] at hpre
  -- the second and the last of the queue are different messages
  have hc : c.ident = done.length + 1 := h.idents _ _ (by rw [henq]; simp)
  have hl : last.ident = done.length + 2 + init.length := h.idents _ _ (by
    rw [henq, show done ++ b :: c :: (init ++ [last]) = (done ++ b :: c :: init) ++ [last] by simp,
      getElem?_concat_eq_some]
    exact .inr ⟨by simp; omega, rfl⟩)
  rw [hpre.2.1, hc] at hl
  omega

end Sender

/-! ## The steps and the run -/

/-- A successful completion is `pop` on what is left in flight. -/
theorem queueStep_messageSent {s : Conn} {i : Nat} (h : s.send.InOrder) (hi : i < s.send.writes.length) :
    (queueStep s (.messageSent i)).send = (s.send.complete i).pop := by
  have hop := List.getElem?_eq_getElem hi
  have hpos := h.totalSize_pos hop
  simp only [queueStep, hop, Conn.writeDone_eq hop]
  rw [if_neg (by simp [success]), if_neg (by omega)]

theorem queueStep_inOrder (s : Conn) (e : QueueEvent) (h : s.send.InOrder) (hl : QueueLegal s e)
    (hc : AtMostTwoQueued s e) : (queueStep s e).send.InOrder := by
  cases e with
  | doSendMessage msg =>
    exact Sender.push_inOrder h (by simp [BufferSequence.totalSize, headerSize])
  | doSendHeader hd =>
    exact Sender.push_inOrder h (by simp [BufferSequence.totalSize, headerSize])
  | messageSent i =>
    rw [queueStep_messageSent h hl]
    exact Sender.pop_inOrder h hl hc

theorem queueStep_outOfOrder (s : Conn) (e : QueueEvent) (h : s.send.InOrder) (hl : QueueLegal s e)
    (hc : ¬ AtMostTwoQueued s e) : ¬ (queueStep s e).send.WrittenInOrder := by
  cases e with
  | doSendMessage msg => exact absurd trivial hc
  | doSendHeader hd => exact absurd trivial hc
  | messageSent i =>
    rw [queueStep_messageSent h hl]
    exact Sender.pop_outOfOrder h (Nat.lt_of_not_le hc)

/-- **Exact condition of an ordered write queue.** From a connection just started, in any run of sends
and successful completions, what is handed to `async_write` is throughout the enqueued messages, in
their order and once each, and all of them when the queue is empty, **iff** every completion finds at
most two messages queued. -/
theorem always_writtenInOrder_iff (kind : ConnKind) (socketStr : String) (padding : Nat → Padding)
    (slack : Nat) (es : List QueueEvent)
    (hl : EachStep queueStep QueueLegal (Conn.start kind socketStr padding slack) es) :
    Always queueStep (fun s => s.send.WrittenInOrder) (Conn.start kind socketStr padding slack) es ↔
      EachStep queueStep AtMostTwoQueued (Conn.start kind socketStr padding slack) es := by
  have hstart : (Conn.start kind socketStr padding slack).send.InOrder :=
    ⟨by simp [Conn.start, Conn.doReceiveMessage, Conn.asyncRead], ⟨[], rfl, rfl⟩, rfl,
      by simp [Conn.start, Conn.doReceiveMessage, Conn.asyncRead]⟩
  exact always_iff_eachStep (I := fun s => s.send.InOrder) (fun s h => h.writtenInOrder)
    queueStep_inOrder queueStep_outOfOrder hstart hl

/-- Two messages queued while the first is in flight, then both completions. -/
theorem always_writtenInOrder_two :
    Always queueStep (fun s => s.send.WrittenInOrder)
      (Conn.start .client "10.0.0.1:80" (fun _ => ⟨[0, 0, 0], rfl⟩) 0)
      [.doSendMessage [1], .doSendMessage [2], .messageSent 0, .messageSent 0] := by
  rw [always_writtenInOrder_iff] <;> decide

/-- Three messages sent while the first is in flight: the third is written twice, the second never. -/
theorem not_always_writtenInOrder_three :
    let s := Conn.start .client "10.0.0.1:80" (fun _ => ⟨[0, 0, 0], rfl⟩) 0
    let es : List QueueEvent :=
      [.doSendMessage [1], .doSendMessage [2], .doSendMessage [3], .messageSent 0, .messageSent 0]
    EachStep queueStep QueueLegal s es ∧ ¬ Always queueStep (fun s => s.send.WrittenInOrder) s es := by
  refine ⟨by decide, ?_⟩
  rintro ⟨-, -, -, -, h, -⟩
  exact absurd h.1 (by decide)

end Thallium.Network
