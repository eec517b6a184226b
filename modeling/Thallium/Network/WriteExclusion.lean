import Thallium.Lib.EventRun
import Thallium.Network.Connection

/-!
# One write at a time (network/connection.cpp:115-195)

`do_send_message` and `do_send_header` write only what they push to an empty queue, and
`when_message_sent` writes again only when its own write is over. On an error it returns early, and the
message whose write failed stays in the queue: from then on no push finds the queue empty.

| here | there |
| --- | --- |
| `Sender.Sends`      | what all handlers but `when_message_sent` do to the queue: pushes and the socket's `cancel` |
| `Sender.Exclusive`  | not in the source: at most one write, its buffers still queued |
| `Sender.Stalled`    | not in the source: messages queued and none being written |

* `Sends.exclusive`, `Sends.stalled` — pushing and cancelling keep both.
* `step_exclusive`, `step_stalled` — so does every event of the connection.
-/
namespace Thallium.Network
open Message Serializer EventRun

namespace Sender
variable {q q' : Sender} {i : Nat}

/-- At most one write is in flight, and what it writes is the last that was handed over and still
queued. -/
structure Exclusive (q : Sender) : Prop where
  one : q.writes.length ≤ 1
  queued : ∀ op ∈ q.writes, ∃ b, q.written.getLast? = some b ∧ b ∈ q.writeQueue ∧
    op.totalSize = b.totalSize

/-- No push finds the queue empty, and no completion is to come. -/
structure Stalled (q : Sender) : Prop where
  writes : q.writes = []
  writeQueue : q.writeQueue ≠ []

theorem Exclusive.writes_nil (h : q.Exclusive) (hq : q.writeQueue = []) : q.writes = [] := by
  cases hw : q.writes with
  | nil => rfl
  | cons op rest =>
    obtain ⟨b, -, hb, -⟩ := h.queued op (by rw [hw]; exact List.mem_cons_self ..)
    rw [hq] at hb
    cases hb

theorem doWrite_exclusive (hw : q.writes = []) : q.doWrite.Exclusive := by
  unfold doWrite
  cases hb : q.writeQueue.getLast? with
  | none =>
    refine ⟨by rw [hw]; exact Nat.zero_le _, ?_⟩
    intro op hop
    rw [hw] at hop
    cases hop
  | some b =>
    simp only [hw, List.nil_append]
    refine ⟨Nat.le_refl 1, ?_⟩
    intro op hop
    refine ⟨b, List.getLast?_concat, List.mem_of_getLast? hb, ?_⟩
    rw [List.mem_singleton.mp hop]

/-- A push writes only what is alone in the queue. -/
theorem push_cases (q : Sender) (bufs : List (List UInt8)) :
    (q.writeQueue = [] ∧
      q.push bufs = Sender.doWrite ⟨[⟨q.enqueued.length, bufs⟩], q.writes,
        q.enqueued ++ [⟨q.enqueued.length, bufs⟩], q.written⟩) ∨
    (q.writeQueue ≠ [] ∧
      q.push bufs = ⟨q.writeQueue ++ [⟨q.enqueued.length, bufs⟩], q.writes,
        q.enqueued ++ [⟨q.enqueued.length, bufs⟩], q.written⟩) := by
  unfold push
  cases hq : q.writeQueue with
  | nil => exact .inl ⟨rfl, by simp⟩
  | cons b rest => exact .inr ⟨List.cons_ne_nil b rest, by simp⟩

theorem push_exclusive (h : q.Exclusive) (bufs : List (List UInt8)) : (q.push bufs).Exclusive := by
  rcases push_cases q bufs with ⟨hq, hpush⟩ | ⟨-, hpush⟩
  · rw [hpush]
    exact doWrite_exclusive (h.writes_nil hq)
  · rw [hpush]
    refine ⟨h.one, ?_⟩
    intro op hop
    obtain ⟨b, hlast, hb, hsize⟩ := h.queued op hop
    exact ⟨b, hlast, List.mem_append_left _ hb, hsize⟩

theorem push_stalled (h : q.Stalled) (bufs : List (List UInt8)) :
    (q.push bufs).Stalled ∧ (q.push bufs).written = q.written := by
  rcases push_cases q bufs with ⟨hq, -⟩ | ⟨-, hpush⟩
  · exact absurd hq h.writeQueue
  · rw [hpush]
    exact ⟨⟨h.writes, by simp⟩, rfl⟩

theorem cancel_exclusive (h : q.Exclusive) : q.cancel.Exclusive := by
  refine ⟨by simpa [cancel] using h.one, ?_⟩
  intro op hop
  obtain ⟨op', hop', rfl⟩ := List.mem_map.mp hop
  exact h.queued op' hop'

theorem cancel_stalled (h : q.Stalled) : q.cancel.Stalled :=
  ⟨by simp [cancel, h.writes], h.writeQueue⟩

/-- **A completion**, before its handler looks at the result. -/
theorem complete_stalled (h : q.Exclusive) (hi : i < q.writes.length) : (q.complete i).Stalled := by
  have hone := h.one
  refine ⟨?_, ?_⟩
  · apply List.eq_nil_of_length_eq_zero
    rw [complete, List.length_eraseIdx_of_lt hi]
    omega
  · intro hnil
    rw [h.writes_nil hnil] at hi
    exact absurd hi (Nat.not_lt_zero i)

theorem Stalled.exclusive (h : q.Stalled) : q.Exclusive := by
  refine ⟨by rw [h.writes]; exact Nat.zero_le 1, ?_⟩
  intro op hop
  rw [h.writes] at hop
  cases hop

theorem pop_exclusive (h : q.writes = []) : q.pop.Exclusive := by
  unfold pop
  simp only []
  split
  · exact doWrite_exclusive h
  · refine ⟨by rw [h]; exact Nat.zero_le 1, ?_⟩
    intro op hop
    rw [h] at hop
    cases hop

/-- Pushes and cancels, in any order. -/
inductive Sends : Sender → Sender → Prop
  | refl (q : Sender) : Sends q q
  | push {q q' : Sender} (h : Sends q q') (bufs : List (List UInt8)) : Sends q (q'.push bufs)
  | cancel {q q' : Sender} (h : Sends q q') : Sends q q'.cancel

theorem Sends.trans {q'' : Sender} (h : Sends q q') (h' : Sends q' q'') : Sends q q'' := by
  induction h' with
  | refl => exact h
  | push _ bufs ih => exact ih.push bufs
  | cancel _ ih => exact ih.cancel

theorem Sends.exclusive (h : Sends q q') (hq : q.Exclusive) : q'.Exclusive := by
  induction h with
  | refl => exact hq
  | push _ bufs ih => exact push_exclusive ih bufs
  | cancel _ ih => exact cancel_exclusive ih

theorem Sends.stalled (h : Sends q q') (hq : q.Stalled) : q'.Stalled ∧ q'.written = q.written := by
  induction h with
  | refl => exact ⟨hq, rfl⟩
  | push _ bufs ih =>
    obtain ⟨hs, hw⟩ := push_stalled ih.1 bufs
    exact ⟨hs, hw.trans ih.2⟩
  | cancel _ ih => exact ⟨cancel_stalled ih.1, ih.2⟩

end Sender

/-! ## What the handlers do to the queue -/

namespace Conn
variable {s : Conn} {i : Nat} {ec : ErrorCode} {up : List UpperCall}

theorem socketClose_sends (s : Conn) : Sender.Sends s.send s.socketClose.send := by
  unfold socketClose
  split
  · exact (Sender.Sends.refl _).cancel
  · exact .refl _

theorem connectionClose_sends (s : Conn) : Sender.Sends s.send s.connectionClose.send := by
  unfold connectionClose
  split
  · exact s.socketClose_sends
  · exact s.socketClose_sends
  · exact s.heartbeatStop.socketClose_sends
  · exact s.heartbeatStop.socketClose_sends

theorem upperCall_sends (s : Conn) (call : UpperCall) : Sender.Sends s.send (s.upperCall call).send := by
  cases call with
  | send msg => exact (Sender.Sends.refl _).push _
  | disconnect => exact connectionClose_sends { s with disconnected := s.disconnected || s.isOpen }

theorem upperCalls_sends (up : List UpperCall) (s : Conn) :
    Sender.Sends s.send (up.foldl upperCall s).send := by
  induction up generalizing s with
  | nil => exact .refl _
  | cons call up ih => exact (s.upperCall_sends call).trans (ih _)

theorem notify_sends (s : Conn) (e : ConnectionEvent) (up : List UpperCall) :
    Sender.Sends s.send (s.connectionClose.upperLayerEventCallback e up).send :=
  s.connectionClose_sends.trans (upperCalls_sends up { s.connectionClose with
    events := s.connectionClose.events ++ [e] })

theorem upperLayerCallback_sends (s : Conn) (length : Nat) (up : List UpperCall) :
    Sender.Sends s.send (s.upperLayerCallback length up).send :=
  upperCalls_sends up { s with
    recv.delivered := s.recv.delivered ++ [s.recv.receiveBuffer.data.take length] }

theorem readCompleted_send (s : Conn) (i : Nat) (op : ReadOp) (data : List UInt8) :
    (s.readCompleted i op data).send = s.send := by
  unfold readCompleted
  cases op.target <;> rfl

theorem readDone_sends (s : Conn) (i : Nat) (ec : ErrorCode) (data : List UInt8) (up : List UpperCall) :
    Sender.Sends s.send (s.readDone i ec data up).send := by
  cases hop : s.recv.reads[i]? with
  | none =>
    rw [readDone, hop]
    exact .refl _
  | some op =>
    rw [← readCompleted_send s i op data]
    cases ht : op.target with
    | header =>
      rw [readDone_header hop ht]
      generalize s.readCompleted i op data = s'
      simp only []
      split
      · split
        · rw [(parsed_frame _).send]
          exact .refl _
        · exact .refl _
      · split
        · exact .refl _
        · split
          · exact s'.notify_sends _ _
          · exact s'.connectionClose_sends
    | payload length =>
      rw [readDone_payload hop ht]
      generalize s.readCompleted i op data = s'
      simp only []
      split
      · exact s'.connectionClose_sends
      · rw [(doReceiveMessage_frame _).send]
        split
        · exact s'.upperLayerCallback_sends length up
        · exact .refl _

theorem waitDone_sends (s : Conn) (i : Nat) (ec : ErrorCode) (up : List UpperCall) :
    Sender.Sends s.send (s.waitDone i ec up).send := by
  cases hop : s.waits[i]? with
  | none =>
    rw [waitDone, hop]
    exact .refl _
  | some op =>
    cases hk : s.kind with
    | server | client =>
      rw [waitDone_other hop (by simp [hk]) (by simp [hk])]
      exact .refl _
    | serverWithHeartbeat =>
      rw [waitDone_server hop hk]
      simp only []
      split
      · exact notify_sends { s with waits := s.waits.eraseIdx i } _ _
      · exact .refl _
    | clientWithHeartbeat =>
      rw [waitDone_client hop hk]
      simp only []
      split
      · exact (Sender.Sends.refl _).push _
      · exact connectionClose_sends { s with waits := s.waits.eraseIdx i }

variable (ec up) in
/-- What a completed write does to the queue: after an error other than `operation_aborted` nothing
is popped. -/
theorem writeDone_sends {op : WriteOp} (hop : s.send.writes[i]? = some op) (n : Nat) :
    (ec.value = 0 ∨ ec.value = operationAborted) ∧ n ≠ 0 ∧
        (s.writeDone i ec n up).send = (s.send.complete i).pop ∨
      Sender.Sends (s.send.complete i) (s.writeDone i ec n up).send := by
  rw [writeDone_eq hop]
  by_cases hfail : ec.value ≠ 0 ∧ ec.value ≠ operationAborted
  · refine .inr ?_
    simp only [if_pos hfail]
    exact notify_sends { s with send := s.send.complete i } _ _
  · simp only [if_neg hfail]
    by_cases hn : n = 0
    · refine .inr ?_
      simp only [if_pos hn]
      exact .refl _
    · refine .inl ⟨?_, hn, by simp only [if_neg hn]⟩
      by_contra h
      exact hfail ⟨fun h0 => h (.inl h0), fun ha => h (.inr ha)⟩

/-- **Every event** keeps at most one write in flight, of a message still queued. -/
theorem step_exclusive (s : Conn) (e : Event) (h : s.send.Exclusive) : (s.step e).send.Exclusive := by
  cases e with
  | readDone i ec data up => exact (s.readDone_sends i ec data up).exclusive h
  | waitDone i ec up => exact (s.waitDone_sends i ec up).exclusive h
  | upper call => exact (s.upperCall_sends call).exclusive h
  | writeDone i ec n up =>
    cases hop : s.send.writes[i]? with
    | none =>
      rw [step, writeDone, hop]
      exact h
    | some op =>
      have hi : i < s.send.writes.length := (List.getElem?_eq_some_iff.mp hop).1
      have hstalled := Sender.complete_stalled h hi
      rcases writeDone_sends ec up hop n with ⟨-, -, hpop⟩ | hsends
      · rw [step, hpop]
        exact Sender.pop_exclusive hstalled.writes
      · exact (hsends.stalled hstalled).1.exclusive

/-- **Nothing** starts a write on a connection that has stalled. -/
theorem step_stalled (s : Conn) (e : Event) (h : s.send.Stalled) :
    (s.step e).send.Stalled ∧ (s.step e).send.written = s.send.written := by
  cases e with
  | readDone i ec data up => exact (s.readDone_sends i ec data up).stalled h
  | waitDone i ec up => exact (s.waitDone_sends i ec up).stalled h
  | upper call => exact (s.upperCall_sends call).stalled h
  | writeDone i ec n up =>
    rw [step, writeDone, h.writes]
    exact ⟨h, rfl⟩

variable (up) in
/-- A failed write stalls the connection. -/
theorem failed_stalled (n : Nat) (h : s.send.Exclusive) (hi : i < s.send.writes.length)
    (h0 : ec.value ≠ 0) (ha : ec.value ≠ operationAborted) :
    (s.writeDone i ec n up).send.Stalled ∧ (s.writeDone i ec n up).send.written = s.send.written := by
  have hop := List.getElem?_eq_getElem hi
  rcases writeDone_sends ec up hop n with ⟨hok, -, -⟩ | hsends
  · rcases hok with hok | hok
    · exact absurd hok h0
    · exact absurd hok ha
  · exact hsends.stalled (Sender.complete_stalled h hi)

end Conn

/-! ## Runs -/

theorem run_stalled (s : Conn) (es : List Conn.Event) (h : s.send.Stalled) :
    (run Conn.step s es).send.written = s.send.written := by
  refine (run_history (J := fun _ (t : Conn) => t.send.Stalled ∧ t.send.written = s.send.written)
    ⟨h, rfl⟩ ?_ es).2
  rintro _ t e ⟨ht, hw⟩
  obtain ⟨ht', hw'⟩ := t.step_stalled e ht
  exact ⟨ht', hw'.trans hw⟩

theorem run_exclusive (s : Conn) (es : List Conn.Event) (h : s.send.Exclusive) :
    (run Conn.step s es).send.Exclusive :=
  run_history (J := fun _ (t : Conn) => t.send.Exclusive) h (fun _ t e ht => t.step_exclusive e ht) es

theorem start_exclusive (kind : ConnKind) (socketStr : String) (padding : Nat → Padding) (slack : Nat) :
    (Conn.start kind socketStr padding slack).send.Exclusive := by
  have hsend : (Conn.start kind socketStr padding slack).send = ⟨[], [], [], []⟩ :=
    (Conn.doReceiveMessage_frame _).send
  rw [hsend]
  exact ⟨Nat.zero_le 1, fun op hop => by cases hop⟩

/-- **One write at a time.** Whatever the reads, timers, completed writes and calls of the upper layer,
at most one `async_write` is in flight and what it writes is still queued; and once a write in flight
has completed with an error other than `operation_aborted`, nothing is written any more. -/
theorem async_write_exclusive (kind : ConnKind) (socketStr : String) (padding : Nat → Padding)
    (slack : Nat) (es : List Conn.Event) :
    (run Conn.step (Conn.start kind socketStr padding slack) es).send.Exclusive ∧
    ∀ es₁ i ec n up es₂, es = es₁ ++ .writeDone i ec n up :: es₂ →
      i < (run Conn.step (Conn.start kind socketStr padding slack) es₁).send.writes.length →
      ec.value ≠ 0 → ec.value ≠ operationAborted →
      (run Conn.step (Conn.start kind socketStr padding slack) es).send.written =
        (run Conn.step (Conn.start kind socketStr padding slack) es₁).send.written := by
  have hstart := start_exclusive kind socketStr padding slack
  refine ⟨run_exclusive _ es hstart, ?_⟩
  rintro es₁ i ec n up es₂ rfl hi h0 ha
  have hfailed := Conn.failed_stalled up n (run_exclusive _ es₁ hstart) hi h0 ha
  rw [run_append]
  exact (run_stalled _ es₂ hfailed.1).trans hfailed.2

/-- The write fails, the upper layer sends from its callback and once more later: neither is written. -/
theorem async_write_exclusive_pipe :
    let s := Conn.start .client "10.0.0.1:80" (fun _ => ⟨[0, 0, 0], rfl⟩) 0
    (run Conn.step s [.upper (.send [1]), .writeDone 0 ⟨32, "Broken pipe"⟩ 0 [.send [2]],
        .upper (.send [3])]).send.written =
      (run Conn.step s [.upper (.send [1])]).send.written :=
  (async_write_exclusive _ _ _ _ _).2 [_] 0 _ 0 [_] [_] rfl (by decide) (by decide) (by decide)

end Thallium.Network
