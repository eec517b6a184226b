import Thallium.Network.Events

/-!
# The heartbeat timer (network/heartbeat.cpp, network/connection.cpp:227-275, :299-328)

`expires_from_now` and `cancel` reach the waits whose time is not up. A wait whose time is up has its
handler queued; that handler runs with a success whatever happens to the timer in between, and neither
`when_timeout` nor `send_and_reset` looks at anything but the error code.

| here | there |
| --- | --- |
| `Timed`, `Timer`      | a connection; not in the source: for each wait of the timer, how many heartbeats had been processed when it was armed and when its handler was queued |
| `TimedEvent.expire`   | the time of a wait is up: its handler is queued |
| `heartbeatProcessed`  | `header_parser` finds a heartbeat (connection.cpp:234-241) |
| `Ticks`               | `send_and_reset` with a success (heartbeat.cpp:51-57) |

* `step_cases` — an event processes a heartbeat, or ticks, or leaves the timer unarmed.
* `step_timers` — what each wait has to do with the heartbeats processed.
* `eachStep_timeoutJustified_iff`, `eachStep_quietAfterClose_iff` — the exact conditions.
-/
namespace Thallium.Network
open Message Serializer EventRun

/-! ## What an event does to the waits -/

/-- `timer.cancel()` on the waits of a timer. -/
def cancelWaits (ws : List WaitOp) : List WaitOp := ws.map fun _ => ⟨true⟩

/-- What is left of a list kept beside the waits once the completed one is gone. -/
def remaining {α : Type} (l : List α) : Conn.Event → List α
  | .waitDone i _ _ => l.eraseIdx i
  | _ => l

/-- What `send_heartbeat` pushes. -/
def BufferSequence.IsHeartbeat (b : BufferSequence) : Prop :=
  ∃ pad, b.bufs = [headerToString pad ⟨HeaderMessageType.heartbeat.value, 0⟩]

namespace Conn

/-- `header_parser` meets a heartbeat on a connection that watches for them. -/
def heartbeatProcessed (s : Conn) : Event → Bool
  | .readDone i ec data _ =>
    match s.recv.reads[i]? with
    | none => false
    | some op =>
      op.target == .header && ec.value == 0 && s.isOpen && s.kind == .serverWithHeartbeat &&
        HeaderMessageType.ofByte? (stringToHeader (s.readCompleted i op data).recv.headerBuffer).msgType ==
          some .heartbeat
  | _ => false

/-- `send_and_reset` runs with a success. -/
def Ticks (s : Conn) : Event → Prop
  | .waitDone i ec _ => s.kind = .clientWithHeartbeat ∧ i < s.waits.length ∧ ec.value = 0
  | _ => False

/-- How many waits an event arms. -/
def armed (s : Conn) (e : Event) : Nat := (s.step e).waits.length - (remaining s.waits e).length

/-- The timer is left alone or stopped, and no heartbeat is pushed. -/
structure Quietly (s s' : Conn) : Prop where
  kind : s'.kind = s.kind
  waits : s'.waits = s.waits ∨ s'.waits = cancelWaits s.waits
  pushed : ∃ new, s'.send.enqueued = s.send.enqueued ++ new ∧ ∀ b ∈ new, ¬ b.IsHeartbeat

section Quiet
variable {s s' s'' : Conn} {i : Nat} {ec : ErrorCode} {up : List UpperCall}

theorem cancelWaits_idem (ws : List WaitOp) : cancelWaits (cancelWaits ws) = cancelWaits ws := by
  simp [cancelWaits]

theorem quietly_of_eq (hk : s'.kind = s.kind) (hw : s'.waits = s.waits)
    (hs : s'.send.enqueued = s.send.enqueued) : Quietly s s' :=
  ⟨hk, .inl hw, [], by rw [hs, List.append_nil], fun b hb => by cases hb⟩

/-- The other fields of the state before do not matter. -/
theorem Quietly.of_eq (h : Quietly s' s'') (hk : s'.kind = s.kind) (hw : s'.waits = s.waits)
    (hs : s'.send.enqueued = s.send.enqueued) : Quietly s s'' :=
  ⟨h.kind.trans hk, hw ▸ h.waits, hs ▸ h.pushed⟩

theorem Quietly.trans (h : Quietly s s') (h' : Quietly s' s'') : Quietly s s'' := by
  obtain ⟨new, hnew, hq⟩ := h.pushed
  obtain ⟨new', hnew', hq'⟩ := h'.pushed
  refine ⟨h'.kind.trans h.kind, ?_, new ++ new', ?_, ?_⟩
  · rcases h'.waits with hw' | hw'
    · rw [hw']
      exact h.waits
    · rcases h.waits with hw | hw
      · exact .inr (by rw [hw', hw])
      · exact .inr (by rw [hw', hw, cancelWaits_idem])
  · rw [hnew', hnew, List.append_assoc]
  · intro b hb
    rcases List.mem_append.mp hb with hb | hb
    · exact hq b hb
    · exact hq' b hb

theorem socketClose_quietly (s : Conn) : Quietly s s.socketClose := by
  unfold socketClose
  split
  · exact quietly_of_eq rfl rfl rfl
  · exact quietly_of_eq rfl rfl rfl

theorem connectionClose_quietly (s : Conn) : Quietly s s.connectionClose := by
  have hstop : Quietly s s.heartbeatStop := ⟨rfl, .inr rfl, [], by simp [heartbeatStop], fun b hb => by cases hb⟩
  unfold connectionClose
  split
  · exact s.socketClose_quietly
  · exact s.socketClose_quietly
  · exact hstop.trans s.heartbeatStop.socketClose_quietly
  · exact hstop.trans s.heartbeatStop.socketClose_quietly

/-- A message has two buffers, a heartbeat has one. -/
theorem doSendMessage_quietly (s : Conn) (msg : List UInt8) : Quietly s (s.doSendMessage msg) := by
  refine ⟨rfl, .inl rfl, _, Sender.push_enqueued _ _, ?_⟩
  intro b hb
  rw [List.mem_singleton] at hb
  rintro ⟨pad, hpad⟩
  rw [hb] at hpad
  simp at hpad

theorem upperCall_quietly (s : Conn) (call : UpperCall) : Quietly s (s.upperCall call) := by
  cases call with
  | send msg =>
    exact (doSendMessage_quietly { s with sentAfterClose := s.sentAfterClose || !s.isOpen } msg).of_eq
      rfl rfl rfl
  | disconnect =>
    exact (connectionClose_quietly { s with disconnected := s.disconnected || s.isOpen }).of_eq rfl rfl rfl

theorem upperCalls_quietly (up : List UpperCall) (s : Conn) : Quietly s (up.foldl upperCall s) := by
  induction up generalizing s with
  | nil => exact quietly_of_eq rfl rfl rfl
  | cons call up ih => exact (s.upperCall_quietly call).trans (ih _)

theorem notify_quietly (s : Conn) (e : ConnectionEvent) (up : List UpperCall) :
    Quietly s (s.connectionClose.upperLayerEventCallback e up) := by
  have hup := upperCalls_quietly up { s.connectionClose with events := s.connectionClose.events ++ [e] }
  exact s.connectionClose_quietly.trans (hup.of_eq rfl rfl rfl)

theorem upperLayerCallback_quietly (s : Conn) (length : Nat) (up : List UpperCall) :
    Quietly s (s.upperLayerCallback length up) := by
  have hup := upperCalls_quietly up { s with
    recv.delivered := s.recv.delivered ++ [s.recv.receiveBuffer.data.take length] }
  exact hup.of_eq rfl rfl rfl

theorem doReceiveMessage_quietly (s : Conn) : Quietly s s.doReceiveMessage := by
  unfold doReceiveMessage
  split
  · exact quietly_of_eq rfl rfl rfl
  · exact quietly_of_eq rfl rfl rfl

theorem doReceivePayload_quietly (s : Conn) (length : Nat) : Quietly s (s.doReceivePayload length) := by
  unfold doReceivePayload
  split
  · exact quietly_of_eq rfl rfl rfl
  · exact quietly_of_eq rfl rfl rfl

theorem readCompleted_quietly (s : Conn) (i : Nat) (op : ReadOp) (data : List UInt8) :
    Quietly s (s.readCompleted i op data) := by
  unfold readCompleted
  cases op.target with
  | header => exact quietly_of_eq rfl rfl rfl
  | payload length => exact quietly_of_eq rfl rfl rfl

/-- Parsing a header sets the timer again if it is a heartbeat the connection watches for. -/
theorem parsed_quietly (s : Conn)
    (h : ¬ (s.kind = .serverWithHeartbeat ∧
      HeaderMessageType.ofByte? (stringToHeader s.recv.headerBuffer).msgType = some .heartbeat)) :
    Quietly s s.parsed := by
  unfold parsed
  simp only
  split
  · exact s.doReceivePayload_quietly _
  · rename_i ht hk
    exact absurd ⟨hk, ht⟩ h
  all_goals exact quietly_of_eq rfl rfl rfl

theorem parsed_heartbeat (s : Conn) (hk : s.kind = .serverWithHeartbeat)
    (ht : HeaderMessageType.ofByte? (stringToHeader s.recv.headerBuffer).msgType = some .heartbeat) :
    s.parsed = s.timerReset.doReceiveMessage := by
  unfold parsed
  simp only [ht, hk]

/-- A header read on a connection, when it is not a heartbeat the connection watches for. -/
theorem readDone_quietly {data : List UInt8} (h : s.heartbeatProcessed (.readDone i ec data up) = false) :
    Quietly s (s.readDone i ec data up) := by
  cases hop : s.recv.reads[i]? with
  | none =>
    rw [readDone, hop]
    exact quietly_of_eq rfl rfl rfl
  | some op =>
    refine (s.readCompleted_quietly i op data).trans ?_
    obtain ⟨hopen, hkind, -⟩ := readCompleted_frame s i op data
    cases ht : op.target with
    | header =>
      rw [readDone_header hop ht]
      simp only [heartbeatProcessed, hop, ht] at h
      rw [← hopen, ← hkind] at h
      generalize s.readCompleted i op data = s' at h ⊢
      simp only
      split
      · rename_i h0
        split
        · rename_i ho
          apply parsed_quietly
          rintro ⟨hk, hb⟩
          simp [h0, ho, hk, hb] at h
        · exact quietly_of_eq rfl rfl rfl
      · split
        · exact quietly_of_eq rfl rfl rfl
        · split
          · exact s'.notify_quietly _ _
          · exact s'.connectionClose_quietly
    | payload length =>
      rw [readDone_payload hop ht]
      generalize s.readCompleted i op data = s'
      simp only
      split
      · exact s'.connectionClose_quietly
      · refine Quietly.trans ?_ (doReceiveMessage_quietly _)
        split
        · exact s'.upperLayerCallback_quietly length up
        · exact quietly_of_eq rfl rfl rfl

theorem readDone_heartbeat {data : List UInt8} (h : s.heartbeatProcessed (.readDone i ec data up) = true) :
    s.isOpen = true ∧ s.kind = .serverWithHeartbeat ∧ (s.readDone i ec data up).kind = s.kind ∧
      (s.readDone i ec data up).waits = cancelWaits s.waits ++ [⟨false⟩] := by
  cases hop : s.recv.reads[i]? with
  | none =>
    simp [heartbeatProcessed, hop] at h
  | some op =>
    simp only [heartbeatProcessed, hop, Bool.and_eq_true, beq_iff_eq] at h
    obtain ⟨⟨⟨⟨ht, h0⟩, ho⟩, hk⟩, hb⟩ := h
    obtain ⟨hopen, hkind, -⟩ := readCompleted_frame s i op data
    have hwaits : (s.readCompleted i op data).waits = s.waits := by
      unfold readCompleted
      cases op.target <;> rfl
    refine ⟨ho, hk, ?_⟩
    rw [readDone_header hop ht]
    simp only [h0, if_true, hopen, ho]
    rw [parsed_heartbeat _ (hkind.trans hk) hb, ← hkind, ← hwaits]
    unfold doReceiveMessage
    split <;> exact ⟨rfl, rfl⟩

theorem writeDone_quietly (s : Conn) (i : Nat) (ec : ErrorCode) (n : Nat) (up : List UpperCall) :
    Quietly s (s.writeDone i ec n up) := by
  cases hop : s.send.writes[i]? with
  | none =>
    rw [writeDone, hop]
    exact quietly_of_eq rfl rfl rfl
  | some op =>
    rw [writeDone_eq hop]
    simp only
    split
    · exact (notify_quietly { s with send := s.send.complete i } _ _).of_eq rfl rfl rfl
    · split
      · exact quietly_of_eq rfl rfl rfl
      · exact quietly_of_eq rfl rfl (Sender.pop_enqueued _)

theorem waitDone_quietly (h : ¬ s.Ticks (.waitDone i ec up)) :
    Quietly { s with waits := s.waits.eraseIdx i } (s.waitDone i ec up) := by
  cases hop : s.waits[i]? with
  | none =>
    rw [waitDone, hop]
    exact quietly_of_eq rfl (List.eraseIdx_of_length_le (List.getElem?_eq_none_iff.mp hop)).symm rfl
  | some op =>
    by_cases hserver : s.kind = .serverWithHeartbeat
    · rw [waitDone_server hop hserver]
      simp only
      split
      · exact notify_quietly { s with waits := s.waits.eraseIdx i } _ _
      · exact quietly_of_eq rfl rfl rfl
    · by_cases hclient : s.kind = .clientWithHeartbeat
      · have h0 : ¬ ec.value = 0 := fun h0 => h ⟨hclient, (List.getElem?_eq_some_iff.mp hop).1, h0⟩
        rw [waitDone_client hop hclient]
        simp only [if_neg h0]
        exact connectionClose_quietly { s with waits := s.waits.eraseIdx i }
      · rw [waitDone_other hop hserver hclient]
        exact quietly_of_eq rfl rfl rfl

theorem waitDone_ticks (h : s.Ticks (.waitDone i ec up)) :
    (s.waitDone i ec up).kind = s.kind ∧
      (s.waitDone i ec up).waits = cancelWaits (s.waits.eraseIdx i) ++ [⟨false⟩] ∧
      ∃ b : BufferSequence, b.IsHeartbeat ∧
        (s.waitDone i ec up).send.enqueued = s.send.enqueued ++ [b] := by
  obtain ⟨hk, hi, h0⟩ := h
  rw [waitDone_client (List.getElem?_eq_getElem hi) hk]
  simp only [h0, if_true]
  exact ⟨rfl, rfl, _, ⟨_, rfl⟩, Sender.push_enqueued _ _⟩

/-- **What an event can do to the timer**: a heartbeat read or a tick sets it again, all others leave it
alone or stop it. -/
theorem step_cases (s : Conn) (e : Event) :
    (s.heartbeatProcessed e = true ∧ s.isOpen = true ∧ s.kind = .serverWithHeartbeat ∧
        (s.step e).kind = s.kind ∧ (s.step e).waits = cancelWaits (remaining s.waits e) ++ [⟨false⟩]) ∨
      (s.Ticks e ∧ s.heartbeatProcessed e = false ∧
        (s.step e).kind = s.kind ∧ (s.step e).waits = cancelWaits (remaining s.waits e) ++ [⟨false⟩] ∧
        ∃ b : BufferSequence, b.IsHeartbeat ∧ (s.step e).send.enqueued = s.send.enqueued ++ [b]) ∨
      (s.heartbeatProcessed e = false ∧ ¬ s.Ticks e ∧
        Quietly { s with waits := remaining s.waits e } (s.step e)) := by
  cases e with
  | readDone i ec data up =>
    cases hp : s.heartbeatProcessed (.readDone i ec data up) with
    | true =>
      obtain ⟨ho, hk, hk', hw⟩ := readDone_heartbeat hp
      exact .inl ⟨rfl, ho, hk, hk', hw⟩
    | false => exact .inr (.inr ⟨rfl, id, readDone_quietly hp⟩)
  | writeDone i ec n up => exact .inr (.inr ⟨rfl, id, s.writeDone_quietly i ec n up⟩)
  | upper call => exact .inr (.inr ⟨rfl, id, s.upperCall_quietly call⟩)
  | waitDone i ec up =>
    by_cases ht : s.Ticks (.waitDone i ec up)
    · obtain ⟨hk, hw, hb⟩ := waitDone_ticks ht
      exact .inr (.inl ⟨ht, rfl, hk, hw, hb⟩)
    · exact .inr (.inr ⟨rfl, ht, waitDone_quietly ht⟩)

end Quiet
end Conn

/-! ## The timer beside the connection -/

/-- One wait: the heartbeats processed when it was armed, and when its handler was queued, if it was. -/
structure Timer where
  armedAt : Nat
  queuedAt : Option Nat
  deriving DecidableEq

/-- `timers` goes along with `conn.waits`. -/
structure Timed where
  conn : Conn
  timers : List Timer
  heartbeats : Nat

inductive TimedEvent where
  | expire (i : Nat)
  | conn (e : Conn.Event)

namespace Timed

def start (kind : ConnKind) (socketStr : String) (padding : Nat → Padding) (slack : Nat) : Timed :=
  let conn := Conn.start kind socketStr padding slack
  ⟨conn, conn.waits.map fun _ => ⟨0, none⟩, 0⟩

def step (t : Timed) : TimedEvent → Timed
  | .expire i =>
    match t.timers[i]? with
    | none => t
    | some timer =>
      { t with timers := t.timers.set i { timer with queuedAt := some t.heartbeats } }
  | .conn e =>
    let heartbeats := t.heartbeats + (t.conn.heartbeatProcessed e).toNat
    { conn := t.conn.step e
      timers := remaining t.timers e ++ List.replicate (t.conn.armed e) ⟨heartbeats, none⟩
      heartbeats := heartbeats }

/-- The result with which the handler of a wait runs: a success if it was queued; else an error, and
`operation_aborted` just when the wait was cancelled. -/
def Result (timer : Timer) (op : WaitOp) (ec : ErrorCode) : Prop :=
  (ec.value = 0 ↔ timer.queuedAt ≠ none) ∧
    (timer.queuedAt = none → (ec.value = operationAborted ↔ op.cancelled = true))

/-- What Boost.Asio can do: the time of a wait is up once, if it was not cancelled before. -/
def Legal (t : Timed) : TimedEvent → Prop
  | .expire i => ∃ timer op, t.timers[i]? = some timer ∧ t.conn.waits[i]? = some op ∧
      timer.queuedAt = none ∧ op.cancelled = false
  | .conn e => t.conn.Legal e ∧
      ∀ i ec up, e = .waitDone i ec up → ∃ timer op, t.timers[i]? = some timer ∧
        t.conn.waits[i]? = some op ∧ Result timer op ec

/-! ## What the waits have to do with the heartbeats -/

/-- A wait that still runs was armed after the last heartbeat; one that is queued was so when no
heartbeat had come since it was armed. -/
def TimerOk (heartbeats : Nat) (timer : Timer) (op : WaitOp) : Prop :=
  (timer.queuedAt = none → op.cancelled = false → timer.armedAt = heartbeats) ∧
    ∀ q, timer.queuedAt = some q → timer.armedAt = q

structure Inv (kind : ConnKind) (t : Timed) : Prop where
  kind : t.conn.kind = kind
  timers : List.Forall₂ (TimerOk t.heartbeats) t.timers t.conn.waits

section Steps
variable {t : Timed} {kind : ConnKind}

theorem forall₂_remaining {α β : Type} {R : α → β → Prop} {as : List α} {bs : List β}
    (h : List.Forall₂ R as bs) (e : Conn.Event) : List.Forall₂ R (remaining as e) (remaining bs e) := by
  cases e with
  | waitDone i ec up => exact forall₂_eraseIdx h i
  | readDone i ec data up => exact h
  | writeDone i ec n up => exact h
  | upper call => exact h

/-- A cancelled wait no longer counts heartbeats. -/
theorem forall₂_cancelWaits {h h' : Nat} {timers : List Timer} {ws : List WaitOp}
    (ht : List.Forall₂ (TimerOk h) timers ws) : List.Forall₂ (TimerOk h') timers (cancelWaits ws) := by
  induction ht with
  | nil => exact .nil
  | cons hab _ ih => exact .cons ⟨fun _ hc => absurd hc (by simp), hab.2⟩ ih

/-- Setting the timer again. -/
theorem forall₂_rearmed {h h' : Nat} {timers : List Timer} {ws : List WaitOp}
    (ht : List.Forall₂ (TimerOk h) timers ws) :
    List.Forall₂ (TimerOk h') (timers ++ [⟨h', none⟩]) (cancelWaits ws ++ [⟨false⟩]) :=
  List.rel_append (forall₂_cancelWaits ht) (.cons ⟨fun _ _ => rfl, fun q hq => by cases hq⟩ .nil)

theorem armed_rearmed {s : Conn} {e : Conn.Event}
    (h : (s.step e).waits = cancelWaits (remaining s.waits e) ++ [⟨false⟩]) : s.armed e = 1 := by
  rw [Conn.armed, h]
  simp [cancelWaits]

theorem armed_quietly {s : Conn} {e : Conn.Event}
    (h : Conn.Quietly { s with waits := remaining s.waits e } (s.step e)) : s.armed e = 0 := by
  rw [Conn.armed]
  rcases h.waits with hw | hw <;> rw [hw] <;> simp [cancelWaits]

theorem step_timers (t : Timed) (e : TimedEvent) (h : t.Inv kind) (hl : t.Legal e) :
    (t.step e).Inv kind := by
  cases e with
  | expire i =>
    obtain ⟨timer, op, htimer, hop, hq, hc⟩ := hl
    have hok := forall₂_getElem? h.timers htimer hop
    simp only [step, htimer]
    refine ⟨h.kind, forall₂_set h.timers ?_⟩
    intro op' hop'
    refine ⟨fun hn => absurd hn (by simp), ?_⟩
    intro q hq'
    obtain rfl := Option.some.inj hq'
    exact hok.1 hq hc
  | conn e =>
    have hrest := forall₂_remaining h.timers e
    simp only [step]
    rcases t.conn.step_cases e with ⟨hp, -, -, hk, hw⟩ | ⟨-, hp, hk, hw, -⟩ | ⟨hp, -, hq⟩
    · refine ⟨hk.trans h.kind, ?_⟩
      simp only [hw, armed_rearmed hw]
      exact forall₂_rearmed hrest
    · refine ⟨hk.trans h.kind, ?_⟩
      simp only [hw, armed_rearmed hw]
      exact forall₂_rearmed hrest
    · refine ⟨hq.kind.trans h.kind, ?_⟩
      simp only [armed_quietly hq, List.replicate_zero, List.append_nil, hp, Bool.toNat_false, Nat.add_zero]
      rcases hq.waits with hw | hw
      · rw [hw]
        exact hrest
      · rw [hw]
        exact forall₂_cancelWaits hrest

theorem start_timers (kind : ConnKind) (socketStr : String) (padding : Nat → Padding) (slack : Nat) :
    (start kind socketStr padding slack).Inv kind := by
  unfold start Conn.start
  refine ⟨rfl, ?_⟩
  cases kind with
  | server | client => exact .nil
  | serverWithHeartbeat | clientWithHeartbeat =>
    exact .cons ⟨fun _ _ => rfl, fun q hq => by cases hq⟩ .nil

/-! ## Timeouts -/

/-- An event that reports a timeout runs the handler of a wait since whose arming no heartbeat has been
processed. -/
def TimeoutJustified (t : Timed) (e : TimedEvent) : Prop :=
  (t.step e).conn.events = t.conn.events ++ [.timeout] → ∃ i ec up timer,
    e = .conn (.waitDone i ec up) ∧ t.timers[i]? = some timer ∧ timer.armedAt = t.heartbeats

/-- No heartbeat has been processed since the expiry whose handler runs was queued. -/
def NoHeartbeatSinceQueued (t : Timed) (e : TimedEvent) : Prop :=
  ∀ i ec up timer q, e = .conn (.waitDone i ec up) → t.timers[i]? = some timer →
    timer.queuedAt = some q → q = t.heartbeats

/-- Only a successful wait of a connection that watches for heartbeats reports a timeout. -/
theorem reports_timeout_iff {s : Conn} {e : Conn.Event} (hl : s.Legal e) :
    (s.step e).events = s.events ++ [.timeout] ↔
      ∃ i ec up, e = .waitDone i ec up ∧ s.kind = .serverWithHeartbeat ∧ ec.value = 0 := by
  constructor
  · intro hev
    by_cases hn : s.Notifying e
    · obtain ⟨t, up, hevents, -, heq⟩ := Conn.notifying_eq s e hl hn
      rw [heq, (Conn.notify_effect t _ up).2.2.1, hevents, List.append_cancel_left_eq] at hev
      cases e with
      | waitDone i ec up => exact ⟨i, ec, up, rfl, hn⟩
      | readDone i ec data up => cases hev
      | writeDone i ec n up => cases hev
      | upper call => cases hev
    · by_cases hs : s.Silent e
      · rw [(Conn.step_silent s e hl hs).2.1] at hev
        exact absurd hev ne_concat
      · rw [(Conn.step_unnoticed s e hl hs hn).events] at hev
        exact absurd hev ne_concat
  · rintro ⟨i, ec, up, rfl, hk, h0⟩
    obtain ⟨t, up', hevents, -, heq⟩ := Conn.notifying_eq s (.waitDone i ec up) hl ⟨hk, h0⟩
    rw [heq, (Conn.notify_effect t _ up').2.2.1, hevents]
    rfl

theorem timeoutJustified_iff (t : Timed) (e : TimedEvent) (h : t.Inv .serverWithHeartbeat)
    (hl : t.Legal e) : t.TimeoutJustified e ↔ t.NoHeartbeatSinceQueued e := by
  constructor
  · rintro hjust i ec up timer q rfl htimer hq
    obtain ⟨hlc, hres⟩ := hl
    obtain ⟨timer', op, htimer', hop, hresult⟩ := hres i ec up rfl
    obtain rfl := Option.some.inj (htimer.symm.trans htimer')
    have h0 : ec.value = 0 := hresult.1.mpr (by rw [hq]; simp)
    obtain ⟨i', ec', up', timer', he, ht', harmed⟩ :=
      hjust ((reports_timeout_iff hlc).mpr ⟨i, ec, up, rfl, h.kind, h0⟩)
    obtain ⟨rfl, -, -⟩ : i = i' ∧ ec = ec' ∧ up = up' := by simpa using he
    obtain rfl := Option.some.inj (htimer.symm.trans ht')
    exact ((forall₂_getElem? h.timers htimer hop).2 q hq).symm.trans harmed
  · intro hfresh hev
    cases e with
    | expire i =>
      have hsame : (t.step (.expire i)).conn = t.conn := by
        simp only [step]
        split <;> rfl
      rw [hsame] at hev
      exact absurd hev ne_concat
    | conn e =>
      obtain ⟨hlc, hres⟩ := hl
      obtain ⟨i, ec, up, rfl, -, h0⟩ := (reports_timeout_iff hlc).mp hev
      obtain ⟨timer, op, htimer, hop, hresult⟩ := hres i ec up rfl
      obtain ⟨q, hq⟩ := Option.ne_none_iff_exists'.mp (hresult.1.mp h0)
      refine ⟨i, ec, up, timer, rfl, htimer, ?_⟩
      rw [(forall₂_getElem? h.timers htimer hop).2 q hq]
      exact hfresh i ec up timer q rfl htimer hq

/-- **Exact condition of a justified timeout.** From a connection just started that watches for
heartbeats, over any legal run, every timeout reported comes from a wait since whose arming no
heartbeat has been processed, **iff** no handler of the timer runs after a heartbeat that was processed
when the handler was already queued. -/
theorem eachStep_timeoutJustified_iff (socketStr : String) (padding : Nat → Padding) (slack : Nat)
    (es : List TimedEvent)
    (hl : EachStep step Legal (start .serverWithHeartbeat socketStr padding slack) es) :
    EachStep step TimeoutJustified (start .serverWithHeartbeat socketStr padding slack) es ↔
      EachStep step NoHeartbeatSinceQueued (start .serverWithHeartbeat socketStr padding slack) es :=
  eachStep_iff (fun s e h hl _ => step_timers s e h hl) timeoutJustified_iff (start_timers _ socketStr padding slack) hl

/-- A heartbeat comes and then none: the timer set by it expires. -/
theorem eachStep_timeoutJustified_silence :
    EachStep step TimeoutJustified
      (start .serverWithHeartbeat "10.0.0.1:80" (fun _ => ⟨[0, 0, 0], rfl⟩) 0)
      [.conn (.readDone 0 success [0, 0, 0, 0, 0, 0, 0, 0] []), .expire 1,
        .conn (.waitDone 1 success [])] := by
  rw [eachStep_timeoutJustified_iff]
  · refine ⟨(fun i ec up timer q he => by cases he), (fun i ec up timer q he => by cases he), ?_, trivial⟩
    intro i ec up timer q he htimer hq
    cases he
    obtain rfl := Option.some.inj htimer
    exact (Option.some.inj hq).symm
  · refine ⟨⟨⟨⟨.header, 8, false⟩, rfl, by decide, by decide, by decide⟩, fun i ec up he => by cases he⟩,
      ⟨⟨1, none⟩, ⟨false⟩, rfl, rfl, rfl, rfl⟩, ⟨⟨⟨false⟩, rfl, by decide⟩, ?_⟩, trivial⟩
    intro i ec up he
    cases he
    exact ⟨⟨1, some 1⟩, ⟨false⟩, rfl, rfl, by decide, by decide⟩

/-- The expiry is queued, a heartbeat comes, and the queued handler still reports the timeout. -/
theorem not_eachStep_timeoutJustified_stale :
    let t := start .serverWithHeartbeat "10.0.0.1:80" (fun _ => ⟨[0, 0, 0], rfl⟩) 0
    let es : List TimedEvent := [.expire 0, .conn (.readDone 0 success [0, 0, 0, 0, 0, 0, 0, 0] []),
      .conn (.waitDone 0 success [])]
    EachStep step Legal t es ∧ ¬ EachStep step TimeoutJustified t es := by
  refine ⟨?_, ?_⟩
  · refine ⟨⟨⟨0, none⟩, ⟨false⟩, rfl, rfl, rfl, rfl⟩,
      ⟨⟨⟨.header, 8, false⟩, rfl, by decide, by decide, by decide⟩, fun i ec up he => by cases he⟩,
      ⟨⟨⟨true⟩, rfl, by decide⟩, ?_⟩, trivial⟩
    intro i ec up he
    cases he
    exact ⟨⟨0, some 0⟩, ⟨true⟩, rfl, rfl, by decide, by decide⟩
  · rintro ⟨-, -, hlast, -⟩
    obtain ⟨i, ec, up, timer, he, htimer, harmed⟩ := hlast rfl
    cases he
    obtain rfl := Option.some.inj htimer
    exact absurd harmed (by decide)

/-! ## After the close -/

/-- No handler that runs on the closed connection pushes a heartbeat or sets the timer. -/
def QuietAfterClose (t : Timed) (e : TimedEvent) : Prop :=
  t.conn.isOpen = false → ∀ e', e = .conn e' → t.conn.armed e' = 0 ∧
    ∀ b ∈ (t.conn.step e').send.enqueued.drop t.conn.send.enqueued.length, ¬ b.IsHeartbeat

/-- No handler of the timer that was queued before runs on the closed connection. -/
def NoQueuedAfterClose (t : Timed) (e : TimedEvent) : Prop :=
  t.conn.isOpen = false → ∀ i ec up timer, e = .conn (.waitDone i ec up) →
    t.timers[i]? = some timer → timer.queuedAt = none

theorem quietAfterClose_iff (t : Timed) (e : TimedEvent) (h : t.Inv .clientWithHeartbeat)
    (hl : t.Legal e) : t.QuietAfterClose e ↔ t.NoQueuedAfterClose e := by
  cases e with
  | expire i =>
    exact ⟨(fun _ _ i ec up timer he => by cases he), (fun _ _ e' he => by cases he)⟩
  | conn e =>
    obtain ⟨hlc, hres⟩ := hl
    constructor
    · rintro hquiet hclosed i ec up timer he htimer
      obtain rfl := TimedEvent.conn.inj he
      obtain ⟨timer', op, htimer', hop, hresult⟩ := hres i ec up rfl
      obtain rfl := Option.some.inj (htimer.symm.trans htimer')
      by_contra hq
      -- the handler runs with a success, so it sets the timer again
      have htick : t.conn.Ticks (.waitDone i ec up) :=
        ⟨h.kind, (List.getElem?_eq_some_iff.mp hop).1, hresult.1.mpr hq⟩
      have harmed := armed_rearmed (s := t.conn) (e := .waitDone i ec up) (Conn.waitDone_ticks htick).2.1
      rw [(hquiet hclosed _ rfl).1] at harmed
      cases harmed
    · rintro hnone hclosed e' he
      obtain rfl := TimedEvent.conn.inj he
      rcases t.conn.step_cases e with ⟨-, ho, -⟩ | ⟨ht, -⟩ | ⟨-, -, hq⟩
      · rw [hclosed] at ho
        cases ho
      · cases e with
        | waitDone i ec up =>
          obtain ⟨timer, op, htimer, -, hresult⟩ := hres i ec up rfl
          exact absurd (hnone hclosed i ec up timer rfl htimer) (hresult.1.mp ht.2.2)
        | readDone i ec data up => exact absurd ht id
        | writeDone i ec n up => exact absurd ht id
        | upper call => exact absurd ht id
      · obtain ⟨new, hnew, hb⟩ := hq.pushed
        refine ⟨armed_quietly hq, ?_⟩
        rw [hnew, List.drop_left]
        exact hb

/-- **Exact condition of a quiet close.** From a connection just started that sends heartbeats, over any
legal run, no handler that runs on the closed connection pushes a heartbeat or sets the timer, **iff** no
handler of the timer that was queued before runs on it. -/
theorem eachStep_quietAfterClose_iff (socketStr : String) (padding : Nat → Padding) (slack : Nat)
    (es : List TimedEvent)
    (hl : EachStep step Legal (start .clientWithHeartbeat socketStr padding slack) es) :
    EachStep step QuietAfterClose (start .clientWithHeartbeat socketStr padding slack) es ↔
      EachStep step NoQueuedAfterClose (start .clientWithHeartbeat socketStr padding slack) es :=
  eachStep_iff (fun s e h hl _ => step_timers s e h hl) quietAfterClose_iff (start_timers _ socketStr padding slack) hl

/-- The upper layer closes a connection whose timer has not expired. -/
theorem eachStep_quietAfterClose_cancelled :
    EachStep step QuietAfterClose
      (start .clientWithHeartbeat "10.0.0.1:80" (fun _ => ⟨[0, 0, 0], rfl⟩) 0)
      [.conn (.upper .disconnect), .conn (.waitDone 0 ⟨operationAborted, "Operation canceled"⟩ [])] := by
  rw [eachStep_quietAfterClose_iff]
  · refine ⟨(fun _ i ec up timer he => by cases he), ?_, trivial⟩
    intro _ i ec up timer he htimer
    cases he
    obtain rfl := Option.some.inj htimer
    rfl
  · refine ⟨⟨trivial, fun i ec up he => by cases he⟩, ⟨⟨⟨true⟩, rfl, by decide⟩, ?_⟩, trivial⟩
    intro i ec up he
    cases he
    exact ⟨⟨0, none⟩, ⟨true⟩, rfl, rfl, by decide, by decide⟩

/-- The timer expires, the upper layer closes the connection, and the queued handler pushes a heartbeat
and sets the timer again. -/
theorem not_eachStep_quietAfterClose_queued :
    let t := start .clientWithHeartbeat "10.0.0.1:80" (fun _ => ⟨[0, 0, 0], rfl⟩) 0
    let es : List TimedEvent := [.expire 0, .conn (.upper .disconnect), .conn (.waitDone 0 success [])]
    EachStep step Legal t es ∧ ¬ EachStep step QuietAfterClose t es := by
  refine ⟨?_, ?_⟩
  · refine ⟨⟨⟨0, none⟩, ⟨false⟩, rfl, rfl, rfl, rfl⟩, ⟨trivial, fun i ec up he => by cases he⟩,
      ⟨⟨⟨true⟩, rfl, by decide⟩, ?_⟩, trivial⟩
    intro i ec up he
    cases he
    exact ⟨⟨0, some 0⟩, ⟨true⟩, rfl, rfl, by decide, by decide⟩
  · rintro ⟨-, -, hlast, -⟩
    exact absurd (hlast rfl _ rfl).1 (by decide)

end Steps
end Timed
end Thallium.Network
