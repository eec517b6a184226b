import Thallium.Network.Link

/-!
# What the upper layer hears and says (network/connection.cpp:65-95, connection.hpp:169-182)

Of all that happens to a connection the upper layer is told little: the messages read, in
`upper_layer_callback`, and some events. What it asks for it asks for in these calls.

| here | there |
| --- | --- |
| `given?`      | the call of `upper_layer_callback` in `when_payload_received` (connection.cpp:87-90) |
| `said`        | not in the source: the messages `do_send_message` was called with |
| `Quiet`       | no message is read; an upper layer that ignores all events, as `BasicModel::event` does (behavior.hpp:44) |

* `readDone_given` — a message that is read.
* `step_quiet` — all other events.
-/
namespace Thallium.Network
open Message Serializer

namespace Conn

/-- What `upper_layer_callback` is called with when a read completes. -/
def given? (s : Conn) (i : Nat) (ec : ErrorCode) (data : List UInt8) : Option (List UInt8) :=
  match s.recv.reads[i]? with
  | some ⟨.payload length, size, cancelled⟩ =>
    let s' := s.readCompleted i ⟨.payload length, size, cancelled⟩ data
    if (ec.value ≠ 0 ∧ ec.value ≠ operationAborted) ∨ data.length < length then none
    else if s'.isOpen then some (s'.recv.receiveBuffer.data.take length) else none
  | some ⟨.header, _, _⟩ | none => none

def UpperCall.message? : UpperCall → Option (List UInt8)
  | .send msg => some msg
  | .disconnect => none

def said (s : Conn) : List (List UInt8) := messages s.send.enqueued

/-- An event the model is not told of. -/
def Quiet (s : Conn) : Event → Prop
  | .readDone i ec data up => s.given? i ec data = none ∧ up = []
  | .writeDone _ _ _ up | .waitDone _ _ up => up = []
  | .upper _ => False

section Said
variable {s s' : Conn} {i : Nat} {ec : ErrorCode} {data : List UInt8} {up : List UpperCall}

theorem said_of_eq (h : s'.send.enqueued = s.send.enqueued) : s'.said = s.said := by
  rw [said, h, said]

@[simp] theorem socketClose_enqueued (s : Conn) : s.socketClose.send.enqueued = s.send.enqueued := by
  unfold socketClose
  split
  · rfl
  · rfl

@[simp] theorem connectionClose_enqueued (s : Conn) : s.connectionClose.send.enqueued = s.send.enqueued := by
  unfold connectionClose
  split
  · exact s.socketClose_enqueued
  · exact s.socketClose_enqueued
  · exact s.heartbeatStop.socketClose_enqueued
  · exact s.heartbeatStop.socketClose_enqueued

theorem upperCall_said (s : Conn) (call : UpperCall) :
    (s.upperCall call).said = s.said ++ call.message?.toList := by
  cases call with
  | send msg =>
    rw [said, upperCall, doSendMessage]
    simp only [Sender.push_enqueued]
    rw [messages_append]
    rfl
  | disconnect =>
    rw [UpperCall.message?, Option.toList_none, List.append_nil]
    exact said_of_eq (connectionClose_enqueued _)

/-- What the upper layer asks for. -/
theorem upperCalls_said (s : Conn) (up : List UpperCall) :
    (up.foldl upperCall s).said = s.said ++ up.filterMap UpperCall.message? := by
  induction up generalizing s with
  | nil => exact (List.append_nil _).symm
  | cons call up ih =>
    rw [List.foldl_cons, ih, upperCall_said, List.append_assoc]
    cases h : call.message? with
    | none => rw [List.filterMap_cons_none h, Option.toList_none, List.nil_append]
    | some msg => rw [List.filterMap_cons_some h, Option.toList_some, List.singleton_append]

theorem doReceiveMessage_said (s : Conn) : s.doReceiveMessage.said = s.said :=
  said_of_eq (by rw [s.doReceiveMessage_frame.send])

/-- An event that nobody reacts to. -/
theorem notify_said (s : Conn) (e : ConnectionEvent) :
    (s.connectionClose.upperLayerEventCallback e []).said = s.said :=
  said_of_eq (connectionClose_enqueued s)

/-- **A message is given to the upper layer**, which may ask for something. -/
theorem readDone_given {msg : List UInt8} (h : s.given? i ec data = some msg) (up : List UpperCall) :
    (s.readDone i ec data up).recv.delivered = s.recv.delivered ++ [msg] ∧
      (s.readDone i ec data up).said = s.said ++ up.filterMap UpperCall.message? := by
  rw [given?] at h
  cases hop : s.recv.reads[i]? with
  | none =>
    rw [hop] at h
    cases h
  | some op =>
    obtain ⟨target, size, cancelled⟩ := op
    rw [hop] at h
    cases target with
    | header => cases h
    | payload length =>
      simp only at h
      have hdelivered := (readCompleted_frame s i ⟨.payload length, size, cancelled⟩ data).delivered
      have hsend := readCompleted_send s i ⟨.payload length, size, cancelled⟩ data
      rw [readDone_payload hop rfl]
      split at h
      · cases h
      · rename_i hok
        split at h
        · rename_i hopen
          cases h
          simp only [if_neg hok, if_pos hopen]
          refine ⟨?_, ?_⟩
          · rw [(doReceiveMessage_frame _).delivered, (upperLayerCallback_effect _ length up).delivered]
            simp only [hdelivered]
          · rw [doReceiveMessage_said, upperLayerCallback, upperCalls_said]
            exact congrArg (· ++ _) (said_of_eq (by rw [hsend]))
        · cases h

/-- A message that is all there, and fits the buffer. -/
theorem given?_body (hopen : s.isOpen = true) (hsize : s.recv.receiveBuffer.data.length = bufferSize)
    {body : List UInt8} (hreads : s.recv.reads = [⟨.payload body.length, body.length, false⟩])
    (hle : body.length ≤ bufferSize) : s.given? 0 success body = some body := by
  have hop : s.recv.reads[0]? = some ⟨.payload body.length, body.length, false⟩ := by rw [hreads]; rfl
  have hopen' : (s.readCompleted 0 ⟨.payload body.length, body.length, false⟩ body).isOpen = true := hopen
  have hok : ¬ (((success.value ≠ 0) ∧ success.value ≠ operationAborted) ∨ body.length < body.length) := by
    simp [success]
  have hbuf : (s.readCompleted 0 ⟨.payload body.length, body.length, false⟩ body).recv.receiveBuffer =
      s.recv.receiveBuffer.fill body := rfl
  have hfit : 0 + body.length ≤ s.recv.receiveBuffer.data.length := by omega
  have htaken := take_copyTo hfit
  rw [Nat.zero_add] at htaken
  have htake : (s.recv.receiveBuffer.fill body).data.take body.length = body := by
    simp only [ReceiveBuffer.fill, List.take_of_length_le (hle.trans_eq hsize.symm), htaken]
    rfl
  rw [given?, hop]
  simp only [if_neg hok, hopen', if_true, hbuf, htake]

/-- **A read that gives it nothing.** -/
theorem readDone_silent (h : s.given? i ec data = none) :
    (s.readDone i ec data []).recv.delivered = s.recv.delivered ∧ (s.readDone i ec data []).said = s.said := by
  rw [given?] at h
  cases hop : s.recv.reads[i]? with
  | none =>
    rw [readDone, hop]
    exact ⟨rfl, rfl⟩
  | some op =>
    obtain ⟨target, size, cancelled⟩ := op
    rw [hop] at h
    have hdelivered := (readCompleted_frame s i ⟨target, size, cancelled⟩ data).delivered
    have hsaid : (s.readCompleted i ⟨target, size, cancelled⟩ data).said = s.said :=
      said_of_eq (by rw [readCompleted_send])
    cases target with
    | header =>
      rw [readDone_header hop rfl]
      generalize s.readCompleted i ⟨.header, size, cancelled⟩ data = s' at hdelivered hsaid
      rw [← hdelivered, ← hsaid]
      simp only
      split
      · split
        · exact ⟨s'.parsed_frame.delivered, said_of_eq (by rw [s'.parsed_frame.send])⟩
        · exact ⟨rfl, rfl⟩
      · split
        · exact ⟨rfl, rfl⟩
        · split
          · exact ⟨(notify_effect s' .close []).2.2.2.2, notify_said s' .close⟩
          · exact ⟨connectionClose_delivered s', said_of_eq (connectionClose_enqueued s')⟩
    | payload length =>
      simp only at h
      rw [readDone_payload hop rfl]
      generalize s.readCompleted i ⟨.payload length, size, cancelled⟩ data = s' at hdelivered hsaid h
      rw [← hdelivered, ← hsaid]
      simp only
      split at h
      · rename_i hfail
        rw [if_pos hfail]
        exact ⟨connectionClose_delivered s', said_of_eq (connectionClose_enqueued s')⟩
      · rename_i hok
        split at h
        · cases h
        · rename_i hclosed
          rw [if_neg hok, if_neg hclosed]
          exact ⟨s'.doReceiveMessage_frame.delivered, s'.doReceiveMessage_said⟩

/-- **An event the model is not told of** gives it nothing and makes it say nothing. -/
theorem step_quiet {e : Event} (hkind : s.kind ≠ .clientWithHeartbeat) (h : s.Quiet e) :
    (s.step e).recv.delivered = s.recv.delivered ∧ (s.step e).said = s.said := by
  cases e with
  | upper call => cases h
  | readDone i ec data up =>
    obtain ⟨hnone, rfl⟩ := h
    exact readDone_silent hnone
  | writeDone i ec n up =>
    obtain rfl : up = [] := h
    cases hop : s.send.writes[i]? with
    | none =>
      rw [step, writeDone, hop]
      exact ⟨rfl, rfl⟩
    | some op =>
      rw [step, writeDone_eq hop]
      simp only
      split
      · exact ⟨(notify_effect { s with send := s.send.complete i } .pipe []).2.2.2.2,
          notify_said { s with send := s.send.complete i } .pipe⟩
      · split
        · exact ⟨rfl, rfl⟩
        · exact ⟨rfl, said_of_eq (Sender.pop_enqueued _)⟩
  | waitDone i ec up =>
    obtain rfl : up = [] := h
    cases hop : s.waits[i]? with
    | none =>
      rw [step, waitDone, hop]
      exact ⟨rfl, rfl⟩
    | some op =>
      rw [step]
      by_cases hserver : s.kind = .serverWithHeartbeat
      · rw [waitDone_server hop hserver]
        simp only
        split
        · exact ⟨(notify_effect { s with waits := s.waits.eraseIdx i } .timeout []).2.2.2.2,
            notify_said { s with waits := s.waits.eraseIdx i } .timeout⟩
        · exact ⟨rfl, rfl⟩
      · rw [waitDone_other hop hserver hkind]
        exact ⟨rfl, rfl⟩

end Said
end Conn

/-- All that a connection without a heartbeat to send has queued are messages. -/
theorem length_messages {kind : ConnKind} {bs : List BufferSequence} (h : ∀ b ∈ bs, IsFrame kind b.bufs)
    (hkind : kind ≠ .clientWithHeartbeat) : (messages bs).length = bs.length := by
  induction bs with
  | nil => rfl
  | cons b bs ih =>
    obtain ⟨hb, hbs⟩ := List.forall_mem_cons.mp h
    have hmsg : ∃ msg, b.message? = some msg := by
      obtain ⟨ident, bufs⟩ := b
      cases hb with
      | heartbeat hk => exact absurd hk hkind
      | message padding msg => exact ⟨msg, rfl⟩
    obtain ⟨msg, hmsg⟩ := hmsg
    rw [messages, List.filterMap_cons_some hmsg, List.length_cons, List.length_cons, ← ih hbs]
    rfl

end Thallium.Network
