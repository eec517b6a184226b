import Thallium.Lib.EventRun
import Thallium.Network.Connection

/-!
# The receive loop (network/connection.cpp:47-113, :210-297)

Each handler of the loop should either ask for the next read or close. Header types that a class
does not know break this: the server classes throw, the client classes forget to read on.

| here | there |
| --- | --- |
| `ConnKind.Knows`     | the `case` labels of the class's `header_parser` |
| `Conn.Receiving`     | not in the source: what the loop should keep |
| `Conn.Looping`       | not in the source: the invariant that carries it |

* `step_looping`, `step_notReceiving` — one event on a connection whose loop runs.
* `always_receiving_iff` — the loop keeps running over any bytes and completions **iff** every header
  parsed on an open connection is of a type the class knows.
-/
namespace Thallium.Network
open Message Serializer EventRun

/-! ## What the loop should keep -/

/-- The header types a class parses. -/
def ConnKind.Knows (kind : ConnKind) (msgType : UInt8) : Prop :=
  HeaderMessageType.ofByte? msgType = some .normal ∨
    HeaderMessageType.ofByte? msgType = some .heartbeat ∧ kind = .serverWithHeartbeat

instance (kind : ConnKind) (msgType : UInt8) : Decidable (kind.Knows msgType) :=
  inferInstanceAs (Decidable (_ ∨ _))

namespace Conn

/-- No completion of a read gives the upper layer a message. -/
def CannotDeliver (s : Conn) : Prop :=
  ∀ i ec data up, (s.readDone i ec data up).recv.delivered = s.recv.delivered

/-- The connection is open with one read in flight, or closed and none can deliver; and no handler of
the receive path has thrown. -/
def Receiving (s : Conn) : Prop :=
  (s.isOpen = true ∧ s.recv.reads.length = 1 ∨ s.isOpen = false ∧ s.CannotDeliver) ∧
    ∀ t ∈ s.thrown, t.1 ≠ .read

/-- A header that is read on the open connection is of a type the class knows. -/
def KnownHeader (s : Conn) : Event → Prop
  | .readDone i ec data _ => ∀ op, s.recv.reads[i]? = some op → op.target = .header →
      ec.value = 0 → s.isOpen = true → s.kind.Knows (stringToHeader data).msgType
  | _ => True

/-! ## The invariant -/

/-- While the connection is open exactly one read is in flight, not cancelled, and a header read is
for a whole header. -/
structure Looping (s : Conn) : Prop where
  reads : s.isOpen = true → ∃ op, s.recv.reads = [op] ∧ op.cancelled = false ∧
    (op.target = .header → op.size = headerSize)
  thrown : ∀ t ∈ s.thrown, t.1 ≠ .read

variable {s s' : Conn} {i : Nat} {ec : ErrorCode} {data : List UInt8} {up : List UpperCall}

/-- **A closed connection delivers nothing**, whatever read completes on it. -/
theorem cannotDeliver_of_closed (hclosed : s.isOpen = false) : s.CannotDeliver := by
  intro i ec data up
  cases hop : s.recv.reads[i]? with
  | none => simp only [readDone, hop]
  | some op =>
    obtain ⟨hopen, -, -, -, hdel, -, -⟩ := readCompleted_frame s i op data
    rw [hclosed] at hopen
    cases htarget : op.target with
    | header =>
      rw [readDone_header hop htarget]
      simp only [hopen]
      split
      · exact hdel
      · split
        · exact hdel
        · split
          · exact (notify_effect _ .close up).2.2.2.2.trans hdel
          · exact (connectionClose_delivered _).trans hdel
    | payload length =>
      rw [readDone_payload hop htarget]
      simp only [hopen]
      split
      · exact (connectionClose_delivered _).trans hdel
      · simp only [Bool.false_eq_true, if_false, doReceiveMessage, hopen]
        exact hdel

theorem Looping.receiving (h : s.Looping) : s.Receiving := by
  refine ⟨?_, h.thrown⟩
  cases hopen : s.isOpen with
  | true =>
    obtain ⟨op, hreads, -⟩ := h.reads hopen
    exact .inl ⟨rfl, by rw [hreads]; rfl⟩
  | false => exact .inr ⟨rfl, cannotDeliver_of_closed hopen⟩

/-- A closed connection keeps the invariant as long as the receive path does not throw. -/
theorem looping_of_closed (hclosed : s.isOpen = false) (ht : ∀ t ∈ s.thrown, t.1 ≠ .read) :
    s.Looping :=
  ⟨fun h => absurd (hclosed.symm.trans h) (by decide), ht⟩

theorem connectionClose_looping (ht : ∀ t ∈ s.thrown, t.1 ≠ .read) : s.connectionClose.Looping :=
  looping_of_closed s.connectionClose_isOpen (by rwa [connectionClose_thrown])

/-- Closing and telling the upper layer. -/
theorem notify_looping (e : ConnectionEvent) (ht : ∀ t ∈ s.thrown, t.1 ≠ .read) :
    (s.connectionClose.upperLayerEventCallback e up).Looping := by
  obtain ⟨hclosed, hthrown, -⟩ := s.notify_effect e up
  apply looping_of_closed hclosed
  rwa [hthrown]

/-- What leaves the receiving side alone keeps the invariant. -/
theorem UpperEffect.looping (h : UpperEffect s s') (hl : s.Looping) : s'.Looping := by
  refine ⟨fun hopen' => ?_, by rw [h.thrown]; exact hl.thrown⟩
  cases hopen : s.isOpen with
  | false =>
    rw [(h.closed hopen).1] at hopen'
    exact absurd hopen' (by decide)
  | true =>
    rcases h.opened hopen with ⟨-, hrecv, -⟩ | ⟨hclosed, -⟩
    · rw [hrecv]
      exact hl.reads hopen
    · rw [hclosed] at hopen'
      exact absurd hopen' (by decide)

/-! ## One read -/

/-- The header parsed is the one whose eight bytes have just been read. -/
theorem stringToHeader_readCompleted {op : ReadOp} (htarget : op.target = .header)
    (hlen : data.length = headerSize) :
    stringToHeader (s.readCompleted i op data).recv.headerBuffer = stringToHeader data := by
  have hbuf : (s.readCompleted i op data).recv.headerBuffer =
      data ++ s.recv.headerBuffer.drop headerSize := by
    simp only [readCompleted, htarget, copyTo, List.take_zero, List.nil_append, Nat.zero_add, hlen]
  have hhead : (data ++ s.recv.headerBuffer.drop headerSize).headD 0 = data.headD 0 := by
    cases data with
    | nil => exact absurd hlen (by decide)
    | cons b bs => rfl
  have hslice : slice (data ++ s.recv.headerBuffer.drop headerSize) 4 4 = slice data 4 4 := by
    have h8 : data.length = 8 := hlen
    rw [slice, slice, List.drop_append_of_le_length (by omega),
      List.take_append_of_le_length (by rw [List.length_drop]; omega)]
  rw [hbuf, stringToHeader, stringToHeader, hhead, hslice]

/-- **Parsing** a known type asks for the next read. -/
theorem parsed_looping (hopen : s.isOpen = true) (hreads : s.recv.reads = [])
    (ht : ∀ t ∈ s.thrown, t.1 ≠ .read)
    (hknown : s.kind.Knows (stringToHeader s.recv.headerBuffer).msgType) : s.parsed.Looping := by
  rcases hknown with hn | ⟨hh, hk⟩
  · simp only [parsed, hn]
    unfold doReceivePayload
    split
    · exact ⟨fun _ => ⟨_, by simp [asyncRead, hreads]; rfl, rfl, by simp⟩, ht⟩
    · exact ⟨fun _ => ⟨_, by simp [asyncRead, hreads]; rfl, rfl, by simp⟩, ht⟩
  · simp only [parsed, hh, hk, doReceiveMessage, timerReset, hopen, if_true]
    exact ⟨fun _ => ⟨_, by simp [asyncRead, hreads]; rfl, rfl, fun _ => rfl⟩, ht⟩

/-- **Parsing** an unknown type throws or leaves the connection without a read. -/
theorem parsed_notReceiving (hopen : s.isOpen = true) (hreads : s.recv.reads = [])
    (hunknown : ¬ s.kind.Knows (stringToHeader s.recv.headerBuffer).msgType) : ¬ s.parsed.Receiving := by
  rw [ConnKind.Knows, not_or, not_and] at hunknown
  rintro ⟨hloop, hthrown⟩
  unfold parsed at hloop hthrown
  cases hk : s.kind <;>
    rcases ht : HeaderMessageType.ofByte? (stringToHeader s.recv.headerBuffer).msgType with _ | _ | _ <;>
    simp_all [threw]

/-- The read that completes on an open connection is the only one. -/
theorem Looping.only_read (h : s.Looping) (hopen : s.isOpen = true) {op : ReadOp}
    (hop : s.recv.reads[i]? = some op) :
    s.recv.reads.eraseIdx i = [] ∧ op.cancelled = false ∧
      (op.target = .header → op.size = headerSize) := by
  obtain ⟨op', hreads, hcancelled, hsize⟩ := h.reads hopen
  rw [hreads] at hop ⊢
  cases i with
  | zero =>
    obtain rfl : op' = op := by simpa using hop
    exact ⟨rfl, hcancelled, hsize⟩
  | succ i => simp at hop

/-- **A header** has been read on a connection whose loop runs. -/
theorem readDone_header_looping {op : ReadOp} (hop : s.recv.reads[i]? = some op)
    (htarget : op.target = .header) (h : s.Looping) (hl : s.Legal (.readDone i ec data up))
    (hc : s.KnownHeader (.readDone i ec data up)) : (s.readDone i ec data up).Looping := by
  obtain ⟨op', hop', -, hfull, habort⟩ := hl
  obtain rfl : op = op' := Option.some.inj (hop.symm.trans hop')
  obtain ⟨hopen', hkind', hthrown', hreads', -, -, -⟩ := readCompleted_frame s i op data
  have ht : ∀ t ∈ (s.readCompleted i op data).thrown, t.1 ≠ .read := by
    rw [hthrown']
    exact h.thrown
  rw [readDone_header hop htarget]
  by_cases h0 : ec.value = 0
  · simp only [if_pos h0]
    cases hopen : s.isOpen with
    | false =>
      rw [hopen] at hopen'
      simp only [hopen', Bool.false_eq_true, if_false]
      exact looping_of_closed hopen' ht
    | true =>
      obtain ⟨hnone, -, hsize⟩ := h.only_read hopen hop
      have hlen : data.length = headerSize := (hfull h0).trans (hsize htarget)
      simp only [hopen', hopen, if_true]
      apply parsed_looping (hopen'.trans hopen) (hreads'.trans hnone) ht
      rw [hkind', stringToHeader_readCompleted htarget hlen]
      exact hc op hop htarget h0 hopen
  · simp only [if_neg h0]
    by_cases ha : ec.value = operationAborted
    · -- only a read of a closed connection has been cancelled
      have hclosed : s.isOpen = false := by
        by_contra hopen
        have hnot := (h.only_read (by simpa using hopen) hop).2.1
        rw [habort ha] at hnot
        exact absurd hnot (by decide)
      simp only [if_pos ha]
      exact looping_of_closed (hopen'.trans hclosed) ht
    · simp only [if_neg ha]
      split
      · exact notify_looping .close ht
      · exact connectionClose_looping ht

/-- **A payload** has been read on a connection whose loop runs. -/
theorem readDone_payload_looping {op : ReadOp} {length : Nat} (hop : s.recv.reads[i]? = some op)
    (htarget : op.target = .payload length) (h : s.Looping) : (s.readDone i ec data up).Looping := by
  obtain ⟨hopen', -, hthrown', hreads', -, -, -⟩ := readCompleted_frame s i op data
  have ht : ∀ t ∈ (s.readCompleted i op data).thrown, t.1 ≠ .read := by
    rw [hthrown']
    exact h.thrown
  rw [readDone_payload hop htarget]
  simp only
  split
  · exact connectionClose_looping ht
  · cases hopen : s.isOpen with
    | false =>
      rw [hopen] at hopen'
      simp only [hopen', Bool.false_eq_true, if_false, doReceiveMessage]
      exact looping_of_closed hopen' ht
    | true =>
      rw [hopen] at hopen'
      rw [(h.only_read hopen hop).1] at hreads'
      simp only [hopen', if_true]
      -- the upper layer may close the connection while it takes the message
      have heff := (s.readCompleted i op data).upperLayerCallback_effect length up
      have ht' : ∀ t ∈ ((s.readCompleted i op data).upperLayerCallback length up).thrown,
          t.1 ≠ .read := by
        rw [heff.thrown]
        exact ht
      rcases heff.opened hopen' with ⟨ho, hrecv, -⟩ | ⟨hclosed, -⟩
      · rw [doReceiveMessage, if_pos ho]
        refine ⟨fun _ => ⟨⟨.header, headerSize, false⟩, ?_, rfl, fun _ => rfl⟩, ht'⟩
        simp only [asyncRead, hrecv, hreads', List.nil_append]
      · rw [doReceiveMessage, if_neg (by simp [hclosed])]
        exact looping_of_closed hclosed ht'

/-! ## The steps and the run -/

/-- **One event** keeps the loop running, if it is not a header of an unknown type. -/
theorem step_looping (s : Conn) (e : Event) (h : s.Looping) (hl : s.Legal e) (hc : s.KnownHeader e) :
    (s.step e).Looping := by
  cases e with
  | readDone i ec data up =>
    obtain ⟨op, hop, -⟩ := id hl
    cases htarget : op.target with
    | header => exact readDone_header_looping hop htarget h hl hc
    | payload length => exact readDone_payload_looping hop htarget h
  | writeDone i ec n up =>
    obtain ⟨op, hop, -⟩ := hl
    show (s.writeDone i ec n up).Looping
    rw [writeDone_eq hop]
    simp only
    split
    · exact notify_looping .pipe h.thrown
    · split
      · refine ⟨h.reads, fun t ht => ?_⟩
        rcases List.mem_append.mp ht with ht | ht
        · exact h.thrown t ht
        · rw [List.mem_singleton.mp ht]
          show Path.write ≠ Path.read
          decide
      · exact ⟨h.reads, h.thrown⟩
  | waitDone i ec up =>
    obtain ⟨op, hop, -⟩ := hl
    show (s.waitDone i ec up).Looping
    cases hk : s.kind with
    | serverWithHeartbeat =>
      rw [waitDone_server hop hk]
      simp only
      split
      · exact notify_looping .timeout h.thrown
      · exact ⟨h.reads, h.thrown⟩
    | clientWithHeartbeat =>
      rw [waitDone_client hop hk]
      simp only
      split
      · exact ⟨h.reads, h.thrown⟩
      · exact connectionClose_looping h.thrown
    | server | client =>
      rw [waitDone_other hop (by rw [hk]; decide) (by rw [hk]; decide)]
      exact ⟨h.reads, h.thrown⟩
  | upper call => exact (s.upperCall_effect call).looping h

/-- **A header of an unknown type** on the open connection ends the loop or throws. -/
theorem step_notReceiving (s : Conn) (e : Event) (h : s.Looping) (hl : s.Legal e)
    (hc : ¬ s.KnownHeader e) : ¬ (s.step e).Receiving := by
  cases e with
  | readDone i ec data up =>
    simp only [KnownHeader, not_forall] at hc
    obtain ⟨op, hop, htarget, h0, hopen, hunknown⟩ := hc
    obtain ⟨op', hop', -, hfull, -⟩ := hl
    obtain rfl : op = op' := Option.some.inj (hop.symm.trans hop')
    obtain ⟨hopen', hkind', -, hreads', -, -, -⟩ := readCompleted_frame s i op data
    obtain ⟨hnone, -, hsize⟩ := h.only_read hopen hop
    show ¬ (s.readDone i ec data up).Receiving
    rw [readDone_header hop htarget]
    simp only [if_pos h0, hopen', hopen, if_true]
    apply parsed_notReceiving (hopen'.trans hopen) (hreads'.trans hnone)
    rwa [hkind', stringToHeader_readCompleted htarget ((hfull h0).trans (hsize htarget))]
  | writeDone | waitDone | upper => exact absurd trivial hc

theorem start_looping (kind : ConnKind) (socketStr : String) (padding : Nat → Padding) (slack : Nat) :
    (start kind socketStr padding slack).Looping :=
  ⟨fun _ => ⟨⟨.header, headerSize, false⟩, rfl, rfl, fun _ => rfl⟩, by
    simp [start, doReceiveMessage, asyncRead]⟩

/-- **Exact condition of a running receive loop.** From a connection just started, over any legal run
of completions and calls of the upper layer, the connection is throughout open with one read in flight
or closed with none that can deliver, and no handler of the receive path throws, **iff** every header
parsed on the open connection is of a type its class knows. -/
theorem always_receiving_iff (kind : ConnKind) (socketStr : String) (padding : Nat → Padding)
    (slack : Nat) (es : List Event)
    (hl : EachStep step Legal (start kind socketStr padding slack) es) :
    Always step Receiving (start kind socketStr padding slack) es ↔
      EachStep step KnownHeader (start kind socketStr padding slack) es :=
  always_iff_eachStep (fun _ h => h.receiving) step_looping step_notReceiving
    (start_looping kind socketStr padding slack) hl

/-- A heartbeat and the header of a message, read by a server that watches for heartbeats. -/
theorem always_receiving_heartbeat :
    Always step Receiving (start .serverWithHeartbeat "10.0.0.1:80" (fun _ => ⟨[0, 0, 0], rfl⟩) 0)
      [.readDone 0 success [0, 0, 0, 0, 0, 0, 0, 0] [],
        .readDone 0 success [1, 0, 0, 0, 9, 0, 0, 0] []] := by
  rw [always_receiving_iff]
  · exact ⟨fun op hop htarget h0 hopen => by decide, fun op hop htarget h0 hopen => by decide, trivial⟩
  · exact ⟨⟨⟨.header, 8, false⟩, rfl, by decide, fun _ => rfl, by decide⟩,
      ⟨⟨.header, 8, false⟩, rfl, by decide, fun _ => rfl, by decide⟩, trivial⟩

/-- A header of type 7 on a `ServerConnection`: the handler throws. -/
theorem not_always_receiving_unknown_type :
    let s := start .server "10.0.0.1:80" (fun _ => ⟨[0, 0, 0], rfl⟩) 0
    let es : List Event := [.readDone 0 success [7, 0, 0, 0, 0, 0, 0, 0] []]
    EachStep step Legal s es ∧ ¬ Always step Receiving s es := by
  refine ⟨⟨⟨⟨.header, 8, false⟩, rfl, by decide, fun _ => rfl, by decide⟩, trivial⟩, ?_⟩
  rintro ⟨-, -, hthrown⟩
  exact hthrown (.read, .logicError "Should not be here!") (by decide) rfl

end Conn

end Thallium.Network
