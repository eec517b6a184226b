import Thallium.Network.HeartbeatTimer

/-!
# Heartbeats and the clock (network/heartbeat.cpp, network/connection.cpp:227-275, :299-328)

Time passes in milliseconds. A connection has one timer with one expiry, which is set when the connection
is made and whenever it processes a heartbeat (a server) or pushes one (a client).

| here | there |
| --- | --- |
| `HeartBeatPolicy`    | `HeartBeatPolicy` (heartbeat.hpp:11, heartbeat.cpp:15-20); the tests set other values |
| `HeartBeatPolicy.first`, `.again` | the expiries of `HeartbeatChecker` and `HeartbeatSender` (heartbeat.cpp:22-24, :31, :45-47, :55) |
| `Clocked`            | a connection and its `steady_timer`; not in the source: when its heartbeats were |
| `Clocked.Legal`      | Boost.Asio: no wait is over before its time, and a wait ends when its time is up or it is cancelled |
| `Prompt late`        | not in the source: the loop runs the handler of a wait at most `late` ms after its time |

* `Conn.step_timer` — an event sets the timer, leaves it alone, or closes the connection and stops it.
* `step_clocked` — the invariant: an open connection waits, and for what.
* `silence_bounded` — a server connection does not stay open without heartbeats.
* `step_beats` — a client enqueues a heartbeat when its timer ticks, and else none.
* `beats_regular` — a client enqueues its heartbeats at their times.
-/
namespace Thallium.Network
open Message Serializer EventRun

/-! ## The policy -/

structure HeartBeatPolicy where
  interval : Nat
  timeout : Nat
  serverInitialTimeout : Nat
  deriving DecidableEq, Repr

namespace HeartBeatPolicy

/-- The macro of heartbeat.cpp:12, whatever the constant of heartbeat.hpp:42 of the same name says. -/
def heartbeatIntervalSeconds : Nat := 2

/-- The values of heartbeat.cpp:15-20, in milliseconds. -/
def standard : HeartBeatPolicy where
  interval := heartbeatIntervalSeconds
  timeout := 2 * heartbeatIntervalSeconds
  serverInitialTimeout := heartbeatIntervalSeconds + 2 * heartbeatIntervalSeconds

/-- What the timer is set to when a connection is made. -/
def first (p : HeartBeatPolicy) : ConnKind → Nat
  | .serverWithHeartbeat => p.serverInitialTimeout
  | .clientWithHeartbeat => p.interval
  | .server | .client => 0

/-- What it is set to afterwards. -/
def again (p : HeartBeatPolicy) : ConnKind → Nat
  | .serverWithHeartbeat => p.timeout
  | .clientWithHeartbeat => p.interval
  | .server | .client => 0

end HeartBeatPolicy

/-- The classes with a timer. -/
def ConnKind.withHeartbeat : ConnKind → Bool
  | .serverWithHeartbeat | .clientWithHeartbeat => true
  | .server | .client => false

/-! ## What an event does to the timer of an open connection -/

namespace Conn

instance (s : Conn) : (e : Event) → Decidable (s.Ticks e)
  | .waitDone i ec _ =>
    inferInstanceAs (Decidable (s.kind = .clientWithHeartbeat ∧ i < s.waits.length ∧ ec.value = 0))
  | .readDone .. | .writeDone .. | .upper _ => inferInstanceAs (Decidable False)

/-- A heartbeat is processed or pushed. -/
def Beats (s : Conn) (e : Event) : Prop := s.heartbeatProcessed e = true ∨ s.Ticks e

instance (s : Conn) (e : Event) : Decidable (s.Beats e) :=
  inferInstanceAs (Decidable (s.heartbeatProcessed e = true ∨ s.Ticks e))

/-- The timer is left alone, or the connection is closed and the timer stopped. -/
inductive TimerKept (s s' : Conn) : Prop
  | kept (hopen : s'.isOpen = s.isOpen) (hwaits : s'.waits = s.waits)
  | stopped (hclosed : s'.isOpen = false) (hwaits : s'.waits = cancelWaits s.waits)

section Kept
variable {s s' s'' : Conn}

theorem TimerKept.trans (h : TimerKept s s') (h' : TimerKept s' s'') : TimerKept s s'' := by
  cases h with
  | kept ho hw =>
    cases h' with
    | kept ho' hw' => exact .kept (ho'.trans ho) (hw'.trans hw)
    | stopped hc' hw' => exact .stopped hc' (by rw [hw', hw])
  | stopped hc hw =>
    cases h' with
    | kept ho' hw' => exact .stopped (ho'.trans hc) (hw'.trans hw)
    | stopped hc' hw' => exact .stopped hc' (by rw [hw', hw, cancelWaits_idem])

/-- The other fields of the state before do not matter. -/
theorem TimerKept.of_eq (h : TimerKept s' s'') (ho : s'.isOpen = s.isOpen) (hw : s'.waits = s.waits) :
    TimerKept s s'' :=
  (TimerKept.kept ho hw).trans h

theorem connectionClose_kept (h : s.kind.withHeartbeat = true) : TimerKept s s.connectionClose := by
  refine .stopped (connectionClose_isOpen _) ?_
  have hwaits : ∀ t : Conn, t.socketClose.waits = t.waits := by
    intro t
    unfold socketClose
    split <;> rfl
  unfold connectionClose
  cases hk : s.kind <;> simp only [hk, ConnKind.withHeartbeat, Bool.false_eq_true] at h ⊢
  · exact hwaits _
  · exact hwaits _

theorem upperCall_kept (h : s.kind.withHeartbeat = true) (call : UpperCall) :
    TimerKept s (s.upperCall call) := by
  cases call with
  | send msg => exact .kept rfl rfl
  | disconnect =>
    have hclose := connectionClose_kept (s := { s with disconnected := s.disconnected || s.isOpen }) h
    exact hclose.of_eq rfl rfl

theorem upperCalls_kept (h : s.kind.withHeartbeat = true) (up : List UpperCall) :
    TimerKept s (up.foldl upperCall s) := by
  induction up generalizing s with
  | nil => exact .kept rfl rfl
  | cons call up ih =>
    refine (upperCall_kept h call).trans (ih ?_)
    rw [(s.upperCall_effect call).kind]
    exact h

theorem notify_kept (h : s.kind.withHeartbeat = true) (e : ConnectionEvent) (up : List UpperCall) :
    TimerKept s (s.connectionClose.upperLayerEventCallback e up) := by
  refine (connectionClose_kept h).trans ?_
  have hup := upperCalls_kept
    (s := { s.connectionClose with events := s.connectionClose.events ++ [e] }) ?_ up
  · exact hup.of_eq rfl rfl
  · exact s.connectionClose_quietly.kind ▸ h

theorem doReceiveMessage_kept (s : Conn) : TimerKept s s.doReceiveMessage := by
  unfold doReceiveMessage
  split
  · exact .kept rfl rfl
  · exact .kept rfl rfl

theorem parsed_kept (h : ¬ (s.kind = .serverWithHeartbeat ∧
    HeaderMessageType.ofByte? (stringToHeader s.recv.headerBuffer).msgType = some .heartbeat)) :
    TimerKept s s.parsed := by
  unfold parsed
  simp only
  split
  · unfold doReceivePayload
    split
    · exact .kept rfl rfl
    · exact .kept rfl rfl
  · rename_i ht hk
    exact absurd ⟨hk, ht⟩ h
  all_goals exact .kept rfl rfl

theorem readCompleted_waits (s : Conn) (i : Nat) (op : ReadOp) (data : List UInt8) :
    (s.readCompleted i op data).waits = s.waits := by
  unfold readCompleted
  cases op.target <;> rfl

theorem readDone_kept (hk : s.kind.withHeartbeat = true) {i : Nat} {ec : ErrorCode} {data : List UInt8}
    {up : List UpperCall} (h : s.heartbeatProcessed (.readDone i ec data up) = false) :
    TimerKept s (s.readDone i ec data up) := by
  cases hop : s.recv.reads[i]? with
  | none =>
    rw [readDone, hop]
    exact .kept rfl rfl
  | some op =>
    have hframe := readCompleted_frame s i op data
    refine TimerKept.trans (.kept hframe.isOpen (s.readCompleted_waits i op data)) ?_
    have hk' : (s.readCompleted i op data).kind.withHeartbeat = true := by rw [hframe.kind, hk]
    cases ht : op.target with
    | header =>
      rw [readDone_header hop ht]
      simp only [heartbeatProcessed, hop, ht, ← hframe.isOpen, ← hframe.kind] at h
      generalize s.readCompleted i op data = s' at h hk' ⊢
      simp only
      split
      · rename_i h0
        split
        · rename_i ho
          apply parsed_kept
          rintro ⟨hkind, hb⟩
          simp [h0, ho, hkind, hb] at h
        · exact .kept rfl rfl
      · split
        · exact .kept rfl rfl
        · split
          · exact notify_kept hk' _ _
          · exact connectionClose_kept hk'
    | payload length =>
      rw [readDone_payload hop ht]
      generalize s.readCompleted i op data = s' at hk' ⊢
      simp only
      split
      · exact connectionClose_kept hk'
      · refine TimerKept.trans ?_ (doReceiveMessage_kept _)
        split
        · have hup := upperCalls_kept
            (s := { s' with recv.delivered := s'.recv.delivered ++ [s'.recv.receiveBuffer.data.take length] })
            hk' up
          exact hup.of_eq rfl rfl
        · exact .kept rfl rfl

theorem writeDone_kept (hk : s.kind.withHeartbeat = true) (i : Nat) (ec : ErrorCode) (n : Nat)
    (up : List UpperCall) : TimerKept s (s.writeDone i ec n up) := by
  cases hop : s.send.writes[i]? with
  | none =>
    rw [writeDone, hop]
    exact .kept rfl rfl
  | some op =>
    rw [writeDone_eq hop]
    simp only
    split
    · exact (notify_kept (s := { s with send := s.send.complete i }) hk _ _).of_eq rfl rfl
    · split
      · exact .kept rfl rfl
      · exact .kept rfl rfl

theorem waitDone_kept (hk : s.kind.withHeartbeat = true) {i : Nat} {ec : ErrorCode} {up : List UpperCall}
    (h : ¬ s.Ticks (.waitDone i ec up)) :
    TimerKept { s with waits := s.waits.eraseIdx i } (s.waitDone i ec up) := by
  cases hop : s.waits[i]? with
  | none =>
    rw [waitDone, hop]
    exact .kept rfl (List.eraseIdx_of_length_le (List.getElem?_eq_none_iff.mp hop)).symm
  | some op =>
    by_cases hserver : s.kind = .serverWithHeartbeat
    · rw [waitDone_server hop hserver]
      simp only
      split
      · exact notify_kept (s := { s with waits := s.waits.eraseIdx i }) hk _ _
      · exact .kept rfl rfl
    · by_cases hclient : s.kind = .clientWithHeartbeat
      · have h0 : ¬ ec.value = 0 := fun h0 => h ⟨hclient, (List.getElem?_eq_some_iff.mp hop).1, h0⟩
        rw [waitDone_client hop hclient]
        simp only [if_neg h0]
        exact connectionClose_kept (s := { s with waits := s.waits.eraseIdx i }) hk
      · rw [waitDone_other hop hserver hclient]
        exact .kept rfl rfl

/-- A heartbeat read leaves the connection open. -/
theorem readDone_heartbeat_isOpen {i : Nat} {ec : ErrorCode} {data : List UInt8} {up : List UpperCall}
    (h : s.heartbeatProcessed (.readDone i ec data up) = true) :
    (s.readDone i ec data up).isOpen = s.isOpen := by
  cases hop : s.recv.reads[i]? with
  | none => simp [heartbeatProcessed, hop] at h
  | some op =>
    simp only [heartbeatProcessed, hop, Bool.and_eq_true, beq_iff_eq] at h
    obtain ⟨⟨⟨⟨ht, h0⟩, ho⟩, -⟩, -⟩ := h
    have hopen := (readCompleted_frame s i op data).isOpen
    rw [readDone_header hop ht]
    simp only [h0, if_true, hopen, ho]
    rw [(parsed_frame _).isOpen, hopen, ho]

/-- **What an event can do to the timer**: a heartbeat sets it, all others leave it alone or close the
connection and stop it. -/
theorem step_timer (s : Conn) (e : Event) (hk : s.kind.withHeartbeat = true) :
    (s.Beats e ∧ (s.step e).isOpen = s.isOpen ∧
        (s.step e).waits = cancelWaits (remaining s.waits e) ++ [⟨false⟩]) ∨
      (¬ s.Beats e ∧ TimerKept { s with waits := remaining s.waits e } (s.step e)) := by
  rcases s.step_cases e with ⟨hp, -, -, -, hw⟩ | ⟨ht, -, -, hw, -⟩ | ⟨hp, ht, -⟩
  · refine .inl ⟨.inl hp, ?_, hw⟩
    cases e with
    | readDone i ec data up => exact readDone_heartbeat_isOpen hp
    | writeDone | waitDone | upper => cases hp
  · refine .inl ⟨.inr ht, ?_, hw⟩
    cases e with
    | waitDone i ec up =>
      obtain ⟨hclient, hi, h0⟩ := ht
      rw [step, waitDone_client (List.getElem?_eq_getElem hi) hclient]
      simp only [h0, if_true]
      rfl
    | readDone | writeDone | upper => exact absurd ht id
  · refine .inr ⟨fun hb => hb.elim (by simp [hp]) ht, ?_⟩
    cases e with
    | readDone i ec data up => exact readDone_kept hk hp
    | writeDone i ec n up => exact writeDone_kept hk i ec n up
    | waitDone i ec up => exact waitDone_kept hk ht
    | upper call => exact upperCall_kept hk call

end Kept
end Conn

/-- The time of a wait is up: nothing happens to the connection yet. -/
theorem Timed.expire_conn (t : Timed) (i : Nat) : (t.step (.expire i)).conn = t.conn := by
  simp only [step]
  split <;> rfl

theorem Timed.expire_heartbeats (t : Timed) (i : Nat) : (t.step (.expire i)).heartbeats = t.heartbeats := by
  simp only [step]
  split <;> rfl

/-! ## The clock beside the connection -/

/-- `beats` is when the connection was made, and when each of its heartbeats was processed or pushed. -/
structure Clocked where
  timed : Timed
  now : Nat
  expiry : Nat
  beats : List Nat

inductive ClockedEvent where
  | tick
  | timed (e : TimedEvent)

namespace Clocked

def conn (c : Clocked) : Conn := c.timed.conn

/-- When the last heartbeat was. -/
def lastBeat (c : Clocked) : Nat := c.beats.getLastD 0

/-- What the timer was last set to. -/
def allowance (p : HeartBeatPolicy) (c : Clocked) : Nat :=
  if c.beats.length = 1 then p.first c.conn.kind else p.again c.conn.kind

def start (p : HeartBeatPolicy) (kind : ConnKind) (socketStr : String) (padding : Nat → Padding) (slack : Nat)
    (made now : Nat) : Clocked :=
  ⟨.start kind socketStr padding slack, now, made + p.first kind, [made]⟩

def step (p : HeartBeatPolicy) (c : Clocked) : ClockedEvent → Clocked
  | .tick => { c with now := c.now + 1 }
  | .timed (.expire i) => { c with timed := c.timed.step (.expire i) }
  | .timed (.conn e) =>
    { c with
      timed := c.timed.step (.conn e)
      expiry := if c.conn.armed e = 0 then c.expiry else c.now + p.again c.conn.kind
      beats := if c.conn.Beats e then c.beats ++ [c.now] else c.beats }

/-- The handler of the `i`-th wait can run: its time is up, or the wait was cancelled. -/
def Over (c : Clocked) (i : Nat) : Prop :=
  ∃ timer op, c.timed.timers[i]? = some timer ∧ c.conn.waits[i]? = some op ∧
    (timer.queuedAt ≠ none ∨ op.cancelled = true)

def Legal (c : Clocked) : ClockedEvent → Prop
  | .tick => True
  | .timed (.expire i) => c.timed.Legal (.expire i) ∧ c.expiry ≤ c.now
  | .timed (.conn e) => c.timed.Legal (.conn e) ∧ ∀ i ec up, e = .waitDone i ec up → c.Over i

/-- Time does not pass while the handler of a wait that was not cancelled is more than `late` overdue. -/
def Prompt (late : Nat) (c : Clocked) : ClockedEvent → Prop
  | .tick => (∃ op ∈ c.conn.waits, op.cancelled = false) → c.now < c.expiry + late
  | .timed _ => True

/-! ## The invariant -/

/-- A wait that runs and whose handler is queued was queued at its time. -/
def DueOk (due : Prop) (timer : Timer) (op : WaitOp) : Prop :=
  op.cancelled = false → timer.queuedAt ≠ none → due

structure Inv (p : HeartBeatPolicy) (kind : ConnKind) (c : Clocked) : Prop where
  timed : c.timed.Inv kind
  made : c.beats ≠ []
  past : ∀ t ∈ c.beats, t ≤ c.now
  expiry : c.expiry = c.lastBeat + c.allowance p
  watched : c.conn.isOpen = true → ∃ op ∈ c.conn.waits, op.cancelled = false
  stopped : kind = .serverWithHeartbeat → c.conn.isOpen = false → ∀ op ∈ c.conn.waits, op.cancelled = true
  one : kind = .clientWithHeartbeat → c.conn.isOpen = true → c.conn.waits = [⟨false⟩]
  due : List.Forall₂ (DueOk (c.expiry ≤ c.now)) c.timed.timers c.conn.waits
  counted : kind = .serverWithHeartbeat → c.beats.length = c.timed.heartbeats + 1

section Steps
variable {p : HeartBeatPolicy} {kind : ConnKind} {c : Clocked}

@[simp] theorem conn_step (p : HeartBeatPolicy) (c : Clocked) (e : Conn.Event) :
    (c.step p (.timed (.conn e))).conn = c.conn.step e := rfl

@[simp] theorem conn_expire (p : HeartBeatPolicy) (c : Clocked) (i : Nat) :
    (c.step p (.timed (.expire i))).conn = c.conn := c.timed.expire_conn i

theorem forall₂_dueOk_cancelWaits {due : Prop} {timers : List Timer} {ws : List WaitOp}
    (h : timers.length = ws.length) : List.Forall₂ (DueOk due) timers (cancelWaits ws) := by
  refine List.forall₂_iff_get.mpr ⟨by simpa [cancelWaits] using h, ?_⟩
  intro i _ _ hc
  simp [cancelWaits] at hc

theorem forall₂_dueOk_rearmed {due : Prop} {timers : List Timer} {ws : List WaitOp} {n : Nat}
    (h : timers.length = ws.length) :
    List.Forall₂ (DueOk due) (timers ++ [⟨n, none⟩]) (cancelWaits ws ++ [⟨false⟩]) :=
  List.rel_append (forall₂_dueOk_cancelWaits h) (.cons (fun _ hq => absurd rfl hq) .nil)

/-- A wait that was not cancelled ends with a success. -/
theorem Over.success {i : Nat} {ec : ErrorCode} {up : List Conn.UpperCall}
    (hl : c.Legal (.timed (.conn (.waitDone i ec up)))) {op : WaitOp} (hop : c.conn.waits[i]? = some op)
    (hc : op.cancelled = false) :
    ec.value = 0 ∧ ∃ timer, c.timed.timers[i]? = some timer ∧ timer.queuedAt ≠ none := by
  obtain ⟨⟨-, hres⟩, hover⟩ := hl
  obtain ⟨timer, op', htimer, hop', hresult⟩ := hres i ec up rfl
  obtain ⟨timer', op'', htimer', hop'', hover⟩ := hover i ec up rfl
  obtain rfl := Option.some.inj (hop'.symm.trans hop)
  obtain rfl := Option.some.inj (hop''.symm.trans hop')
  obtain rfl := Option.some.inj (htimer'.symm.trans htimer)
  have hq : timer'.queuedAt ≠ none := hover.resolve_right (by simp [hc])
  exact ⟨hresult.1.mpr hq, timer', htimer, hq⟩

/-- An open connection goes on with its wait, if no heartbeat sets the timer and it stays open. -/
theorem remaining_waits (hk : c.conn.kind.withHeartbeat = true) {e : Conn.Event}
    (hl : c.Legal (.timed (.conn e))) (hb : ¬ c.conn.Beats e) (ho : (c.conn.step e).isOpen = true) {op : WaitOp}
    (hop : op ∈ c.conn.waits) (hc : op.cancelled = false) : op ∈ remaining c.conn.waits e := by
  cases e with
  | readDone | writeDone | upper => exact hop
  | waitDone i ec up =>
    obtain ⟨j, hj⟩ := List.mem_iff_getElem?.mp hop
    refine List.mem_eraseIdx_iff_getElem?.mpr ⟨j, ?_, hj⟩
    rintro rfl
    obtain ⟨h0, -⟩ := Over.success hl hj hc
    cases hkind : c.conn.kind with
    | server | client =>
      rw [hkind] at hk
      cases hk
    | serverWithHeartbeat =>
      obtain ⟨hclosed, -⟩ := Conn.step_notifying c.conn (.waitDone j ec up) hl.1.1 ⟨hkind, h0⟩
      rw [hclosed] at ho
      cases ho
    | clientWithHeartbeat =>
      exact hb (.inr ⟨hkind, (List.getElem?_eq_some_iff.mp hj).1, h0⟩)

theorem beats_server {s : Conn} {e : Conn.Event} (hk : s.kind = .serverWithHeartbeat) (hb : s.Beats e) :
    s.heartbeatProcessed e = true ∧ s.isOpen = true := by
  rcases s.step_cases e with ⟨hp, ho, -⟩ | ⟨ht, -⟩ | ⟨hp, ht, -⟩
  · exact ⟨hp, ho⟩
  · cases e with
    | waitDone i ec up =>
      rw [Conn.Ticks, hk] at ht
      cases ht.1
    | readDone | writeDone | upper => exact absurd ht id
  · exact absurd hb (by simp [Conn.Beats, hp, ht])

theorem beats_client {s : Conn} {e : Conn.Event} (hk : s.kind = .clientWithHeartbeat) (hb : s.Beats e) :
    s.Ticks e := by
  rcases s.step_cases e with ⟨-, -, hs, -⟩ | ⟨ht, -⟩ | ⟨hp, ht, -⟩
  · rw [hk] at hs
    cases hs
  · exact ht
  · exact absurd hb (by simp [Conn.Beats, hp, ht])

theorem armed_kept {s : Conn} {e : Conn.Event}
    (h : Conn.TimerKept { s with waits := remaining s.waits e } (s.step e)) : s.armed e = 0 := by
  unfold Conn.armed
  cases h with
  | kept _ hw => simp [hw]
  | stopped _ hw => simp [hw, cancelWaits]

/-- The kind of the connection does not change. -/
theorem Inv.kind_step (h : c.Inv p kind) {e : Conn.Event} (hl : c.Legal (.timed (.conn e))) :
    (c.conn.step e).kind = kind :=
  (Timed.step_timers c.timed (.conn e) h.timed hl.1).kind

/-- **A heartbeat** is processed or pushed. -/
theorem step_beat (h : c.Inv p kind) {e : Conn.Event} (hl : c.Legal (.timed (.conn e)))
    (hb : c.conn.Beats e) (ho : (c.conn.step e).isOpen = c.conn.isOpen)
    (hw : (c.conn.step e).waits = cancelWaits (remaining c.conn.waits e) ++ [⟨false⟩]) :
    (c.step p (.timed (.conn e))).Inv p kind := by
  have hkind : c.conn.kind = kind := h.timed.kind
  have harmed : c.conn.armed e = 1 := Timed.armed_rearmed hw
  have hlength : 0 < c.beats.length := List.length_pos_of_ne_nil h.made
  have hrest := (Timed.forall₂_remaining h.due e).length_eq
  have htimers : (c.timed.step (.conn e)).timers = remaining c.timed.timers e ++
      [⟨c.timed.heartbeats + (c.conn.heartbeatProcessed e).toNat, none⟩] := by
    show _ ++ List.replicate (c.conn.armed e) _ = _
    rw [harmed]
    rfl
  refine ⟨Timed.step_timers c.timed (.conn e) h.timed hl.1, ?_, ?_, ?_, ?_, ?_, ?_, ?_, ?_⟩
  · simp [step, hb]
  · intro t ht
    simp only [step, hb, if_true, List.mem_append, List.mem_singleton] at ht ⊢
    rcases ht with ht | rfl
    · exact h.past t ht
    · exact Nat.le_refl _
  · have hk' : (c.step p (.timed (.conn e))).conn.kind = kind := h.kind_step hl
    have hlen : ¬ (c.beats ++ [c.now]).length = 1 := by simp [h.made]
    rw [allowance, hk']
    simp only [step, harmed, hb, if_true, lastBeat, hkind, if_neg hlen]
    simp
  · intro _
    exact ⟨⟨false⟩, by rw [conn_step, hw]; simp, rfl⟩
  · rintro hs hclosed
    have hopen := (beats_server (hkind.trans hs) hb).2
    rw [conn_step, ho, hopen] at hclosed
    cases hclosed
  · rintro hc hopen
    have hwaits := h.one hc (ho.symm.trans hopen)
    have ht := beats_client (hkind.trans hc) hb
    rw [conn_step, hw]
    cases e with
    | waitDone i ec up =>
      obtain ⟨-, hi, -⟩ := ht
      rw [hwaits, List.length_singleton] at hi
      obtain rfl : i = 0 := by omega
      rw [hwaits]
      rfl
    | readDone | writeDone | upper => exact absurd ht id
  · show List.Forall₂ _ (c.timed.step (.conn e)).timers (c.conn.step e).waits
    rw [htimers, hw]
    exact forall₂_dueOk_rearmed hrest
  · intro hs
    have hp := (beats_server (hkind.trans hs) hb).1
    have hcount := h.counted hs
    simp only [step, hb, if_true, List.length_append, List.length_singleton, hcount]
    show _ = c.timed.heartbeats + (c.conn.heartbeatProcessed e).toNat + 1
    rw [hp]
    rfl

/-- **Every other event.** -/
theorem step_kept (hk : kind.withHeartbeat = true) (h : c.Inv p kind) {e : Conn.Event}
    (hl : c.Legal (.timed (.conn e))) (hb : ¬ c.conn.Beats e)
    (hkept : Conn.TimerKept { c.conn with waits := remaining c.conn.waits e } (c.conn.step e)) :
    (c.step p (.timed (.conn e))).Inv p kind := by
  have hkind : c.conn.kind = kind := h.timed.kind
  have harmed : c.conn.armed e = 0 := armed_kept hkept
  have hrest := Timed.forall₂_remaining h.due e
  have htimers : (c.timed.step (.conn e)).timers = remaining c.timed.timers e := by
    show _ ++ List.replicate (c.conn.armed e) _ = _
    rw [harmed, List.replicate_zero, List.append_nil]
  have hbeats : (c.step p (.timed (.conn e))).beats = c.beats := if_neg hb
  have hexpiry : (c.step p (.timed (.conn e))).expiry = c.expiry := if_pos harmed
  have hsub : ∀ op ∈ remaining c.conn.waits e, op ∈ c.conn.waits := by
    cases e with
    | waitDone i ec up => exact fun op hop => List.mem_of_mem_eraseIdx hop
    | readDone | writeDone | upper => exact fun op hop => hop
  have hwatched : (c.conn.step e).isOpen = true → c.conn.isOpen = true →
      ∃ op ∈ remaining c.conn.waits e, op.cancelled = false := by
    intro ho' ho
    obtain ⟨op, hop, hc⟩ := h.watched ho
    exact ⟨op, remaining_waits (hkind ▸ hk) hl hb ho' hop hc, hc⟩
  have hdue : List.Forall₂ (DueOk (c.expiry ≤ c.now)) (c.timed.step (.conn e)).timers (c.conn.step e).waits := by
    rw [htimers]
    cases hkept with
    | kept _ hw =>
      rw [hw]
      exact hrest
    | stopped _ hw =>
      rw [hw]
      exact forall₂_dueOk_cancelWaits hrest.length_eq
  refine ⟨Timed.step_timers c.timed (.conn e) h.timed hl.1, ?_, ?_, ?_, ?_, ?_, ?_, ?_, ?_⟩
  · rw [hbeats]
    exact h.made
  · rw [hbeats]
    exact h.past
  · have hk' : (c.step p (.timed (.conn e))).conn.kind = c.conn.kind := (h.kind_step hl).trans hkind.symm
    rw [allowance, lastBeat, hk', hbeats, hexpiry]
    exact h.expiry
  · intro ho'
    cases hkept with
    | kept ho hw =>
      rw [conn_step, hw]
      exact hwatched ho' (ho.symm.trans ho')
    | stopped hclosed _ =>
      rw [conn_step, hclosed] at ho'
      cases ho'
  · intro hs hclosed op hop
    cases hkept with
    | kept ho hw =>
      rw [conn_step, hw] at hop
      exact h.stopped hs (ho.symm.trans hclosed) op (hsub op hop)
    | stopped _ hw =>
      rw [conn_step, hw, cancelWaits, List.mem_map] at hop
      obtain ⟨-, -, rfl⟩ := hop
      rfl
  · intro hc ho'
    cases hkept with
    | kept ho hw =>
      have hopen := ho.symm.trans ho'
      have hone := h.one hc hopen
      obtain ⟨op, hop, -⟩ := hwatched ho' hopen
      rw [conn_step, hw]
      cases e with
      | waitDone i ec up =>
        cases i with
        | zero =>
          rw [hone] at hop
          cases hop
        | succ i =>
          show c.conn.waits.eraseIdx (i + 1) = _
          rw [hone]
          rfl
      | readDone | writeDone | upper => exact hone
    | stopped hclosed _ =>
      rw [conn_step, hclosed] at ho'
      cases ho'
  · rw [hexpiry]
    exact hdue
  · intro hs
    have hp : c.conn.heartbeatProcessed e = false := by
      cases hp : c.conn.heartbeatProcessed e with
      | false => rfl
      | true => exact absurd (.inl hp) hb
    rw [hbeats, h.counted hs]
    show _ = c.timed.heartbeats + (c.conn.heartbeatProcessed e).toNat + 1
    rw [hp]
    rfl

/-- **One event, or one millisecond.** -/
theorem step_clocked (hk : kind.withHeartbeat = true) (c : Clocked) (e : ClockedEvent) (h : c.Inv p kind)
    (hl : c.Legal e) : (c.step p e).Inv p kind := by
  cases e with
  | tick =>
    refine ⟨h.timed, h.made, fun t ht => Nat.le_succ_of_le (h.past t ht), h.expiry, h.watched, h.stopped, h.one,
      h.due.imp ?_, h.counted⟩
    intro timer op hok hc hq
    exact Nat.le_succ_of_le (hok hc hq)
  | timed e =>
    cases e with
    | expire i =>
      obtain ⟨hlegal, hexpiry⟩ := hl
      have htimed := Timed.step_timers c.timed (.expire i) h.timed hlegal
      obtain ⟨timer, op, htimer, -⟩ := hlegal
      have hstep : c.timed.step (.expire i) =
          { c.timed with timers := c.timed.timers.set i { timer with queuedAt := some c.timed.heartbeats } } := by
        simp only [Timed.step, htimer]
      rw [hstep] at htimed
      simp only [step, hstep]
      refine ⟨htimed, h.made, h.past, h.expiry, h.watched, h.stopped, h.one, ?_, h.counted⟩
      exact forall₂_set h.due fun _ _ _ _ => hexpiry
    | conn e =>
      rcases c.conn.step_timer e (h.timed.kind ▸ hk) with ⟨hb, ho, hw⟩ | ⟨hb, hkept⟩
      · exact step_beat h hl hb ho hw
      · exact step_kept hk h hl hb hkept

theorem start_inv (p : HeartBeatPolicy) (hk : kind.withHeartbeat = true) (socketStr : String)
    (padding : Nat → Padding) (slack : Nat) {made now : Nat} (hmade : made ≤ now) :
    (start p kind socketStr padding slack made now).Inv p kind := by
  have htimed := Timed.start_timers kind socketStr padding slack
  have hopen : (Timed.start kind socketStr padding slack).conn.isOpen = true := rfl
  have hwaits : (Timed.start kind socketStr padding slack).conn.waits = [⟨false⟩] := by
    cases kind with
    | server | client => cases hk
    | serverWithHeartbeat | clientWithHeartbeat => rfl
  have htimers : (Timed.start kind socketStr padding slack).timers = [⟨0, none⟩] := by
    rw [Timed.start, show (Conn.start kind socketStr padding slack).waits = _ from hwaits]
    rfl
  refine ⟨htimed, List.cons_ne_nil _ _, ?_, ?_, ?_, ?_, fun _ _ => hwaits, ?_, fun _ => rfl⟩
  · intro t ht
    rw [List.mem_singleton.mp ht]
    exact hmade
  · rw [allowance, show (start p kind socketStr padding slack made now).conn.kind = _ from htimed.kind]
    rfl
  · intro _
    exact ⟨⟨false⟩, by rw [show (start p kind socketStr padding slack made now).conn.waits = _ from hwaits]; simp, rfl⟩
  · intro _ hclosed
    rw [show (start p kind socketStr padding slack made now).conn.isOpen = _ from hopen] at hclosed
    cases hclosed
  · show List.Forall₂ _ (Timed.start kind socketStr padding slack).timers (Timed.start kind socketStr padding slack).conn.waits
    rw [htimers, hwaits]
    exact .cons (fun _ hq => absurd rfl hq) .nil

/-- A closed connection stays closed. -/
theorem isOpen_of_step (hk : c.conn.kind.withHeartbeat = true) {e : ClockedEvent}
    (ho : (c.step p e).conn.isOpen = true) : c.conn.isOpen = true := by
  cases e with
  | tick => exact ho
  | timed e =>
    cases e with
    | expire i => rwa [conn_expire] at ho
    | conn e =>
      rw [conn_step] at ho
      rcases c.conn.step_timer e hk with ⟨-, hsame, -⟩ | ⟨-, hkept⟩
      · rwa [hsame] at ho
      · cases hkept with
        | kept hsame _ => exact hsame ▸ ho
        | stopped hclosed _ =>
          rw [hclosed] at ho
          cases ho

/-! ## Never late -/

/-- The timer of an open connection is not overdue by more than the loop is late. -/
def OnTime (late : Nat) (c : Clocked) : Prop := c.conn.isOpen = true → c.now ≤ c.expiry + late

theorem step_onTime (hk : kind.withHeartbeat = true) {late : Nat} {e : ClockedEvent} (h : c.Inv p kind)
    (hon : c.OnTime late) (hp : c.Prompt late e) : (c.step p e).OnTime late := by
  cases e with
  | tick => exact fun ho => hp (h.watched ho)
  | timed e =>
    cases e with
    | expire i =>
      rw [OnTime, conn_expire]
      exact hon
    | conn e =>
      intro ho
      rcases c.conn.step_timer e (h.timed.kind ▸ hk) with ⟨hb, -, hw⟩ | ⟨hb, hkept⟩
      · have harmed : c.conn.armed e = 1 := Timed.armed_rearmed hw
        have hexpiry : (c.step p (.timed (.conn e))).expiry = c.now + p.again c.conn.kind :=
          if_neg (by simp [harmed])
        rw [hexpiry, show (c.step p (.timed (.conn e))).now = c.now from rfl]
        omega
      · have hexpiry : (c.step p (.timed (.conn e))).expiry = c.expiry := if_pos (armed_kept hkept)
        rw [hexpiry]
        cases hkept with
        | kept hopen _ => exact hon (hopen.symm.trans ho)
        | stopped hclosed _ =>
          rw [conn_step, hclosed] at ho
          cases ho

/-- Either one heartbeat is enqueued, on an open connection when its time has come and not much later, and
noted among the `beats`; or none is. -/
def Regular (p : HeartBeatPolicy) (late : Nat) (c : Clocked) (e : ClockedEvent) : Prop :=
  (∃ b : BufferSequence, b.IsHeartbeat ∧ (c.step p e).conn.send.enqueued = c.conn.send.enqueued ++ [b] ∧
      (c.step p e).beats = c.beats ++ [c.now] ∧
      (c.conn.isOpen = true → c.lastBeat + p.interval ≤ c.now ∧ c.now ≤ c.lastBeat + p.interval + late)) ∨
    (∃ new, (c.step p e).conn.send.enqueued = c.conn.send.enqueued ++ new ∧ (∀ b ∈ new, ¬ b.IsHeartbeat) ∧
      (c.step p e).beats = c.beats)

theorem expiry_client (h : c.Inv p .clientWithHeartbeat) : c.expiry = c.lastBeat + p.interval := by
  have hkind : c.conn.kind = .clientWithHeartbeat := h.timed.kind
  rw [h.expiry, allowance, hkind]
  split <;> rfl

/-- The handler of the wait of an open client does not run before its time. -/
theorem due_of_ticks {e : Conn.Event} (h : c.Inv p .clientWithHeartbeat) (hl : c.Legal (.timed (.conn e)))
    (ho : c.conn.isOpen = true) (ht : c.conn.Ticks e) : c.expiry ≤ c.now := by
  cases e with
  | waitDone i ec up =>
    have hop : c.conn.waits[i]? = some ⟨false⟩ := by
      have hi : i < c.conn.waits.length := ht.2.1
      rw [h.one rfl ho] at hi ⊢
      obtain rfl : i = 0 := by simpa using hi
      rfl
    obtain ⟨-, timer, htimer, hq⟩ := Over.success hl hop rfl
    exact forall₂_getElem? h.due htimer hop rfl hq
  | readDone | writeDone | upper => exact absurd ht id

/-- A client whose timer ticks enqueues one heartbeat and notes it; nothing else does either. -/
theorem step_beats (hkind : c.conn.kind = .clientWithHeartbeat) (e : ClockedEvent) :
    (∃ e' b, e = .timed (.conn e') ∧ c.conn.Ticks e' ∧ b.IsHeartbeat ∧
        (c.step p e).conn.send.enqueued = c.conn.send.enqueued ++ [b] ∧ (c.step p e).beats = c.beats ++ [c.now]) ∨
      (∃ new, (c.step p e).conn.send.enqueued = c.conn.send.enqueued ++ new ∧ (∀ b ∈ new, ¬ b.IsHeartbeat) ∧
        (c.step p e).beats = c.beats) := by
  have hidle : ∀ c' : Clocked, c'.conn = c.conn → c'.beats = c.beats →
      ∃ new, c'.conn.send.enqueued = c.conn.send.enqueued ++ new ∧ (∀ b ∈ new, ¬ b.IsHeartbeat) ∧
        c'.beats = c.beats := by
    intro c' hconn hbeats
    exact ⟨[], by rw [hconn, List.append_nil], fun b hb => absurd hb List.not_mem_nil, hbeats⟩
  cases e with
  | tick => exact .inr (hidle _ rfl rfl)
  | timed e =>
    cases e with
    | expire i => exact .inr (hidle _ (conn_expire ..) rfl)
    | conn e =>
      rw [conn_step]
      rcases c.conn.step_cases e with ⟨-, -, hs, -⟩ | ⟨ht, -, -, -, b, hb, henq⟩ | ⟨hp, ht, hq⟩
      · rw [hkind] at hs
        cases hs
      · exact .inl ⟨e, b, rfl, ht, hb, henq, if_pos (.inr ht)⟩
      · obtain ⟨new, hnew, hno⟩ := hq.pushed
        exact .inr ⟨new, hnew, hno, if_neg fun hbeat => ht (beats_client hkind hbeat)⟩

theorem regular_of_onTime {late : Nat} {e : ClockedEvent} (h : c.Inv p .clientWithHeartbeat)
    (hon : c.OnTime late) (hl : c.Legal e) : c.Regular p late e := by
  rcases step_beats (p := p) h.timed.kind e with ⟨e', b, rfl, ht, hb, henq, hbeats⟩ | hnone
  · refine .inl ⟨b, hb, henq, hbeats, fun ho => ?_⟩
    rw [← expiry_client h]
    exact ⟨due_of_ticks h hl ho ht, hon ho⟩
  · exact .inr hnone

/-! ## Never suspected in time -/

/-- No wait is over, and no timeout was reported. -/
structure Trusting (c : Clocked) : Prop where
  running : ∀ timer ∈ c.timed.timers, timer.queuedAt = none
  silent : ConnectionEvent.timeout ∉ c.conn.events

/-- Only a wait that is over reports a timeout. -/
theorem timeout_step {s : Conn} {e : Conn.Event} (hl : s.Legal e)
    (h : ConnectionEvent.timeout ∈ (s.step e).events) :
    ConnectionEvent.timeout ∈ s.events ∨ ∃ i ec up, e = .waitDone i ec up ∧ ec.value = 0 := by
  by_cases hn : s.Notifying e
  · obtain ⟨t, up, hevents, -, heq⟩ := Conn.notifying_eq s e hl hn
    rw [heq, (Conn.notify_effect t _ up).2.2.1, hevents] at h
    rcases List.mem_append.mp h with h | h
    · exact .inl h
    · cases e with
      | waitDone i ec up => exact .inr ⟨i, ec, up, rfl, hn.2⟩
      | readDone | writeDone | upper => simp [Conn.lossOf] at h
  · by_cases hs : s.Silent e
    · rw [(Conn.step_silent s e hl hs).2.1] at h
      exact .inl h
    · rw [(Conn.step_unnoticed s e hl hs hn).events] at h
      exact .inl h

/-- **While heartbeats come in time** the timer does not expire, and no timeout is reported. -/
theorem step_trusting (h : c.Inv p .serverWithHeartbeat) (ht : c.Trusting) {e : ClockedEvent} (hl : c.Legal e)
    (hin : c.conn.isOpen = true → c.now < c.expiry) : (c.step p e).Trusting := by
  cases e with
  | tick => exact ⟨ht.running, ht.silent⟩
  | timed e =>
    cases e with
    | expire i =>
      -- a closed connection has stopped its timer, an open one does not wait long enough
      obtain ⟨⟨timer, op, -, hop, -, hc⟩, hexpiry⟩ := hl
      cases ho : c.conn.isOpen with
      | true => exact absurd (hin ho) (Nat.not_lt.mpr hexpiry)
      | false =>
        rw [h.stopped rfl ho op (List.mem_of_getElem? hop)] at hc
        cases hc
    | conn e =>
      refine ⟨?_, ?_⟩
      · intro timer htimer
        have hmem : timer ∈ remaining c.timed.timers e ++ List.replicate (c.conn.armed e)
            ⟨c.timed.heartbeats + (c.conn.heartbeatProcessed e).toNat, none⟩ := htimer
        rcases List.mem_append.mp hmem with hold | hnew
        · cases e with
          | waitDone i ec up => exact ht.running timer (List.mem_of_mem_eraseIdx hold)
          | readDone | writeDone | upper => exact ht.running timer hold
        · rw [List.eq_of_mem_replicate hnew]
      · intro hmem
        rcases timeout_step hl.1.1 hmem with hold | ⟨i, ec, up, rfl, h0⟩
        · exact ht.silent hold
        · obtain ⟨timer, op, htimer, -, hresult⟩ := hl.1.2 i ec up rfl
          exact hresult.1.mp h0 (ht.running timer (List.mem_of_getElem? htimer))

end Steps

/-! ## Runs -/

section Runs
variable {p : HeartBeatPolicy} {kind : ConnKind} {socketStr : String} {padding : Nat → Padding}
  {slack made late : Nat} {es : List ClockedEvent}

theorem run_onTime (hk : kind.withHeartbeat = true)
    (hl : EachStep (step p) Legal (start p kind socketStr padding slack made made) es)
    (hprompt : EachStep (step p) (Prompt late) (start p kind socketStr padding slack made made) es) :
    let c := run (step p) (start p kind socketStr padding slack made made) es
    c.Inv p kind ∧ c.OnTime late := by
  refine run_history_legal (J := fun _ (c : Clocked) => c.Inv p kind ∧ c.OnTime late)
    (L := fun c e => c.Legal e ∧ c.Prompt late e) ⟨start_inv p hk socketStr padding slack le_rfl, fun _ => ?_⟩
    ?_ (eachStep_and.mpr ⟨hl, hprompt⟩)
  · simp only [start]
    omega
  · rintro - c e ⟨h, hon⟩ ⟨hl, hp⟩
    exact ⟨step_clocked hk c e h hl, step_onTime hk h hon hp⟩

/-- **A silent client is noticed.** Over any legal run of a server connection that watches for heartbeats,
whose loop runs the handlers of its timer at most `late` ms after their time: the connection is closed, or
no more has passed since its last heartbeat than the timeout and `late`, or, if there was none yet, since it
was made than the initial timeout and `late`. -/
theorem silence_bounded
    (hl : EachStep (step p) Legal (start p .serverWithHeartbeat socketStr padding slack made made) es)
    (hprompt : EachStep (step p) (Prompt late) (start p .serverWithHeartbeat socketStr padding slack made made) es) :
    let c := run (step p) (start p .serverWithHeartbeat socketStr padding slack made made) es
    c.conn.isOpen = true →
      c.now ≤ c.lastBeat + (if c.timed.heartbeats = 0 then p.serverInitialTimeout else p.timeout) + late := by
  intro c hopen
  obtain ⟨hinv, hon⟩ := run_onTime rfl hl hprompt
  have hnow := hon hopen
  have hkind : c.conn.kind = .serverWithHeartbeat := hinv.timed.kind
  have hcount := hinv.counted rfl
  rw [hinv.expiry, allowance, hcount, show (run (step p) _ es).conn.kind = _ from hkind] at hnow
  simpa [HeartBeatPolicy.first, HeartBeatPolicy.again] using hnow

/-- A heartbeat after two milliseconds. -/
theorem silence_bounded_beat :
    let c := run (step .standard) (start .standard .serverWithHeartbeat "10.0.0.1:80" (fun _ => ⟨[0, 0, 0], rfl⟩) 0 0 0)
      [.tick, .tick, .timed (.conn (.readDone 0 success [0, 0, 0, 0, 0, 0, 0, 0] []))]
    c.now ≤ 6 := by
  refine @silence_bounded .standard _ _ _ _ 0 _ ?_ ?_ ?_
  · refine ⟨trivial, trivial, ⟨⟨⟨⟨.header, 8, false⟩, rfl, by decide, by decide, by decide⟩, ?_⟩, ?_⟩, trivial⟩
    · exact fun i ec up he => by cases he
    · exact fun i ec up he => by cases he
  · exact ⟨fun _ => by decide, fun _ => by decide, trivial, trivial⟩
  · decide

/-- **The heartbeats of a client are regular.** Over any legal run of a client connection that sends
heartbeats, whose loop runs the handlers of its timer at most `late` ms after their time: an event enqueues one
heartbeat or none, `beats` is when, after the time the connection was made; each that is enqueued on an open
connection comes one interval after the one before, or up to `late` ms later, and while the connection is open
no more has passed since the last one. -/
theorem beats_regular
    (hl : EachStep (step p) Legal (start p .clientWithHeartbeat socketStr padding slack made made) es)
    (hprompt : EachStep (step p) (Prompt late) (start p .clientWithHeartbeat socketStr padding slack made made) es) :
    let c := run (step p) (start p .clientWithHeartbeat socketStr padding slack made made) es
    EachStep (step p) (Regular p late) (start p .clientWithHeartbeat socketStr padding slack made made) es ∧
      (c.conn.isOpen = true → c.now ≤ c.lastBeat + p.interval + late) := by
  intro c
  obtain ⟨hinv, hon⟩ := run_onTime rfl hl hprompt
  refine ⟨?_, fun hopen => ?_⟩
  · refine eachStep_of_invariant (I := fun c : Clocked => c.Inv p .clientWithHeartbeat ∧ c.OnTime late)
      (L := fun c e => c.Legal e ∧ c.Prompt late e) ?_ ?_
      ⟨start_inv p rfl socketStr padding slack le_rfl, fun _ => ?_⟩ (eachStep_and.mpr ⟨hl, hprompt⟩)
    · rintro c e ⟨h, hon⟩ ⟨hl, hp⟩
      exact ⟨step_clocked rfl c e h hl, step_onTime rfl h hon hp⟩
    · rintro c e ⟨h, hon⟩ ⟨hl, -⟩
      exact regular_of_onTime h hon hl
    · simp only [start]
      omega
  · rw [← expiry_client hinv]
    exact hon hopen

/-- The first heartbeat of a client. -/
theorem beats_regular_first :
    let es : List ClockedEvent := [.tick, .tick, .timed (.expire 0), .timed (.conn (.waitDone 0 success []))]
    EachStep (step .standard) (Regular .standard 0)
      (start .standard .clientWithHeartbeat "10.0.0.1:80" (fun _ => ⟨[0, 0, 0], rfl⟩) 0 0 0) es := by
  refine (@beats_regular .standard _ _ _ _ 0 _ ?_ ?_).1
  · refine ⟨trivial, trivial, ⟨⟨⟨0, none⟩, ⟨false⟩, rfl, rfl, rfl, rfl⟩, by decide⟩,
      ⟨⟨⟨⟨false⟩, rfl, by decide⟩, ?_⟩, ?_⟩, trivial⟩
    · intro i ec up he
      cases he
      exact ⟨⟨0, some 0⟩, ⟨false⟩, rfl, rfl, by decide, by decide⟩
    · intro i ec up he
      cases he
      exact ⟨⟨0, some 0⟩, ⟨false⟩, rfl, rfl, .inl (by decide)⟩
  · exact ⟨fun _ => by decide, fun _ => by decide, trivial, trivial, trivial⟩

end Runs
end Clocked

end Thallium.Network
