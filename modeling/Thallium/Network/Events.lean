import Thallium.Lib.EventRun
import Thallium.Network.Connection

/-!
# What the upper layer hears of a lost connection (network/connection.cpp:47-145, :221-328)

Eight places close a connection. Three tell the upper layer, with `close`, `pipe` or `timeout`; the
others close without a word. Operations that are still in flight complete afterwards and may tell it
again.

| here | there |
| --- | --- |
| `Conn.Silent`       | header errors (:60), payload errors and short payloads (:72, :83), timer errors of a client (:311) |
| `Conn.Notifying`    | end of file (:223, :295), write errors (:124), timeouts (:270) |
| `Conn.NotifiedOnce` | not in the source: what the upper layer should hear |

* `step_silent`, `step_notifying`, `step_unnoticed` — what each kind of event does.
* `always_notifiedOnce_iff` — a connection lost is told exactly once over any run **iff** no event
  closes the open connection silently and none notifies again after it was lost.
-/
namespace Thallium.Network
open Message Serializer EventRun

namespace Conn

/-- The events of a loss. -/
def TellsLoss (e : ConnectionEvent) : Prop := e = .close ∨ e = .pipe ∨ e = .timeout

/-- A connection that was not closed by its upper layer was lost, and has told it exactly once. -/
def NotifiedOnce (s : Conn) : Prop :=
  s.isOpen = false → s.disconnected = false → ∃ e, s.events = [e] ∧ TellsLoss e

/-- The handler closes, and does not call the upper layer. -/
def Silent (s : Conn) : Event → Prop
  | .readDone i ec data _ => ∃ op, s.recv.reads[i]? = some op ∧
      match op.target with
      | .header => ec.value ≠ 0 ∧ ec.value ≠ operationAborted ∧ ec.value ≠ eof
      | .payload length => (ec.value ≠ 0 ∧ ec.value ≠ operationAborted) ∨ data.length < length
  | .waitDone _ ec _ => s.kind = .clientWithHeartbeat ∧ ec.value ≠ 0
  | .writeDone .. | .upper _ => False

/-- The handler closes, and calls the upper layer, whether the connection was open or not. -/
def Notifying (s : Conn) : Event → Prop
  | .readDone i ec _ _ => ∃ op, s.recv.reads[i]? = some op ∧ op.target = .header ∧ ec.value = eof
  | .writeDone _ ec _ _ => ec.value ≠ 0 ∧ ec.value ≠ operationAborted
  | .waitDone _ ec _ => s.kind = .serverWithHeartbeat ∧ ec.value = 0
  | .upper _ => False

/-- The open connection is not closed silently, and the lost one does not notify again. -/
def ToldOnce (s : Conn) (e : Event) : Prop :=
  s.disconnected = true ∨
    (s.isOpen = true ∧ ¬ s.Silent e) ∨ (s.isOpen = false ∧ ¬ s.Notifying e)

/-- All other events: the connection is closed by its upper layer or not at all. -/
structure Unnoticed (s s' : Conn) : Prop where
  events : s'.events = s.events
  closed : s.isOpen = false → s'.isOpen = false ∧ s'.disconnected = s.disconnected
  opened : s.isOpen = true →
    (s'.isOpen = true ∧ s'.disconnected = s.disconnected) ∨
    (s'.isOpen = false ∧ s'.disconnected = true)

/-- While the connection is open nothing has been told. -/
structure Told (s : Conn) : Prop where
  opened : s.isOpen = true → s.events = [] ∧ s.disconnected = false
  lost : s.NotifiedOnce

variable {s s' s'' : Conn} {i : Nat} {ec : ErrorCode} {data : List UInt8} {n : Nat}
  {up : List UpperCall}

/-! ## Events nobody hears of -/

/-- What changes neither whether the connection is open nor what the upper layer knows. -/
theorem unnoticed_of_eq (hopen : s'.isOpen = s.isOpen) (hevents : s'.events = s.events)
    (hdisc : s'.disconnected = s.disconnected) : Unnoticed s s' :=
  ⟨hevents, fun h => ⟨hopen.trans h, hdisc⟩, fun h => .inl ⟨hopen.trans h, hdisc⟩⟩

theorem UpperEffect.unnoticed (h : UpperEffect s s') : Unnoticed s s' := by
  refine ⟨h.events, h.closed, fun hopen => ?_⟩
  rcases h.opened hopen with ⟨ho, -, hd⟩ | hclosed
  · exact .inl ⟨ho, hd⟩
  · exact .inr hclosed

theorem AskFrame.unnoticed (h : AskFrame s s') : Unnoticed s s' :=
  unnoticed_of_eq h.isOpen h.events h.disconnected

theorem Unnoticed.trans (h : Unnoticed s s') (h' : Unnoticed s' s'') : Unnoticed s s'' := by
  refine ⟨h'.events.trans h.events, fun hc => ?_, fun ho => ?_⟩
  · obtain ⟨hc', hd'⟩ := h.closed hc
    obtain ⟨hc'', hd''⟩ := h'.closed hc'
    exact ⟨hc'', hd''.trans hd'⟩
  · rcases h.opened ho with ⟨ho', hd'⟩ | ⟨hc', hd'⟩
    · rcases h'.opened ho' with ⟨ho'', hd''⟩ | hc''
      · exact .inl ⟨ho'', hd''.trans hd'⟩
      · exact .inr hc''
    · obtain ⟨hc'', hd''⟩ := h'.closed hc'
      exact .inr ⟨hc'', hd''.trans hd'⟩

/-! ## One event -/

/-- **A silent event** closes, and that is all. -/
theorem step_silent (s : Conn) (e : Event) (hl : s.Legal e) (hs : s.Silent e) :
    (s.step e).isOpen = false ∧ (s.step e).events = s.events ∧
      (s.step e).disconnected = s.disconnected := by
  cases e with
  | readDone i ec data up =>
    obtain ⟨op, hop, hfail⟩ := hs
    obtain ⟨-, -, -, -, -, hevents, hdisc⟩ := readCompleted_frame s i op data
    have hclose : s.step (.readDone i ec data up) = (s.readCompleted i op data).connectionClose := by
      show s.readDone i ec data up = _
      cases htarget : op.target with
      | header =>
        simp only [htarget] at hfail
        rw [readDone_header hop htarget]
        simp only [if_neg hfail.1, if_neg hfail.2.1, if_neg hfail.2.2]
      | payload length =>
        simp only [htarget] at hfail
        rw [readDone_payload hop htarget]
        simp only [if_pos hfail]
    rw [hclose, connectionClose_isOpen, connectionClose_events, connectionClose_disconnected]
    exact ⟨rfl, hevents, hdisc⟩
  | waitDone i ec up =>
    obtain ⟨hk, h0⟩ := hs
    obtain ⟨op, hop, -⟩ := hl
    have hclose : s.step (.waitDone i ec up) =
        connectionClose { s with waits := s.waits.eraseIdx i } := by
      show s.waitDone i ec up = _
      rw [waitDone_client hop hk]
      simp only [if_neg h0]
    rw [hclose, connectionClose_isOpen, connectionClose_events, connectionClose_disconnected]
    exact ⟨rfl, rfl, rfl⟩
  | writeDone i ec n up => exact absurd hs id
  | upper call => exact absurd hs id

/-- What a notifying event tells. -/
def lossOf : Event → ConnectionEvent
  | .writeDone .. => .pipe
  | .waitDone .. => .timeout
  | _ => .close

/-- The handler of a notifying event is `connection_close` and the callback. -/
theorem notifying_eq (s : Conn) (e : Event) (hl : s.Legal e) (hn : s.Notifying e) :
    ∃ (t : Conn) (up : List UpperCall), t.events = s.events ∧ t.disconnected = s.disconnected ∧
      s.step e = t.connectionClose.upperLayerEventCallback (lossOf e) up := by
  cases e with
  | readDone i ec data up =>
    obtain ⟨op, hop, htarget, he⟩ := hn
    obtain ⟨-, -, -, -, -, hevents, hdisc⟩ := readCompleted_frame s i op data
    have h0 : ¬ ec.value = 0 := by rw [he]; decide
    have ha : ¬ ec.value = operationAborted := by rw [he]; decide
    refine ⟨s.readCompleted i op data, up, hevents, hdisc, ?_⟩
    show s.readDone i ec data up = _
    rw [readDone_header hop htarget]
    simp only [if_neg h0, if_neg ha, if_pos he, lossOf]
  | writeDone i ec n up =>
    obtain ⟨op, hop, -⟩ := hl
    refine ⟨{ s with send := s.send.complete i }, up, rfl, rfl, ?_⟩
    show s.writeDone i ec n up = _
    rw [writeDone_eq hop]
    exact if_pos hn
  | waitDone i ec up =>
    obtain ⟨hk, h0⟩ := hn
    obtain ⟨op, hop, -⟩ := hl
    refine ⟨{ s with waits := s.waits.eraseIdx i }, up, rfl, rfl, ?_⟩
    show s.waitDone i ec up = _
    rw [waitDone_server hop hk]
    exact if_pos h0
  | upper call => exact absurd hn id

/-- **A notifying event** closes, and adds one event to what the upper layer has heard. -/
theorem step_notifying (s : Conn) (e : Event) (hl : s.Legal e) (hn : s.Notifying e) :
    (s.step e).isOpen = false ∧ (∃ ev, (s.step e).events = s.events ++ [ev] ∧ TellsLoss ev) ∧
      (s.step e).disconnected = s.disconnected := by
  obtain ⟨t, up, hevents, hdisc, heq⟩ := notifying_eq s e hl hn
  obtain ⟨hclosed, -, htold, hdisc', -⟩ := notify_effect t (lossOf e) up
  rw [heq, htold, hevents]
  refine ⟨hclosed, ⟨lossOf e, rfl, ?_⟩, hdisc'.trans hdisc⟩
  cases e <;> simp [lossOf, TellsLoss]

/-- **Every other event** goes unnoticed, the calls of the upper layer among them. -/
theorem step_unnoticed (s : Conn) (e : Event) (hl : s.Legal e) (hs : ¬ s.Silent e)
    (hn : ¬ s.Notifying e) : Unnoticed s (s.step e) := by
  cases e with
  | readDone i ec data up =>
    obtain ⟨op, hop, -⟩ := hl
    obtain ⟨hopen, -, -, -, -, hevents, hdisc⟩ := readCompleted_frame s i op data
    apply (unnoticed_of_eq hopen hevents hdisc).trans
    show Unnoticed (s.readCompleted i op data) (s.readDone i ec data up)
    cases htarget : op.target with
    | header =>
      rw [readDone_header hop htarget]
      simp only
      split
      · split
        · exact (parsed_frame _).unnoticed
        · exact unnoticed_of_eq rfl rfl rfl
      · next h0 =>
        split
        · exact unnoticed_of_eq rfl rfl rfl
        · next ha =>
          split
          · next he => exact absurd ⟨op, hop, htarget, he⟩ hn
          · next he => exact absurd ⟨op, hop, by rw [htarget]; exact ⟨h0, ha, he⟩⟩ hs
    | payload length =>
      rw [readDone_payload hop htarget]
      simp only
      split
      · next hfail => exact absurd ⟨op, hop, by rw [htarget]; exact hfail⟩ hs
      · split
        · -- the upper layer may close the connection before the next read is asked for
          have heff := ((s.readCompleted i op data).upperLayerCallback_effect length up).unnoticed
          exact Unnoticed.trans ⟨heff.events, heff.closed, heff.opened⟩ (doReceiveMessage_frame _).unnoticed
        · exact (doReceiveMessage_frame _).unnoticed
  | writeDone i ec n up =>
    obtain ⟨op, hop, -⟩ := hl
    show Unnoticed s (s.writeDone i ec n up)
    rw [writeDone_eq hop]
    simp only
    rw [if_neg (show ¬ (ec.value ≠ 0 ∧ ec.value ≠ operationAborted) from hn)]
    split
    · exact unnoticed_of_eq rfl rfl rfl
    · exact unnoticed_of_eq rfl rfl rfl
  | waitDone i ec up =>
    obtain ⟨op, hop, -⟩ := hl
    show Unnoticed s (s.waitDone i ec up)
    by_cases hserver : s.kind = .serverWithHeartbeat
    · rw [waitDone_server hop hserver]
      simp only
      rw [if_neg fun h0 => hn ⟨hserver, h0⟩]
      exact unnoticed_of_eq rfl rfl rfl
    · by_cases hclient : s.kind = .clientWithHeartbeat
      · have h0 : ec.value = 0 := by
          by_contra h0
          exact hs ⟨hclient, h0⟩
        rw [waitDone_client hop hclient]
        simp only [if_pos h0]
        exact unnoticed_of_eq rfl rfl rfl
      · rw [waitDone_other hop hserver hclient]
        exact unnoticed_of_eq rfl rfl rfl
  | upper call => exact (s.upperCall_effect call).unnoticed

/-! ## The steps and the run -/

/-- A connection told of in the right way stays so. -/
theorem step_told (s : Conn) (e : Event) (h : s.Told) (hl : s.Legal e) (hc : s.ToldOnce e) :
    (s.step e).Told := by
  by_cases hn : s.Notifying e
  · obtain ⟨hclosed, ⟨ev, hev, hloss⟩, hdisc⟩ := step_notifying s e hl hn
    refine ⟨fun hopen => absurd (hclosed.symm.trans hopen) (by decide), fun _ hd => ?_⟩
    rw [hdisc] at hd
    rcases hc with hd' | ⟨hopen, -⟩ | ⟨-, hquiet⟩
    · exact absurd (hd.symm.trans hd') (by decide)
    · rw [(h.opened hopen).1] at hev
      exact ⟨ev, hev, hloss⟩
    · exact absurd hn hquiet
  · by_cases hs : s.Silent e
    · obtain ⟨hclosed, hevents, hdisc⟩ := step_silent s e hl hs
      refine ⟨fun hopen => absurd (hclosed.symm.trans hopen) (by decide), fun _ hd => ?_⟩
      rw [hdisc] at hd
      rw [hevents]
      rcases hc with hd' | ⟨-, hloud⟩ | ⟨hlost, -⟩
      · exact absurd (hd.symm.trans hd') (by decide)
      · exact absurd hs hloud
      · exact h.lost hlost hd
    · have hu := step_unnoticed s e hl hs hn
      cases hopen : s.isOpen with
      | true =>
        obtain ⟨hnone, hd⟩ := h.opened hopen
        rcases hu.opened hopen with ⟨hopen', hd'⟩ | ⟨hclosed', hd'⟩
        · exact ⟨fun _ => ⟨hu.events.trans hnone, hd'.trans hd⟩,
            fun hc => absurd (hopen'.symm.trans hc) (by decide)⟩
        · exact ⟨fun ho => absurd (hclosed'.symm.trans ho) (by decide),
            fun _ hf => absurd (hd'.symm.trans hf) (by decide)⟩
      | false =>
        obtain ⟨hclosed', hd'⟩ := hu.closed hopen
        refine ⟨fun ho => absurd (hclosed'.symm.trans ho) (by decide), fun _ hd => ?_⟩
        rw [hu.events]
        exact h.lost hopen (hd'.symm.trans hd)

/-- A silent loss, or a second event for one loss. -/
theorem step_notToldOnce (s : Conn) (e : Event) (h : s.Told) (hl : s.Legal e)
    (hc : ¬ s.ToldOnce e) : ¬ (s.step e).NotifiedOnce := by
  rw [ToldOnce, not_or, not_or, not_and, not_and] at hc
  obtain ⟨hdisc, hsilent, hnotifying⟩ := hc
  have hd : s.disconnected = false := by simpa using hdisc
  intro honce
  cases hopen : s.isOpen with
  | true =>
    obtain ⟨hclosed, hevents, hdisc'⟩ := step_silent s e hl (not_not.mp (hsilent hopen))
    obtain ⟨ev, hone, -⟩ := honce hclosed (hdisc'.trans hd)
    rw [hevents, (h.opened hopen).1] at hone
    exact absurd hone (List.cons_ne_nil ev []).symm
  | false =>
    obtain ⟨hclosed, ⟨ev, hev, -⟩, hdisc'⟩ := step_notifying s e hl (not_not.mp (hnotifying hopen))
    obtain ⟨ev', hone, -⟩ := honce hclosed (hdisc'.trans hd)
    obtain ⟨ev'', hold, -⟩ := h.lost hopen hd
    rw [hev, hold] at hone
    exact absurd (congrArg List.length hone) (by simp)

theorem start_told (kind : ConnKind) (socketStr : String) (padding : Nat → Padding) (slack : Nat) :
    (start kind socketStr padding slack).Told :=
  ⟨fun _ => ⟨rfl, rfl⟩, fun hclosed => absurd hclosed (by simp [start, doReceiveMessage, asyncRead])⟩

/-- **Exact condition of telling a loss once.** From a connection just started, over any legal run of
completions with any error codes and byte counts and any calls of the upper layer, a connection that is
closed but not by its upper layer has told it exactly one event in every state, **iff** no event closes
the open connection silently and, once it is lost, no completion notifies again. -/
theorem always_notifiedOnce_iff (kind : ConnKind) (socketStr : String) (padding : Nat → Padding)
    (slack : Nat) (es : List Event)
    (hl : EachStep step Legal (start kind socketStr padding slack) es) :
    Always step NotifiedOnce (start kind socketStr padding slack) es ↔
      EachStep step ToldOnce (start kind socketStr padding slack) es :=
  always_iff_eachStep (fun _ h => h.lost) step_told step_notToldOnce
    (start_told kind socketStr padding slack) hl

/-- The peer of a server closes the connection. -/
theorem always_notifiedOnce_eof :
    Always step NotifiedOnce (start .server "10.0.0.1:80" (fun _ => ⟨[0, 0, 0], rfl⟩) 0)
      [.readDone 0 ⟨eof, "End of file"⟩ [] []] := by
  rw [always_notifiedOnce_iff]
  · refine ⟨.inr (.inl ⟨rfl, ?_⟩), trivial⟩
    rintro ⟨op, hop, hfail⟩
    obtain rfl : ⟨.header, 8, false⟩ = op := Option.some.inj hop
    exact hfail.2.2 rfl
  · exact ⟨⟨⟨.header, 8, false⟩, rfl, by decide, fun h0 => absurd h0 (by decide), by decide⟩, trivial⟩

/-- The peer resets the connection of a server, whose upper layer sends nothing: it is closed and
nothing is told. -/
theorem not_always_notifiedOnce_reset :
    let s := start .server "10.0.0.1:80" (fun _ => ⟨[0, 0, 0], rfl⟩) 0
    let es : List Event := [.readDone 0 ⟨104, "Connection reset by peer"⟩ [] []]
    EachStep step Legal s es ∧ (run step s es).sentAfterClose = false ∧
      ¬ Always step NotifiedOnce s es := by
  refine ⟨⟨⟨⟨.header, 8, false⟩, rfl, by decide, fun h0 => absurd h0 (by decide), by decide⟩, trivial⟩,
    rfl, ?_⟩
  rintro ⟨-, honce⟩
  obtain ⟨ev, hev, -⟩ := honce rfl rfl
  exact absurd hev (List.cons_ne_nil ev []).symm

end Conn

end Thallium.Network
