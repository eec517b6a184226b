import Thallium.Network.Connection

/-!
# The completion of a write (network/connection.cpp:115-145)

`when_message_sent` branches on the error code first and on the number of bytes afterwards; a cancelled
write falls through from the one to the other.

| here | there |
| --- | --- |
| `Sender.Advanced`    | not in the source: the frame is off the queue, the one behind it is being written |
| `HandlesSent`        | not in the source: what a completion should come to |
| `Settles`            | not in the source: when it does |

* `handlesSent_iff` — the handler does what it should **iff** an error closes the connection, or some byte
  went out and the connection is closed already, or a success on the open one finds the frame at
  the front of the queue and no second one waiting.
-/
namespace Thallium.Network
open Message

/-- The frame `f` is dropped; the next in the queue, if there is one, is handed to `async_write`. -/
structure Sender.Advanced (q : Sender) (f : BufferSequence) (q' : Sender) : Prop where
  dropped : q'.writeQueue = q.writeQueue.erase f
  written : q'.written = q.written ++ (q.writeQueue.erase f).head?.toList
  inFlight : q'.writes =
    q.writes ++ ((q.writeQueue.erase f).head?.map fun b => ⟨b.totalSize, false⟩).toList

/-- Popping and writing the back is advancing when the frame is at the front and what waits has its back at
its front. -/
theorem Sender.pop_advanced_iff (q : Sender) {f : BufferSequence} (hf : f ∈ q.writeQueue) :
    q.Advanced f q.pop ↔ q.writeQueue.head? = some f ∧ q.writeQueue.tail.getLast? = q.writeQueue.tail.head? := by
  rw [pop_eq]
  cases hq : q.writeQueue with
  | nil => simp [hq] at hf
  | cons b rest =>
    by_cases hb : b = f
    · have herase : (b :: rest).erase f = rest := by simp [hb]
      constructor
      · intro h
        have hwritten := h.written
        rw [hq, herase] at hwritten
        have hnext : rest.getLast?.toList = rest.head?.toList := List.append_cancel_left hwritten
        refine ⟨by rw [hb]; rfl, ?_⟩
        show rest.getLast? = rest.head?
        cases hlast : rest.getLast? <;> cases hfirst : rest.head? <;> simp_all
      · rintro ⟨-, hnext⟩
        have hnext : rest.getLast? = rest.head? := hnext
        refine ⟨by rw [hq, herase]; rfl, ?_, ?_⟩
        · rw [hq, herase, ← hnext]
          rfl
        · rw [hq, herase, ← hnext]
          rfl
    · refine iff_of_false ?_ ?_
      · -- another frame is dropped
        intro h
        have hdropped := h.dropped
        rw [hq, List.erase_cons_tail (by simpa using hb)] at hdropped
        have hcount := congrArg (List.count b) hdropped
        rw [List.count_cons_self, List.count_erase_of_ne hb] at hcount
        simp at hcount
      · rintro ⟨hhead, -⟩
        exact hb (Option.some.inj hhead)

namespace Conn
variable {s : Conn} {f : BufferSequence} {ec : ErrorCode} {n : Nat} {up : List UpperCall}

/-- The completion of the write of `f` does not throw, leaves the connection closed or goes on with the next
frame, and closes it when the write was cancelled or no byte went out. -/
def HandlesSent (s : Conn) (f : BufferSequence) (ec : ErrorCode) (n : Nat) (up : List UpperCall) : Prop :=
  ∃ s', whenMessageSent f.totalSize ec n up s = .ok () s' ∧
    (s'.isOpen = false ∨ s'.isOpen = true ∧ s.send.Advanced f s'.send) ∧
    (ec.value = operationAborted ∨ n = 0 → s'.isOpen = false)

/-- An error that closes; or some byte went out, and the connection is closed already, or it was a success of
the frame at the front and the last frame that waits is the next one. -/
def Settles (s : Conn) (f : BufferSequence) (ec : ErrorCode) (n : Nat) : Prop :=
  (ec.value ≠ 0 ∧ ec.value ≠ operationAborted) ∨
    n ≠ 0 ∧ (s.isOpen = false ∨ ec.value = 0 ∧ s.send.writeQueue.head? = some f ∧
      s.send.writeQueue.tail.getLast? = s.send.writeQueue.tail.head?)

/-- **The completion of a write** is handled as it should be **iff** it `Settles`. -/
theorem handlesSent_iff (hf : f ∈ s.send.writeQueue) :
    HandlesSent s f ec n up ↔ Settles s f ec n := by
  unfold HandlesSent Settles
  rw [whenMessageSent_eq]
  by_cases hfail : ec.value ≠ 0 ∧ ec.value ≠ operationAborted
  · have hclosed := (s.notify_effect .pipe up).1
    rw [if_pos hfail]
    exact iff_of_true ⟨_, rfl, .inl hclosed, fun _ => hclosed⟩ (.inl hfail)
  rw [if_neg hfail]
  by_cases hzero : n = 0
  · rw [if_pos hzero]
    refine iff_of_false ?_ ?_
    · rintro ⟨s', h, -⟩
      cases h
    · rintro (h | ⟨h, -⟩)
      · exact hfail h
      · exact h hzero
  rw [if_neg hzero]
  constructor
  · rintro ⟨s', h, hnext, hclosed⟩
    cases h
    refine .inr ⟨hzero, ?_⟩
    rcases hnext with hshut | ⟨hopen, hadvanced⟩
    · exact .inl hshut
    · -- a cancelled write would have had to close
      have h0 : ec.value = 0 := by
        by_contra h0
        have ha : ec.value = operationAborted := by
          by_contra ha
          exact hfail ⟨h0, ha⟩
        rw [hclosed (.inl ha)] at hopen
        cases hopen
      exact .inr ⟨h0, (s.send.pop_advanced_iff hf).mp hadvanced⟩
  · rintro (h | ⟨-, hshut | ⟨h0, hnext⟩⟩)
    · exact absurd h hfail
    · exact ⟨_, rfl, .inl hshut, fun _ => hshut⟩
    · refine ⟨_, rfl, ?_, ?_⟩
      · by_cases hopen : s.isOpen = true
        · exact .inr ⟨hopen, (s.send.pop_advanced_iff hf).mpr hnext⟩
        · exact .inl (Bool.eq_false_of_not_eq_true hopen)
      · rintro (ha | h)
        · rw [h0] at ha
          cases ha
        · exact absurd h hzero

/-- One message, written whole on the open connection. -/
theorem handlesSent_success :
    HandlesSent ((start .server "1.2.3.4:5" (fun _ => ⟨[0, 0, 0], rfl⟩) 0).doSendMessage [7])
      ⟨0, [[1, 0, 0, 0, 1, 0, 0, 0], [7]]⟩ success 9 [] := by
  refine (handlesSent_iff ?_).mpr (.inr ⟨by decide, .inr ⟨rfl, rfl, rfl⟩⟩)
  decide

/-- The connection is closed while a message is being written; the handler of the cancelled write throws. -/
theorem not_handlesSent_cancelled :
    ¬ HandlesSent
      (((start .server "1.2.3.4:5" (fun _ => ⟨[0, 0, 0], rfl⟩) 0).doSendMessage [7]).upperCall .disconnect)
      ⟨0, [[1, 0, 0, 0, 1, 0, 0, 0], [7]]⟩ ⟨operationAborted, "Operation canceled"⟩ 0 [] := by
  rintro ⟨s', h, -⟩
  rw [whenMessageSent_eq] at h
  cases h

end Conn

end Thallium.Network
