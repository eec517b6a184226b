import Thallium.Common
import Thallium.Lib.EventRun

/-!
# The lock queues (concurrent.hpp:34-90, 146-216)

`BasicLockQueue` keeps one `std::queue` behind one mutex. `SenderSideLockQueue` keeps two: senders
push to `in_queue` under the lock, the one consumer pops from `out_queue` without it and swaps the two
under the lock when `out_queue` has run out. A step below is one critical section, or what the
consumer does between two of them, so senders run between any two steps of a call.

| here | there |
| --- | --- |
| `SenderSideLockQueue`         | `in_queue`, `out_queue`; `notifying`, `point`, `results` are not fields there: senders between push and `notify_one`, where the consumer stands, the calls it finished |
| `push`, `notifyOne`           | the two halves of `send` |
| `checkOut`                    | `if (out_queue.size() == 0)`, without the lock |
| `lockIn`, `lockLate`          | the critical section, and the last one of a `receive_for` whose time is up |
| `popOut`                      | `move_or_copy`, `pop`, without the lock |
| `BasicLockQueue`, `lockMsgq`  | the same of the queue with one lock |

* `wf_step` — what holds between any two steps: the consumer locks only with `out_queue` empty, pops
  only from a non-empty one, and sleeps beside a non-empty `in_queue` only while a notify is due.
* `step_content` — received, then `out_queue`, then `in_queue`, is what was pushed.
* `step_keepsUp` — `BasicLockQueue` does in one critical section what the swap and the pop do in two.
-/
namespace Thallium.Concurrent
open EventRun

variable {T : Type}

/-- The receiving calls of both queues. -/
inductive Method where
  | receive
  | tryReceive
  | receiveFor
  deriving DecidableEq

/-- `push` and `notify` are the halves of some sender's `send`; `call` starts a call of the consumer,
`turn` is its next step, `wake` a spurious wakeup, `timeout` the end of `rel_time`. -/
inductive QueueEvent (T : Type) where
  | push (t : T)
  | notify
  | call (m : Method)
  | turn
  | wake
  | timeout

def QueueEvent.pushed? : QueueEvent T → Option T
  | .push t => some t
  | _ => none

def QueueEvent.called? : QueueEvent T → Option Method
  | .call m => some m
  | _ => none

/-- The values sent in a run, in the order the sends entered the lock. -/
def pushes (es : List (QueueEvent T)) : List T := es.filterMap QueueEvent.pushed?

/-- The calls of the consumer in a run. -/
def calls (es : List (QueueEvent T)) : List Method := es.filterMap QueueEvent.called?

/-! ## `SenderSideLockQueue` -/

namespace SenderSideLockQueue

/-- Where the consumer stands in its call. -/
inductive Point where
  | idle
  | entered (m : Method)
  | locking (m : Method)
  | blocked (m : Method)
  | timedOut
  | popping (m : Method)
  deriving DecidableEq

/-- A sleeper that wakes takes the lock again and looks at the queue again. -/
def Point.woken : Point → Point
  | .blocked m => .locking m
  | p => p

end SenderSideLockQueue

structure SenderSideLockQueue (T : Type) where
  inQueue : List T
  outQueue : List T
  notifying : Nat
  point : SenderSideLockQueue.Point
  results : List (Method × Option T)

namespace SenderSideLockQueue

def empty : SenderSideLockQueue T := ⟨[], [], 0, .idle, []⟩

/-- concurrent.hpp:170-175 -/
def push (q : SenderSideLockQueue T) (t : T) : SenderSideLockQueue T :=
  { q with inQueue := q.inQueue ++ [t], notifying := q.notifying + 1 }

def wake (q : SenderSideLockQueue T) : SenderSideLockQueue T := { q with point := q.point.woken }

/-- concurrent.hpp:176 -/
def notifyOne (q : SenderSideLockQueue T) : SenderSideLockQueue T :=
  if q.notifying = 0 then q
  else { q with notifying := q.notifying - 1, point := q.point.woken }

def finish (q : SenderSideLockQueue T) (m : Method) (r : Option T) : SenderSideLockQueue T :=
  { q with point := .idle, results := q.results ++ [(m, r)] }

/-- concurrent.hpp:180, 191, 203 -/
def checkOut (q : SenderSideLockQueue T) (m : Method) : SenderSideLockQueue T :=
  { q with point := if q.outQueue.length = 0 then .locking m else .popping m }

/-- `out_queue.swap(in_queue)` -/
def swap (q : SenderSideLockQueue T) (m : Method) : SenderSideLockQueue T :=
  { q with inQueue := q.outQueue, outQueue := q.inQueue, point := .popping m }

/-- concurrent.hpp:181-183, 192-194, 204-210: `try_receive` gives up, the others sleep. -/
def lockIn (q : SenderSideLockQueue T) (m : Method) : SenderSideLockQueue T :=
  if q.inQueue.isEmpty then
    if m = .tryReceive then q.finish m none else { q with point := .blocked m }
  else q.swap m

/-- concurrent.hpp:205-210 when `wait_for` looks for the last time. -/
def lockLate (q : SenderSideLockQueue T) : SenderSideLockQueue T :=
  if q.inQueue.isEmpty then q.finish .receiveFor none else q.swap .receiveFor

/-- concurrent.hpp:185-186, 196-198, 212-214; `front` of an empty queue is undefined. -/
def popOut (q : SenderSideLockQueue T) (m : Method) : SenderSideLockQueue T :=
  match q.outQueue with
  | [] => q
  | t :: rest => { q with outQueue := rest }.finish m (some t)

def turn (q : SenderSideLockQueue T) : SenderSideLockQueue T :=
  match q.point with
  | .idle => q
  | .entered m => q.checkOut m
  | .locking m => q.lockIn m
  | .blocked _ => q
  | .timedOut => q.lockLate
  | .popping m => q.popOut m

/-- An event that cannot happen in a state leaves it as it is. -/
def step (q : SenderSideLockQueue T) : QueueEvent T → SenderSideLockQueue T
  | .push t => q.push t
  | .notify => q.notifyOne
  | .call m => if q.point = .idle then { q with point := .entered m } else q
  | .turn => q.turn
  | .wake => q.wake
  | .timeout => if q.point = .blocked .receiveFor then { q with point := .timedOut } else q

/-- What the finished calls returned. -/
def received (q : SenderSideLockQueue T) : List T := q.results.filterMap Prod.snd

/-- The queue as its users see it. -/
def content (q : SenderSideLockQueue T) : List T := q.outQueue ++ q.inQueue

end SenderSideLockQueue

/-! ## `BasicLockQueue` -/

namespace BasicLockQueue

inductive Point where
  | idle
  | locking (m : Method)
  | blocked (m : Method)
  | timedOut
  deriving DecidableEq

def Point.woken : Point → Point
  | .blocked m => .locking m
  | p => p

end BasicLockQueue

structure BasicLockQueue (T : Type) where
  msgq : List T
  notifying : Nat
  point : BasicLockQueue.Point
  results : List (Method × Option T)

namespace BasicLockQueue

def empty : BasicLockQueue T := ⟨[], 0, .idle, []⟩

/-- concurrent.hpp:56-59 -/
def push (q : BasicLockQueue T) (t : T) : BasicLockQueue T :=
  { q with msgq := q.msgq ++ [t], notifying := q.notifying + 1 }

def wake (q : BasicLockQueue T) : BasicLockQueue T := { q with point := q.point.woken }

/-- concurrent.hpp:60 -/
def notifyOne (q : BasicLockQueue T) : BasicLockQueue T :=
  if q.notifying = 0 then q
  else { q with notifying := q.notifying - 1, point := q.point.woken }

def finish (q : BasicLockQueue T) (m : Method) (r : Option T) : BasicLockQueue T :=
  { q with point := .idle, results := q.results ++ [(m, r)] }

/-- concurrent.hpp:65-68, 72-76, 81-88: on an empty queue `try_receive` gives up and the others sleep,
else the front is taken under the same lock. -/
def lockMsgq (q : BasicLockQueue T) (m : Method) : BasicLockQueue T :=
  match q.msgq with
  | [] => if m = .tryReceive then q.finish m none else { q with point := .blocked m }
  | t :: rest => { q with msgq := rest }.finish m (some t)

/-- concurrent.hpp:82-88 when `wait_for` looks for the last time. -/
def lockLate (q : BasicLockQueue T) : BasicLockQueue T :=
  match q.msgq with
  | [] => q.finish .receiveFor none
  | t :: rest => { q with msgq := rest }.finish .receiveFor (some t)

def turn (q : BasicLockQueue T) : BasicLockQueue T :=
  match q.point with
  | .idle => q
  | .locking m => q.lockMsgq m
  | .blocked _ => q
  | .timedOut => q.lockLate

def step (q : BasicLockQueue T) : QueueEvent T → BasicLockQueue T
  | .push t => q.push t
  | .notify => q.notifyOne
  | .call m => if q.point = .idle then { q with point := .locking m } else q
  | .turn => q.turn
  | .wake => q.wake
  | .timeout => if q.point = .blocked .receiveFor then { q with point := .timedOut } else q

theorem turn_locking_nil {q : BasicLockQueue T} {m : Method} (hp : q.point = .locking m)
    (hq : q.msgq = []) :
    q.turn = if m = .tryReceive then q.finish m none else { q with point := .blocked m } := by
  simp only [turn, hp, lockMsgq, hq]

theorem turn_timedOut_nil {q : BasicLockQueue T} (hp : q.point = .timedOut) (hq : q.msgq = []) :
    q.turn = q.finish .receiveFor none := by
  simp only [turn, hp, lockLate, hq]

/-- The front is taken the same way at a first and at a last look. -/
theorem turn_cons {q : BasicLockQueue T} {m : Method} {t : T} {rest : List T}
    (hp : q.point = .locking m ∨ m = .receiveFor ∧ q.point = .timedOut) (hq : q.msgq = t :: rest) :
    q.turn = { q with msgq := rest }.finish m (some t) := by
  rcases hp with hp | ⟨rfl, hp⟩
  · simp only [turn, hp, lockMsgq, hq, finish]
  · simp only [turn, hp, lockLate, hq, finish]

end BasicLockQueue

/-! ## What holds between any two steps -/

namespace SenderSideLockQueue
variable {q : SenderSideLockQueue T}

/-- Inside the `if` of a call, before the swap. -/
def Point.Locks : Point → Prop
  | .locking _ | .blocked _ | .timedOut => True
  | _ => False

structure WF (q : SenderSideLockQueue T) : Prop where
  locks : q.point.Locks → q.outQueue = []
  pops : ∀ m, q.point = .popping m → q.outQueue ≠ []
  sleeps : ∀ m, q.point = .blocked m → q.inQueue = [] ∨ 0 < q.notifying

theorem wf_empty : (empty : SenderSideLockQueue T).WF := by
  refine ⟨?_, ?_, ?_⟩
  · intro h
    exact absurd h id
  · intro m h
    cases h
  · intro m h
    cases h

theorem Point.woken_ne_blocked (p : Point) (m : Method) : p.woken ≠ .blocked m := by
  cases p <;> simp [Point.woken]

theorem Point.woken_locks {p : Point} : p.woken.Locks ↔ p.Locks := by
  cases p <;> simp [Point.woken, Point.Locks]

theorem Point.woken_popping {p : Point} {m : Method} : p.woken = .popping m ↔ p = .popping m := by
  cases p <;> simp [Point.woken]

/-- Once the sleeper is up nothing is asked of the notifies that are left. -/
theorem wf_woken (h : q.WF) (n : Nat) : { q with notifying := n, point := q.point.woken }.WF := by
  refine ⟨?_, ?_, ?_⟩
  · intro hl
    exact h.locks (Point.woken_locks.mp hl)
  · intro m hm
    exact h.pops m (Point.woken_popping.mp hm)
  · intro m hm
    exact absurd hm (Point.woken_ne_blocked _ _)

theorem wf_push (h : q.WF) (t : T) : (q.push t).WF := by
  refine ⟨h.locks, h.pops, ?_⟩
  intro m _
  exact .inr (Nat.succ_pos _)

theorem wf_notifyOne (h : q.WF) : q.notifyOne.WF := by
  unfold notifyOne
  split
  · exact h
  · exact wf_woken h _

theorem wf_finish (q : SenderSideLockQueue T) (m : Method) (r : Option T) : (q.finish m r).WF := by
  refine ⟨?_, ?_, ?_⟩
  · intro h
    exact absurd h id
  · intro m' h
    cases h
  · intro m' h
    cases h

theorem wf_checkOut (q : SenderSideLockQueue T) (m : Method) : (q.checkOut m).WF := by
  unfold checkOut
  by_cases hq : q.outQueue.length = 0
  · simp only [hq, if_true]
    refine ⟨fun _ => List.eq_nil_of_length_eq_zero hq, ?_, ?_⟩
    · intro m' h
      cases h
    · intro m' h
      cases h
  · simp only [hq, if_false]
    refine ⟨fun h => absurd h id, ?_, ?_⟩
    · intro m' _ hnil
      exact hq (by rw [hnil]; rfl)
    · intro m' h
      cases h

theorem wf_swap (m : Method) (hin : q.inQueue.isEmpty = false) : (q.swap m).WF := by
  refine ⟨fun h => absurd h id, ?_, ?_⟩
  · intro m' _
    exact List.isEmpty_eq_false_iff.mp hin
  · intro m' h
    cases h

theorem wf_turn (h : q.WF) : q.turn.WF := by
  unfold turn
  cases hp : q.point with
  | idle => exact h
  | entered m => exact wf_checkOut q m
  | locking m =>
    simp only [lockIn]
    cases hin : q.inQueue.isEmpty with
    | false => exact wf_swap m hin
    | true =>
      by_cases hm : m = .tryReceive
      · simp only [hm, if_true]
        exact wf_finish q _ _
      · simp only [hm, if_true, if_false]
        refine ⟨fun _ => h.locks (by rw [hp]; trivial), ?_, ?_⟩
        · intro m' hm'
          cases hm'
        · intro m' _
          exact .inl (List.isEmpty_iff.mp hin)
  | blocked m => exact h
  | timedOut =>
    simp only [lockLate]
    cases hin : q.inQueue.isEmpty with
    | false => exact wf_swap _ hin
    | true => exact wf_finish q _ _
  | popping m =>
    simp only [popOut]
    split
    · exact h
    · exact wf_finish _ _ _

theorem wf_step (h : q.WF) (e : QueueEvent T) : (q.step e).WF := by
  cases e with
  | push t => exact wf_push h t
  | notify => exact wf_notifyOne h
  | call m =>
    simp only [step]
    split
    · refine ⟨fun h => absurd h id, ?_, ?_⟩
      · intro m' hm'
        cases hm'
      · intro m' hm'
        cases hm'
    · exact h
  | turn => exact wf_turn h
  | wake => exact wf_woken h q.notifying
  | timeout =>
    simp only [step]
    split
    · rename_i hp
      refine ⟨fun _ => h.locks (by rw [hp]; trivial), ?_, ?_⟩
      · intro m' hm'
        cases hm'
      · intro m' hm'
        cases hm'
    · exact h

/-! ## One unbounded queue -/

theorem received_finish (q : SenderSideLockQueue T) (m : Method) (r : Option T) :
    (q.finish m r).received = q.received ++ r.toList := by
  cases r <;> simp [received, finish]

/-- What the consumer's step can be: it goes on in its call, or gives up having found both queues
empty under the lock, or returns the front. -/
theorem turn_cases (h : q.WF) :
    (q.turn.point = .idle ↔ q.point = .idle) ∧ q.turn.results = q.results ∧
        q.turn.content = q.content ∨
      (∃ m, (q.point = .locking .tryReceive ∧ m = .tryReceive ∨ q.point = .timedOut ∧ m = .receiveFor) ∧
        q.turn = q.finish m none ∧ q.content = []) ∨
      ∃ m t rest, q.turn = { q with outQueue := rest }.finish m (some t) ∧ q.outQueue = t :: rest := by
  unfold turn
  cases hp : q.point with
  | idle => exact .inl ⟨by simp [hp], rfl, rfl⟩
  | entered m =>
    refine .inl ⟨?_, rfl, rfl⟩
    simp only [checkOut]
    split <;> simp
  | locking m =>
    have hout : q.outQueue = [] := h.locks (by rw [hp]; trivial)
    simp only [lockIn]
    cases hin : q.inQueue.isEmpty with
    | false => exact .inl ⟨by simp [swap], rfl, by simp [content, swap, hout]⟩
    | true =>
      by_cases hm : m = .tryReceive
      · refine .inr (.inl ⟨m, .inl ⟨by rw [hm], hm⟩, by simp [hm], ?_⟩)
        rw [content, hout, List.isEmpty_iff.mp hin, List.append_nil]
      · exact .inl ⟨by simp [hm], by simp [hm], by simp [hm, content]⟩
  | blocked m => exact .inl ⟨by simp [hp], rfl, rfl⟩
  | timedOut =>
    have hout : q.outQueue = [] := h.locks (by rw [hp]; trivial)
    simp only [lockLate]
    cases hin : q.inQueue.isEmpty with
    | false => exact .inl ⟨by simp [swap], rfl, by simp [content, swap, hout]⟩
    | true =>
      refine .inr (.inl ⟨.receiveFor, .inr ⟨trivial, rfl⟩, rfl, ?_⟩)
      rw [content, hout, List.isEmpty_iff.mp hin, List.append_nil]
  | popping m =>
    simp only [popOut]
    cases hout : q.outQueue with
    | nil => exact absurd hout (h.pops m hp)
    | cons t rest => exact .inr (.inr ⟨m, t, rest, rfl, rfl⟩)

theorem turn_content (h : q.WF) : q.turn.received ++ q.turn.content = q.received ++ q.content := by
  rcases turn_cases h with ⟨-, hr, hc⟩ | ⟨m, -, ht, hc⟩ | ⟨m, t, rest, ht, hout⟩
  · rw [received, hr, hc]
    rfl
  · rw [ht, received_finish, hc]
    simpa [content, finish] using hc
  · rw [ht, received_finish]
    simp [received, content, finish, hout]

/-- A push goes behind the content, a finished call takes the front of it, nothing else changes it. -/
theorem step_content (h : q.WF) (e : QueueEvent T) :
    (q.step e).received ++ (q.step e).content = q.received ++ q.content ++ e.pushed?.toList := by
  cases e with
  | push t => simp [step, push, content, received, QueueEvent.pushed?]
  | notify =>
    simp only [step, notifyOne]
    split <;> simp [content, received, QueueEvent.pushed?]
  | call m =>
    simp only [step]
    split <;> simp [content, received, QueueEvent.pushed?]
  | turn => simpa [step, QueueEvent.pushed?] using turn_content h
  | wake => simp [step, wake, content, received, QueueEvent.pushed?]
  | timeout =>
    simp only [step]
    split <;> simp [content, received, QueueEvent.pushed?]

/-- A call that ends with `false` is a `try_receive` in its critical section or a `receive_for` at its
last look, and finds the queue empty there. -/
def FailsOnlyEmpty (q : SenderSideLockQueue T) (e : QueueEvent T) : Prop :=
  ∀ m, (q.step e).results = q.results ++ [(m, none)] →
    (q.point = .locking .tryReceive ∧ m = .tryReceive ∨ q.point = .timedOut ∧ m = .receiveFor) ∧
      q.content = []

theorem turn_failsOnlyEmpty (h : q.WF) : FailsOnlyEmpty q .turn := by
  intro m hr
  rw [step] at hr
  rcases turn_cases h with ⟨-, hr', -⟩ | ⟨m', hm, ht, hc⟩ | ⟨m', t, rest, ht, -⟩
  · rw [hr'] at hr
    exact absurd hr ne_concat
  · rw [ht, finish, List.append_cancel_left_eq, List.cons.injEq, Prod.mk.injEq] at hr
    obtain ⟨⟨rfl, -⟩, -⟩ := hr
    exact ⟨hm, hc⟩
  · simp [ht, finish] at hr

theorem step_failsOnlyEmpty (h : q.WF) (e : QueueEvent T) : FailsOnlyEmpty q e := by
  cases e with
  | turn => exact turn_failsOnlyEmpty h
  | push t => exact fun m hr => absurd hr ne_concat
  | wake => exact fun m hr => absurd hr ne_concat
  | notify =>
    intro m hr
    simp only [step, notifyOne] at hr
    split at hr <;> exact absurd hr ne_concat
  | call m' =>
    intro m hr
    simp only [step] at hr
    split at hr <;> exact absurd hr ne_concat
  | timeout =>
    intro m hr
    simp only [step] at hr
    split at hr <;> exact absurd hr ne_concat

/-! ## One call of the consumer -/

/-- The consumer is in a call of `m`, or has just finished one. -/
def Point.In (m : Method) : Point → Prop
  | .idle => True
  | .entered m' | .locking m' | .popping m' => m' = m
  | .blocked m' => m' = m ∧ m ≠ .tryReceive
  | .timedOut => m = .receiveFor

/-- What others do to the consumer. -/
def Outside : QueueEvent T → Prop
  | .push _ | .notify | .wake => True
  | _ => False

theorem Point.In.woken {p : Point} {m : Method} (h : p.In m) : p.woken.In m := by
  cases p with
  | blocked m' => exact h.1
  | idle | entered m' | locking m' | popping m' | timedOut => exact h

theorem Point.woken_idle {p : Point} : p.woken = .idle ↔ p = .idle := by
  cases p <;> simp [Point.woken]

/-- Senders and wakeups neither start nor end a call, and take nothing out of the queue. -/
theorem outside_frame {e : QueueEvent T} (he : Outside e) :
    (q.step e).results = q.results ∧ ((q.step e).point = q.point ∨ (q.step e).point = q.point.woken) ∧
      (q.step e).content = q.content ++ e.pushed?.toList := by
  cases e with
  | push t => exact ⟨rfl, .inl rfl, by simp [step, push, content, QueueEvent.pushed?]⟩
  | notify =>
    simp only [step, notifyOne]
    split
    · exact ⟨rfl, .inl rfl, by simp [QueueEvent.pushed?]⟩
    · exact ⟨rfl, .inr rfl, by simp [content, QueueEvent.pushed?]⟩
  | wake => exact ⟨rfl, .inr rfl, by simp [step, wake, content, QueueEvent.pushed?]⟩
  | call m | turn | timeout => exact absurd he id

theorem outside_in {e : QueueEvent T} (he : Outside e) {m : Method} (h : q.point.In m) :
    (q.step e).point.In m := by
  rcases (outside_frame he).2.1 with hp | hp
  · rw [hp]
    exact h
  · rw [hp]
    exact h.woken

theorem outside_idle {e : QueueEvent T} (he : Outside e) :
    (q.step e).point = .idle ↔ q.point = .idle := by
  rcases (outside_frame (q := q) he).2.1 with hp | hp
  · rw [hp]
  · rw [hp, Point.woken_idle]

theorem turn_in {m : Method} (h : q.point.In m) : q.turn.point.In m := by
  unfold turn
  cases hp : q.point with
  | idle => rw [hp] at h; simp only [hp]; exact h
  | blocked m' => rw [hp] at h; simp only [hp]; exact h
  | entered m' =>
    rw [hp] at h
    simp only [checkOut]
    split <;> exact h
  | locking m' =>
    rw [hp] at h
    simp only [lockIn]
    split
    · split
      · trivial
      · rename_i hm
        exact ⟨h, by rw [← show m' = m from h]; exact hm⟩
    · exact h
  | timedOut =>
    rw [hp] at h
    simp only [lockLate]
    split
    · trivial
    · exact Eq.symm h
  | popping m' =>
    rw [hp] at h
    simp only [popOut]
    split
    · rw [hp]
      exact h
    · trivial

/-! ## `BasicLockQueue` keeps up -/

/-- The consumer of a `BasicLockQueue` at the same moment: the swap and the pop are one critical
section there. -/
def Point.Matches : Point → BasicLockQueue.Point → Prop
  | .idle, p => p = .idle
  | .entered m, p => p = .locking m
  | .locking m, p => p = .locking m
  | .blocked m, p => p = .blocked m
  | .timedOut, p => p = .timedOut
  | .popping m, p => p = .locking m ∨ m = .receiveFor ∧ p = .timedOut

/-- The abstract content of the two queues is the one queue of the other. -/
structure KeepsUp (q : SenderSideLockQueue T) (b : BasicLockQueue T) : Prop where
  wf : q.WF
  msgq : b.msgq = q.content
  notifying : b.notifying = q.notifying
  point : q.point.Matches b.point
  results : b.results = q.results

/-- What `BasicLockQueue` does meanwhile: nothing while this queue checks `out_queue` or swaps, else
the same. -/
def basicAnswer (q : SenderSideLockQueue T) : QueueEvent T → List (QueueEvent T)
  | .turn =>
    match q.point with
    | .entered _ => []
    | .locking _ | .timedOut => if q.inQueue.isEmpty then [.turn] else []
    | _ => [.turn]
  | e => [e]

/-- The run of `BasicLockQueue` beside a run of this queue. -/
def basicRun (es : List (QueueEvent T)) : List (QueueEvent T) := answers step basicAnswer empty es

theorem KeepsUp.idle_iff {b : BasicLockQueue T} (h : KeepsUp q b) :
    b.point = .idle ↔ q.point = .idle := by
  have hp := h.point
  cases hq : q.point <;> simp only [hq, Point.Matches] at hp
  case popping m =>
    rcases hp with hp | ⟨-, hp⟩ <;> simp [hp]
  all_goals simp [hp]

theorem KeepsUp.blocked_iff {b : BasicLockQueue T} (h : KeepsUp q b) (m : Method) :
    b.point = .blocked m ↔ q.point = .blocked m := by
  have hp := h.point
  cases hq : q.point <;> simp only [hq, Point.Matches] at hp
  case popping m' =>
    rcases hp with hp | ⟨-, hp⟩ <;> simp [hp]
  all_goals simp [hp]

theorem Point.Matches.woken {p : Point} {p' : BasicLockQueue.Point} (h : p.Matches p') :
    p.woken.Matches p'.woken := by
  cases p <;> simp only [Point.Matches, Point.woken] at h ⊢
  case popping m =>
    rcases h with h | ⟨hm, h⟩
    · exact .inl (by rw [h]; rfl)
    · exact .inr ⟨hm, by rw [h]; rfl⟩
  all_goals rw [h]; rfl

/-- The critical section of a call on both queues, `in_queue` being empty or not. -/
theorem turn_keepsUp {b : BasicLockQueue T} (h : KeepsUp q b) :
    KeepsUp (q.step .turn) (run BasicLockQueue.step b (basicAnswer q .turn)) := by
  have hwf : (q.step .turn).WF := wf_step h.wf .turn
  have hpoint := h.point
  have hmsgq := h.msgq
  revert hwf
  simp only [step, turn, basicAnswer]
  cases hp : q.point with
  | idle =>
    rw [hp] at hpoint
    have hb : b.turn = b := by
      rw [BasicLockQueue.turn, show b.point = .idle from hpoint]
    intro _
    simpa [run, BasicLockQueue.step, hb] using h
  | entered m =>
    rw [hp] at hpoint
    intro hwf
    refine ⟨hwf, hmsgq, h.notifying, ?_, h.results⟩
    simp only [checkOut, run]
    split
    · exact hpoint
    · exact .inl hpoint
  | locking m =>
    rw [hp] at hpoint
    have hout : q.outQueue = [] := h.wf.locks (by rw [hp]; trivial)
    intro hwf
    cases hin : q.inQueue.isEmpty with
    | true =>
      have hnil : b.msgq = [] := by
        rw [hmsgq, content, hout, List.isEmpty_iff.mp hin]
        rfl
      have hb := BasicLockQueue.turn_locking_nil hpoint hnil
      simp only [lockIn, hin, if_true] at hwf ⊢
      by_cases hm : m = .tryReceive
      · simp only [hm, if_true, run, BasicLockQueue.step, hb] at hwf ⊢
        exact ⟨hwf, hmsgq, h.notifying, rfl, by simp [BasicLockQueue.finish, finish, h.results]⟩
      · simp only [hm, if_false, run, BasicLockQueue.step, hb] at hwf ⊢
        exact ⟨hwf, hmsgq, h.notifying, rfl, h.results⟩
    | false =>
      simp only [lockIn, hin] at hwf ⊢
      refine ⟨hwf, ?_, h.notifying, .inl hpoint, h.results⟩
      simp [content, swap, hmsgq, hout]
  | blocked m =>
    rw [hp] at hpoint
    have hb : b.turn = b := by
      rw [BasicLockQueue.turn, show b.point = .blocked m from hpoint]
    intro _
    simpa [run, BasicLockQueue.step, hb] using h
  | timedOut =>
    rw [hp] at hpoint
    have hout : q.outQueue = [] := h.wf.locks (by rw [hp]; trivial)
    intro hwf
    cases hin : q.inQueue.isEmpty with
    | true =>
      have hnil : b.msgq = [] := by
        rw [hmsgq, content, hout, List.isEmpty_iff.mp hin]
        rfl
      have hb := BasicLockQueue.turn_timedOut_nil hpoint hnil
      simp only [lockLate, hin, if_true, run, BasicLockQueue.step, hb] at hwf ⊢
      exact ⟨hwf, hmsgq, h.notifying, rfl, by simp [BasicLockQueue.finish, finish, h.results]⟩
    | false =>
      simp only [lockLate, hin] at hwf ⊢
      refine ⟨hwf, ?_, h.notifying, .inr ⟨rfl, hpoint⟩, h.results⟩
      simp [content, swap, hmsgq, hout]
  | popping m =>
    rw [hp] at hpoint
    intro hwf
    simp only [popOut] at hwf ⊢
    split at hwf
    · rename_i hout
      exact absurd hout (h.wf.pops m hp)
    · rename_i t rest hout
      have hcons : b.msgq = t :: (rest ++ q.inQueue) := by rw [hmsgq, content, hout]; rfl
      -- the other queue takes the front in the critical section it still stands before
      have hb := BasicLockQueue.turn_cons hpoint hcons
      simp only [run, BasicLockQueue.step, hb]
      exact ⟨hwf, rfl, h.notifying, rfl, by simp [BasicLockQueue.finish, finish, h.results]⟩

theorem step_keepsUp (q : SenderSideLockQueue T) (b : BasicLockQueue T) (e : QueueEvent T)
    (h : KeepsUp q b) : KeepsUp (q.step e) (run BasicLockQueue.step b (basicAnswer q e)) := by
  have hwf := wf_step h.wf e
  cases e with
  | turn => exact turn_keepsUp h
  | push t =>
    refine ⟨hwf, ?_, ?_, h.point, h.results⟩
    · simp [basicAnswer, run, BasicLockQueue.step, BasicLockQueue.push, step, push, content, h.msgq]
    · simp [basicAnswer, run, BasicLockQueue.step, BasicLockQueue.push, step, push, h.notifying]
  | notify =>
    by_cases hn : q.notifying = 0
    · have hb : b.notifying = 0 := by rw [h.notifying, hn]
      simpa [basicAnswer, run, BasicLockQueue.step, BasicLockQueue.notifyOne, step, notifyOne, hn, hb]
        using h
    · have hb : b.notifying ≠ 0 := by rw [h.notifying]; exact hn
      simp only [basicAnswer, run, BasicLockQueue.step, BasicLockQueue.notifyOne, step, notifyOne, hn, hb,
        if_false] at hwf ⊢
      exact ⟨hwf, h.msgq, by simp [h.notifying], h.point.woken, h.results⟩
  | call m =>
    by_cases hi : q.point = .idle
    · simp only [basicAnswer, run, BasicLockQueue.step, step, hi, h.idle_iff.mpr hi, if_true] at hwf ⊢
      exact ⟨hwf, h.msgq, h.notifying, rfl, h.results⟩
    · have hb : b.point ≠ .idle := fun hb => hi (h.idle_iff.mp hb)
      simpa [basicAnswer, run, BasicLockQueue.step, step, hi, hb] using h
  | wake => exact ⟨hwf, h.msgq, h.notifying, h.point.woken, h.results⟩
  | timeout =>
    by_cases hi : q.point = .blocked .receiveFor
    · simp only [basicAnswer, run, BasicLockQueue.step, step, hi, (h.blocked_iff _).mpr hi, if_true]
        at hwf ⊢
      exact ⟨hwf, h.msgq, h.notifying, rfl, h.results⟩
    · have hb : b.point ≠ .blocked .receiveFor := fun hb => hi ((h.blocked_iff _).mp hb)
      simpa [basicAnswer, run, BasicLockQueue.step, step, hi, hb] using h

/-! ## Runs -/

theorem keepsUp_empty : KeepsUp (empty : SenderSideLockQueue T) BasicLockQueue.empty :=
  ⟨wf_empty, rfl, rfl, rfl, rfl⟩

/-- The two queues are given the same: only turns of the consumer are left out. -/
theorem filterMap_basicRun {A : Type*} (f : QueueEvent T → Option A) (hf : f .turn = none)
    (es : List (QueueEvent T)) : (basicRun es).filterMap f = es.filterMap f := by
  apply answers_filterMap
  intro q e
  cases e with
  | turn =>
    simp only [basicAnswer]
    split
    · simp [hf]
    · split <;> simp [hf]
    · split <;> simp [hf]
    · simp [hf]
  | push t | call m | notify | wake | timeout =>
    simp only [basicAnswer, List.filterMap_cons, List.filterMap_nil]
    split <;> simp_all

/-- What is received, then what is in the two queues, is what was sent. -/
theorem run_content (es : List (QueueEvent T)) :
    (run step empty es).WF ∧
      (run step empty es).received ++ (run step empty es).content = pushes es := by
  refine run_history (J := fun es (q : SenderSideLockQueue T) =>
    q.WF ∧ q.received ++ q.content = pushes es) ⟨wf_empty, rfl⟩ ?_ es
  rintro es q e ⟨hwf, hc⟩
  refine ⟨wf_step hwf e, ?_⟩
  rw [step_content hwf e, hc, pushes, pushes, List.filterMap_append]
  cases he : e.pushed? <;> simp [he]

/-- **One unbounded FIFO queue.** In every run of sends and of one consumer's calls: the values
received so far, then `out_queue`, then `in_queue`, are the values sent, in the order their sends
entered the lock; the consumer pops from a non-empty `out_queue` only; a call that returns `false` is a
`try_receive` that found both queues empty under the lock, or a `receive_for` that did so when its time
was up; and `BasicLockQueue`, given the same sends and calls, has returned the same and holds the same. -/
theorem senderSideLockQueue_fifo (es : List (QueueEvent T)) :
    (run step empty es).received ++ (run step empty es).content = pushes es ∧
    (∀ m, (run step empty es).point = .popping m → (run step empty es).outQueue ≠ []) ∧
    EachStep step FailsOnlyEmpty empty es ∧
    pushes (basicRun es) = pushes es ∧ calls (basicRun es) = calls es ∧
    (run BasicLockQueue.step BasicLockQueue.empty (basicRun es)).results = (run step empty es).results ∧
    (run BasicLockQueue.step BasicLockQueue.empty (basicRun es)).msgq = (run step empty es).content := by
  have hsim := run_simulation (R := KeepsUp) step_keepsUp (keepsUp_empty (T := T)) es
  refine ⟨(run_content es).2, hsim.wf.pops, ?_, filterMap_basicRun _ rfl es,
    filterMap_basicRun _ rfl es, hsim.results, hsim.msgq⟩
  exact eachStep_of_invariant (I := WF) (L := fun _ _ => True) (fun _ e h _ => wf_step h e)
    (fun _ e h _ => step_failsOnlyEmpty h e) wf_empty (EachStep.of_forall (fun _ _ => trivial) _ _)

end SenderSideLockQueue
end Thallium.Concurrent
