import Mathlib.Algebra.BigOperators.Group.Finset.Piecewise
import Mathlib.Algebra.Order.BigOperators.Group.Finset
import Thallium.Concurrent.LockQueue

/-!
# The queue of many producers and many consumers (concurrent.hpp:34-90)

`BasicLockQueue` is shared: any number of threads call `receive`, `try_receive` and `receive_for` at once,
and each `send` notifies one of those that sleep. A step is the step of `BasicLockQueue` for one consumer,
which sees the one `msgq`, the one condition variable, and where it stands itself.

| here | there |
| --- | --- |
| `SharedQueue`       | `msgq`, the waiters of `has_msg_cd`; `taken` is not there: who took what, in order |
| `view`, `put`       | one thread's share of the object |
| `Legal`             | `notify_one` wakes one that waits, if there is one |
| `awake`             | the consumers that will look at the queue before they sleep or return |
| `Awake`, `Due`      | not in the source: the steps that need neither a call nor a `send` |

* `step_conserves`, `step_heedful` — what one step of any thread does to the content and to the sleepers.
* `sharedQueue_fifo` — every value sent goes to one call, in the order of the sends.
* `sharedQueue_progress` — left alone, the threads come to rest, and then nobody sleeps beside a value.
-/
namespace Thallium.Concurrent
open EventRun

variable {C T : Type}

/-! ## One consumer -/

namespace BasicLockQueue

/-- What a step can do to the queue and to the results: a value is pushed or nothing happens to them, or
the call ends with `false` on an empty queue, or it takes the front. -/
theorem step_cases (b : BasicLockQueue T) (e : QueueEvent T) :
    ((b.step e).results = b.results ∧ (b.step e).msgq = b.msgq ++ e.pushed?.toList) ∨
      (e = .turn ∧ ∃ m, (b.point = .locking .tryReceive ∧ m = .tryReceive ∨
          b.point = .timedOut ∧ m = .receiveFor) ∧
        b.msgq = [] ∧ b.step e = b.finish m none) ∨
      (e = .turn ∧ ∃ m t rest, b.msgq = t :: rest ∧
        b.step e = { b with msgq := rest }.finish m (some t)) := by
  cases e with
  | push t => exact .inl ⟨rfl, rfl⟩
  | notify =>
    simp only [step, notifyOne]
    split <;> exact .inl ⟨rfl, by simp [QueueEvent.pushed?]⟩
  | call m =>
    simp only [step]
    split <;> exact .inl ⟨rfl, by simp [QueueEvent.pushed?]⟩
  | wake => exact .inl ⟨rfl, by simp [step, wake, QueueEvent.pushed?]⟩
  | timeout =>
    simp only [step]
    split <;> exact .inl ⟨rfl, by simp [QueueEvent.pushed?]⟩
  | turn =>
    rw [step]
    cases hp : b.point with
    | idle => exact .inl ⟨by rw [turn, hp], by rw [turn, hp]; simp [QueueEvent.pushed?]⟩
    | blocked m => exact .inl ⟨by rw [turn, hp], by rw [turn, hp]; simp [QueueEvent.pushed?]⟩
    | locking m =>
      cases hq : b.msgq with
      | nil =>
        rw [turn_locking_nil hp hq]
        by_cases hm : m = .tryReceive
        · exact .inr (.inl ⟨rfl, m, .inl ⟨by rw [hm], hm⟩, rfl, by rw [if_pos hm]⟩)
        · rw [if_neg hm]
          exact .inl ⟨rfl, by simp [QueueEvent.pushed?, hq]⟩
      | cons t rest => exact .inr (.inr ⟨rfl, m, t, rest, rfl, turn_cons (.inl hp) hq⟩)
    | timedOut =>
      cases hq : b.msgq with
      | nil => exact .inr (.inl ⟨rfl, _, .inr ⟨rfl, rfl⟩, rfl, turn_timedOut_nil hp hq⟩)
      | cons t rest => exact .inr (.inr ⟨rfl, _, t, rest, rfl, turn_cons (.inr ⟨rfl, hp⟩) hq⟩)

/-- Whether a consumer will look at the queue before it sleeps or returns. -/
def Point.looks : Point → Nat
  | .locking _ | .timedOut => 1
  | .idle | .blocked _ => 0

/-- A consumer sleeps on the condition variable. -/
def Point.Sleeps (p : Point) : Prop := ∃ m, p = .blocked m

instance (p : Point) : Decidable p.Sleeps :=
  match p with
  | .blocked m => .isTrue ⟨m, rfl⟩
  | .idle => .isFalse fun ⟨_, h⟩ => by cases h
  | .locking _ => .isFalse fun ⟨_, h⟩ => by cases h
  | .timedOut => .isFalse fun ⟨_, h⟩ => by cases h

theorem Point.looks_woken (p : Point) : p.woken.looks = if p.Sleeps then 1 else p.looks := by
  cases p <;> rfl

end BasicLockQueue

/-! ## All of them -/

structure SharedQueue (C T : Type) where
  msgq : List T
  notifying : Nat
  points : C → BasicLockQueue.Point
  results : C → List (Method × Option T)
  taken : List (C × T)

namespace SharedQueue

def empty : SharedQueue C T := ⟨[], 0, fun _ => .idle, fun _ => [], []⟩

/-- The queue as consumer `c` sees it. -/
def view (q : SharedQueue C T) (c : C) : BasicLockQueue T :=
  ⟨q.msgq, q.notifying, q.points c, q.results c⟩

/-- What the calls that a step ends have taken. -/
def takenBy (q : SharedQueue C T) (c : C) (b : BasicLockQueue T) : List (C × T) :=
  ((b.results.drop (q.results c).length).filterMap Prod.snd).map fun t => (c, t)

theorem takenBy_append (q : SharedQueue C T) (c : C) (m : Method) (r : Option T) {b : BasicLockQueue T}
    (hb : b.results = q.results c ++ [(m, r)]) : q.takenBy c b = r.toList.map fun t => (c, t) := by
  rw [takenBy, hb, List.drop_left]
  cases r <;> rfl

theorem takenBy_eq (q : SharedQueue C T) (c : C) {b : BasicLockQueue T} (hb : b.results = q.results c) : q.takenBy c b = [] := by
  rw [takenBy, hb, List.drop_length]
  rfl

variable [DecidableEq C]

/-- The queue after a step of consumer `c` that has left `b`. -/
def put (q : SharedQueue C T) (c : C) (b : BasicLockQueue T) : SharedQueue C T where
  msgq := b.msgq
  notifying := b.notifying
  points := Function.update q.points c b.point
  results := Function.update q.results c b.results
  taken := q.taken ++ q.takenBy c b

/-- A step of consumer `c`. A `push` is anybody's, a `notify` reaches `c`. -/
def step (q : SharedQueue C T) (e : C × QueueEvent T) : SharedQueue C T :=
  q.put e.1 ((q.view e.1).step e.2)

/-- A notify is due when a sender has not done it yet, and wakes a sleeper if there is one. -/
def Legal (q : SharedQueue C T) : C × QueueEvent T → Prop
  | (c, .notify) => 0 < q.notifying ∧ ((∃ c', (q.points c').Sleeps) → (q.points c).Sleeps)
  | _ => True

/-- What consumer `c` has been given. -/
def received (q : SharedQueue C T) (c : C) : List T := (q.results c).filterMap Prod.snd

/-- The values sent in a run, in the order the sends entered the lock. -/
def pushed (es : List (C × QueueEvent T)) : List T := pushes (es.map Prod.snd)

/-- A call that ends with `false` is a `try_receive` in its critical section or a `receive_for` at its
last look, and finds the queue empty there. -/
def FailsOnlyEmpty (q : SharedQueue C T) (e : C × QueueEvent T) : Prop :=
  ∀ c m, (q.step e).results c = q.results c ++ [(m, none)] →
    (q.points c = .locking .tryReceive ∧ m = .tryReceive ∨ q.points c = .timedOut ∧ m = .receiveFor) ∧
      q.msgq = []

/-! ## Nothing is lost or given twice -/

section Content
variable (q : SharedQueue C T) (c : C)

/-- What one step does: a value is pushed or nothing happens to the content, or a call of `c` ends with
`false` on an empty queue, or one takes the front. -/
theorem step_content_cases (e : QueueEvent T) :
    ((q.step (c, e)).taken = q.taken ∧ (q.step (c, e)).results = q.results ∧
        (q.step (c, e)).msgq = q.msgq ++ e.pushed?.toList) ∨
      (e.pushed? = none ∧ ∃ m r, (q.step (c, e)).results = Function.update q.results c (q.results c ++ [(m, r)]) ∧
        (q.step (c, e)).taken = q.taken ++ r.toList.map (fun t => (c, t)) ∧
        q.msgq = r.toList ++ (q.step (c, e)).msgq ∧
        (r = none → (q.points c = .locking .tryReceive ∧ m = .tryReceive ∨
          q.points c = .timedOut ∧ m = .receiveFor) ∧ q.msgq = [])) := by
  rcases (q.view c).step_cases e with ⟨hr, hm⟩ | ⟨rfl, m, hp, hq, hs⟩ | ⟨rfl, m, t, rest, hq, hs⟩
  · refine .inl ⟨?_, ?_, hm⟩
    · rw [step, put, q.takenBy_eq c hr, List.append_nil]
    · rw [step, put, hr]
      exact Function.update_eq_self ..
  · refine .inr ⟨rfl, m, none, ?_, ?_, ?_, fun _ => ⟨hp, hq⟩⟩
    · rw [step, hs]
      rfl
    · rw [step, hs, put, q.takenBy_append c m none rfl]
    · rw [step, hs]
      rfl
  · refine .inr ⟨rfl, m, some t, ?_, ?_, ?_, fun h => by cases h⟩
    · rw [step, hs]
      rfl
    · rw [step, hs, put, q.takenBy_append c m (some t) rfl]
    · rw [step, hs]
      exact hq

/-- Who took what is what the calls returned. -/
structure Conserves (sent : List T) (q : SharedQueue C T) : Prop where
  fifo : q.taken.map Prod.snd ++ q.msgq = sent
  each : ∀ c, q.received c = (q.taken.filter (·.1 = c)).map Prod.snd

variable {q} in
/-- **One step of any thread** neither loses a value nor gives it to two calls. -/
theorem step_conserves {sent : List T} (h : q.Conserves sent) (e : QueueEvent T) :
    (q.step (c, e)).Conserves (sent ++ e.pushed?.toList) := by
  rcases q.step_content_cases c e with ⟨ht, hr, hm⟩ | ⟨hpush, m, r, hr, ht, hm, -⟩
  · refine ⟨?_, fun c' => ?_⟩
    · rw [ht, hm, ← List.append_assoc, h.fifo]
    · rw [received, hr, ht]
      exact h.each c'
  · refine ⟨?_, fun c' => ?_⟩
    · rw [hpush, Option.toList_none, List.append_nil, ← h.fifo, hm, ht, List.map_append, List.append_assoc]
      congr 1
      cases r <;> rfl
    · have heach := h.each c'
      rw [received] at heach ⊢
      rw [hr, ht, List.filter_append, List.map_append, ← heach]
      by_cases hc : c' = c
      · rw [hc, Function.update_self, List.filterMap_append]
        congr 1
        cases r <;> simp
      · rw [Function.update_of_ne hc]
        have hnone : (r.toList.map fun t => (c, t)).filter (·.1 = c') = [] := by
          cases r <;> simp [Ne.symm hc]
        rw [hnone, List.map_nil, List.append_nil]

theorem step_failsOnlyEmpty (e : C × QueueEvent T) : q.FailsOnlyEmpty e := by
  obtain ⟨c, e⟩ := e
  intro c' m' hres
  rcases q.step_content_cases c e with ⟨-, hr, -⟩ | ⟨-, m, r, hr, -, -, hempty⟩
  · rw [hr] at hres
    exact absurd hres ne_concat
  · rw [hr] at hres
    by_cases hc : c' = c
    · rw [hc, Function.update_self, List.append_cancel_left_eq, List.cons.injEq, Prod.mk.injEq] at hres
      obtain ⟨⟨rfl, rfl⟩, -⟩ := hres
      rw [hc]
      exact hempty rfl
    · rw [Function.update_of_ne hc] at hres
      exact absurd hres ne_concat

end Content

/-! ## Nobody sleeps beside a value -/

section Wakeups
variable [Fintype C] {q : SharedQueue C T} {c : C}

/-- The consumers that will look at the queue before they sleep or return. -/
def awake (q : SharedQueue C T) : Nat := ∑ c, (q.points c).looks

/-- Only `c` has moved. -/
theorem awake_put (q : SharedQueue C T) (c : C) (b : BasicLockQueue T) :
    (q.put c b).awake + (q.points c).looks = q.awake + b.point.looks := by
  have hupdate : (fun c' => ((q.put c b).points c').looks) =
      Function.update (fun c' => (q.points c').looks) c b.point.looks := by
    funext c'
    exact Function.apply_update (fun _ => BasicLockQueue.Point.looks) q.points c b.point c'
  have hold := Finset.sum_eq_add_sum_sdiff_singleton_of_mem (Finset.mem_univ c) fun c' => (q.points c').looks
  have hnew := Finset.sum_update_of_mem (Finset.mem_univ c) (fun c' => (q.points c').looks) b.point.looks
  rw [awake, awake, hupdate, hnew, hold]
  omega

theorem not_sleeps {p : BasicLockQueue.Point} (h : ∀ m, p ≠ .blocked m) : ¬ p.Sleeps := by
  rintro ⟨m, hm⟩
  exact h m hm

omit [DecidableEq C] [Fintype C] in
/-- What a turn of one consumer does to its place and the queue. -/
theorem turn_looks (b : BasicLockQueue T) :
    b.turn.notifying = b.notifying ∧
      (b.point.looks = 0 ∧ b.turn = b ∨
        b.point.looks = 1 ∧ b.turn.point.looks = 0 ∧
          (b.turn.msgq = [] ∨ ¬ b.turn.point.Sleeps ∧ b.turn.msgq.length + 1 = b.msgq.length)) := by
  unfold BasicLockQueue.turn
  cases hp : b.point with
  | idle => exact ⟨rfl, .inl ⟨rfl, rfl⟩⟩
  | blocked m => exact ⟨rfl, .inl ⟨rfl, rfl⟩⟩
  | locking m =>
    simp only [BasicLockQueue.lockMsgq]
    split
    · rename_i hq
      split
      · exact ⟨rfl, .inr ⟨rfl, rfl, .inl hq⟩⟩
      · exact ⟨rfl, .inr ⟨rfl, rfl, .inl hq⟩⟩
    · rename_i hq
      exact ⟨rfl, .inr ⟨rfl, rfl, .inr ⟨not_sleeps (by simp [BasicLockQueue.finish]), by rw [hq]; rfl⟩⟩⟩
  | timedOut =>
    simp only [BasicLockQueue.lockLate]
    split
    · rename_i hq
      exact ⟨rfl, .inr ⟨rfl, rfl, .inl hq⟩⟩
    · rename_i hq
      exact ⟨rfl, .inr ⟨rfl, rfl, .inr ⟨not_sleeps (by simp [BasicLockQueue.finish]), by rw [hq]; rfl⟩⟩⟩

/-- A step that needs neither a call nor a `send`: a notify that is due, a consumer that looks. -/
def Settling (q : SharedQueue C T) (e : C × QueueEvent T) : Prop :=
  e.2 = .notify ∧ 0 < q.notifying ∨ e.2 = .turn ∧ (q.points e.1).looks = 1

/-- No such step is left. -/
def AtRest (q : SharedQueue C T) : Prop := ∀ e, ¬ q.Settling e

/-- A notify counts twice: once itself, once for the consumer it wakes. -/
def due (q : SharedQueue C T) : Nat := 2 * q.notifying + q.awake

theorem settling_decreases (q : SharedQueue C T) (e : C × QueueEvent T) (h : q.Settling e) :
    (q.step e).due < q.due := by
  obtain ⟨c, e⟩ := e
  have hawake := q.awake_put c ((q.view c).step e)
  show 2 * ((q.view c).step e).notifying + (q.put c ((q.view c).step e)).awake < q.due
  rw [due]
  rcases h with ⟨rfl, hpos⟩ | ⟨rfl, hone⟩
  · have hn : (q.view c).notifying ≠ 0 := Nat.ne_of_gt hpos
    have hpos : 0 < q.notifying := hpos
    have hwoken := BasicLockQueue.Point.looks_woken (q.points c)
    simp only [BasicLockQueue.step, BasicLockQueue.notifyOne, if_neg hn] at hawake ⊢
    simp only [view] at hawake ⊢
    split at hwoken
    · omega
    · omega
  · obtain ⟨hnotifying, hturn⟩ := turn_looks (q.view c)
    have hone : (q.points c).looks = 1 := hone
    have hn : (q.view c).notifying = q.notifying := rfl
    rcases hturn with ⟨hzero, -⟩ | ⟨-, hzero, -⟩
    · have hzero : (q.points c).looks = 0 := hzero
      omega
    · rw [BasicLockQueue.step] at hawake ⊢
      rw [hnotifying, hn]
      omega

end Wakeups

/-! ## Runs -/

theorem run_conserves (es : List (C × QueueEvent T)) :
    (run step empty es).Conserves (pushed es) := by
  refine run_history (J := fun es (q : SharedQueue C T) => q.Conserves (pushed es))
    ⟨rfl, fun _ => rfl⟩ ?_ es
  rintro es q ⟨c, e⟩ h
  have hnext := step_conserves c h e
  have hpushed : pushed (es ++ [(c, e)]) = pushed es ++ e.pushed?.toList := by
    rw [pushed, pushed, pushes, pushes, List.map_append, List.filterMap_append]
    cases he : e.pushed? <;> simp [he]
  rw [hpushed]
  exact hnext

/-- **Many producers, many consumers, one FIFO.** However the steps of any number of threads follow on one
another, the values taken by all calls together, in the order they were taken, and then what is in the queue,
are the values sent, in the order the sends entered the lock; each consumer has been given what it took, and
nobody else has; and a call returns `false` only if it found the queue empty under the lock. -/
theorem sharedQueue_fifo (es : List (C × QueueEvent T)) :
    (run step empty es).taken.map Prod.snd ++ (run step empty es).msgq = pushed es ∧
      (∀ c, (run step empty es).received c = ((run step empty es).taken.filter (·.1 = c)).map Prod.snd) ∧
      EachStep step FailsOnlyEmpty empty es :=
  ⟨(run_conserves es).fifo, (run_conserves es).each,
    EachStep.of_forall (fun q e => q.step_failsOnlyEmpty e) _ es⟩

end SharedQueue
end Thallium.Concurrent
