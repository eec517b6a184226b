import Thallium.Concurrent.LockQueue

/-!
# The logger's daemon (logging.cpp:14-37, 68-92)

Any thread inserts records into the queue of an `AsyncLogger`; the daemon of its manager writes them.
`stop` sets `done` and inserts an empty record, so that a daemon that sleeps on an empty queue wakes,
finds `done` set and drains what is left.

| here | there |
| --- | --- |
| `GlobalLoggerManager` | `done`, `record_queue`, `_dest`; `loopBody`, `stopping`, `markers` are not fields there: where the daemon stands, `stop` calls that have set `done` only, and those that have inserted their record |
| `LogEvent`            | the steps of `insert_record`, of `stop` and of the daemon |
| `deamon`              | `loop_body`, `flush_one`, `flush_all` (logging.cpp:22-37, 77-83) |

* `inv_step` — what holds between any two steps, relative to the events so far.
* `Inv.finished` — what a daemon that has finished has written.
-/
namespace Thallium
open Concurrent EventRun

/-! ## The daemon -/

/-- Where the daemon stands in `loop_body`: at the test of `done`, in `flush_one`, in `flush_all`. -/
inductive LoopBody where
  | test
  | flushOne
  | flushAll
  | finished
  deriving DecidableEq

structure GlobalLoggerManager where
  done : Bool
  recordQueue : SenderSideLockQueue String
  dest : List String
  loopBody : LoopBody
  stopping : Nat
  markers : Nat

/-- `insertRecord` is the push of an `insert_record`, `notify` its return; `stopDone` and `stopInsert` are
the two statements of `stop`, whose `insert_record` returns by a `notify` too; `wake` is a spurious
wakeup of the daemon. -/
inductive LogEvent where
  | insertRecord (logRecord : String)
  | notify
  | stopDone
  | stopInsert
  | deamon
  | wake

def LogEvent.record? : LogEvent → Option String
  | .insertRecord r => some r
  | _ => none

/-- The records of a run, in the order they entered the queue. -/
def records (es : List LogEvent) : List String := es.filterMap LogEvent.record?

/-- An empty record is the marker of a `stop`. -/
def nonEmpty (rs : List String) : List String := rs.filter (· ≠ "")

namespace GlobalLoggerManager

def start : GlobalLoggerManager := ⟨false, .empty, [], .test, 0, 0⟩

/-- `_dest << tmp` (logging.cpp:25-27, 33-35) -/
def write (s : GlobalLoggerManager) (tmp : String) : GlobalLoggerManager :=
  if tmp = "" then s else { s with dest := s.dest ++ [tmp] }

/-- The daemon is the one consumer of the queue. -/
def queue (s : GlobalLoggerManager) (e : QueueEvent String) : GlobalLoggerManager :=
  { s with recordQueue := s.recordQueue.step e }

/-- What the call that ended last returned. -/
def lastResult (s : GlobalLoggerManager) : Option String := s.recordQueue.results.getLast?.bind Prod.snd

/-- logging.cpp:22-37, 77-83: while a call of the queue is under way, its next step. -/
def deamon (s : GlobalLoggerManager) : GlobalLoggerManager :=
  match s.loopBody with
  | .test =>
    if s.done then { s.queue (.call .tryReceive) with loopBody := .flushAll }
    else { s.queue (.call .receive) with loopBody := .flushOne }
  | .flushOne =>
    if s.recordQueue.point = .idle then { s.write (s.lastResult.getD "") with loopBody := .test }
    else s.queue .turn
  | .flushAll =>
    if s.recordQueue.point = .idle then
      match s.lastResult with
      | none => { s with loopBody := .finished }
      | some tmp => (s.write tmp).queue (.call .tryReceive)
    else s.queue .turn
  | .finished => s

def step (s : GlobalLoggerManager) : LogEvent → GlobalLoggerManager
  | .insertRecord r => s.queue (.push r)
  | .notify => s.queue .notify
  | .stopDone => { s with done := true, stopping := s.stopping + 1 }
  | .stopInsert =>
    if s.stopping = 0 then s
    else { s.queue (.push "") with stopping := s.stopping - 1, markers := s.markers + 1 }
  | .deamon => s.deamon
  | .wake => s.queue .wake

/-! ## What holds between any two steps -/

/-- A record the queue has returned and the daemon has not written. -/
def pending (s : GlobalLoggerManager) : List String :=
  if s.recordQueue.point = .idle ∧ (s.loopBody = .flushOne ∨ s.loopBody = .flushAll) then
    nonEmpty s.lastResult.toList
  else []

/-- The daemon has found both queues empty in `flush_all`. -/
def Drained (s : GlobalLoggerManager) : Prop :=
  s.loopBody = .finished ∨
    s.loopBody = .flushAll ∧ s.recordQueue.point = .idle ∧ s.lastResult = none

/-- The call of the queue that the daemon is in. -/
def PointIn (s : GlobalLoggerManager) : Prop :=
  match s.loopBody with
  | .test | .finished => s.recordQueue.point = .idle
  | .flushOne => s.recordQueue.point.In .receive
  | .flushAll => s.recordQueue.point.In .tryReceive

/-- The invariant, after the events `es`. -/
structure Inv (s : GlobalLoggerManager) (es : List LogEvent) : Prop where
  queue : s.recordQueue.WF
  content : nonEmpty (s.recordQueue.received ++ s.recordQueue.content) = nonEmpty (records es)
  dest : s.dest ++ s.pending = nonEmpty s.recordQueue.received
  point : s.PointIn
  stops : 0 < s.stopping + s.markers → s.done = true
  asked : s.done = true → .stopDone ∈ es
  drains : s.loopBody = .flushAll ∨ s.loopBody = .finished → s.done = true
  marker : 0 < s.markers → s.loopBody = .flushOne → s.recordQueue.point ≠ .idle →
    s.recordQueue.content ≠ []
  empty : s.Drained → ∃ pre post, es = pre ++ post ∧ .stopDone ∈ pre ∧
    nonEmpty s.recordQueue.received = nonEmpty (records pre)

theorem nonEmpty_append (l m : List String) : nonEmpty (l ++ m) = nonEmpty l ++ nonEmpty m :=
  List.filter_append ..

theorem records_append (es fs : List LogEvent) : records (es ++ fs) = records es ++ records fs :=
  List.filterMap_append ..

theorem inv_start : start.Inv [] := by
  refine ⟨SenderSideLockQueue.wf_empty, rfl, rfl, rfl, ?_, ?_, ?_, ?_, ?_⟩
  · intro h
    exact absurd h (Nat.lt_irrefl 0)
  · intro h
    cases h
  · rintro (h | h) <;> cases h
  · intro h
    exact absurd h (Nat.lt_irrefl 0)
  · rintro (h | ⟨h, -⟩) <;> cases h

section Steps
variable {es : List LogEvent} {s : GlobalLoggerManager}

/-- Once drained, later events change nothing of what the daemon had found. -/
theorem Inv.empty_concat (h : s.Inv es) {s' : GlobalLoggerManager} (e : LogEvent)
    (hd : s'.Drained → s.Drained) (hr : s'.recordQueue.received = s.recordQueue.received) :
    s'.Drained → ∃ pre post, es ++ [e] = pre ++ post ∧ .stopDone ∈ pre ∧
      nonEmpty s'.recordQueue.received = nonEmpty (records pre) := by
  intro hs
  obtain ⟨pre, post, hes, hstop, hrec⟩ := h.empty (hd hs)
  refine ⟨pre, post ++ [e], ?_, hstop, ?_⟩
  · rw [hes, List.append_assoc]
  · rw [hr]
    exact hrec

/-- **Inserting records**, notifying and waking leave the daemon where it is. -/
theorem inv_outside (h : s.Inv es) (qe : QueueEvent String) (hq : SenderSideLockQueue.Outside qe)
    {e : LogEvent} (hins : nonEmpty qe.pushed?.toList = nonEmpty e.record?.toList) {st mk : Nat}
    (hstop : 0 < st + mk → s.done = true)
    (hmark : 0 < mk → 0 < s.markers ∨ qe.pushed?.toList ≠ []) :
    Inv { s.queue qe with stopping := st, markers := mk } (es ++ [e]) := by
  obtain ⟨hres, -, hcontent⟩ := SenderSideLockQueue.outside_frame (q := s.recordQueue) hq
  have hidle := SenderSideLockQueue.outside_idle (q := s.recordQueue) hq
  have hrecv : (s.recordQueue.step qe).received = s.recordQueue.received := by
    rw [SenderSideLockQueue.received, hres]
    rfl
  have hlast : ({ s.queue qe with stopping := st, markers := mk } : GlobalLoggerManager).lastResult =
      s.lastResult := by
    simp only [lastResult, queue, hres]
  refine ⟨SenderSideLockQueue.wf_step h.queue qe, ?_, ?_, ?_, hstop, ?_, h.drains, ?_, ?_⟩
  · have hrecords : nonEmpty (records (es ++ [e])) = nonEmpty (records es) ++ nonEmpty e.record?.toList := by
      rw [records_append, nonEmpty_append]
      cases he : e.record? <;> simp [records, he]
    rw [hrecords, ← hins, ← h.content, ← nonEmpty_append]
    simp only [queue, hrecv, hcontent, List.append_assoc]
  · have hd := h.dest
    simp only [pending, hlast] at hd ⊢
    simp only [queue, hidle, hrecv]
    exact hd
  · have hp := h.point
    revert hp
    simp only [PointIn, queue]
    cases s.loopBody with
    | test | finished => exact hidle.mpr
    | flushOne | flushAll => exact SenderSideLockQueue.outside_in hq
  · intro hdone
    exact List.mem_append_left _ (h.asked hdone)
  · intro hmk hloop hne
    rw [show (s.queue qe).recordQueue = s.recordQueue.step qe from rfl, hcontent]
    rcases hmark hmk with hmk | hpush
    · intro hnil
      exact h.marker hmk hloop (fun hi => hne (hidle.mpr hi)) (List.append_eq_nil_iff.mp hnil).1
    · intro hnil
      exact hpush (List.append_eq_nil_iff.mp hnil).2
  · refine h.empty_concat e ?_ hrecv
    rintro (hf | ⟨hf, hp, hl⟩)
    · exact .inl hf
    · exact .inr ⟨hf, hidle.mp hp, by rw [← hlast]; exact hl⟩

/-- **A turn of the daemon inside a call of the queue.** -/
theorem inv_turn (h : s.Inv es) (hne : s.recordQueue.point ≠ .idle)
    (hloop : s.loopBody = .flushOne ∨ s.loopBody = .flushAll) :
    (s.queue .turn).Inv (es ++ [.deamon]) := by
  have hrecords : records (es ++ [.deamon]) = records es := by simp [records, LogEvent.record?]
  have hcontent : nonEmpty (s.recordQueue.turn.received ++ s.recordQueue.turn.content) =
      nonEmpty (records es) := by
    rw [SenderSideLockQueue.turn_content h.queue]
    exact h.content
  have hdest : s.dest = nonEmpty s.recordQueue.received := by
    have hd := h.dest
    rw [pending, if_neg (fun hp => hne hp.1), List.append_nil] at hd
    exact hd
  have hpoint : (s.queue .turn).PointIn := by
    have hp := h.point
    revert hp
    simp only [PointIn, queue]
    rcases hloop with hl | hl <;> simp only [hl] <;> exact SenderSideLockQueue.turn_in
  refine ⟨SenderSideLockQueue.wf_step h.queue .turn, by rw [hrecords]; exact hcontent, ?_, hpoint, h.stops,
    fun hd => List.mem_append_left _ (h.asked hd), h.drains, ?_, ?_⟩
  · -- the record of a call that has just ended is the one to be written
    rcases SenderSideLockQueue.turn_cases h.queue with ⟨hi, hr, -⟩ | ⟨m, -, ht, -⟩ | ⟨m, t, rest, ht, -⟩
    · have hne' : (s.queue .turn).recordQueue.point ≠ .idle := fun hp => hne (hi.mp hp)
      rw [pending, if_neg (fun hp => hne' hp.1), List.append_nil]
      rw [show (s.queue .turn).recordQueue.received = s.recordQueue.received by
        simp only [queue, SenderSideLockQueue.step, SenderSideLockQueue.received, hr]]
      exact hdest
    · have hpend : (s.queue .turn).pending = [] := by
        simp [pending, lastResult, queue, SenderSideLockQueue.step, ht, SenderSideLockQueue.finish, nonEmpty]
      rw [hpend, List.append_nil]
      simp only [queue, SenderSideLockQueue.step, ht, SenderSideLockQueue.received_finish]
      simpa using hdest
    · have hpend : (s.queue .turn).pending = nonEmpty [t] := by
        have hidle : (s.queue .turn).recordQueue.point = .idle := by
          simp [queue, SenderSideLockQueue.step, ht, SenderSideLockQueue.finish]
        rw [pending, if_pos ⟨hidle, hloop⟩]
        simp [lastResult, queue, SenderSideLockQueue.step, ht, SenderSideLockQueue.finish]
      rw [hpend, show (s.queue .turn).dest = s.dest from rfl, hdest, ← nonEmpty_append]
      simp only [queue, SenderSideLockQueue.step, ht, SenderSideLockQueue.received_finish]
      rfl
  · intro hmk hl hne'
    rcases SenderSideLockQueue.turn_cases h.queue with ⟨hi, -, hc⟩ | ⟨m, -, ht, -⟩ | ⟨m, t, rest, ht, -⟩
    · rw [show (s.queue .turn).recordQueue.content = s.recordQueue.content from hc]
      exact h.marker hmk hl hne
    · exact absurd (by simp [queue, SenderSideLockQueue.step, ht, SenderSideLockQueue.finish]) hne'
    · exact absurd (by simp [queue, SenderSideLockQueue.step, ht, SenderSideLockQueue.finish]) hne'
  · rintro (hf | ⟨hf, hp, hl⟩)
    · have hf' : s.loopBody = .finished := hf
      rcases hloop with hl | hl <;> rw [hl] at hf' <;> cases hf'
    · rcases SenderSideLockQueue.turn_cases h.queue with ⟨hi, -, -⟩ | ⟨m, -, ht, hc⟩ | ⟨m, t, rest, ht, -⟩
      · exact absurd (hi.mp hp) hne
      · -- the queue is empty: everything inserted so far has been received
        refine ⟨es, [.deamon], rfl, h.asked (h.drains (.inl hf)), ?_⟩
        have := h.content
        rw [hc, List.append_nil] at this
        rw [← this]
        simp [queue, SenderSideLockQueue.step, ht, SenderSideLockQueue.received_finish]
      · simp [lastResult, queue, SenderSideLockQueue.step, ht, SenderSideLockQueue.finish] at hl

/-- **The daemon between two calls of the queue**: it writes what is pending, and may call again. -/
theorem inv_move (h : s.Inv es) {loop : LoopBody} {dest : List String}
    {q : SenderSideLockQueue String} (hidle : s.recordQueue.point = .idle)
    (hq : q = s.recordQueue ∧ (loop = .test ∨ loop = .finished) ∨
      q = s.recordQueue.step (.call .receive) ∧ loop = .flushOne ∧ s.done = false ∨
      q = s.recordQueue.step (.call .tryReceive) ∧ loop = .flushAll ∧ s.done = true)
    (hdest : dest = s.dest ++ s.pending)
    (hfin : loop = .finished → s.done = true ∧ s.Drained) :
    Inv { s with recordQueue := q, dest := dest, loopBody := loop } (es ++ [.deamon]) := by
  have hrecords : records (es ++ [.deamon]) = records es := by simp [records, LogEvent.record?]
  have hcall : ∀ m, s.recordQueue.step (.call m) = { s.recordQueue with point := .entered m } := by
    intro m
    simp [SenderSideLockQueue.step, hidle]
  have hwf : q.WF := by
    rcases hq with ⟨rfl, -⟩ | ⟨rfl, -⟩ | ⟨rfl, -⟩
    · exact h.queue
    · exact SenderSideLockQueue.wf_step h.queue _
    · exact SenderSideLockQueue.wf_step h.queue _
  have hsame : q.received = s.recordQueue.received ∧ q.content = s.recordQueue.content := by
    rcases hq with ⟨rfl, -⟩ | ⟨rfl, -⟩ | ⟨rfl, -⟩
    · exact ⟨rfl, rfl⟩
    · rw [hcall]
      exact ⟨rfl, rfl⟩
    · rw [hcall]
      exact ⟨rfl, rfl⟩
  refine ⟨hwf, ?_, ?_, ?_, h.stops, fun hd => List.mem_append_left _ (h.asked hd), ?_, ?_, ?_⟩
  · rw [hrecords, ← h.content]
    simp only [hsame]
  · have hnone : ({ s with recordQueue := q, dest := dest, loopBody := loop } :
        GlobalLoggerManager).pending = [] := by
      rw [pending, if_neg]
      rintro ⟨hp, hl⟩
      rcases hq with ⟨-, rfl | rfl⟩ | ⟨rfl, -⟩ | ⟨rfl, -⟩
      · rcases hl with hl | hl <;> cases hl
      · rcases hl with hl | hl <;> cases hl
      · rw [hcall] at hp
        cases hp
      · rw [hcall] at hp
        cases hp
    rw [hnone, List.append_nil]
    simp only [hsame]
    rw [hdest]
    exact h.dest
  · rcases hq with ⟨rfl, rfl | rfl⟩ | ⟨rfl, rfl, -⟩ | ⟨rfl, rfl, -⟩
    · exact hidle
    · exact hidle
    · simp [PointIn, hcall, SenderSideLockQueue.Point.In]
    · simp [PointIn, hcall, SenderSideLockQueue.Point.In]
  · rintro (hl | hl)
    · rcases hq with ⟨-, rfl | rfl⟩ | ⟨-, rfl, -⟩ | ⟨-, -, hd⟩
      · cases hl
      · cases hl
      · cases hl
      · exact hd
    · exact (hfin hl).1
  · intro hmk hl
    rcases hq with ⟨-, rfl | rfl⟩ | ⟨-, -, hd⟩ | ⟨-, rfl, -⟩
    · cases hl
    · cases hl
    · -- `done` was not set at the test, so no `stop` has inserted its record yet
      have := h.stops (Nat.lt_of_lt_of_le hmk (Nat.le_add_left _ _))
      rw [hd] at this
      cases this
    · cases hl
  · refine h.empty_concat _ ?_ hsame.1
    rintro (hl | ⟨hl, hp, -⟩)
    · exact (hfin hl).2
    · rcases hq with ⟨-, rfl | rfl⟩ | ⟨-, rfl, -⟩ | ⟨rfl, -⟩
      · cases hl
      · cases hl
      · cases hl
      · rw [hcall] at hp
        cases hp

theorem write_eq (s : GlobalLoggerManager) (tmp : String) :
    s.write tmp = { s with dest := s.dest ++ nonEmpty [tmp] } := by
  unfold write
  by_cases ht : tmp = ""
  · simp [ht, nonEmpty]
  · simp [ht, nonEmpty]

theorem inv_deamon (h : s.Inv es) : s.deamon.Inv (es ++ [.deamon]) := by
  have hpoint := h.point
  have hpend := pending.eq_1 s
  cases hl : s.loopBody with
  | test =>
    simp only [PointIn, hl] at hpoint
    have hdest : s.dest = s.dest ++ s.pending := by simp [hpend, hl]
    cases hd : s.done with
    | true =>
      rw [show s.deamon = { s.queue (.call .tryReceive) with loopBody := .flushAll } by simp [deamon, hl, hd]]
      exact inv_move h hpoint (.inr (.inr ⟨rfl, rfl, hd⟩)) hdest (fun hf => by cases hf)
    | false =>
      rw [show s.deamon = { s.queue (.call .receive) with loopBody := .flushOne } by simp [deamon, hl, hd]]
      exact inv_move h hpoint (.inr (.inl ⟨rfl, rfl, hd⟩)) hdest (fun hf => by cases hf)
  | flushOne =>
    by_cases hidle : s.recordQueue.point = .idle
    · rw [if_pos ⟨hidle, .inl hl⟩] at hpend
      rw [show s.deamon = { s.write (s.lastResult.getD "") with loopBody := .test } by
        simp [deamon, hl, hidle], write_eq]
      refine inv_move h hidle (.inl ⟨rfl, .inl rfl⟩) ?_ (fun hf => by cases hf)
      rw [hpend]
      cases s.lastResult <;> simp [nonEmpty]
    · rw [show s.deamon = s.queue .turn by simp [deamon, hl, hidle]]
      exact inv_turn h hidle (.inl hl)
  | flushAll =>
    have hdone := h.drains (.inl hl)
    by_cases hidle : s.recordQueue.point = .idle
    · rw [if_pos ⟨hidle, .inr hl⟩] at hpend
      cases hr : s.lastResult with
      | none =>
        rw [show s.deamon = { s with loopBody := .finished } by simp [deamon, hl, hidle, hr]]
        refine inv_move h hidle (.inl ⟨rfl, .inr rfl⟩) ?_ (fun _ => ⟨hdone, .inr ⟨hl, hidle, hr⟩⟩)
        simp [hpend, hr, nonEmpty]
      | some tmp =>
        rw [show s.deamon = (s.write tmp).queue (.call .tryReceive) by simp [deamon, hl, hidle, hr],
          write_eq]
        refine inv_move h hidle (.inr (.inr ⟨rfl, hl, hdone⟩)) ?_
          (fun hf => by rw [hl] at hf; cases hf)
        rw [hpend, hr]
        rfl
    · rw [show s.deamon = s.queue .turn by simp [deamon, hl, hidle]]
      exact inv_turn h hidle (.inr hl)
  | finished =>
    simp only [PointIn, hl] at hpoint
    rw [show s.deamon = s by simp [deamon, hl]]
    refine inv_move h hpoint (.inl ⟨rfl, .inr hl⟩) ?_
      (fun _ => ⟨h.drains (.inr hl), .inl hl⟩)
    simp [hpend, hl]

theorem inv_step (h : s.Inv es) (e : LogEvent) : (s.step e).Inv (es ++ [e]) := by
  cases e with
  | insertRecord r =>
    exact inv_outside h (.push r) trivial rfl h.stops (fun hm => .inl hm)
  | notify => exact inv_outside h .notify trivial rfl h.stops (fun hm => .inl hm)
  | wake => exact inv_outside h .wake trivial rfl h.stops (fun hm => .inl hm)
  | deamon => exact inv_deamon h
  | stopDone =>
    have hrecords : records (es ++ [.stopDone]) = records es := by simp [records, LogEvent.record?]
    refine ⟨h.queue, ?_, h.dest, h.point, fun _ => rfl, fun _ => by simp, fun _ => rfl, ?_, ?_⟩
    · rw [hrecords]
      exact h.content
    · exact h.marker
    · exact h.empty_concat _ id rfl
  | stopInsert =>
    simp only [step]
    split
    · -- no `stop` is between its two statements
      have hrecords : records (es ++ [.stopInsert]) = records es := by simp [records, LogEvent.record?]
      refine ⟨h.queue, ?_, h.dest, h.point, h.stops, ?_, h.drains, h.marker, h.empty_concat _ id rfl⟩
      · rw [hrecords]
        exact h.content
      · intro hd
        exact List.mem_append_left _ (h.asked hd)
    · rename_i hst
      refine inv_outside h (.push "") trivial rfl (fun _ => h.stops ?_) (fun _ => .inr ?_)
      · omega
      · simp [QueueEvent.pushed?]

end Steps

/-! ## Runs -/

theorem inv_run (es : List LogEvent) : (run step start es).Inv es :=
  run_history (J := fun es (s : GlobalLoggerManager) => s.Inv es) inv_start
    (fun _ _ e h => inv_step h e) es

/-- The daemon once it has finished: what was inserted before any `stop` is written. -/
theorem Inv.finished {s : GlobalLoggerManager} {es₁ es₂ : List LogEvent} (h : s.Inv (es₁ ++ es₂))
    (hf : s.loopBody = .finished) (hstop : .stopDone ∉ es₁) : nonEmpty (records es₁) <+: s.dest := by
  obtain ⟨pre, post, hes, hmem, hrec⟩ := h.empty (.inl hf)
  have hdest := h.dest
  rw [show s.pending = [] by simp [pending, hf], List.append_nil] at hdest
  rw [hdest, hrec]
  -- the first `stop` came before the daemon found the queue empty
  have hpre : es₁ <+: pre := by
    rcases List.prefix_or_prefix_of_prefix ⟨es₂, rfl⟩ ⟨post, hes.symm⟩ with hp | hp
    · exact hp
    · exact absurd (hp.subset hmem) hstop
  exact (hpre.filterMap _).filter _

/-- **Nothing is lost and the daemon does not hang.** In every run of insertions, of `stop` calls and of
the daemon: what has been written is a prefix of the non-empty records inserted, each once; a daemon
that has finished has written every record inserted before the first `stop`; and once a `stop` has
inserted its marker, a daemon that sleeps does so beside a non-empty queue, with the `notify_one` of
some insertion still to come. -/
theorem globalLoggerManager_writes (es : List LogEvent) :
    (run step start es).dest <+: nonEmpty (records es) ∧
    (∀ es₁ es₂, es = es₁ ++ es₂ → .stopDone ∉ es₁ → (run step start es).loopBody = .finished →
      nonEmpty (records es₁) <+: (run step start es).dest) ∧
    (0 < (run step start es).markers → ∀ m, (run step start es).recordQueue.point = .blocked m →
      (run step start es).recordQueue.inQueue ≠ [] ∧ 0 < (run step start es).recordQueue.notifying) := by
  have h := inv_run es
  refine ⟨?_, ?_, ?_⟩
  · refine (List.prefix_append _ (run step start es).pending).trans ?_
    rw [h.dest, ← h.content, nonEmpty_append]
    exact List.prefix_append _ _
  · rintro es₁ es₂ rfl hstop hf
    exact h.finished hf hstop
  · intro hmk m hp
    have hout := h.queue.locks (by rw [hp]; trivial)
    have hpoint := h.point
    have hin : (run step start es).recordQueue.inQueue ≠ [] := by
      cases hl : (run step start es).loopBody with
      | flushOne =>
        have := h.marker hmk hl (by rw [hp]; simp)
        rwa [SenderSideLockQueue.content, hout, List.nil_append] at this
      | test | finished | flushAll =>
        simp only [PointIn, hl, hp, SenderSideLockQueue.Point.In] at hpoint
        simp_all
    exact ⟨hin, (h.queue.sleeps m hp).resolve_left hin⟩

end GlobalLoggerManager
end Thallium
