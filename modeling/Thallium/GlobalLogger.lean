import Thallium.Logging

/-!
# From `_log` to the destination (logging.cpp:39-66, 85-177)

A thread that logs tests the level, writes the line of its record and inserts it into the queue; the daemon
takes it from there. A line is never empty, so it is never taken for the marker of a `stop`. The destructor
of the manager stops the daemon and joins it.

| here | there |
| --- | --- |
| `LevelFilter`  | `LevelFilter` (logging.cpp:39) |
| `Environment`  | not in the source: the texts behind the `const char *`s, and what `strftime` and the `<<` of a thread's id print |
| `getFileName`  | `get_file_name` with the calling thread's `dict` (logging.cpp:94) |
| `Record`, `Record.format`, `levelName` | `Record` (logging.cpp:105-153) |
| `LogCall`      | a call of `_log` (logging.cpp:170), with its thread and the time it reads |
| `GlobalLogger` | what `mng` points to, and the threads' `dict`s |
| `Settling`     | not in the source: what a `join` waits for |

* `getFileName_right` — the table of file names changes no name.
* `logged_lines` — the destination, at every moment of every run.
* `destructor_returns` — the `join` returns, and what has been written then.
-/
namespace Thallium
open Concurrent EventRun

/-! ## Records -/

/-- logging.hpp:14-18 -/
def levelName (levelNum : Int) : Except Exception String :=
  if levelNum = 0 then .ok "DEBUG"
  else if levelNum = 1 then .ok "INFO"
  else if levelNum = 2 then .ok "WARN"
  else if levelNum = 3 then .ok "ERROR"
  else if levelNum = 4 then .ok "FATAL"
  else .error (.logicError "bad level")

theorem levelName_cases (levelNum : Int) :
    (0 ≤ levelNum ∧ levelNum ≤ 4 ∧ ∃ name, levelName levelNum = .ok name) ∨
      (¬ (0 ≤ levelNum ∧ levelNum ≤ 4) ∧ levelName levelNum = .error (.logicError "bad level")) := by
  unfold levelName
  split_ifs <;> (simp_all; try omega)

structure LevelFilter where
  minLevel : Int

def LevelFilter.filter (f : LevelFilter) (level : Int) : Bool := decide (f.minLevel ≤ level)

/-- `P` are the addresses of file names, `Θ` the threads; a time is in nanoseconds. -/
structure Environment (P Θ : Type) where
  text : P → String
  strftime : Int → String
  threadId : Θ → String

/-- What stands after the last slash (`strrchr`). -/
def afterSlash (path : String) : String :=
  String.ofList (path.toList.reverse.takeWhile (· ≠ '/')).reverse

structure Record where
  level : Int
  lineNum : Int
  threadId : String
  fileName : String
  msg : String
  loggingTime : Int

/-- logging.cpp:115-136. Microseconds are printed without leading zeros. -/
def Record.format (strftime : Int → String) (r : Record) : Except Exception String := do
  let name ← levelName r.level
  let ms := (r.loggingTime.tdiv 1000).tmod 1000000
  return strftime (r.loggingTime.tdiv 1000000000) ++ toString ms ++ " " ++ name ++ " " ++
    "tid:" ++ r.threadId ++ " " ++ "in " ++ r.fileName ++ ":" ++ toString r.lineNum ++ " " ++ r.msg ++ "\n"

/-- A record has a line iff its level has a name. -/
theorem Record.format_cases (strftime : Int → String) (r : Record) :
    (0 ≤ r.level ∧ r.level ≤ 4 ∧ ∃ line, r.format strftime = .ok line) ∨
      (¬ (0 ≤ r.level ∧ r.level ≤ 4) ∧ r.format strftime = .error (.logicError "bad level")) := by
  unfold Record.format
  rcases levelName_cases r.level with ⟨hlo, hhi, name, hn⟩ | ⟨hout, hn⟩
  · exact .inl ⟨hlo, hhi, _, by rw [hn]; rfl⟩
  · exact .inr ⟨hout, by rw [hn]; rfl⟩

/-- A call of `_log`. -/
structure LogCall (P Θ : Type) where
  thread : Θ
  level : Int
  fileName : P
  lineNum : Int
  msg : String
  loggingTime : Int

section Calls
variable {P Θ : Type}

/-- The `Record` of a call (logging.cpp:105). -/
def LogCall.record (env : Environment P Θ) (c : LogCall P Θ) (fileName : String) : Record :=
  ⟨c.level, c.lineNum, env.threadId c.thread, fileName, c.msg, c.loggingTime⟩

/-- The line of a call that is inserted: its level is enabled and has a name. -/
def LogCall.line? (env : Environment P Θ) (f : LevelFilter) (c : LogCall P Θ) : Option String :=
  if f.minLevel ≤ c.level then ((c.record env (afterSlash (env.text c.fileName))).format env.strftime).toOption
  else none

/-- A line ends with a newline. -/
theorem Record.format_ne_empty {strftime : Int → String} {r : Record} {line : String}
    (h : r.format strftime = .ok line) : line ≠ "" := by
  unfold Record.format at h
  cases hn : levelName r.level with
  | error e =>
    rw [hn] at h
    cases h
  | ok name =>
    rw [hn] at h
    obtain rfl := Except.ok.inj h
    intro hempty
    have hlength := congrArg String.length hempty
    simp [String.length_append] at hlength

theorem LogCall.line_ne_empty {env : Environment P Θ} {f : LevelFilter} {c : LogCall P Θ} {line : String}
    (h : c.line? env f = some line) : line ≠ "" := by
  unfold LogCall.line? at h
  split at h
  · cases hr : (c.record env (afterSlash (env.text c.fileName))).format env.strftime with
    | error e =>
      rw [hr] at h
      cases h
    | ok l =>
      rw [hr] at h
      obtain rfl := Option.some.inj h
      exact Record.format_ne_empty hr
  · cases h

variable [DecidableEq P]

/-- The name of a file, and the thread's table afterwards. -/
def getFileName (env : Environment P Θ) (dict : List (P × String)) (path : P) : String × List (P × String) :=
  match dict.lookup path with
  | some pos => (pos, dict)
  | none => (afterSlash (env.text path), (path, afterSlash (env.text path)) :: dict)

/-- `_log` in its thread: the record to be inserted, if any. -/
def logCall (env : Environment P Θ) (f : LevelFilter) (dict : List (P × String)) (c : LogCall P Θ) :
    Except Exception (Option String) × List (P × String) :=
  if f.filter c.level then
    let (fileName, dict) := getFileName env dict c.fileName
    (((c.record env fileName).format env.strftime).map some, dict)
  else (.ok none, dict)

variable {env : Environment P Θ} {f : LevelFilter} {dict : List (P × String)}

/-- What is in a table is right. -/
def RightNames (env : Environment P Θ) (dict : List (P × String)) : Prop :=
  ∀ path pos, dict.lookup path = some pos → pos = afterSlash (env.text path)

theorem getFileName_right (h : RightNames env dict) (path : P) :
    (getFileName env dict path).1 = afterSlash (env.text path) ∧ RightNames env (getFileName env dict path).2 := by
  unfold getFileName
  cases hl : dict.lookup path with
  | some pos => exact ⟨h path pos hl, h⟩
  | none =>
    refine ⟨rfl, fun path' pos hl' => ?_⟩
    rw [List.lookup_cons] at hl'
    split at hl'
    · rename_i heq
      rw [eq_of_beq heq]
      exact (Option.some.inj hl').symm
    · exact h path' pos hl'

/-- **A call of `_log`**: it inserts its line if the level is enabled; where the level has no name it throws,
and inserts nothing. -/
theorem logCall_eq (h : RightNames env dict) (c : LogCall P Θ) :
    (c.level < f.minLevel → (logCall env f dict c).1 = .ok none) ∧
      (f.minLevel ≤ c.level → 0 ≤ c.level → c.level ≤ 4 →
        ∃ line, (logCall env f dict c).1 = .ok (some line) ∧ c.line? env f = some line) ∧
      (f.minLevel ≤ c.level → ¬ (0 ≤ c.level ∧ c.level ≤ 4) →
        (logCall env f dict c).1 = .error (.logicError "bad level")) ∧
      ((logCall env f dict c).1.toOption.bind id = c.line? env f) ∧ RightNames env (logCall env f dict c).2 := by
  obtain ⟨hname, hright⟩ := getFileName_right h c.fileName
  unfold logCall LogCall.line? LevelFilter.filter
  by_cases hlevel : f.minLevel ≤ c.level
  · simp only [hlevel, decide_true, if_true, hname]
    refine ⟨fun hlt => by omega, ?_, ?_, ?_, hright⟩
    · intro _ hlo hhi
      rcases Record.format_cases env.strftime (c.record env (afterSlash (env.text c.fileName))) with
        ⟨-, -, line, hline⟩ | ⟨hout, -⟩
      · exact ⟨line, by rw [hline]; rfl, by rw [hline]; rfl⟩
      · exact absurd ⟨hlo, hhi⟩ hout
    · intro _ hout
      rcases Record.format_cases env.strftime (c.record env (afterSlash (env.text c.fileName))) with
        ⟨hlo, hhi, -⟩ | ⟨-, herror⟩
      · exact absurd ⟨hlo, hhi⟩ hout
      · rw [herror]
        rfl
    · cases (c.record env (afterSlash (env.text c.fileName))).format env.strftime <;> rfl
  · simp only [hlevel, decide_false, if_false]
    exact ⟨fun _ => rfl, fun hle => hle.elim, fun hle => hle.elim, rfl, h⟩

end Calls

/-! ## The daemon comes to an end -/

namespace Concurrent.SenderSideLockQueue
variable {T : Type} {q : SenderSideLockQueue T}

/-- How far a call is from its end. -/
def Point.rank : Point → Nat
  | .idle => 0
  | .popping _ => 1
  | .locking _ => 2
  | .timedOut => 2
  | .blocked _ => 3
  | .entered _ => 4

theorem Point.rank_woken (p : Point) : p.woken.rank ≤ p.rank := by
  cases p <;> simp [woken, rank]

theorem turn_notifying (q : SenderSideLockQueue T) : q.turn.notifying = q.notifying := by
  unfold turn checkOut lockIn lockLate popOut
  split
  · rfl
  · rfl
  · split_ifs <;> rfl
  · rfl
  · split_ifs <;> rfl
  · split <;> rfl

/-- A turn of a call that does not fall asleep goes on in its call, or ends it. -/
theorem turn_rank (h : q.WF) (hidle : q.point ≠ .idle) (hawake : ∀ m, q.point ≠ .blocked m)
    (hstays : ∀ m, q.point = .locking m → m = .tryReceive ∨ q.inQueue ≠ []) :
    q.turn.point.rank < q.point.rank ∧ (q.turn.content = q.content ∧ q.turn.point ≠ .idle ∨
      (∃ m, q.turn = q.finish m none ∧ q.content = []) ∨
      ∃ m t rest, q.turn = { q with outQueue := rest }.finish m (some t) ∧ q.outQueue = t :: rest) := by
  have hcases := turn_cases h
  refine ⟨?_, ?_⟩
  · unfold turn
    cases hp : q.point with
    | idle => exact absurd hp hidle
    | blocked m => exact absurd hp (hawake m)
    | entered m =>
      simp only [checkOut]
      split <;> simp [Point.rank]
    | locking m =>
      simp only [lockIn]
      split
      · rename_i hin
        rcases hstays m hp with rfl | hne
        · simp [Point.rank, finish]
        · exact absurd (List.isEmpty_iff.mp hin) hne
      · simp [Point.rank, swap]
    | timedOut =>
      simp only [lockLate]
      split <;> simp [Point.rank, finish, swap]
    | popping m =>
      simp only [popOut]
      cases hout : q.outQueue with
      | nil => exact absurd hout (h.pops m hp)
      | cons t rest => simp [Point.rank, finish]
  · rcases hcases with ⟨hi, -, hc⟩ | ⟨m, -, ht, hc⟩ | ⟨m, t, rest, ht, hout⟩
    · exact .inl ⟨hc, fun hp => hidle (hi.mp hp)⟩
    · exact .inr (.inl ⟨m, ht, hc⟩)
    · exact .inr (.inr ⟨m, t, rest, ht, hout⟩)

end Concurrent.SenderSideLockQueue

/-- The steps the daemon has to take at most if no record is left in the queue. -/
def LoopBody.distance (p : SenderSideLockQueue.Point) (result : Option String) : LoopBody → Nat
  | .finished => 0
  | .flushAll => if p = .idle then if result = none then 1 else 7 else 2 + p.rank
  | .test => 7
  | .flushOne => 8 + p.rank

theorem LoopBody.distance_woken (l : LoopBody) (p : SenderSideLockQueue.Point) (r : Option String) :
    l.distance p.woken r ≤ l.distance p r := by
  have hrank := p.rank_woken
  cases l with
  | finished | test => exact Nat.le_refl _
  | flushOne => simpa [distance] using hrank
  | flushAll =>
    simp only [distance, SenderSideLockQueue.Point.woken_idle]
    split
    · exact Nat.le_refl _
    · exact Nat.add_le_add_left hrank 2

namespace GlobalLoggerManager

/-- The daemon sleeps in `flush_one`. -/
def Asleep (s : GlobalLoggerManager) : Prop := s.recordQueue.point = .blocked .receive

/-- What can happen while a thread joins the daemon: the daemon goes on, an insertion that is under way
returns, the daemon wakes for no reason. -/
def Settling (s : GlobalLoggerManager) : LogEvent → Prop
  | .deamon => s.loopBody ≠ .finished ∧ ¬ s.Asleep
  | .notify => 0 < s.recordQueue.notifying
  | .wake => s.Asleep
  | _ => False

/-- A bound on what can happen before the daemon has finished. -/
def due (s : GlobalLoggerManager) : Nat :=
  5 * s.recordQueue.content.length + s.loopBody.distance s.recordQueue.point s.lastResult + s.recordQueue.notifying

section Settling
variable {es : List LogEvent} {s : GlobalLoggerManager}

/-- What has been written so far. -/
theorem Inv.written (h : s.Inv es) : s.dest <+: nonEmpty (records es) := by
  rw [← h.content, nonEmpty_append, ← h.dest, List.append_assoc]
  exact List.prefix_append _ _

/-- **A turn inside a call** of the daemon that does not fall asleep. -/
theorem turn_due (h : s.Inv es) (hm : 0 < s.markers) (hloop : s.loopBody = .flushOne ∨ s.loopBody = .flushAll)
    (hidle : s.recordQueue.point ≠ .idle) (hawake : ¬ s.Asleep) : (s.queue .turn).due < s.due := by
  have hpoint := h.point
  have hblocked : ∀ m, s.recordQueue.point ≠ .blocked m := by
    intro m hp
    rcases hloop with hl | hl <;> simp only [PointIn, hl, hp, SenderSideLockQueue.Point.In] at hpoint
    · exact hawake (by rw [Asleep, hp, hpoint.1])
    · exact absurd rfl hpoint.2
  -- beside the marker of a `stop` the daemon does not find the queue empty in `flush_one`
  have hstays : ∀ m, s.recordQueue.point = .locking m → m = .tryReceive ∨ s.recordQueue.inQueue ≠ [] := by
    intro m hp
    rcases hloop with hl | hl
    · have hcontent := h.marker hm hl hidle
      have hout : s.recordQueue.outQueue = [] := h.queue.locks (by rw [hp]; trivial)
      rw [SenderSideLockQueue.content, hout, List.nil_append] at hcontent
      exact .inr hcontent
    · simp only [PointIn, hl, hp, SenderSideLockQueue.Point.In] at hpoint
      exact .inl hpoint
  obtain ⟨hrank, hcases⟩ := SenderSideLockQueue.turn_rank h.queue hidle hblocked hstays
  have hnotifying : s.recordQueue.turn.notifying = s.recordQueue.notifying := SenderSideLockQueue.turn_notifying _
  simp only [due, queue, SenderSideLockQueue.step, hnotifying]
  rcases hcases with ⟨hcontent, hgoes⟩ | ⟨m, hturn, hempty⟩ | ⟨m, t, rest, hturn, hout⟩
  · rw [hcontent]
    rcases hloop with hl | hl
    · simp only [hl, LoopBody.distance]
      omega
    · simp only [hl, LoopBody.distance, if_neg hidle, if_neg hgoes]
      omega
  · have hresult : (s.recordQueue.finish m none).results.getLast?.bind Prod.snd = none := by
      simp [SenderSideLockQueue.finish]
    rw [hturn] at hrank
    simp only [lastResult, hturn, hempty] at hrank ⊢
    rw [show (s.recordQueue.finish m none).content = [] from hempty, hresult]
    rcases hloop with hl | hl
    · simp only [hl, LoopBody.distance]
      omega
    · simp only [hl, LoopBody.distance, if_neg hidle, SenderSideLockQueue.finish, if_true]
      omega
  · have hlength : s.recordQueue.content.length = rest.length + s.recordQueue.inQueue.length + 1 := by
      rw [SenderSideLockQueue.content, hout, List.length_append, List.length_cons]
      omega
    have hlength' : (({ s.recordQueue with outQueue := rest }.finish m (some t)).content).length =
        rest.length + s.recordQueue.inQueue.length := List.length_append
    have hrank' : 0 < s.recordQueue.point.rank := Nat.lt_of_le_of_lt (Nat.zero_le _) hrank
    simp only [lastResult, hturn, hlength, hlength'] at hrank ⊢
    rcases hloop with hl | hl
    · simp only [hl, LoopBody.distance]
      omega
    · simp only [hl, LoopBody.distance, if_neg hidle, SenderSideLockQueue.finish, if_true, List.getLast?_concat,
        Option.bind_some, reduceCtorEq, if_false]
      omega

/-- **One step while a thread joins**, once a `stop` has inserted its marker. -/
theorem settling_decreases (h : s.Inv es) (hm : 0 < s.markers) {e : LogEvent} (he : s.Settling e) :
    (s.step e).due < s.due := by
  have hpoint := h.point
  have hdone : s.done = true := h.stops (Nat.lt_of_lt_of_le hm (Nat.le_add_left _ _))
  cases e with
  | insertRecord r | stopDone | stopInsert => exact absurd he id
  | notify =>
    have hpos : s.recordQueue.notifying ≠ 0 := Nat.ne_of_gt he
    have hdist := s.loopBody.distance_woken s.recordQueue.point s.lastResult
    have hdue : (s.step .notify).due = 5 * s.recordQueue.content.length +
        s.loopBody.distance s.recordQueue.point.woken s.lastResult + (s.recordQueue.notifying - 1) := by
      simp only [due, step, queue, SenderSideLockQueue.step, SenderSideLockQueue.notifyOne, if_neg hpos]
      rfl
    rw [hdue, due]
    omega
  | wake =>
    have hasleep : s.recordQueue.point = .blocked .receive := he
    have hl : s.loopBody = .flushOne := by
      cases hl : s.loopBody <;> simp_all [PointIn, SenderSideLockQueue.Point.In]
    simp [due, step, queue, SenderSideLockQueue.step, SenderSideLockQueue.wake, hl, hasleep, LoopBody.distance,
      SenderSideLockQueue.Point.woken, SenderSideLockQueue.Point.rank, SenderSideLockQueue.content]
  | deamon =>
    obtain ⟨hnot, hawake⟩ := he
    rw [step]
    cases hl : s.loopBody with
    | finished => exact absurd hl hnot
    | test =>
      simp only [PointIn, hl] at hpoint
      simp [due, deamon, hl, hdone, LoopBody.distance, queue, SenderSideLockQueue.step, hpoint,
        SenderSideLockQueue.content, SenderSideLockQueue.Point.rank]
    | flushOne =>
      by_cases hidle : s.recordQueue.point = .idle
      · have hstep : s.deamon = { s.write (s.lastResult.getD "") with loopBody := .test } := by
          simp [deamon, hl, hidle]
        rw [hstep, write_eq]
        simp only [due, hl, LoopBody.distance, hidle, SenderSideLockQueue.Point.rank]
        omega
      · have hstep : s.deamon = s.queue .turn := by simp [deamon, hl, hidle]
        rw [hstep]
        exact turn_due h hm (.inl hl) hidle hawake
    | flushAll =>
      by_cases hidle : s.recordQueue.point = .idle
      · cases hr : s.lastResult with
        | none =>
          simp only [due, deamon, hl, hidle, hr, LoopBody.distance, if_true]
          omega
        | some tmp =>
          have hstep : s.deamon = (s.write tmp).queue (.call .tryReceive) := by simp [deamon, hl, hidle, hr]
          rw [hstep, write_eq]
          simp [due, hl, LoopBody.distance, queue, SenderSideLockQueue.step, hidle, hr,
            SenderSideLockQueue.content, SenderSideLockQueue.Point.rank]
      · have hstep : s.deamon = s.queue .turn := by simp [deamon, hl, hidle]
        rw [hstep]
        exact turn_due h hm (.inr hl) hidle hawake

theorem settling_markers {e : LogEvent} (he : s.Settling e) : (s.step e).markers = s.markers := by
  cases e with
  | insertRecord r | stopDone | stopInsert => exact absurd he id
  | notify | wake => rfl
  | deamon =>
    simp only [step, deamon]
    split
    · split <;> rfl
    · split
      · simp [write_eq]
      · rfl
    · split
      · split
        · rfl
        · simp [write_eq, queue]
      · rfl
    · rfl

/-- The daemon has finished, or it goes on, or an insertion that is under way wakes it. -/
theorem finished_or_settling (h : s.Inv es) (hm : 0 < s.markers) :
    s.loopBody = .finished ∨ s.Settling .deamon ∨ s.Settling .notify := by
  by_cases hf : s.loopBody = .finished
  · exact .inl hf
  by_cases hasleep : s.Asleep
  · have hp : s.recordQueue.point = .blocked .receive := hasleep
    have hpoint := h.point
    have hl : s.loopBody = .flushOne := by
      cases hl : s.loopBody <;> simp_all [PointIn, SenderSideLockQueue.Point.In]
    -- the marker is still in the queue, and whoever has inserted something has not returned
    have hcontent := h.marker hm hl (by rw [hp]; simp)
    have hout : s.recordQueue.outQueue = [] := h.queue.locks (by rw [hp]; trivial)
    rw [SenderSideLockQueue.content, hout, List.nil_append] at hcontent
    exact .inr (.inr ((h.queue.sleeps _ hp).resolve_left hcontent))
  · exact .inr (.inl ⟨hf, hasleep⟩)

/-- **Joining the daemon**, whatever the order of the steps. -/
theorem settling_run (h : s.Inv es) (hm : 0 < s.markers) {fs : List LogEvent} (hfs : EachStep step Settling s fs) :
    (run step s fs).Inv (es ++ fs) ∧ 0 < (run step s fs).markers ∧ fs.length + (run step s fs).due ≤ s.due := by
  induction fs generalizing s es with
  | nil => exact ⟨by rwa [List.append_nil], hm, by simp⟩
  | cons e fs ih =>
    obtain ⟨he, hfs⟩ := hfs
    have hlt := settling_decreases h hm he
    obtain ⟨hinv, hmark, hle⟩ := ih (inv_step h e) (by rw [settling_markers he]; exact hm) hfs
    refine ⟨?_, hmark, ?_⟩
    · rwa [List.append_assoc, List.singleton_append] at hinv
    · rw [List.length_cons]
      rw [run]
      omega

end Settling
end GlobalLoggerManager

/-! ## The logger as a whole -/

structure GlobalLogger (P Θ : Type) where
  levelFilter : LevelFilter
  dicts : Θ → List (P × String)
  manager : GlobalLoggerManager

/-- `log` is a call of `_log` up to the push of its record; the others are steps of the manager. -/
inductive GlobalEvent (P Θ : Type) where
  | log (c : LogCall P Θ)
  | notify
  | stopDone
  | stopInsert
  | deamon
  | wake

namespace GlobalLogger
variable {P Θ : Type}

/-- `logging_init`; no thread has logged yet. -/
def start (f : LevelFilter) : GlobalLogger P Θ := ⟨f, fun _ => [], .start⟩

/-- The line of an event. -/
def line? (env : Environment P Θ) (f : LevelFilter) : GlobalEvent P Θ → Option String
  | .log c => c.line? env f
  | _ => none

/-- The lines of a run, in the order they entered the queue. -/
def lines (env : Environment P Θ) (f : LevelFilter) (es : List (GlobalEvent P Θ)) : List String :=
  es.filterMap (line? env f)

/-- What an event is to the manager. -/
def managed (env : Environment P Θ) (f : LevelFilter) : GlobalEvent P Θ → Option LogEvent
  | .log c => (c.line? env f).map .insertRecord
  | .notify => some .notify
  | .stopDone => some .stopDone
  | .stopInsert => some .stopInsert
  | .deamon => some .deamon
  | .wake => some .wake

/-- What a thread may wait for in `join`. -/
def Settling (s : GlobalLogger P Θ) : GlobalEvent P Θ → Prop
  | .log _ => False
  | .notify => s.manager.Settling .notify
  | .stopDone | .stopInsert => False
  | .deamon => s.manager.Settling .deamon
  | .wake => s.manager.Settling .wake

section Lines
variable {env : Environment P Θ} {f : LevelFilter} {es : List (GlobalEvent P Θ)}

/-- The records of the manager are the lines, and none of them is empty. -/
theorem records_managed (es : List (GlobalEvent P Θ)) : records (es.filterMap (managed env f)) = lines env f es := by
  rw [records, lines, List.filterMap_filterMap]
  congr 1
  funext e
  cases e with
  | log c => cases hc : c.line? env f <;> simp [managed, line?, hc, LogEvent.record?]
  | notify | stopDone | stopInsert | deamon | wake => rfl

theorem nonEmpty_lines (es : List (GlobalEvent P Θ)) : nonEmpty (lines env f es) = lines env f es := by
  rw [nonEmpty, List.filter_eq_self]
  intro line hline
  obtain ⟨e, -, he⟩ := List.mem_filterMap.mp hline
  cases e with
  | log c => simpa using LogCall.line_ne_empty he
  | notify | stopDone | stopInsert | deamon | wake => cases he

theorem stopDone_managed : .stopDone ∈ es.filterMap (managed env f) ↔ .stopDone ∈ es := by
  simp only [List.mem_filterMap]
  constructor
  · rintro ⟨e, he, hm⟩
    cases e with
    | stopDone => exact he
    | log c => cases hc : c.line? env f <;> simp [managed, hc] at hm
    | notify | stopInsert | deamon | wake => simp [managed] at hm
  · intro h
    exact ⟨_, h, rfl⟩

end Lines

variable [DecidableEq P] [DecidableEq Θ]

def step (env : Environment P Θ) (s : GlobalLogger P Θ) : GlobalEvent P Θ → GlobalLogger P Θ
  | .log c =>
    let (record, dict) := logCall env s.levelFilter (s.dicts c.thread) c
    let s := { s with dicts := Function.update s.dicts c.thread dict }
    match record with
    | .ok (some line) => { s with manager := s.manager.step (.insertRecord line) }
    | _ => s
  | .notify => { s with manager := s.manager.step .notify }
  | .stopDone => { s with manager := s.manager.step .stopDone }
  | .stopInsert => { s with manager := s.manager.step .stopInsert }
  | .deamon => { s with manager := s.manager.step .deamon }
  | .wake => { s with manager := s.manager.step .wake }

variable {env : Environment P Θ} {f : LevelFilter} {es : List (GlobalEvent P Θ)}

/-- The manager has taken its events; the threads' tables are right. -/
structure Manages (env : Environment P Θ) (f : LevelFilter) (s : GlobalLogger P Θ) (m : GlobalLoggerManager) :
    Prop where
  manager : s.manager = m
  levelFilter : s.levelFilter = f
  names : ∀ θ, RightNames env (s.dicts θ)

theorem step_manages {s : GlobalLogger P Θ} {m : GlobalLoggerManager} (e : GlobalEvent P Θ)
    (h : s.Manages env f m) :
    (s.step env e).Manages env f (run GlobalLoggerManager.step m (managed env f e).toList) := by
  obtain ⟨rfl, rfl, hnames⟩ := h
  cases e with
  | log c =>
    obtain ⟨-, -, -, hline, hright⟩ := logCall_eq (f := s.levelFilter) (hnames c.thread) c
    have hnames' : ∀ θ, RightNames env
        (Function.update s.dicts c.thread (logCall env s.levelFilter (s.dicts c.thread) c).2 θ) := by
      intro θ
      by_cases hθ : θ = c.thread
      · subst hθ
        rwa [Function.update_self]
      · rw [Function.update_of_ne hθ]
        exact hnames θ
    simp only [step, managed, ← hline]
    cases hrecord : (logCall env s.levelFilter (s.dicts c.thread) c).1 with
    | error e => exact ⟨rfl, rfl, hnames'⟩
    | ok record =>
      cases record with
      | none => exact ⟨rfl, rfl, hnames'⟩
      | some line => exact ⟨rfl, rfl, hnames'⟩
  | notify | stopDone | stopInsert | deamon | wake => exact ⟨rfl, rfl, hnames⟩

/-- **The manager sees the lines** of the calls, whatever the threads' tables. -/
theorem run_manager (es : List (GlobalEvent P Θ)) :
    (run (step env) (start f) es).manager = run GlobalLoggerManager.step .start (es.filterMap (managed env f)) := by
  have hstart : (start f : GlobalLogger P Θ).Manages env f .start := by
    refine ⟨rfl, rfl, fun _ path pos h => ?_⟩
    cases h
  have hrun : Manages env f (run (step env) (start f) es) (run GlobalLoggerManager.step .start
      (answers (step env) (fun _ e => (managed env f e).toList) (start f) es)) :=
    run_simulation (R := Manages env f) (fun _ _ e h => step_manages e h) hstart es
  rw [answers_own] at hrun
  exact hrun.manager

/-- **What is written**, at every moment of every run: a prefix of the lines of the calls whose level is enabled
and has a name, in the order in which they entered the queue. A daemon that has finished has written all lines
of before the first `stop`. -/
theorem logged_lines (env : Environment P Θ) (f : LevelFilter) (es : List (GlobalEvent P Θ)) :
    (run (step env) (start f) es).manager.dest <+: lines env f es ∧
      ∀ es₁ es₂, es = es₁ ++ es₂ → .stopDone ∉ es₁ → (run (step env) (start f) es).manager.loopBody = .finished →
        lines env f es₁ <+: (run (step env) (start f) es).manager.dest := by
  have hinv := GlobalLoggerManager.inv_run (es.filterMap (managed env f))
  rw [run_manager]
  refine ⟨?_, ?_⟩
  · rw [← nonEmpty_lines, ← records_managed]
    exact hinv.written
  · rintro es₁ es₂ rfl hstop hfinished
    rw [List.filterMap_append] at hinv hfinished ⊢
    rw [← nonEmpty_lines, ← records_managed]
    exact hinv.finished hfinished (fun h => hstop (stopDone_managed.mp h))

/-- The manager's part in what a thread waits for. -/
theorem settling_managed {s : GlobalLogger P Θ} (e : GlobalEvent P Θ) (he : s.Settling e) :
    ∃ e', managed env f e = some e' ∧ s.manager.Settling e' ∧ (s.step env e).manager = s.manager.step e' ∧
      line? env f e = none := by
  cases e with
  | log c | stopDone | stopInsert => exact absurd he id
  | notify | deamon | wake => exact ⟨_, rfl, he, rfl, rfl⟩

/-- A run of them is one of the manager. -/
theorem settling_eachStep {s : GlobalLogger P Θ} {fs : List (GlobalEvent P Θ)}
    (hfs : EachStep (step env) Settling s fs) :
    EachStep GlobalLoggerManager.step GlobalLoggerManager.Settling s.manager (fs.filterMap (managed env f)) ∧
      (fs.filterMap (managed env f)).length = fs.length ∧ lines env f fs = [] := by
  induction fs generalizing s with
  | nil => exact ⟨trivial, rfl, rfl⟩
  | cons e fs ih =>
    obtain ⟨e', hmanaged, he', hstep, hline⟩ := @settling_managed _ _ _ _ env f s e hfs.1
    obtain ⟨heach, hlength, hlines⟩ := ih hfs.2
    rw [hstep] at heach
    rw [List.filterMap_cons_some hmanaged]
    refine ⟨⟨he', heach⟩, ?_, ?_⟩
    · rw [List.length_cons, List.length_cons, hlength]
    · rw [lines, List.filterMap_cons_none hline]
      exact hlines

/-- **The destructor returns.** Once a `stop` has inserted its marker and no thread logs any more, whatever the
order in which the daemon and the insertions that are under way go on: they take no more than `due` steps; there
is always a step to take until the daemon has finished; and then the lines logged before the first `stop` have
all been written, and nothing but lines that were logged, in their order. -/
theorem destructor_returns {es₁ es₂ : List (GlobalEvent P Θ)} (hstop : .stopDone ∉ es₁)
    (hmarker : 0 < (run (step env) (start f) (es₁ ++ es₂)).manager.markers) {fs : List (GlobalEvent P Θ)}
    (hfs : EachStep (step env) Settling (run (step env) (start f) (es₁ ++ es₂)) fs) :
    let s := run (step env) (start f) (es₁ ++ es₂ ++ fs)
    fs.length ≤ (run (step env) (start f) (es₁ ++ es₂)).manager.due ∧
      (s.manager.loopBody ≠ .finished → s.Settling .deamon ∨ s.Settling .notify) ∧
      (s.manager.loopBody = .finished →
        lines env f es₁ <+: s.manager.dest ∧ s.manager.dest <+: lines env f (es₁ ++ es₂)) := by
  intro s
  obtain ⟨heach, hlength, hlines⟩ := settling_eachStep (f := f) hfs
  rw [run_manager] at heach hmarker ⊢
  obtain ⟨hinv, hmarker', hle⟩ := GlobalLoggerManager.settling_run (GlobalLoggerManager.inv_run _) hmarker heach
  have hmanager : s.manager = run GlobalLoggerManager.step
      (run GlobalLoggerManager.step .start ((es₁ ++ es₂).filterMap (managed env f)))
      (fs.filterMap (managed env f)) := by
    rw [run_manager, List.filterMap_append, run_append]
  rw [← hmanager] at hinv hmarker' hle
  refine ⟨by omega, fun hgoes => ?_, fun hfinished => ⟨?_, ?_⟩⟩
  · exact (GlobalLoggerManager.finished_or_settling hinv hmarker').resolve_left hgoes
  · rw [List.filterMap_append, List.append_assoc] at hinv
    rw [← nonEmpty_lines, ← records_managed]
    exact hinv.finished hfinished (fun h => hstop (stopDone_managed.mp h))
  · have hwritten := hinv.written
    rw [GlobalLoggerManager.records_append, records_managed, records_managed, hlines, List.append_nil, nonEmpty_lines] at hwritten
    exact hwritten

section Example

/-- Every file is `src/main.cpp`, and all is logged. -/
def plain : Environment Unit Bool := ⟨fun _ => "src/main.cpp", fun _ => "1970-01-01 00:00:00.", fun _ => "1"⟩

/-- A thread logs something, and the logger is destroyed. -/
def logsAndStops : List (GlobalEvent Unit Bool) := [.log ⟨true, 1, (), 7, "hello", 0⟩, .stopDone, .stopInsert]

theorem destructor_returns_one :
    let s := run (step plain) (start ⟨0⟩) (logsAndStops ++ [.notify, .deamon])
    s.manager.loopBody ≠ .finished → s.Settling .deamon ∨ s.Settling .notify := by
  have hstop : (.stopDone : GlobalEvent Unit Bool) ∉ [] := List.not_mem_nil
  have hmarker : 0 < (run (step plain) (start ⟨0⟩) ([] ++ logsAndStops)).manager.markers := by decide
  have hfs : EachStep (step plain) Settling (run (step plain) (start ⟨0⟩) ([] ++ logsAndStops)) [.notify, .deamon] := by
    refine ⟨?_, ⟨?_, ?_⟩, trivial⟩
    · exact Nat.zero_lt_succ 1
    · decide
    · unfold GlobalLoggerManager.Asleep
      decide
  exact (destructor_returns hstop hmarker hfs).2.1

end Example

end GlobalLogger
end Thallium
