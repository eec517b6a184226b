import Mathlib.Data.Finmap
import Thallium.Common
import Thallium.Lib.EventRun
import Thallium.Lib.Scopes

/-!
# Finish blocks and the executions in them (thallium.hpp:34-130, thallium.cpp:9-87)

An execution that is submitted is recorded in the innermost open finish, and `endFinish` waits for
all that its finish recorded. `ExecutionHub::wait` is still a fake (thallium.cpp:32): it looks the
execution up and returns an empty buffer. `Place` has no data.

| here | there |
| --- | --- |
| `Execution`        | thallium.hpp:37 |
| `Runtime`          | the static data: `Execution::current_id`, `ExecutionHub::all_exes`, `FinishStack::f_stack` (its back is the top); `waited` is not there: the ids passed to `wait`, in order |
| `newExecution`, `wait` | `ExecutionHub` (thallium.cpp:21-37) |
| `waitAll`, `newFinish`, `endFinish`, … | `FinishMonitor`, `FinishStack` (thallium.cpp:45-77) |
| `submitExecution`  | `AsyncExecManager::submitExecution` (thallium.cpp:79) |

* `ledger` — the same calls kept as a ledger of nested scopes (`Scopes`), with the ids they return.
* `inv_step` — the monitors hold what the ledger has under the running scopes.
* `finishStack_waits` — who waits for which execution, in every run.
-/
namespace Thallium
open EventRun

/-! ## Executions -/

abbrev ExeId : Type := UInt32

/-- `ExeState` (thallium.hpp:34). -/
inductive ExeState where
  | preRun
  | disptached
  | running
  | collecting
  | finished

structure Execution where
  id : ExeId
  fId : UInt32
  sL : Option (List (List UInt8))
  state : ExeState

structure FinishMonitor where
  exes : List ExeId

structure Runtime where
  currentId : ExeId
  allExes : Finmap fun _ : ExeId => Option Execution
  fStack : List FinishMonitor
  waited : List ExeId

namespace Runtime

/-- After `Execution::init_statics`. -/
def start : Runtime := ⟨0, ∅, [], []⟩

/-- `newExecution` (thallium.cpp:21): `current_id++` wraps. -/
def newExecution (fId : UInt32) (sL : Option (List (List UInt8))) : EStateM Exception Runtime ExeId := do
  let s ← get
  let id := s.currentId
  set { s with currentId := s.currentId + 1, allExes := s.allExes.insert id (some ⟨id, fId, sL, .preRun⟩) }
  return id

/-- `wait` (thallium.cpp:32): `all_exes[id]` files a null pointer under an id that is not there. -/
def wait (id : ExeId) : EStateM Exception Runtime (List UInt8) := do
  modify fun s => { s with
    allExes := if id ∈ s.allExes then s.allExes else s.allExes.insert id none
    waited := s.waited ++ [id] }
  return []

/-! ## Finish blocks -/

/-- `waitAll` (thallium.cpp:45). -/
def waitAll (m : FinishMonitor) : EStateM Exception Runtime Unit :=
  m.exes.forM fun x => discard (wait x)

/-- `get_top` (thallium.cpp:55). -/
def getTop : EStateM Exception Runtime FinishMonitor := do
  match (← get).fStack.getLast? with
  | none => throw (.logicError "There is no finish in finish stack. Should not reach here!")
  | some m => return m

/-- `delete_top` (thallium.cpp:64). -/
def deleteTop : EStateM Exception Runtime Unit :=
  modify fun s => { s with fStack := s.fStack.dropLast }

/-- `newFinish` (thallium.cpp:66). -/
def newFinish : EStateM Exception Runtime Unit :=
  modify fun s => { s with fStack := s.fStack ++ [⟨[]⟩] }

/-- `endFinish` (thallium.cpp:70). -/
def endFinish : EStateM Exception Runtime Unit := do
  waitAll (← getTop)
  deleteTop

/-- `addExecutionToCurrentFinish` (thallium.cpp:75). -/
def addExecutionToCurrentFinish (id : ExeId) : EStateM Exception Runtime Unit := do
  let top ← getTop
  modify fun s => { s with fStack := s.fStack.dropLast ++ [⟨top.exes ++ [id]⟩] }

/-- `submitExecution` (thallium.cpp:79): the execution exists before its finish is looked up. -/
def submitExecution (fId : UInt32) (sL : Option (List (List UInt8))) :
    EStateM Exception Runtime ExeId := do
  let id ← newExecution fId sL
  addExecutionToCurrentFinish id
  return id

end Runtime

inductive FinishOp where
  | newFinish
  | endFinish
  | submitExecution (fId : UInt32) (sL : Option (List (List UInt8)))

namespace FinishOp

/-- Only `submitExecution` returns something. -/
def exec : FinishOp → EStateM Exception Runtime (Option ExeId)
  | newFinish => do Runtime.newFinish; return none
  | endFinish => do Runtime.endFinish; return none
  | submitExecution fId sL => some <$> Runtime.submitExecution fId sL

/-- `endFinish` and `submitExecution` are called while a finish is open. -/
def Open (s : Runtime) : FinishOp → Prop
  | newFinish => True
  | endFinish | submitExecution _ _ => s.fStack ≠ []

instance (s : Runtime) (op : FinishOp) : Decidable (op.Open s) := by
  cases op <;> unfold Open <;> infer_instance

def isSubmit : FinishOp → Bool
  | submitExecution _ _ => true
  | newFinish | endFinish => false

end FinishOp

namespace Runtime

/-- An operation that throws leaves what it has done so far. -/
def step (s : Runtime) (op : FinishOp) : Runtime :=
  match op.exec s with
  | .ok _ s' => s'
  | .error _ s' => s'

/-! ## What each operation does -/

section Operations
variable {s : Runtime} {init : List FinishMonitor} {top : FinishMonitor}

theorem waitAll_apply (m : FinishMonitor) (s : Runtime) :
    ∃ s', waitAll m s = .ok () s' ∧ s'.fStack = s.fStack ∧ s'.currentId = s.currentId ∧
      s'.waited = s.waited ++ m.exes := by
  obtain ⟨xs⟩ := m
  induction xs generalizing s with
  | nil => exact ⟨s, rfl, rfl, rfl, (List.append_nil _).symm⟩
  | cons x xs ih =>
    obtain ⟨s', hs', hstack, hid, hwaited⟩ := ih { s with
      allExes := if x ∈ s.allExes then s.allExes else s.allExes.insert x none
      waited := s.waited ++ [x] }
    refine ⟨s', hs', hstack, hid, ?_⟩
    rw [hwaited, List.append_assoc, List.singleton_append]

theorem getTop_apply (h : s.fStack = init ++ [top]) : getTop s = .ok top s := by
  simp [getTop, h]

theorem step_endFinish (h : s.fStack = init ++ [top]) :
    (s.step .endFinish).fStack = init ∧ (s.step .endFinish).currentId = s.currentId ∧
      (s.step .endFinish).waited = s.waited ++ top.exes := by
  obtain ⟨s', hs', hstack, hid, hwaited⟩ := waitAll_apply top s
  have hstep : s.step .endFinish = { s' with fStack := s'.fStack.dropLast } := by
    simp only [step, FinishOp.exec, endFinish, bind_assoc, bind_apply (getTop_apply h), bind_apply hs']
    rfl
  rw [hstep]
  refine ⟨?_, hid, hwaited⟩
  rw [hstack, h, List.dropLast_concat]

theorem addExecutionToCurrentFinish_apply (h : s.fStack = init ++ [top]) (id : ExeId) :
    addExecutionToCurrentFinish id s = .ok () { s with fStack := init ++ [⟨top.exes ++ [id]⟩] } := by
  rw [addExecutionToCurrentFinish, bind_apply (getTop_apply h), modify_apply, h, List.dropLast_concat]

theorem submitExecution_apply (h : s.fStack = init ++ [top]) (fId : UInt32)
    (sL : Option (List (List UInt8))) :
    submitExecution fId sL s = .ok s.currentId { s with
      currentId := s.currentId + 1
      allExes := s.allExes.insert s.currentId (some ⟨s.currentId, fId, sL, .preRun⟩)
      fStack := init ++ [⟨top.exes ++ [s.currentId]⟩] } := by
  have hnew : newExecution fId sL s = .ok s.currentId { s with
      currentId := s.currentId + 1
      allExes := s.allExes.insert s.currentId (some ⟨s.currentId, fId, sL, .preRun⟩) } := rfl
  have hadd := addExecutionToCurrentFinish_apply (s := { s with
    currentId := s.currentId + 1
    allExes := s.allExes.insert s.currentId (some ⟨s.currentId, fId, sL, .preRun⟩) }) h s.currentId
  rw [submitExecution, bind_apply hnew, bind_apply hadd]
  rfl

theorem step_submitExecution (h : s.fStack = init ++ [top]) (fId : UInt32)
    (sL : Option (List (List UInt8))) :
    s.step (.submitExecution fId sL) = { s with
      currentId := s.currentId + 1
      allExes := s.allExes.insert s.currentId (some ⟨s.currentId, fId, sL, .preRun⟩)
      fStack := init ++ [⟨top.exes ++ [s.currentId]⟩] } := by
  rw [step, FinishOp.exec, map_eq_pure_bind, bind_apply (submitExecution_apply h fId sL)]
  rfl

end Operations

/-! ## The ledger of a run -/

/-- What a call is in terms of nested scopes: a submission enters the id it returns. -/
def scopeOps (s : Runtime) : FinishOp → List (ScopeOp ExeId)
  | .newFinish => [.start]
  | .endFinish => [.stop]
  | .submitExecution fId sL =>
    match submitExecution fId sL s with
    | .ok id _ => [.enter id]
    | .error _ _ => []

def ledger (ops : List FinishOp) : Scopes ExeId :=
  run Scopes.step .empty (answers step scopeOps start ops)

/-- The ids under scope `f`, in the order they were submitted. -/
def idsOf (f : Nat) (es : List (Nat × ExeId)) : List ExeId := (Scopes.entriesOf f es).map Prod.snd

/-- The invariant, after the operations `ops`. -/
structure Inv (ops : List FinishOp) (s : Runtime) : Prop where
  here : run step start ops = s
  fStack : s.fStack.map FinishMonitor.exes = (ledger ops).active.map (idsOf · (ledger ops).entered)
  waited : s.waited = (ledger ops).left.map Prod.snd
  ids : (ledger ops).entered.map Prod.snd = (List.range (ops.countP FinishOp.isSubmit)).map UInt32.ofNat
  current : s.currentId = UInt32.ofNat (ops.countP FinishOp.isSubmit)

theorem ledger_append (ops ops' : List FinishOp) : ledger (ops ++ ops') =
    run Scopes.step (ledger ops) (answers step scopeOps (run step start ops) ops') := by
  rw [ledger, answers_append, run_append, ledger]

theorem ledger_wf (ops : List FinishOp) : (ledger ops).WF := Scopes.wf_run _ Scopes.wf_empty

theorem inv_start : Inv [] start := ⟨rfl, rfl, rfl, rfl, rfl⟩

section Steps
variable {ops : List FinishOp} {s : Runtime}

/-- An open finish is the innermost running scope. -/
theorem Inv.innermost (h : Inv ops s) (hne : s.fStack ≠ []) :
    ∃ fs f init top, (ledger ops).active = fs ++ [f] ∧ s.fStack = init ++ [top] ∧
      init.map FinishMonitor.exes = fs.map (idsOf · (ledger ops).entered) ∧
      top.exes = idsOf f (ledger ops).entered := by
  obtain ⟨init, top, hstack⟩ := (List.eq_nil_or_concat' s.fStack).resolve_left hne
  have hmap := h.fStack
  rw [hstack, List.map_append, List.map_singleton] at hmap
  obtain ⟨fs, last, hactive, hinit, hlast⟩ := List.map_eq_append_iff.mp hmap.symm
  obtain ⟨f, hf, htop⟩ := List.map_eq_singleton_iff.mp hlast
  exact ⟨fs, f, init, top, by rw [hactive, hf], hstack, hinit.symm, htop.symm⟩

theorem inv_newFinish (h : Inv ops s) : Inv (ops ++ [.newFinish]) (s.step .newFinish) := by
  have hledger : ledger (ops ++ [.newFinish]) = (ledger ops).step .start := by
    rw [ledger_append]
    rfl
  have hnone : idsOf (ledger ops).started (ledger ops).entered = [] := by
    rw [idsOf, Scopes.entriesOf_eq_nil fun e he => Nat.ne_of_lt ((ledger_wf ops).entered_lt e he), List.map_nil]
  refine ⟨by rw [run_append, h.here]; rfl, ?_, ?_, ?_, ?_⟩
  · rw [hledger]
    simp only [Scopes.step, List.map_append, List.map_singleton, hnone, ← h.fStack]
    exact List.map_append ..
  · rw [hledger]
    exact h.waited
  · rw [hledger, List.countP_append]
    exact h.ids
  · rw [List.countP_append]
    exact h.current

theorem ledger_endFinish {fs : List Nat} {f : Nat} (hactive : (ledger ops).active = fs ++ [f]) :
    ledger (ops ++ [.endFinish]) = { ledger ops with
      active := fs
      left := (ledger ops).left ++ Scopes.entriesOf f (ledger ops).entered } := by
  have hstop : ledger (ops ++ [.endFinish]) = (ledger ops).step .stop := by
    rw [ledger_append]
    rfl
  rw [hstop]
  simp [Scopes.step, hactive]

theorem inv_endFinish (h : Inv ops s) (hne : s.fStack ≠ []) :
    Inv (ops ++ [.endFinish]) (s.step .endFinish) := by
  obtain ⟨fs, f, init, top, hactive, hstack, hinit, htop⟩ := h.innermost hne
  obtain ⟨hstack', hid, hwaited⟩ := step_endFinish hstack
  have hledger := ledger_endFinish hactive
  refine ⟨by rw [run_append, h.here]; rfl, ?_, ?_, ?_, ?_⟩
  · rw [hledger, hstack']
    exact hinit
  · rw [hledger, hwaited, h.waited, htop, idsOf, List.map_append]
  · rw [hledger, List.countP_append]
    exact h.ids
  · rw [hid, List.countP_append]
    exact h.current

theorem ledger_submitExecution (h : Inv ops s) {fs : List Nat} {f : Nat}
    (hactive : (ledger ops).active = fs ++ [f]) {init : List FinishMonitor} {top : FinishMonitor}
    (hstack : s.fStack = init ++ [top]) (fId : UInt32) (sL : Option (List (List UInt8))) :
    ledger (ops ++ [.submitExecution fId sL]) =
      { ledger ops with entered := (ledger ops).entered ++ [(f, s.currentId)] } := by
  have henter : ledger (ops ++ [.submitExecution fId sL]) = (ledger ops).step (.enter s.currentId) := by
    rw [ledger_append, h.here]
    simp [answers, scopeOps, submitExecution_apply hstack fId sL, run]
  rw [henter]
  simp [Scopes.step, hactive]

theorem inv_submitExecution (h : Inv ops s) (hne : s.fStack ≠ []) (fId : UInt32)
    (sL : Option (List (List UInt8))) :
    Inv (ops ++ [.submitExecution fId sL]) (s.step (.submitExecution fId sL)) := by
  obtain ⟨fs, f, init, top, hactive, hstack, hinit, htop⟩ := h.innermost hne
  have hledger := ledger_submitExecution h hactive hstack fId sL
  have hstep := step_submitExecution hstack fId sL
  have hcount : (ops ++ [FinishOp.submitExecution fId sL]).countP FinishOp.isSubmit =
      ops.countP FinishOp.isSubmit + 1 := by
    simp [FinishOp.isSubmit]
  refine ⟨by rw [run_append, h.here]; rfl, ?_, ?_, ?_, ?_⟩
  · have hothers : fs.map (idsOf · ((ledger ops).entered ++ [(f, s.currentId)])) =
        fs.map (idsOf · (ledger ops).entered) := by
      apply List.map_congr_left
      intro g hg
      rw [idsOf, Scopes.entriesOf_concat_of_notMem (Scopes.notMem_init (ledger_wf ops) hactive) g hg, idsOf]
    rw [hledger, hstep]
    simp only [hactive, List.map_append, List.map_singleton, hothers, hinit]
    rw [idsOf, Scopes.entriesOf_concat_self, List.map_append, htop]
    rfl
  · rw [hledger, hstep]
    exact h.waited
  · rw [hledger, hcount, List.range_succ, List.map_append, List.map_append, h.ids, h.current]
    rfl
  · rw [hcount, hstep]
    show s.currentId + 1 = _
    rw [h.current, UInt32.ofNat_add]
    rfl

theorem inv_step (h : Inv ops s) {op : FinishOp} (hopen : op.Open s) : Inv (ops ++ [op]) (s.step op) := by
  cases op with
  | newFinish => exact inv_newFinish h
  | endFinish => exact inv_endFinish h hopen
  | submitExecution fId sL => exact inv_submitExecution h hopen fId sL

end Steps

/-! ## Runs -/

theorem inv_run {ops : List FinishOp} (hopen : EachStep step FinishOp.Open start ops) :
    Inv ops (run step start ops) :=
  run_history_legal inv_start (fun _ _ _ h hop => inv_step h hop) hopen

section Runs
variable {ops : List FinishOp} {s : Runtime}

theorem Inv.length_entered (h : Inv ops s) :
    (ledger ops).entered.length = ops.countP FinishOp.isSubmit := by
  simpa using congrArg List.length h.ids

/-- Fewer than 2^32 executions: no id comes back. -/
theorem Inv.nodup (h : Inv ops s) (hlt : ops.countP FinishOp.isSubmit < 2 ^ 32) :
    ((ledger ops).entered.map Prod.snd).Nodup := by
  rw [h.ids]
  refine List.Nodup.map_on ?_ List.nodup_range
  intro i hi j hj heq
  exact ofNat_injOn ((List.mem_range.mp hi).trans hlt) ((List.mem_range.mp hj).trans hlt) heq

/-- An id has been waited for, or an open finish holds it. -/
theorem Inv.account (h : Inv ops s) :
    (s.waited ++ s.fStack.flatMap FinishMonitor.exes).Perm ((ledger ops).entered.map Prod.snd) := by
  have hheld : s.fStack.flatMap FinishMonitor.exes =
      ((ledger ops).active.flatMap fun f => Scopes.entriesOf f (ledger ops).entered).map Prod.snd := by
    rw [List.flatMap_def, h.fStack, List.map_flatMap, List.flatMap_def]
    rfl
  rw [h.waited, hheld, ← List.map_append]
  exact (ledger_wf ops).account.map _

end Runs

/-- A submission returns its id, entered under the innermost finish. -/
theorem submitExecution_entered {ops₁ ops₂ : List FinishOp} {fId : UInt32}
    {sL : Option (List (List UInt8))}
    (hopen : EachStep step FinishOp.Open start (ops₁ ++ .submitExecution fId sL :: ops₂)) :
    ∃ id s' f, submitExecution fId sL (run step start ops₁) = .ok id s' ∧
      (ledger ops₁).active.getLast? = some f ∧
      (ledger (ops₁ ++ .submitExecution fId sL :: ops₂)).entered[ops₁.countP FinishOp.isSubmit]? =
        some (f, id) := by
  obtain ⟨hopen₁, hne, -⟩ := eachStep_append.mp hopen
  have h := inv_run hopen₁
  obtain ⟨fs, f, init, top, hactive, hstack, -, -⟩ := h.innermost hne
  refine ⟨_, _, f, submitExecution_apply hstack fId sL, by simp [hactive], ?_⟩
  have hledger := ledger_submitExecution h hactive hstack fId sL
  obtain ⟨later, hlater⟩ : (ledger (ops₁ ++ [.submitExecution fId sL])).entered <+:
      (ledger (ops₁ ++ .submitExecution fId sL :: ops₂)).entered := by
    rw [List.append_cons ops₁ _ ops₂, ledger_append _ ops₂]
    exact Scopes.prefix_entered_run _
  rw [← hlater, hledger, ← h.length_entered]
  simp

/-- `endFinish` waits for exactly what is ever submitted while its finish is the innermost. -/
theorem endFinish_waits {ops₁ ops₂ : List FinishOp}
    (hopen : EachStep step FinishOp.Open start (ops₁ ++ .endFinish :: ops₂)) :
    ∃ f, (ledger ops₁).active.getLast? = some f ∧
      (run step start (ops₁ ++ [.endFinish])).waited =
        (run step start ops₁).waited ++ idsOf f (ledger (ops₁ ++ .endFinish :: ops₂)).entered := by
  obtain ⟨hopen₁, hne, -⟩ := eachStep_append.mp hopen
  have h := inv_run hopen₁
  obtain ⟨fs, f, init, top, hactive, hstack, -, htop⟩ := h.innermost hne
  refine ⟨f, by simp [hactive], ?_⟩
  have hledger := ledger_endFinish hactive
  have hlt : f < (ledger (ops₁ ++ [.endFinish])).started := by
    rw [hledger]
    exact (ledger_wf ops₁).active_lt f (by simp [hactive])
  have hstopped : f ∉ (ledger (ops₁ ++ [.endFinish])).active := by
    rw [hledger]
    exact Scopes.notMem_init (ledger_wf ops₁) hactive
  have hlater : Scopes.entriesOf f (ledger (ops₁ ++ .endFinish :: ops₂)).entered =
      Scopes.entriesOf f (ledger ops₁).entered := by
    rw [List.append_cons, ledger_append, Scopes.run_stopped _ hlt hstopped, hledger]
  rw [run_append, idsOf, hlater, ← idsOf, ← htop]
  exact (step_endFinish hstack).2.2

/-- **Who waits for which execution.** As long as fewer than 2^32 executions are created, and
`endFinish` and `submitExecution` come while a finish is open:
* the `n`-th submission returns the `n`-th id of the ledger, entered under the finish that is then the
  innermost, and no id is returned twice;
* an id has been passed to `wait` once or stands in one open monitor once, and in no other place;
* the open monitors hold what was submitted while they were the innermost, in that order;
* an `endFinish` waits for exactly what is ever submitted under the finish it closes, in that order. -/
theorem finishStack_waits (ops : List FinishOp) (hopen : EachStep step FinishOp.Open start ops)
    (hlt : ops.countP FinishOp.isSubmit < 2 ^ 32) :
    (∀ ops₁ fId sL ops₂, ops = ops₁ ++ .submitExecution fId sL :: ops₂ →
      ∃ id s' f, submitExecution fId sL (run step start ops₁) = .ok id s' ∧
        (ledger ops₁).active.getLast? = some f ∧
        (ledger ops).entered[ops₁.countP FinishOp.isSubmit]? = some (f, id)) ∧
    (ledger ops).entered.length = ops.countP FinishOp.isSubmit ∧
    ((ledger ops).entered.map Prod.snd).Nodup ∧
    ((run step start ops).waited ++ (run step start ops).fStack.flatMap FinishMonitor.exes).Perm
      ((ledger ops).entered.map Prod.snd) ∧
    (run step start ops).fStack.map FinishMonitor.exes =
      (ledger ops).active.map (idsOf · (ledger ops).entered) ∧
    ∀ ops₁ ops₂, ops = ops₁ ++ .endFinish :: ops₂ →
      ∃ f, (ledger ops₁).active.getLast? = some f ∧
        (run step start (ops₁ ++ [.endFinish])).waited =
          (run step start ops₁).waited ++ idsOf f (ledger ops).entered := by
  have h := inv_run hopen
  refine ⟨?_, h.length_entered, h.nodup hlt, h.account, h.fStack, ?_⟩
  · rintro ops₁ fId sL ops₂ rfl
    exact submitExecution_entered hopen
  · rintro ops₁ ops₂ rfl
    exact endFinish_waits hopen

/-- A finish inside another one: the inner `endFinish` waits for what was submitted in between. -/
theorem finishStack_waits_nested :
    let ops : List FinishOp := [.newFinish, .submitExecution 7 none, .newFinish, .submitExecution 8 none]
    ∃ f, (ledger ops).active.getLast? = some f ∧
      (run step start (ops ++ [.endFinish])).waited =
        (run step start ops).waited ++
          idsOf f (ledger (ops ++ [.endFinish, .submitExecution 9 none, .endFinish])).entered :=
  (finishStack_waits _ (by decide) (by decide)).2.2.2.2.2 _ _ rfl

end Runtime
end Thallium
