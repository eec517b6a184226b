import Thallium.Finish

/-!
# Submitting an execution, whatever came before (thallium.cpp:21-87)

`submitExecution` files the execution in the hub and only then looks for the finish to record it in. The
calls here are all that change the two: also those that throw, `wait` and `BlockedExecManager` called
directly, and ids that are recorded by hand.

| here | there |
| --- | --- |
| `RuntimeCall`  | the calls on `ExecutionHub`, `FinishStack` and the two managers (thallium.hpp:55-125) |

* `submitExecution_empty` — without an open finish the call throws, and the execution stays in the hub.
* `submitsAtomically_iff` — one submission, from any state.
* `eachStep_submitted_iff` — the submissions of a run.
* `submittable_iff_open` — before `2 ^ 32` executions it is an open finish that decides.
-/
namespace Thallium
open EventRun

inductive RuntimeCall where
  | finish (op : FinishOp)
  | blockedSubmit (fId : UInt32) (sL : Option (List (List UInt8)))
  | wait (id : ExeId)
  | addExecution (id : ExeId)

namespace RuntimeCall

def exec : RuntimeCall → EStateM Exception Runtime (Option ExeId)
  | finish op => op.exec
  -- `BlockedExecManager::submitExecution` (thallium.cpp:89)
  | blockedSubmit fId sL => some <$> Runtime.newExecution fId sL
  | wait id => do discard (Runtime.wait id); return none
  | addExecution id => do Runtime.addExecutionToCurrentFinish id; return none

/-- It creates an execution. -/
def creates : RuntimeCall → Bool
  | finish op => op.isSubmit
  | blockedSubmit _ _ => true
  | wait _ | addExecution _ => false

/-- Ids are recorded by `submitExecution` only. -/
def Recorded : RuntimeCall → Prop
  | finish _ | blockedSubmit _ _ | wait _ => True
  | addExecution _ => False

end RuntimeCall

namespace Runtime

/-- A call that throws leaves what it has done so far. -/
def callStep (s : Runtime) (c : RuntimeCall) : Runtime :=
  match c.exec s with
  | .ok _ s' => s'
  | .error _ s' => s'

/-- The execution is in the hub and recorded in exactly the innermost open finish, or nothing has happened
to either of the two. -/
def SubmitsAtomically (s : Runtime) (fId : UInt32) (sL : Option (List (List UInt8))) : Prop :=
  match submitExecution fId sL s with
  | .ok id s' => (∃ e, s'.allExes.lookup id = some (some e)) ∧
      ∃ init top, s.fStack = init ++ [top] ∧ s'.fStack = init ++ [⟨top.exes ++ [id]⟩] ∧
        ∀ m ∈ init, id ∉ m.exes
  | .error _ s' => s'.allExes = s.allExes ∧ s'.fStack = s.fStack

/-- A finish is open, and no outer one has recorded the id that is next; or else the hub has the same
execution under that id already. -/
def Submittable (s : Runtime) (fId : UInt32) (sL : Option (List (List UInt8))) : Prop :=
  if s.fStack = [] then s.allExes.lookup s.currentId = some (some ⟨s.currentId, fId, sL, .preRun⟩)
  else ∀ m ∈ s.fStack.dropLast, s.currentId ∉ m.exes

/-- The submissions of a run. -/
def AtSubmissions (P : Runtime → UInt32 → Option (List (List UInt8)) → Prop) (s : Runtime) :
    RuntimeCall → Prop
  | .finish (.submitExecution fId sL) => P s fId sL
  | .finish .newFinish | .finish .endFinish | .blockedSubmit _ _ | .wait _ | .addExecution _ => True

/-! ## One submission -/

section Submissions
variable {s : Runtime}

/-- After `newExecution`. -/
def created (s : Runtime) (fId : UInt32) (sL : Option (List (List UInt8))) : Runtime :=
  { s with
    currentId := s.currentId + 1
    allExes := s.allExes.insert s.currentId (some ⟨s.currentId, fId, sL, .preRun⟩) }

theorem newExecution_apply (s : Runtime) (fId : UInt32) (sL : Option (List (List UInt8))) :
    newExecution fId sL s = .ok s.currentId (s.created fId sL) := rfl

theorem getTop_empty (h : s.fStack = []) :
    getTop s = .error (.logicError "There is no finish in finish stack. Should not reach here!") s := by
  simp [getTop, h]

theorem submitExecution_empty (h : s.fStack = []) (fId : UInt32) (sL : Option (List (List UInt8))) :
    submitExecution fId sL s =
      .error (.logicError "There is no finish in finish stack. Should not reach here!") (s.created fId sL) := by
  have htop := getTop_empty (s := s.created fId sL) h
  rw [submitExecution, bind_apply (newExecution_apply s fId sL), addExecutionToCurrentFinish,
    bind_error_apply (bind_error_apply htop _)]

theorem insert_eq_self_iff {m : Finmap fun _ : ExeId => Option Execution} {id : ExeId}
    {e : Option Execution} : m.insert id e = m ↔ m.lookup id = some e := by
  constructor
  · intro h
    rw [← h, Finmap.lookup_insert]
  · intro h
    apply Finmap.ext_lookup
    intro id'
    by_cases heq : id' = id
    · rw [heq, Finmap.lookup_insert, h]
    · rw [Finmap.lookup_insert_of_ne _ heq]

/-- **One submission**, from any state of the hub and the finish stack. -/
theorem submitsAtomically_iff (s : Runtime) (fId : UInt32) (sL : Option (List (List UInt8))) :
    s.SubmitsAtomically fId sL ↔ s.Submittable fId sL := by
  rw [SubmitsAtomically, Submittable]
  rcases List.eq_nil_or_concat' s.fStack with hempty | ⟨init, top, hstack⟩
  · rw [submitExecution_empty hempty, if_pos hempty, ← insert_eq_self_iff]
    exact and_iff_left rfl
  · have hne : s.fStack ≠ [] := by simp [hstack]
    rw [submitExecution_apply hstack, if_neg hne, hstack, List.dropLast_concat]
    constructor
    · rintro ⟨-, init', top', hsame, -, hout⟩
      obtain ⟨rfl, -⟩ := List.append_inj' hsame rfl
      exact hout
    · intro hout
      exact ⟨⟨_, Finmap.lookup_insert _⟩, init, top, rfl, rfl, hout⟩

end Submissions

/-! ## Runs -/

/-- **Exact condition of an atomic submission.** In a run of calls from any state, every submission returns an
id that is in the hub and recorded in exactly the innermost open finish, or throws and leaves the hub and
the finish stack alone, **iff** each comes while a finish is open and no outer finish has recorded the id that
is next, or no finish is open and the hub has the same execution under that id already. -/
theorem eachStep_submitted_iff (s : Runtime) (calls : List RuntimeCall) :
    EachStep callStep (AtSubmissions SubmitsAtomically) s calls ↔
      EachStep callStep (AtSubmissions Submittable) s calls := by
  refine eachStep_iff (I := fun _ => True) (L := fun _ _ => True) (fun _ _ _ _ _ => trivial) ?_ trivial
    (EachStep.of_forall (fun _ _ => trivial) s calls)
  intro s c _ _
  cases c with
  | finish op =>
    cases op with
    | submitExecution fId sL => exact submitsAtomically_iff s fId sL
    | newFinish => exact Iff.rfl
    | endFinish => exact Iff.rfl
  | blockedSubmit fId sL => exact Iff.rfl
  | wait id => exact Iff.rfl
  | addExecution id => exact Iff.rfl

/-- The finish has ended: the call throws, and the hub holds one execution more. -/
theorem not_submitted_after_finish :
    ¬ EachStep callStep (AtSubmissions SubmitsAtomically) start
      [.finish .newFinish, .finish .endFinish, .finish (.submitExecution 7 none)] := by
  rintro ⟨-, -, ⟨hsame, -⟩, -⟩
  have hnone : (0 : ExeId) ∉ ((start.callStep (.finish .newFinish)).callStep (.finish .endFinish)).allExes := by
    decide
  rw [← hsame] at hnone
  exact hnone (Finmap.mem_insert.mpr (.inl rfl))

/-! ## Fewer than 2^32 executions -/

/-- After `k` executions were created, ids that are in use are below `k`. -/
structure Below (k : Nat) (s : Runtime) : Prop where
  current : s.currentId = UInt32.ofNat k
  held : ∀ id e, s.allExes.lookup id = some (some e) → id.toNat < k
  recorded : ∀ m ∈ s.fStack, ∀ id ∈ m.exes, id.toNat < k

section Below
variable {k : Nat} {s : Runtime}

theorem below_created (h : Below k s) (fId : UInt32) (sL : Option (List (List UInt8))) :
    Below (k + 1) (s.created fId sL) := by
  have hid : s.currentId.toNat < k + 1 := by
    rw [h.current, UInt32.toNat_ofNat']
    exact Nat.lt_succ_of_le (Nat.mod_le _ _)
  refine ⟨?_, ?_, fun m hm id hmem => Nat.lt_succ_of_lt (h.recorded m hm id hmem)⟩
  · show s.currentId + 1 = _
    rw [h.current, UInt32.ofNat_add]
    rfl
  · intro id e hlook
    by_cases heq : id = s.currentId
    · rwa [heq]
    · rw [created, Finmap.lookup_insert_of_ne _ heq] at hlook
      exact Nat.lt_succ_of_lt (h.held id e hlook)

/-- What `wait` leaves: it can only file a null pointer. -/
theorem below_waited (h : Below k s) (id : ExeId) : Below k { s with
    allExes := if id ∈ s.allExes then s.allExes else s.allExes.insert id none
    waited := s.waited ++ [id] } := by
  refine ⟨h.current, ?_, h.recorded⟩
  intro id' e hlook
  simp only at hlook
  split at hlook
  · exact h.held id' e hlook
  · by_cases heq : id' = id
    · rw [heq, Finmap.lookup_insert] at hlook
      cases hlook
    · rw [Finmap.lookup_insert_of_ne _ heq] at hlook
      exact h.held id' e hlook

theorem below_waitAll (h : Below k s) (m : FinishMonitor) : ∃ s', waitAll m s = .ok () s' ∧ Below k s' := by
  obtain ⟨xs⟩ := m
  induction xs generalizing s with
  | nil => exact ⟨s, rfl, h⟩
  | cons x xs ih =>
    obtain ⟨s', hs', h'⟩ := ih (below_waited h x)
    exact ⟨s', hs', h'⟩

theorem below_endFinish (h : Below k s) : Below k (s.callStep (.finish .endFinish)) := by
  rcases List.eq_nil_or_concat' s.fStack with hempty | ⟨init, top, hstack⟩
  · have hthrows : endFinish s = .error _ s := bind_error_apply (getTop_empty hempty) _
    have hstep : s.callStep (.finish .endFinish) = s := by
      simp only [callStep, RuntimeCall.exec, FinishOp.exec, bind_error_apply hthrows]
    rwa [hstep]
  · obtain ⟨s', hs', h'⟩ := below_waitAll h top
    have hends : endFinish s = .ok () { s' with fStack := s'.fStack.dropLast } := by
      rw [endFinish, bind_apply (getTop_apply hstack), bind_apply hs']
      rfl
    have hstep : s.callStep (.finish .endFinish) = { s' with fStack := s'.fStack.dropLast } := by
      simp only [callStep, RuntimeCall.exec, FinishOp.exec, bind_apply hends]
      rfl
    rw [hstep]
    exact ⟨h'.current, h'.held, fun m hm => h'.recorded m (List.mem_of_mem_dropLast hm)⟩

theorem below_submitExecution (h : Below k s) (fId : UInt32) (sL : Option (List (List UInt8))) :
    Below (k + 1) (s.callStep (.finish (.submitExecution fId sL))) := by
  have hcreated := below_created h fId sL
  rcases List.eq_nil_or_concat' s.fStack with hempty | ⟨init, top, hstack⟩
  · have hstep : s.callStep (.finish (.submitExecution fId sL)) = s.created fId sL := by
      simp only [callStep, RuntimeCall.exec, FinishOp.exec, map_eq_pure_bind,
        bind_error_apply (submitExecution_empty hempty fId sL)]
    rwa [hstep]
  · have hstep : s.callStep (.finish (.submitExecution fId sL)) =
        { s.created fId sL with fStack := init ++ [⟨top.exes ++ [s.currentId]⟩] } :=
      step_submitExecution hstack fId sL
    rw [hstep]
    refine ⟨hcreated.current, hcreated.held, ?_⟩
    intro m hm id hid
    rcases List.mem_append.mp hm with hm | hm
    · exact hcreated.recorded m (by rw [show (s.created fId sL).fStack = _ from hstack]; simp [hm]) id hid
    · obtain rfl := List.mem_singleton.mp hm
      rcases List.mem_append.mp hid with hid | hid
      · exact hcreated.recorded top (by rw [show (s.created fId sL).fStack = _ from hstack]; simp) id hid
      · obtain rfl := List.mem_singleton.mp hid
        exact hcreated.held _ _ (Finmap.lookup_insert _)

theorem below_callStep (h : Below k s) {c : RuntimeCall} (hc : c.Recorded) :
    Below (k + if c.creates then 1 else 0) (s.callStep c) := by
  cases c with
  | finish op =>
    cases op with
    | newFinish =>
      refine ⟨h.current, h.held, ?_⟩
      intro m hm id hid
      rcases List.mem_append.mp hm with hm | hm
      · exact h.recorded m hm id hid
      · obtain rfl := List.mem_singleton.mp hm
        cases hid
    | endFinish => exact below_endFinish h
    | submitExecution fId sL => exact below_submitExecution h fId sL
  | blockedSubmit fId sL => exact below_created h fId sL
  | wait id => exact below_waited h id
  | addExecution id => exact hc.elim

theorem below_run {calls : List RuntimeCall} (hc : EachStep callStep (fun _ c => c.Recorded) start calls) :
    Below (calls.countP RuntimeCall.creates) (run callStep start calls) := by
  refine run_history_legal (J := fun calls => Below (calls.countP RuntimeCall.creates)) ?_ ?_ hc
  · refine ⟨rfl, ?_, ?_⟩
    · intro id e hlook
      exact absurd hlook (by simp [start])
    · intro m hm
      cases hm
  · intro calls s c h hrec
    rw [List.countP_append, List.countP_singleton]
    exact below_callStep h hrec

end Below

/-- **Before `2 ^ 32` executions** were created, with only `submitExecution` to record them, a submission is
atomic if and only if a finish is open. -/
theorem submittable_iff_open {calls : List RuntimeCall}
    (hc : EachStep callStep (fun _ c => c.Recorded) start calls)
    (hlt : calls.countP RuntimeCall.creates < 2 ^ 32) (fId : UInt32) (sL : Option (List (List UInt8))) :
    (run callStep start calls).Submittable fId sL ↔ (run callStep start calls).fStack ≠ [] := by
  have h := below_run hc
  have hcurrent : (run callStep start calls).currentId.toNat = calls.countP RuntimeCall.creates := by
    rw [h.current, UInt32.toNat_ofNat_of_lt' hlt]
  rw [Submittable]
  split
  · rename_i hempty
    refine iff_of_false ?_ (not_not_intro hempty)
    intro hlook
    exact Nat.ne_of_lt (h.held _ _ hlook) hcurrent
  · rename_i hne
    refine iff_of_true ?_ hne
    intro m hm hid
    exact Nat.ne_of_lt (h.recorded m (List.mem_of_mem_dropLast hm) _ hid) hcurrent

end Runtime
end Thallium
