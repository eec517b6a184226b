import Thallium.Submission

/-!
# Finish blocks in code that may throw (thallium.hpp:96-101)

`for (FinishSugar i{}; i.once; i.once = false) { ... }` opens a finish and closes it in a destructor, however the
block is left. What runs inside may submit, throw, catch and open further finishes. A destructor that throws would
end the program.

| here | there |
| --- | --- |
| `Code`     | not in the source: what a thread executes, as far as it concerns executions and exceptions |
| `Code.finish` | `FinishSugar` (thallium.hpp:96): the constructor is `newFinish`, the destructor `endFinish` |
| `exec`     | running it: how it ends, and the ids that `submitExecution` has returned to it |

* `exec_rule` — what each kind of code keeps, all code keeps.
* `exec_inFinish`, `exec_outside` — code in an open finish, and code in none.
* `exec_counts` — the ids are distinct.
* `finish_waits` — what holds when a finish block has been left, in whatever way.
-/
namespace Thallium

/-- `blockedSubmit` is `BlockedExecManager::submitExecution`; `tryCatch` catches everything. -/
inductive Code where
  | skip
  | submit (fId : UInt32) (sL : Option (List (List UInt8)))
  | blockedSubmit (fId : UInt32) (sL : Option (List (List UInt8)))
  | throw (e : Exception)
  | seq (c d : Code)
  | tryCatch (c d : Code)
  | finish (c : Code)

/-- `terminated` is `std::terminate`. -/
inductive Outcome where
  | done
  | thrown (e : Exception)
  | terminated
  deriving DecidableEq

namespace Code

/-- The executions that are created at most. -/
def submissions : Code → Nat
  | skip | throw _ => 0
  | submit _ _ | blockedSubmit _ _ => 1
  | seq c d | tryCatch c d => c.submissions + d.submissions
  | finish c => c.submissions

/-- How code ends, the ids that `submitExecution` has returned to it, and what it leaves. -/
structure Result where
  outcome : Outcome
  ids : List ExeId
  runtime : Runtime

/-- What is executed next. -/
def Result.followed (r r' : Result) : Result := ⟨r'.outcome, r.ids ++ r'.ids, r'.runtime⟩

/-- `~FinishSugar` (thallium.hpp:100); destructors are `noexcept`. -/
def Result.destroyed (r : Result) : Result :=
  if r.outcome = .terminated then r
  else match Runtime.endFinish r.runtime with
    | .ok _ s => { r with runtime := s }
    | .error _ s => { r with outcome := .terminated, runtime := s }

def exec : Code → Runtime → Result
  | skip, s => ⟨.done, [], s⟩
  | submit fId sL, s =>
    match Runtime.submitExecution fId sL s with
    | .ok id s' => ⟨.done, [id], s'⟩
    | .error e s' => ⟨.thrown e, [], s'⟩
  | blockedSubmit fId sL, s =>
    match Runtime.newExecution fId sL s with
    | .ok _ s' => ⟨.done, [], s'⟩
    | .error e s' => ⟨.thrown e, [], s'⟩
  | throw e, s => ⟨.thrown e, [], s⟩
  | seq c d, s =>
    let r := exec c s
    match r.outcome with
    | .done => r.followed (exec d r.runtime)
    | .thrown _ | .terminated => r
  | tryCatch c d, s =>
    let r := exec c s
    match r.outcome with
    | .thrown _ => r.followed (exec d r.runtime)
    | .done | .terminated => r
  | finish c, s =>
    match Runtime.newFinish s with
    | .ok _ s' => (exec c s').destroyed
    | .error e s' => ⟨.thrown e, [], s'⟩

/-- `endFinish` in an open finish. -/
theorem endFinish_apply {s : Runtime} {init : List FinishMonitor} {top : FinishMonitor}
    (h : s.fStack = init ++ [top]) :
    ∃ s', Runtime.endFinish s = .ok () s' ∧ s'.fStack = init ∧ s'.currentId = s.currentId ∧
      s'.waited = s.waited ++ top.exes := by
  obtain ⟨s', hs', hstack, hid, hwaited⟩ := Runtime.waitAll_apply top s
  refine ⟨{ s' with fStack := s'.fStack.dropLast }, ?_, ?_, hid, hwaited⟩
  · rw [Runtime.endFinish, bind_apply (Runtime.getTop_apply h), bind_apply hs']
    rfl
  · rw [hstack, h, List.dropLast_concat]

/-! ## What becomes of the ids -/

/-- Code started in `s` has left the finish stack `stack`; of the ids it got, those in `own` are recorded in the
innermost finish, and all others have been waited for. -/
structure Leaves (s : Runtime) (r : Result) (stack : List FinishMonitor) (own : List ExeId) : Prop where
  runs : r.outcome ≠ .terminated
  fStack : r.runtime.fStack = stack
  waited : ∃ w, r.runtime.waited = s.waited ++ w ∧ (w ++ own).Perm r.ids

section Leaves
variable {s : Runtime} {r r' : Result} {stack stack' : List FinishMonitor} {own own' : List ExeId}

/-- One piece of code after another. -/
theorem Leaves.followed (h : Leaves s r stack own) (h' : Leaves r.runtime r' stack' own') :
    Leaves s (r.followed r') stack' (own ++ own') := by
  obtain ⟨w, hw, hperm⟩ := h.waited
  obtain ⟨w', hw', hperm'⟩ := h'.waited
  refine ⟨h'.runs, h'.fStack, w ++ w', ?_, ?_⟩
  · rw [Result.followed, hw', hw, List.append_assoc]
  · have hswap : (w ++ w' ++ (own ++ own')).Perm (w ++ own ++ (w' ++ own')) := by
      simp only [List.append_assoc]
      refine List.Perm.append_left w ?_
      simp only [← List.append_assoc]
      exact List.perm_append_comm.append_right own'
    exact hswap.trans (hperm.append hperm')

/-- **The destructor** waits for what the finish has recorded, and does not throw. -/
theorem Leaves.destroyed {init : List FinishMonitor} (h : Leaves s r (init ++ [⟨own⟩]) own) :
    Leaves s r.destroyed init [] ∧ r.destroyed.outcome = r.outcome ∧ r.destroyed.ids = r.ids := by
  obtain ⟨s', hends, hstack, -, hwaited⟩ := endFinish_apply h.fStack
  obtain ⟨w, hw, hperm⟩ := h.waited
  rw [Result.destroyed, if_neg h.runs, hends]
  refine ⟨⟨h.runs, hstack, w ++ own, ?_, ?_⟩, rfl, rfl⟩
  · rw [hwaited, hw, List.append_assoc]
  · rwa [List.append_nil]

theorem leaves_nothing {o : Outcome} (ho : o ≠ .terminated) (s : Runtime) : Leaves s ⟨o, [], s⟩ s.fStack [] :=
  ⟨ho, rfl, [], (List.append_nil _).symm, .nil⟩

end Leaves

/-- **A rule for code**: what holds of the single steps, of one piece of code after another and of the first piece
alone, and of a finish if it holds of what is inside, holds of all code. -/
theorem exec_rule {P : Code → Runtime → Result → Prop}
    (hnothing : ∀ c o s, o ≠ .terminated → P c s ⟨o, [], s⟩)
    (hsubmit : ∀ fId sL s, P (submit fId sL) s (exec (submit fId sL) s))
    (hblocked : ∀ fId sL s, P (blockedSubmit fId sL) s (exec (blockedSubmit fId sL) s))
    (hfirst : ∀ c d s r, P c s r → P (seq c d) s r ∧ P (tryCatch c d) s r)
    (hfollowed : ∀ c d s r r', P c s r → P d r.runtime r' →
      P (seq c d) s (r.followed r') ∧ P (tryCatch c d) s (r.followed r'))
    (hfinish : ∀ c s, (∀ s, P c s (c.exec s)) → P (finish c) s ((finish c).exec s)) (c : Code) (s : Runtime) :
    P c s (c.exec s) := by
  induction c generalizing s with
  | skip => exact hnothing skip .done s (by simp)
  | throw e => exact hnothing (throw e) (.thrown e) s (by simp)
  | submit fId sL => exact hsubmit fId sL s
  | blockedSubmit fId sL => exact hblocked fId sL s
  | finish c ih => exact hfinish c s ih
  | seq c d ihc ihd =>
    rw [exec]
    cases ho : (exec c s).outcome with
    | done => exact (hfollowed c d s _ _ (ihc s) (ihd _)).1
    | thrown e => exact (hfirst c d s _ (ihc s)).1
    | terminated => exact (hfirst c d s _ (ihc s)).1
  | tryCatch c d ihc ihd =>
    rw [exec]
    cases ho : (exec c s).outcome with
    | thrown e => exact (hfollowed c d s _ _ (ihc s) (ihd _)).2
    | done => exact (hfirst c d s _ (ihc s)).2
    | terminated => exact (hfirst c d s _ (ihc s)).2

theorem exec_blockedSubmit (fId : UInt32) (sL : Option (List (List UInt8))) (s : Runtime) :
    (blockedSubmit fId sL).exec s = ⟨.done, [], { s with
      currentId := s.currentId + 1
      allExes := s.allExes.insert s.currentId (some ⟨s.currentId, fId, sL, .preRun⟩) }⟩ := rfl

theorem exec_finish (c : Code) (s : Runtime) :
    (finish c).exec s = (c.exec { s with fStack := s.fStack ++ [⟨[]⟩] }).destroyed := rfl

/-- **A finish block**, if its body leaves the finish open: it ends as the body does, and the finishes around it are
as they were. -/
theorem leaves_finish {c : Code} {s : Runtime} {own : List ExeId}
    (h : Leaves { s with fStack := s.fStack ++ [⟨[]⟩] } (c.exec { s with fStack := s.fStack ++ [⟨[]⟩] })
      (s.fStack ++ [⟨own⟩]) own) :
    Leaves s ((finish c).exec s) s.fStack [] ∧
      ((finish c).exec s).outcome = (c.exec { s with fStack := s.fStack ++ [⟨[]⟩] }).outcome := by
  rw [exec_finish]
  obtain ⟨w, hw, hperm⟩ := h.waited
  have hleaves : Leaves s (c.exec { s with fStack := s.fStack ++ [⟨[]⟩] }) (s.fStack ++ [⟨own⟩]) own :=
    ⟨h.runs, h.fStack, w, hw, hperm⟩
  exact ⟨hleaves.destroyed.1, hleaves.destroyed.2.1⟩

/-- **Code in an open finish** leaves that finish open and everything around it alone. -/
theorem exec_inFinish (c : Code) (s : Runtime) : ∀ init top, s.fStack = init ++ [top] →
    ∃ own, Leaves s (c.exec s) (init ++ [⟨top.exes ++ own⟩]) own := by
  refine exec_rule (P := fun _ s r => ∀ init top, s.fStack = init ++ [top] →
    ∃ own, Leaves s r (init ++ [⟨top.exes ++ own⟩]) own) ?_ ?_ ?_ ?_ ?_ ?_ c s
  · intro c o s ho init top h
    refine ⟨[], ?_⟩
    rw [List.append_nil, ← h]
    exact leaves_nothing ho s
  · intro fId sL s init top h
    refine ⟨[s.currentId], ?_⟩
    rw [exec, Runtime.submitExecution_apply h fId sL]
    exact ⟨by simp, rfl, [], (List.append_nil _).symm, List.Perm.refl _⟩
  · intro fId sL s init top h
    refine ⟨[], ?_⟩
    rw [exec_blockedSubmit]
    refine ⟨by simp, ?_, [], (List.append_nil _).symm, .nil⟩
    rw [List.append_nil]
    exact h
  · exact fun c d s r hr => ⟨hr, hr⟩
  · intro c d s r r' hr hr'
    have hfollowed : ∀ init top, s.fStack = init ++ [top] →
        ∃ own, Leaves s (r.followed r') (init ++ [⟨top.exes ++ own⟩]) own := by
      intro init top h
      obtain ⟨own, hleaves⟩ := hr init top h
      obtain ⟨own', hleaves'⟩ := hr' init _ hleaves.fStack
      refine ⟨own ++ own', ?_⟩
      rw [← List.append_assoc]
      exact hleaves.followed hleaves'
    exact ⟨hfollowed, hfollowed⟩
  · intro c s ih init top h
    obtain ⟨own, hleaves⟩ := ih { s with fStack := s.fStack ++ [⟨[]⟩] } s.fStack ⟨[]⟩ rfl
    refine ⟨[], ?_⟩
    rw [List.append_nil, ← h]
    exact (leaves_finish hleaves).1

/-- **Code in no finish** leaves none open, and what it has submitted has been waited for. -/
theorem exec_outside (c : Code) (s : Runtime) : s.fStack = [] → Leaves s (c.exec s) [] [] := by
  refine exec_rule (P := fun _ s r => s.fStack = [] → Leaves s r [] []) ?_ ?_ ?_ ?_ ?_ ?_ c s
  · intro c o s ho h
    rw [← h]
    exact leaves_nothing ho s
  · intro fId sL s h
    rw [exec, Runtime.submitExecution_empty h]
    exact ⟨by simp, h, [], (List.append_nil _).symm, .nil⟩
  · intro fId sL s h
    rw [exec_blockedSubmit]
    exact ⟨by simp, h, [], (List.append_nil _).symm, .nil⟩
  · exact fun c d s r hr => ⟨hr, hr⟩
  · intro c d s r r' hr hr'
    have hfollowed : s.fStack = [] → Leaves s (r.followed r') [] [] := by
      intro h
      have hleaves := hr h
      exact hleaves.followed (hr' hleaves.fStack)
    exact ⟨hfollowed, hfollowed⟩
  · intro c s _ h
    obtain ⟨own, hleaves⟩ := exec_inFinish c { s with fStack := s.fStack ++ [⟨[]⟩] } s.fStack ⟨[]⟩ rfl
    have hfinish := (leaves_finish hleaves).1
    rwa [h] at hfinish

/-! ## The ids are distinct -/

/-- The next ids after `id`. -/
def idsFrom (id : ExeId) (n : Nat) : List ExeId := (List.range n).map fun i => id + UInt32.ofNat i

theorem idsFrom_add (id : ExeId) (m n : Nat) :
    idsFrom id (m + n) = idsFrom id m ++ idsFrom (id + UInt32.ofNat m) n := by
  rw [idsFrom, List.range_add, List.map_append, List.map_map, idsFrom, idsFrom]
  congr 2
  funext i
  simp [UInt32.ofNat_add, UInt32.add_assoc]

theorem nodup_idsFrom (id : ExeId) {n : Nat} (hn : n ≤ 2 ^ 32) : (idsFrom id n).Nodup := by
  refine List.Nodup.map_on ?_ List.nodup_range
  intro i hi j hj heq
  have hi := List.mem_range.mp hi
  have hj := List.mem_range.mp hj
  exact ofNat_injOn (by omega) (by omega) (UInt32.add_right_inj id |>.mp heq)

/-- The ids that code gets are among the next ones, in their order. -/
def Counts (c : Code) (s : Runtime) (r : Result) : Prop :=
  ∃ n ≤ c.submissions, r.runtime.currentId = s.currentId + UInt32.ofNat n ∧ r.ids.Sublist (idsFrom s.currentId n)

theorem exec_counts (c : Code) (s : Runtime) : Counts c s (c.exec s) := by
  refine exec_rule (P := Counts) ?_ ?_ ?_ ?_ ?_ ?_ c s
  · intro c o s _
    exact ⟨0, Nat.zero_le _, by simp, List.nil_sublist _⟩
  · intro fId sL s
    refine ⟨1, Nat.le_refl 1, ?_⟩
    rcases List.eq_nil_or_concat' s.fStack with hempty | ⟨init, top, hstack⟩
    · rw [exec, Runtime.submitExecution_empty hempty]
      exact ⟨rfl, List.nil_sublist _⟩
    · rw [exec, Runtime.submitExecution_apply hstack]
      refine ⟨rfl, ?_⟩
      simp [idsFrom]
  · intro fId sL s
    exact ⟨1, Nat.le_refl 1, rfl, List.nil_sublist _⟩
  · rintro c d s r ⟨n, hn, hid, hids⟩
    have hle : n ≤ (seq c d).submissions := Nat.le_trans hn (Nat.le_add_right _ _)
    exact ⟨⟨n, hle, hid, hids⟩, n, hle, hid, hids⟩
  · rintro c d s r r' ⟨m, hm, hid, hids⟩ ⟨n, hn, hid', hids'⟩
    have hle : m + n ≤ (seq c d).submissions := Nat.add_le_add hm hn
    have hid'' : r'.runtime.currentId = s.currentId + UInt32.ofNat (m + n) := by
      rw [hid', hid, UInt32.ofNat_add, UInt32.add_assoc]
    have hboth : (r.ids ++ r'.ids).Sublist (idsFrom s.currentId (m + n)) := by
      rw [idsFrom_add, ← hid]
      exact hids.append hids'
    exact ⟨⟨m + n, hle, hid'', hboth⟩, m + n, hle, hid'', hboth⟩
  · intro c s ih
    obtain ⟨n, hn, hid, hids⟩ := ih { s with fStack := s.fStack ++ [⟨[]⟩] }
    obtain ⟨own, hleaves⟩ := exec_inFinish c { s with fStack := s.fStack ++ [⟨[]⟩] } s.fStack ⟨[]⟩ rfl
    obtain ⟨s', hends, -, hid', -⟩ := endFinish_apply hleaves.fStack
    have hexec : (finish c).exec s = { c.exec { s with fStack := s.fStack ++ [⟨[]⟩] } with runtime := s' } := by
      rw [exec_finish, Result.destroyed, if_neg hleaves.runs, hends]
    rw [hexec]
    exact ⟨n, hn, hid'.trans hid, hids⟩

/-! ## Finish blocks -/

/-- **What a finish block has waited for.** Whatever is submitted, thrown and caught inside, in however deeply nested
finishes, and from whatever state: the block ends as its body does, and its destructor does not throw; the finishes
around it are as they were; and each id that `submitExecution` has returned inside has been waited for before the
block is left, once and nothing else. With at most `2 ^ 32` submissions these ids are distinct. -/
theorem finish_waits (c : Code) (s : Runtime) :
    let r := (finish c).exec s
    r.outcome ≠ .terminated ∧ r.outcome = (c.exec { s with fStack := s.fStack ++ [⟨[]⟩] }).outcome ∧
      r.runtime.fStack = s.fStack ∧ (∃ w, r.runtime.waited = s.waited ++ w ∧ w.Perm r.ids) ∧
      (c.submissions ≤ 2 ^ 32 → r.ids.Nodup) := by
  intro r
  obtain ⟨own, hleaves⟩ := exec_inFinish c { s with fStack := s.fStack ++ [⟨[]⟩] } s.fStack ⟨[]⟩ rfl
  obtain ⟨hfinish, ho⟩ := leaves_finish hleaves
  obtain ⟨w, hw, hperm⟩ := hfinish.waited
  rw [List.append_nil] at hperm
  refine ⟨hfinish.runs, ho, hfinish.fStack, ⟨w, hw, hperm⟩, fun hle => ?_⟩
  obtain ⟨n, hn, -, hids⟩ := exec_counts (finish c) s
  exact (nodup_idsFrom s.currentId (Nat.le_trans hn hle)).sublist hids

/-- An exception leaves the inner of two finishes, and the code goes on. -/
example : let inner := finish (seq (submit 7 none) (seq (throw (.runtimeError "lost")) (submit 8 none)))
    let r := (finish (seq (tryCatch inner skip) (submit 9 none))).exec .start
    r.outcome = .done ∧ r.runtime.waited = [0, 1] := by decide

end Code
end Thallium
