import Mathlib.Data.List.Induction
import Mathlib.Data.List.Nodup
import Thallium.Lib.EventRun

/-!
# Nested scopes and what was entered in them

Scopes start and stop like brackets; what is entered belongs to the innermost one. A scope that stops
hands over all that was entered in it. `Scopes` only keeps the books: the scopes are numbered in the
order they start, and every entry carries the number of its scope.

* `wf_run` — a stopped scope has handed over exactly its entries, a running one none of them.
* `WF.account` — what was handed over and what the running scopes hold is what was entered.
* `run_stopped` — a stopped scope stays as it is.
-/
universe u

/-- `active` are the running scopes, outermost first; `left` is what was handed over, by scope. -/
structure Scopes (A : Type u) where
  active : List Nat
  started : Nat
  entered : List (Nat × A)
  left : List (Nat × A)

inductive ScopeOp (A : Type u) where
  | start
  | enter (a : A)
  | stop

namespace Scopes
variable {A : Type u}

def empty : Scopes A := ⟨[], 0, [], []⟩

/-- The entries of one scope, in order. -/
def entriesOf (f : Nat) (es : List (Nat × A)) : List (Nat × A) := es.filter (·.1 = f)

/-- Without a running scope there is nothing to enter or to stop. -/
def step (s : Scopes A) : ScopeOp A → Scopes A
  | .start => { s with active := s.active ++ [s.started], started := s.started + 1 }
  | .enter a =>
    match s.active.getLast? with
    | none => s
    | some f => { s with entered := s.entered ++ [(f, a)] }
  | .stop =>
    match s.active.getLast? with
    | none => s
    | some f => { s with active := s.active.dropLast, left := s.left ++ entriesOf f s.entered }

structure WF (s : Scopes A) : Prop where
  nodup : s.active.Nodup
  active_lt : ∀ f ∈ s.active, f < s.started
  entered_lt : ∀ e ∈ s.entered, e.1 < s.started
  running : ∀ f ∈ s.active, entriesOf f s.left = []
  stopped : ∀ f, f ∉ s.active → entriesOf f s.left = entriesOf f s.entered
  account : (s.left ++ s.active.flatMap fun f => entriesOf f s.entered).Perm s.entered

section Entries
variable {f g : Nat} {a : A} {es es' : List (Nat × A)}

theorem entriesOf_append : entriesOf f (es ++ es') = entriesOf f es ++ entriesOf f es' :=
  List.filter_append ..

theorem entriesOf_eq_nil (h : ∀ e ∈ es, e.1 ≠ f) : entriesOf f es = [] := by
  rw [entriesOf, List.filter_eq_nil_iff]
  intro e he
  simpa using h e he

theorem entriesOf_concat_ne (h : g ≠ f) : entriesOf f (es ++ [(g, a)]) = entriesOf f es := by
  have hnil : entriesOf f [(g, a)] = [] := by
    apply entriesOf_eq_nil
    intro e he
    rw [List.mem_singleton.mp he]
    exact h
  rw [entriesOf_append, hnil, List.append_nil]

/-- Entering into one scope leaves the entries of the others. -/
theorem entriesOf_concat_of_notMem {init : List Nat} (h : f ∉ init) :
    ∀ g ∈ init, entriesOf g (es ++ [(f, a)]) = entriesOf g es := by
  intro g hg
  apply entriesOf_concat_ne
  rintro rfl
  exact h hg

theorem entriesOf_concat_self : entriesOf f (es ++ [(f, a)]) = entriesOf f es ++ [(f, a)] := by
  rw [entriesOf_append]
  simp [entriesOf]

theorem entriesOf_entriesOf_self : entriesOf f (entriesOf f es) = entriesOf f es := by
  simp [entriesOf, List.filter_filter]

theorem entriesOf_entriesOf_ne (h : g ≠ f) : entriesOf f (entriesOf g es) = [] := by
  apply entriesOf_eq_nil
  intro e he
  have : e.1 = g := by simpa using (List.mem_filter.mp he).2
  rw [this]
  exact h

end Entries

theorem wf_empty : (empty : Scopes A).WF := by
  refine ⟨List.nodup_nil, ?_, ?_, ?_, fun _ _ => rfl, List.Perm.refl _⟩
  · intro f hf
    cases hf
  · intro e he
    cases he
  · intro f hf
    cases hf

section Steps
variable {s : Scopes A}

theorem wf_start (h : s.WF) : (s.step .start).WF := by
  have hfresh : s.started ∉ s.active := fun hf => Nat.lt_irrefl _ (h.active_lt _ hf)
  have hnone : entriesOf s.started s.entered = [] :=
    entriesOf_eq_nil fun e he => Nat.ne_of_lt (h.entered_lt e he)
  refine ⟨?_, ?_, ?_, ?_, ?_, ?_⟩
  · exact List.nodup_append.mpr ⟨h.nodup, List.nodup_singleton _, by
      intro f hf g hg
      rw [List.mem_singleton.mp hg]
      exact fun heq => hfresh (heq ▸ hf)⟩
  · intro f hf
    rcases List.mem_append.mp hf with hf | hf
    · exact Nat.lt_succ_of_lt (h.active_lt f hf)
    · rw [List.mem_singleton.mp hf]
      exact Nat.lt_succ_self _
  · intro e he
    exact Nat.lt_succ_of_lt (h.entered_lt e he)
  · intro f hf
    rcases List.mem_append.mp hf with hf | hf
    · exact h.running f hf
    · rw [List.mem_singleton.mp hf]
      exact (h.stopped _ hfresh).trans hnone
  · intro f hf
    exact h.stopped f fun hm => hf (List.mem_append_left _ hm)
  · simpa [step, hnone] using h.account

theorem notMem_init (h : s.WF) {init : List Nat} {f : Nat} (hinit : s.active = init ++ [f]) :
    f ∉ init := by
  have hnd := h.nodup
  rw [hinit, List.nodup_append] at hnd
  exact fun hf => hnd.2.2 f hf f (List.mem_singleton_self f) rfl

theorem wf_enter (h : s.WF) (a : A) : (s.step (.enter a)).WF := by
  cases hlast : s.active.getLast? with
  | none =>
    simp only [step, hlast]
    exact h
  | some f =>
    obtain ⟨init, hinit⟩ := List.getLast?_eq_some_iff.mp hlast
    have hmem : f ∈ s.active := List.mem_of_getLast? hlast
    have hfresh : f ∉ init := notMem_init h hinit
    simp only [step, hlast]
    refine ⟨h.nodup, h.active_lt, ?_, h.running, ?_, ?_⟩
    · intro e he
      rcases List.mem_append.mp he with he | he
      · exact h.entered_lt e he
      · rw [List.mem_singleton.mp he]
        exact h.active_lt f hmem
    · intro g hg
      have hne : f ≠ g := by
        rintro rfl
        exact hg hmem
      rw [entriesOf_concat_ne hne]
      exact h.stopped g hg
    · -- only the innermost scope's entries grow
      have hothers : (init.flatMap fun g => entriesOf g (s.entered ++ [(f, a)])) =
          init.flatMap fun g => entriesOf g s.entered :=
        List.flatMap_congr (entriesOf_concat_of_notMem hfresh)
      have hacc := h.account
      rw [hinit, List.flatMap_append, List.flatMap_singleton] at hacc ⊢
      rw [hothers, entriesOf_concat_self, ← List.append_assoc, ← List.append_assoc]
      rw [← List.append_assoc] at hacc
      exact hacc.append_right _

theorem wf_stop (h : s.WF) : (s.step .stop).WF := by
  cases hlast : s.active.getLast? with
  | none =>
    simp only [step, hlast]
    exact h
  | some f =>
    obtain ⟨init, hinit⟩ := List.getLast?_eq_some_iff.mp hlast
    have hmem : f ∈ s.active := List.mem_of_getLast? hlast
    have hdrop : s.active.dropLast = init := by rw [hinit, List.dropLast_concat]
    have hfresh : f ∉ init := notMem_init h hinit
    have hnd := h.nodup
    rw [hinit, List.nodup_append] at hnd
    have hsub : ∀ g ∈ init, g ∈ s.active := by
      intro g hg
      rw [hinit]
      exact List.mem_append_left _ hg
    simp only [step, hlast, hdrop]
    refine ⟨hnd.1, fun g hg => h.active_lt g (hsub g hg), h.entered_lt, ?_, ?_, ?_⟩
    · intro g hg
      have hne : f ≠ g := by
        rintro rfl
        exact hfresh hg
      rw [entriesOf_append, h.running g (hsub g hg), entriesOf_entriesOf_ne hne, List.append_nil]
    · intro g hg
      rw [entriesOf_append]
      by_cases hgf : g = f
      · rw [hgf, h.running f hmem, entriesOf_entriesOf_self, List.nil_append]
      · rw [entriesOf_entriesOf_ne fun heq => hgf heq.symm, List.append_nil]
        apply h.stopped
        rw [hinit]
        simp [hg, hgf]
    · have hacc := h.account
      rw [hinit, List.flatMap_append, List.flatMap_singleton] at hacc
      rw [List.append_assoc]
      exact (List.perm_append_comm.append_left _).trans hacc

theorem wf_step (h : s.WF) (op : ScopeOp A) : (s.step op).WF := by
  cases op with
  | start => exact wf_start h
  | enter a => exact wf_enter h a
  | stop => exact wf_stop h

/-- **A scope that has stopped is closed**: nothing enters it any more, and it never runs again. -/
theorem step_stopped {f : Nat} (hlt : f < s.started) (hf : f ∉ s.active) (op : ScopeOp A) :
    f < (s.step op).started ∧ f ∉ (s.step op).active ∧
      entriesOf f (s.step op).entered = entriesOf f s.entered := by
  cases op with
  | start =>
    refine ⟨Nat.lt_succ_of_lt hlt, ?_, rfl⟩
    intro hmem
    rcases List.mem_append.mp hmem with hmem | hmem
    · exact hf hmem
    · exact Nat.ne_of_lt hlt (List.mem_singleton.mp hmem)
  | enter a =>
    simp only [step]
    split
    · exact ⟨hlt, hf, rfl⟩
    · rename_i g hlast
      refine ⟨hlt, hf, entriesOf_concat_ne ?_⟩
      rintro rfl
      exact hf (List.mem_of_getLast? hlast)
  | stop =>
    simp only [step]
    split
    · exact ⟨hlt, hf, rfl⟩
    · exact ⟨hlt, fun hmem => hf (List.dropLast_subset _ hmem), rfl⟩

/-- What has been entered stays where it was entered. -/
theorem prefix_entered (op : ScopeOp A) : s.entered <+: (s.step op).entered := by
  cases op with
  | start => exact List.prefix_rfl
  | enter a =>
    simp only [step]
    split
    · exact List.prefix_rfl
    · exact List.prefix_append _ _
  | stop =>
    simp only [step]
    split
    · exact List.prefix_rfl
    · exact List.prefix_rfl

end Steps

section Runs
variable {s : Scopes A} (ops : List (ScopeOp A))

theorem wf_run (h : s.WF) : (EventRun.run step s ops).WF := by
  induction ops generalizing s with
  | nil => exact h
  | cons op ops ih => exact ih (wf_step h op)

theorem run_stopped {f : Nat} (hlt : f < s.started) (hf : f ∉ s.active) :
    entriesOf f (EventRun.run step s ops).entered = entriesOf f s.entered := by
  induction ops generalizing s with
  | nil => rfl
  | cons op ops ih =>
    obtain ⟨hlt', hf', hsame⟩ := step_stopped hlt hf op
    exact (ih hlt' hf').trans hsame

theorem prefix_entered_run : s.entered <+: (EventRun.run step s ops).entered := by
  induction ops generalizing s with
  | nil => exact List.prefix_rfl
  | cons op ops ih => exact (prefix_entered op).trans ih

end Runs
end Scopes
