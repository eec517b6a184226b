import Mathlib.Data.List.Basic
import Mathlib.Data.List.Induction

/-!
# Runs of a deterministic event machine

A machine is a function `step : S → E → S`; a run is a list of events. `Always P` says that
`P` holds in every state a run passes through, `EachStep C` that every event of the run meets
`C` in the state it arrives in.

* `always_iff_eachStep` — the rule for a property that one kind of step breaks at once: on runs
  of legal events the property holds throughout **iff** every step meets the condition.
* `always_of_invariant`, `eachStep_of_invariant` — the invariant rule, for states and for steps.
* `eachStep_iff` — the same for two conditions on steps.
* `length_le_of_decreasing` — steps that make a measure smaller come to an end.
* `run_history_legal` — the invariant rule where the invariant also speaks of the events so far.
* `throughout_iff` — `eachStep_iff` where the conditions speak of the events so far.
* `run_simulation_legal` — a second machine that answers every event by a list of its own keeps up.
* `run_component`, `component_born` — a part of a machine that no event of another part touches.
-/
namespace EventRun

universe u v w x
variable {S : Type u} {E : Type v} {step : S → E → S}

/-- The state after a list of events. -/
def run (step : S → E → S) : S → List E → S
  | s, [] => s
  | s, e :: es => run step (step s e) es

/-- `P` holds in the first state and in every state the run reaches. -/
def Always (step : S → E → S) (P : S → Prop) : S → List E → Prop
  | s, [] => P s
  | s, e :: es => P s ∧ Always step P (step s e) es

/-- `C` holds of every event of the run, in the state that event meets. -/
def EachStep (step : S → E → S) (C : S → E → Prop) : S → List E → Prop
  | _, [] => True
  | s, e :: es => C s e ∧ EachStep step C (step s e) es

instance EachStep.decidable {C : S → E → Prop} [∀ s e, Decidable (C s e)] :
    (s : S) → (es : List E) → Decidable (EachStep step C s es)
  | _, [] => .isTrue trivial
  | s, e :: es =>
    haveI := EachStep.decidable (C := C) (step s e) es
    inferInstanceAs (Decidable (C s e ∧ EachStep step C (step s e) es))

@[simp] theorem run_nil (s : S) : run step s [] = s := rfl

theorem run_append (s : S) (es fs : List E) :
    run step s (es ++ fs) = run step (run step s es) fs := by
  induction es generalizing s with
  | nil => rfl
  | cons e es ih => exact ih _

theorem Always.here {P : S → Prop} {s : S} {es : List E} (h : Always step P s es) : P s := by
  cases es with
  | nil => exact h
  | cons _ _ => exact h.1

theorem eachStep_append {C : S → E → Prop} {s : S} {es es' : List E} :
    EachStep step C s (es ++ es') ↔ EachStep step C s es ∧ EachStep step C (run step s es) es' := by
  induction es generalizing s with
  | nil => exact ⟨fun h => ⟨trivial, h⟩, fun h => h.2⟩
  | cons e es ih => simp only [List.cons_append, EachStep, ih, and_assoc, run]

theorem eachStep_and {C D : S → E → Prop} {s : S} {es : List E} :
    EachStep step (fun s e => C s e ∧ D s e) s es ↔ EachStep step C s es ∧ EachStep step D s es := by
  induction es generalizing s with
  | nil => exact ⟨fun _ => ⟨trivial, trivial⟩, fun _ => trivial⟩
  | cons e es ih =>
    rw [EachStep, EachStep, EachStep, ih]
    exact ⟨fun ⟨⟨hc, hd⟩, hcs, hds⟩ => ⟨⟨hc, hcs⟩, hd, hds⟩, fun ⟨⟨hc, hcs⟩, hd, hds⟩ => ⟨⟨hc, hd⟩, hcs, hds⟩⟩

theorem EachStep.of_forall {C : S → E → Prop} (h : ∀ s e, C s e) (s : S) (es : List E) :
    EachStep step C s es := by
  induction es generalizing s with
  | nil => trivial
  | cons e es ih => exact ⟨h s e, ih _⟩

/-- What an invariant of the legal steps implies holds throughout every legal run. -/
theorem always_of_invariant {I P : S → Prop} {L : S → E → Prop} (hP : ∀ s, I s → P s)
    (hstep : ∀ s e, I s → L s e → I (step s e)) {s : S} {es : List E} (hi : I s)
    (hl : EachStep step L s es) : Always step P s es := by
  induction es generalizing s with
  | nil => exact hP s hi
  | cons e es ih => exact ⟨hP s hi, ih (hstep s e hi hl.1) hl.2⟩

/-- What every legal step from an invariant state satisfies holds of each step of a legal run. -/
theorem eachStep_of_invariant {I : S → Prop} {L Q : S → E → Prop}
    (hstep : ∀ s e, I s → L s e → I (step s e)) (hq : ∀ s e, I s → L s e → Q s e)
    {s : S} {es : List E} (hi : I s) (hl : EachStep step L s es) : EachStep step Q s es := by
  induction es generalizing s with
  | nil => trivial
  | cons e es ih => exact ⟨hq s e hi hl.1, ih (hstep s e hi hl.1) hl.2⟩

/-- Two conditions on steps that an invariant makes equal are met by the same legal runs. The invariant
may depend on the condition. -/
theorem eachStep_iff {I : S → Prop} {L P C : S → E → Prop}
    (hstep : ∀ s e, I s → L s e → C s e → I (step s e)) (h : ∀ s e, I s → L s e → (P s e ↔ C s e))
    {s : S} {es : List E} (hi : I s) (hl : EachStep step L s es) :
    EachStep step P s es ↔ EachStep step C s es := by
  induction es generalizing s with
  | nil => exact Iff.rfl
  | cons e es ih =>
    rw [EachStep, EachStep, h s e hi hl.1]
    exact and_congr_right fun hc => ih (hstep s e hi hl.1 hc) hl.2

/-- An invariant may mention the history: it holds after every legal run if it holds of the empty one
and each further legal event keeps it. -/
theorem run_history_legal {J : List E → S → Prop} {L : S → E → Prop} {s : S} (h0 : J [] s)
    (hstep : ∀ es t e, J es t → L t e → J (es ++ [e]) (step t e)) {es : List E}
    (hl : EachStep step L s es) : J es (run step s es) := by
  induction es using List.reverseRecOn with
  | nil => exact h0
  | append_singleton es e ih =>
    have hle := eachStep_append.mp hl
    rw [run_append]
    exact hstep es _ e (ih hle.1) hle.2.1

theorem run_history {J : List E → S → Prop} {s : S} (h0 : J [] s)
    (hstep : ∀ es t e, J es t → J (es ++ [e]) (step t e)) (es : List E) : J es (run step s es) :=
  run_history_legal (L := fun _ _ => True) h0 (fun es t e h _ => hstep es t e h)
    (EachStep.of_forall (fun _ _ => trivial) s es)

/-- `C` holds of every event of the list and of those before it. -/
def Throughout (C : List E → E → Prop) (es : List E) : Prop :=
  ∀ before e after, es = before ++ e :: after → C before e

section Throughout
variable {C P : List E → E → Prop} {es : List E}

/-- An event of a list with one more event is the last one, or one of those before it. -/
theorem concat_eq_append_cons {before after : List E} {e e' : E} :
    es ++ [e] = before ++ e' :: after ↔
      (before = es ∧ e' = e ∧ after = []) ∨ ∃ rest, after = rest ++ [e] ∧ es = before ++ e' :: rest := by
  constructor
  · intro heq
    rcases List.eq_nil_or_concat' after with rfl | ⟨rest, e'', rfl⟩
    · obtain ⟨hbefore, hlast⟩ := List.append_inj' heq rfl
      exact .inl ⟨hbefore.symm, (List.cons.inj hlast).1.symm, rfl⟩
    · rw [← List.cons_append, ← List.append_assoc] at heq
      obtain ⟨hes, hlast⟩ := List.append_inj' heq rfl
      exact .inr ⟨rest, by rw [(List.cons.inj hlast).1], hes⟩
  · rintro (⟨rfl, rfl, rfl⟩ | ⟨rest, rfl, rfl⟩)
    · rfl
    · rw [List.append_assoc, List.cons_append]

theorem throughout_nil : Throughout C [] := by
  intro before e after h
  exact absurd h.symm (by simp)

theorem throughout_concat {e : E} : Throughout C (es ++ [e]) ↔ Throughout C es ∧ C es e := by
  constructor
  · intro h
    refine ⟨fun before e' after heq => ?_, h es e [] rfl⟩
    exact h before e' (after ++ [e]) (concat_eq_append_cons.mpr (.inr ⟨after, rfl, heq⟩))
  · rintro ⟨h, he⟩ before e' after heq
    rcases concat_eq_append_cons.mp heq with ⟨rfl, rfl, -⟩ | ⟨rest, -, hes⟩
    · exact he
    · exact h before e' rest hes

/-- What holds throughout a list holds throughout what comes before an event of it. -/
theorem Throughout.before {before after : List E} {e : E} (h : Throughout C (before ++ e :: after)) :
    Throughout C before ∧ C before e := by
  refine ⟨?_, h before e after rfl⟩
  rintro before' e' after' rfl
  exact h before' e' (after' ++ e :: after) (by rw [List.append_assoc, List.cons_append])

/-- Two conditions that an invariant of the history makes equal are met throughout by the same lists. The
invariant may depend on the condition. -/
theorem throughout_iff {J : List E → Prop} (h0 : J []) (hstep : ∀ es e, J es → C es e → J (es ++ [e]))
    (h : ∀ es e, J es → (P es e ↔ C es e)) : Throughout P es ↔ Throughout C es := by
  have hboth : (Throughout P es ↔ Throughout C es) ∧ (Throughout C es → J es) := by
    induction es using List.reverseRecOn with
    | nil => exact ⟨⟨fun _ => throughout_nil, fun _ => throughout_nil⟩, fun _ => h0⟩
    | append_singleton es e ih =>
      obtain ⟨hiff, hj⟩ := ih
      rw [throughout_concat, throughout_concat, hiff]
      exact ⟨and_congr_right fun hc => h es e (hj hc), fun hc => hstep es e (hj hc.1) hc.2⟩
  exact hboth.1

end Throughout

/-! ## Simulation -/

section Simulation
variable {T : Type w} {F : Type x} {step' : T → F → T}

/-- The events a second machine answers a run with, each event by `answer` in the state it meets. -/
def answers (step : S → E → S) (answer : S → E → List F) : S → List E → List F
  | _, [] => []
  | s, e :: es => answer s e ++ answers step answer (step s e) es

/-- **Forward simulation.** A relation every legal event keeps, when the second machine takes its
answer, holds after every legal run and its answers. -/
theorem run_simulation_legal {R : S → T → Prop} {L : S → E → Prop} {answer : S → E → List F}
    (h : ∀ s t e, R s t → L s e → R (step s e) (run step' t (answer s e))) {s : S} {t : T} (hr : R s t)
    {es : List E} (hl : EachStep step L s es) :
    R (run step s es) (run step' t (answers step answer s es)) := by
  induction es generalizing s t with
  | nil => exact hr
  | cons e es ih =>
    rw [answers, run_append]
    exact ih (h s t e hr hl.1) hl.2

theorem run_simulation {R : S → T → Prop} {answer : S → E → List F}
    (h : ∀ s t e, R s t → R (step s e) (run step' t (answer s e))) {s : S} {t : T} (hr : R s t)
    (es : List E) : R (run step s es) (run step' t (answers step answer s es)) :=
  run_simulation_legal (L := fun _ _ => True) (fun s t e hr _ => h s t e hr) hr
    (EachStep.of_forall (fun _ _ => trivial) s es)

theorem answers_append {answer : S → E → List F} (s : S) (es es' : List E) :
    answers step answer s (es ++ es') =
      answers step answer s es ++ answers step answer (run step s es) es' := by
  induction es generalizing s with
  | nil => rfl
  | cons e es ih => rw [List.cons_append, answers, ih, answers, List.append_assoc, run]

/-- What each answer has in common with its event, the answers have in common with the run. -/
theorem answers_filterMap {A : Type*} {answer : S → E → List F} {f : E → Option A} {g : F → Option A}
    (h : ∀ s e, (answer s e).filterMap g = (f e).toList) (s : S) (es : List E) :
    (answers step answer s es).filterMap g = es.filterMap f := by
  induction es generalizing s with
  | nil => rfl
  | cons e es ih =>
    rw [answers, List.filterMap_append, h, ih]
    cases hf : f e <;> simp [hf]

/-! ### Components -/

/-- Answers that depend on the event alone. -/
theorem answers_own (own : E → Option F) (s : S) (es : List E) :
    answers step (fun _ e => (own e).toList) s es = es.filterMap own := by
  induction es generalizing s with
  | nil => rfl
  | cons e es ih =>
    rw [answers, ih]
    cases he : own e <;> simp [he]

variable {look : S → Option T} {own : E → Option F} {L : S → E → Prop}

/-- **Components.** `look` finds a part in the machine. If every legal event takes the part by its own event,
if it has one, and leaves it alone otherwise, then a run takes it by its own events, in their order. -/
theorem run_component
    (h : ∀ s e t, look s = some t → L s e → look (step s e) = some (run step' t (own e).toList)) {s : S} {t : T}
    (ht : look s = some t) {es : List E} (hl : EachStep step L s es) :
    look (run step s es) = some (run step' t (es.filterMap own)) := by
  have hrun := run_simulation_legal (R := fun s t => look s = some t)
    (L := L) (fun s t e => h s e t) ht hl
  rwa [answers_own] at hrun

/-- What every legal event asks of the own event of the part, the own events have throughout. -/
theorem component_eachStep {L' : T → F → Prop}
    (h : ∀ s e t, look s = some t → L s e → look (step s e) = some (run step' t (own e).toList))
    (hown : ∀ s e t f, look s = some t → L s e → own e = some f → L' t f) {s : S} {t : T} (ht : look s = some t)
    {es : List E} (hl : EachStep step L s es) : EachStep step' L' t (es.filterMap own) := by
  induction es generalizing s t with
  | nil => trivial
  | cons e es ih =>
    have hstep := h s e t ht hl.1
    cases he : own e with
    | none =>
      rw [he] at hstep
      rw [List.filterMap_cons_none he]
      exact ih hstep hl.2
    | some f =>
      rw [he] at hstep
      rw [List.filterMap_cons_some he]
      exact ⟨hown s e t f ht hl.1 he, ih hstep hl.2⟩

/-- A part that was not there in the beginning came with one event, and has taken its own events since. -/
theorem component_born
    (h : ∀ s e t, look s = some t → L s e → look (step s e) = some (run step' t (own e).toList)) {s : S} {t : T}
    (hs : look s = none) {es : List E} (hl : EachStep step L s es) (ht : look (run step s es) = some t) :
    ∃ before e after t₀, es = before ++ e :: after ∧ look (run step s before) = none ∧
      look (step (run step s before) e) = some t₀ ∧ t = run step' t₀ (after.filterMap own) := by
  induction es using List.reverseRecOn generalizing t with
  | nil =>
    rw [run_nil, hs] at ht
    cases ht
  | append_singleton es e ih =>
    obtain ⟨hes, he, -⟩ := eachStep_append.mp hl
    have hrun : run step s (es ++ [e]) = step (run step s es) e := run_append s es [e]
    rw [hrun] at ht
    cases hlook : look (run step s es) with
    | none => exact ⟨es, e, [], t, rfl, hlook, ht, rfl⟩
    | some t' =>
      obtain ⟨before, e', after, t₀, rfl, hnone, hborn, rfl⟩ := ih hes hlook
      rw [h _ e _ hlook he, Option.some.injEq] at ht
      refine ⟨before, e', after ++ [e], t₀, by rw [List.append_assoc, List.cons_append], hnone, hborn, ?_⟩
      rw [List.filterMap_append, run_append, ← ht]
      cases howne : own e <;> simp [howne]

end Simulation

/-- **Exact condition of a run property.** `I` implies `P`; a legal step that meets `C` keeps
`I`; a legal step that does not meet `C` leaves a state without `P`. Then `P` holds throughout
a legal run iff each of its steps meets `C`. -/
theorem always_iff_eachStep {I P : S → Prop} {L C : S → E → Prop} (hP : ∀ s, I s → P s)
    (hgood : ∀ s e, I s → L s e → C s e → I (step s e))
    (hbad : ∀ s e, I s → L s e → ¬ C s e → ¬ P (step s e)) {s : S} {es : List E} (hi : I s)
    (hl : EachStep step L s es) : Always step P s es ↔ EachStep step C s es := by
  induction es generalizing s with
  | nil => exact ⟨fun _ => trivial, fun _ => hP s hi⟩
  | cons e es ih =>
    constructor
    · rintro ⟨_, h⟩
      have hc : C s e := by
        by_contra hn
        exact hbad s e hi hl.1 hn h.here
      exact ⟨hc, (ih (hgood s e hi hl.1 hc) hl.2).1 h⟩
    · rintro ⟨hc, h⟩
      exact ⟨hP s hi, (ih (hgood s e hi hl.1 hc) hl.2).2 h⟩

end EventRun
