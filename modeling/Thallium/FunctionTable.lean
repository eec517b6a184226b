import Thallium.FuncManager
import Thallium.Lib.EventRun

/-!
# Registering and looking up, in any order (function_object.cpp:21-35)

Any sequence of `addFunc` and `getFuncObj` calls on the function table, beside a reference map in which
a lookup leaves no trace.

| here | there |
| --- | --- |
| `TableCall`, `call`, `Answer` | one call, and how it ends |
| `registryStep`, `registryAnswer` | not in the source: the reference map |

* `call_refines` — one call: the table answers as the map does, as long as no id is registered for the
  first time after it was looked up.
* `behavesAsTable_iff` — the runs in which registering and looking up do what they should.
-/
namespace Thallium

inductive TableCall (F : Type) where
  | addFunc (fId : UInt32) (fPtr : Option F)
  | getFuncObj (fId : UInt32)

inductive Answer (F : Type) where
  | returned
  | object (fPtr : Option F)
  | thrown (e : Exception)

namespace Functions
open EventRun
variable {F : Type}

def call (g : Functions F) : TableCall F → Answer F × Functions F
  | .addFunc fId fPtr =>
    match g.addFunc fId fPtr with
    | .ok g' => (.returned, g')
    | .error e => (.thrown e, g)
  | .getFuncObj fId =>
    let (fPtr, g') := g.getFunctionObject fId
    (.object fPtr, g')

def answer (g : Functions F) (c : TableCall F) : Answer F := (g.call c).1

def step (g : Functions F) (c : TableCall F) : Functions F := (g.call c).2

/-- What the calls of a run end with. -/
def outcomes (g : Functions F) (calls : List (TableCall F)) : List (Answer F) :=
  answers step (fun g c => [g.answer c]) g calls

/-- After the calls `calls` of a program. -/
def after (calls : List (TableCall F)) : Functions F := run step init calls

/-- One of the calls registered `fPtr` under `fId`, and did not throw. -/
def Succeeded (calls : List (TableCall F)) (fId : UInt32) (fPtr : Option F) : Prop :=
  ∃ before rest, calls = before ++ .addFunc fId fPtr :: rest ∧
    (after before).answer (.addFunc fId fPtr) = .returned

/-- What registering and looking up should do in a run. -/
structure BehavesAsTable (calls : List (TableCall F)) : Prop where
  /-- `addFunc` throws if and only if an earlier one for its id succeeded. -/
  added : ∀ before fId fPtr rest, calls = before ++ .addFunc fId fPtr :: rest →
    ((∃ e, (after before).answer (.addFunc fId fPtr) = .thrown e) ↔ ∃ fPtr', Succeeded before fId fPtr')
  /-- `getFuncObj` returns what was registered, or null. -/
  found : ∀ before fId rest, calls = before ++ .getFuncObj fId :: rest →
    (∀ fPtr, Succeeded before fId fPtr → (after before).answer (.getFuncObj fId) = .object fPtr) ∧
    ((∀ fPtr, ¬ Succeeded before fId fPtr) → (after before).answer (.getFuncObj fId) = .object none)
  /-- Without a lookup, all calls behind it end as with it. -/
  silent : ∀ before fId rest, calls = before ++ .getFuncObj fId :: rest →
    outcomes (after (before ++ [.getFuncObj fId])) rest = outcomes (after before) rest

/-- An id that was looked up before it is registered had been registered before. -/
def AddedBefore (before : List (TableCall F)) : TableCall F → Prop
  | .addFunc fId _ => .getFuncObj fId ∈ before → ∃ fPtr, .addFunc fId fPtr ∈ before
  | .getFuncObj _ => True

/-! ## The reference map -/

/-- The first registration of an id stays; lookups change nothing. -/
def registryStep (m : UInt32 → Option (Option F)) : TableCall F → UInt32 → Option (Option F)
  | .addFunc fId fPtr => if (m fId).isNone then Function.update m fId (some fPtr) else m
  | .getFuncObj _ => m

/-- The exception of a second registration. -/
def registered (fId : UInt32) : Exception :=
  match format "The function: \x7b\x7d has been registered!" [toString fId.toNat] with
  | .ok what => .logicError what
  | .error e => e

def registryAnswer (m : UInt32 → Option (Option F)) : TableCall F → Answer F
  | .addFunc fId _ => if (m fId).isNone then .returned else .thrown (registered fId)
  | .getFuncObj fId => .object (m fId).join

/-- The map after the calls `calls`. -/
def registry (calls : List (TableCall F)) : UInt32 → Option (Option F) :=
  run registryStep (fun _ => none) calls

/-! ## One call -/

/-- The table holds what the map holds, and null pointers under ids that were looked up only. -/
structure Refines (calls : List (TableCall F)) (g : Functions F) (m : UInt32 → Option (Option F)) : Prop where
  filed : ∀ fId fPtr, m fId = some fPtr → g.fTable.lookup fId = some fPtr
  free : ∀ fId, m fId = none → fId ∈ g.fTable → g.fTable.lookup fId = some none ∧ .getFuncObj fId ∈ calls
  unknown : ∀ fId, m fId = none → ∀ fPtr, .addFunc fId fPtr ∉ calls

section Calls
variable {calls : List (TableCall F)} {g : Functions F} {m : UInt32 → Option (Option F)} {fId : UInt32}

theorem refines_init : Refines ([] : List (TableCall F)) init fun _ => none := by
  refine ⟨?_, ?_, ?_⟩
  · intro fId fPtr h
    cases h
  · intro fId _ hmem
    exact absurd hmem (Finmap.notMem_empty)
  · intro fId _ fPtr
    exact List.not_mem_nil

theorem call_addFunc_mem (h : fId ∈ g.fTable) (fPtr : Option F) :
    g.call (.addFunc fId fPtr) = (.thrown (registered fId), g) := by
  have hthrow : g.addFunc fId fPtr = .error (registered fId) := by
    rw [addFunc, if_pos h, registered]
    cases format "The function: \x7b\x7d has been registered!" [toString fId.toNat] <;> rfl
  rw [call, hthrow]

theorem call_addFunc_notMem (h : fId ∉ g.fTable) (fPtr : Option F) :
    g.call (.addFunc fId fPtr) = (.returned, { g with fTable := g.fTable.insert fId fPtr }) := by
  simp only [call, addFunc, if_neg h]

theorem call_getFuncObj_mem {fPtr : Option F} (h : g.fTable.lookup fId = some fPtr) :
    g.call (.getFuncObj fId) = (.object fPtr, g) := by
  simp only [call, getFunctionObject, h]

theorem call_getFuncObj_notMem (h : fId ∉ g.fTable) :
    g.call (.getFuncObj fId) = (.object none, { g with fTable := g.fTable.insert fId none }) := by
  simp only [call, getFunctionObject, Finmap.lookup_eq_none.mpr h]

theorem mem_calls_concat {c c' : TableCall F} : c ∈ calls ++ [c'] ↔ c ∈ calls ∨ c = c' := by
  rw [List.mem_append, List.mem_singleton]

/-- A call that changes neither the table nor the map: it does not register a new id. -/
theorem refines_same (h : Refines calls g m) {c : TableCall F}
    (hc : ∀ fId fPtr, c = .addFunc fId fPtr → m fId ≠ none) : Refines (calls ++ [c]) g m := by
  refine ⟨h.filed, ?_, ?_⟩
  · intro id hid hin
    exact ⟨(h.free id hid hin).1, mem_calls_concat.mpr (.inl (h.free id hid hin).2)⟩
  · intro id hid fPtr hadd
    rcases mem_calls_concat.mp hadd with hadd | rfl
    · exact h.unknown id hid fPtr hadd
    · exact hc id fPtr rfl hid

theorem refines_add (h : Refines calls g m) (fId : UInt32) (fPtr : Option F) :
    Refines (calls ++ [.addFunc fId fPtr]) { g with fTable := g.fTable.insert fId fPtr }
      (Function.update m fId (some fPtr)) := by
  refine ⟨?_, ?_, ?_⟩
  · intro id p hid
    by_cases heq : id = fId
    · subst heq
      rw [Function.update_self] at hid
      rw [Finmap.lookup_insert, hid]
    · rw [Function.update_of_ne heq] at hid
      rw [Finmap.lookup_insert_of_ne _ heq, h.filed id p hid]
  all_goals
    intro id hid
    have hne : id ≠ fId := by
      rintro rfl
      rw [Function.update_self] at hid
      cases hid
    rw [Function.update_of_ne hne] at hid
  · intro hin
    have hold := h.free id hid ((Finmap.mem_insert.mp hin).resolve_left hne)
    rw [Finmap.lookup_insert_of_ne _ hne]
    exact ⟨hold.1, mem_calls_concat.mpr (.inl hold.2)⟩
  · intro p hadd
    rcases mem_calls_concat.mp hadd with hadd | hadd
    · exact h.unknown id hid p hadd
    · exact hne (TableCall.addFunc.inj hadd).1

/-- The null pointer that a lookup files. -/
theorem refines_null (h : Refines calls g m) (hm : m fId = none) :
    Refines (calls ++ [.getFuncObj fId]) { g with fTable := g.fTable.insert fId none } m := by
  refine ⟨?_, ?_, ?_⟩
  · intro id p hid
    have hne : id ≠ fId := by
      rintro rfl
      rw [hm] at hid
      cases hid
    rw [Finmap.lookup_insert_of_ne _ hne]
    exact h.filed id p hid
  · intro id hid hin
    by_cases heq : id = fId
    · subst heq
      exact ⟨Finmap.lookup_insert _, mem_calls_concat.mpr (.inr rfl)⟩
    · have hold := h.free id hid ((Finmap.mem_insert.mp hin).resolve_left heq)
      rw [Finmap.lookup_insert_of_ne _ heq]
      exact ⟨hold.1, mem_calls_concat.mpr (.inl hold.2)⟩
  · intro id hid p hadd
    rcases mem_calls_concat.mp hadd with hadd | hadd
    · exact h.unknown id hid p hadd
    · cases hadd

/-- **One call**: the table answers as the map does, and keeps up with it. -/
theorem call_refines (h : Refines calls g m) {c : TableCall F} (hc : AddedBefore calls c) :
    g.answer c = registryAnswer m c ∧ Refines (calls ++ [c]) (g.step c) (registryStep m c) := by
  cases c with
  | addFunc fId fPtr =>
    cases hm : m fId with
    | some fPtr' =>
      have hcall := call_addFunc_mem (Finmap.mem_iff.mpr ⟨fPtr', h.filed fId fPtr' hm⟩) fPtr
      simp only [answer, step, hcall, registryAnswer, registryStep, hm, Option.isNone_some,
        Bool.false_eq_true, if_false, true_and]
      refine refines_same h fun id p hadd => ?_
      obtain ⟨rfl, -⟩ := TableCall.addFunc.inj hadd
      simp [hm]
    | none =>
      -- no lookup can have filed a null pointer under the id
      have hfree : fId ∉ g.fTable := by
        intro hin
        obtain ⟨p, hadd⟩ := hc (h.free fId hm hin).2
        exact h.unknown fId hm p hadd
      simp only [answer, step, call_addFunc_notMem hfree fPtr, registryAnswer, registryStep, hm,
        Option.isNone_none, if_true, true_and]
      exact refines_add h fId fPtr
  | getFuncObj fId =>
    by_cases hin : fId ∈ g.fTable
    · obtain ⟨fPtr, hlook⟩ := Finmap.mem_iff.mp hin
      have hjoin : (m fId).join = fPtr := by
        cases hm : m fId with
        | some p => exact Option.some.inj ((h.filed fId p hm).symm.trans hlook)
        | none => exact Option.some.inj ((h.free fId hm hin).1.symm.trans hlook)
      simp only [answer, step, call_getFuncObj_mem hlook, registryAnswer, registryStep, hjoin, true_and]
      exact refines_same h fun id p hadd => by cases hadd
    · have hm : m fId = none := by
        by_contra hne
        obtain ⟨p, hp⟩ := Option.ne_none_iff_exists'.mp hne
        exact hin (Finmap.mem_iff.mpr ⟨p, h.filed fId p hp⟩)
      simp only [answer, step, call_getFuncObj_notMem hin, registryAnswer, registryStep, hm,
        Option.join_none, true_and]
      exact refines_null h hm

end Calls

/-! ## Runs -/

section Runs
variable {calls : List (TableCall F)}

/-- The table refines the map after every run. -/
theorem refines_run (h : Throughout AddedBefore calls) : Refines calls (after calls) (registry calls) := by
  induction calls using List.reverseRecOn with
  | nil => exact refines_init
  | append_singleton calls c ih =>
    obtain ⟨hcalls, hc⟩ := throughout_concat.mp h
    rw [after, registry, run_append, run_append]
    exact (call_refines (ih hcalls) hc).2

theorem succeeded_concat {c : TableCall F} {fId : UInt32} {fPtr : Option F} :
    Succeeded (calls ++ [c]) fId fPtr ↔
      Succeeded calls fId fPtr ∨ c = .addFunc fId fPtr ∧ (after calls).answer c = .returned := by
  constructor
  · rintro ⟨before, rest, heq, hret⟩
    rcases concat_eq_append_cons.mp heq with ⟨rfl, rfl, -⟩ | ⟨rest', -, hcalls⟩
    · exact .inr ⟨rfl, hret⟩
    · exact .inl ⟨before, rest', hcalls, hret⟩
  · rintro (⟨before, rest, hcalls, hret⟩ | ⟨rfl, hret⟩)
    · exact ⟨before, rest ++ [c], concat_eq_append_cons.mpr (.inr ⟨rest, rfl, hcalls⟩), hret⟩
    · exact ⟨calls, [], rfl, hret⟩

/-- The map holds the registrations that succeeded. -/
theorem succeeded_iff (h : Throughout AddedBefore calls) (fId : UInt32) (fPtr : Option F) :
    Succeeded calls fId fPtr ↔ registry calls fId = some fPtr := by
  induction calls using List.reverseRecOn with
  | nil =>
    refine ⟨?_, fun hnone => by cases hnone⟩
    rintro ⟨before, rest, heq, -⟩
    exact absurd heq (by simp)
  | append_singleton calls c ih =>
    obtain ⟨hcalls, hc⟩ := throughout_concat.mp h
    have hanswer := (call_refines (refines_run hcalls) hc).1
    have hregistry : registry (calls ++ [c]) = registryStep (registry calls) c := by
      rw [registry, run_append]
      rfl
    rw [succeeded_concat, ih hcalls, hregistry, hanswer]
    cases c with
    | getFuncObj id => simp [registryStep]
    | addFunc id p =>
      cases hm : registry calls id with
      | some p' => simp [registryStep, registryAnswer, hm]
      | none =>
        by_cases heq : fId = id
        · subst heq
          simp [registryStep, registryAnswer, hm]
        · simp [registryStep, heq, Ne.symm heq, hm]

/-- A run answers as the map does. -/
theorem outcomes_eq_registry (rest : List (TableCall F)) {g : Functions F}
    {m : UInt32 → Option (Option F)} (h : Refines calls g m)
    (hc : ∀ before c rest', rest = before ++ c :: rest' → AddedBefore (calls ++ before) c) :
    outcomes g rest = answers registryStep (fun m c => [registryAnswer m c]) m rest := by
  induction rest generalizing calls g m with
  | nil => rfl
  | cons c rest ih =>
    have hfirst : AddedBefore calls c := by
      simpa using hc [] c rest rfl
    obtain ⟨hanswer, hrest⟩ := call_refines h hfirst
    rw [outcomes, answers, answers, hanswer]
    congr 1
    apply ih hrest
    rintro before c' rest' rfl
    rw [List.append_assoc]
    exact hc (c :: before) c' rest' rfl

/-- Nothing is taken out of the table. -/
theorem mem_step {g : Functions F} {fId : UInt32} (h : fId ∈ g.fTable) (c : TableCall F) :
    fId ∈ (g.step c).fTable := by
  cases c with
  | addFunc id fPtr =>
    by_cases hin : id ∈ g.fTable
    · rw [step, call_addFunc_mem hin]
      exact h
    · rw [step, call_addFunc_notMem hin]
      exact Finmap.mem_insert.mpr (.inr h)
  | getFuncObj id =>
    by_cases hin : id ∈ g.fTable
    · obtain ⟨fPtr, hlook⟩ := Finmap.mem_iff.mp hin
      rw [step, call_getFuncObj_mem hlook]
      exact h
    · rw [step, call_getFuncObj_notMem hin]
      exact Finmap.mem_insert.mpr (.inr h)

/-- A lookup leaves an entry behind. -/
theorem mem_of_getFuncObj {fId : UInt32} (h : .getFuncObj fId ∈ calls) : fId ∈ (after calls).fTable := by
  induction calls using List.reverseRecOn with
  | nil => cases h
  | append_singleton calls c ih =>
    rw [after, run_append]
    show fId ∈ ((after calls).step c).fTable
    rcases mem_calls_concat.mp h with h | rfl
    · exact mem_step (ih h) c
    · by_cases hin : fId ∈ (after calls).fTable
      · exact mem_step hin _
      · rw [step, call_getFuncObj_notMem hin]
        exact Finmap.mem_insert.mpr (.inl rfl)

theorem behavesAsTable_of_addedBefore (h : Throughout AddedBefore calls) : BehavesAsTable calls := by
  have hprefix : ∀ before c rest, calls = before ++ c :: rest →
      Throughout AddedBefore before ∧ (after before).answer c = registryAnswer (registry before) c := by
    rintro before c rest rfl
    obtain ⟨hbefore, hc⟩ := h.before
    exact ⟨hbefore, (call_refines (refines_run hbefore) hc).1⟩
  refine ⟨?_, ?_, ?_⟩
  · intro before fId fPtr rest heq
    obtain ⟨hbefore, hanswer⟩ := hprefix before _ rest heq
    rw [hanswer]
    simp only [succeeded_iff hbefore, registryAnswer]
    cases hm : registry before fId <;> simp
  · intro before fId rest heq
    obtain ⟨hbefore, hanswer⟩ := hprefix before _ rest heq
    rw [hanswer]
    simp only [succeeded_iff hbefore, registryAnswer]
    cases hm : registry before fId <;> simp
  · rintro before fId rest rfl
    obtain ⟨hbefore, -⟩ := hprefix before _ rest rfl
    have hget : Throughout AddedBefore (before ++ [.getFuncObj fId]) :=
      throughout_concat.mpr ⟨hbefore, trivial⟩
    have hsame : registry (before ++ [.getFuncObj fId]) = registry before := by
      rw [registry, run_append]
      rfl
    have hafter : ∀ before' c rest', rest = before' ++ c :: rest' →
        AddedBefore (before ++ .getFuncObj fId :: before') c := by
      rintro before' c rest' rfl
      exact h _ c rest' (by rw [List.append_assoc, List.cons_append])
    rw [outcomes_eq_registry rest (refines_run hget), hsame, outcomes_eq_registry rest (refines_run hbefore)]
    · intro before' c rest' heq
      have hc := hafter before' c rest' heq
      cases c with
      | getFuncObj id => trivial
      | addFunc id fPtr =>
        -- the lookup left out is no registration
        intro hin
        obtain ⟨p, hp⟩ := hc (by
          rcases List.mem_append.mp hin with hin | hin
          · exact List.mem_append_left _ hin
          · exact List.mem_append_right _ (List.mem_cons_of_mem _ hin))
        exact ⟨p, by simpa using hp⟩
    · intro before' c rest' heq
      rw [List.append_assoc]
      exact hafter before' c rest' heq

theorem addedBefore_of_behavesAsTable (h : BehavesAsTable calls) : Throughout AddedBefore calls := by
  rintro before c rest heq
  cases c with
  | getFuncObj fId => trivial
  | addFunc fId fPtr =>
    intro hget
    have hthrows : (after before).answer (.addFunc fId fPtr) = .thrown (registered fId) := by
      rw [answer, call_addFunc_mem (mem_of_getFuncObj hget)]
    obtain ⟨p, before', rest', rfl, -⟩ := (h.added before fId fPtr rest heq).mp ⟨_, hthrows⟩
    exact ⟨p, by simp⟩

end Runs

/-- **Exact condition of a table in which lookups leave no trace.** In a run of registrations and lookups
with any ids, `addFunc` throws exactly for ids that are registered, `getFuncObj` returns what was registered
or null, and no lookup changes how a later call ends, **iff** no id is registered for the first time after it
was looked up. -/
theorem behavesAsTable_iff (calls : List (TableCall F)) :
    BehavesAsTable calls ↔ Throughout AddedBefore calls :=
  ⟨addedBefore_of_behavesAsTable, behavesAsTable_of_addedBefore⟩

/-- The id is looked up first: the only registration throws. -/
theorem not_behavesAsTable_lookup_first : ¬ BehavesAsTable [.getFuncObj 0, .addFunc 0 (some "add")] := by
  intro h
  have hthrows := (h.added [.getFuncObj 0] 0 (some "add") [] rfl).mp ⟨_, rfl⟩
  obtain ⟨p, before, rest, heq, -⟩ := hthrows
  have hmem : TableCall.addFunc 0 p ∈ [TableCall.getFuncObj 0] := by
    rw [heq]
    exact List.mem_append_right _ List.mem_cons_self
  exact nomatch List.mem_singleton.mp hmem

end Functions
end Thallium
