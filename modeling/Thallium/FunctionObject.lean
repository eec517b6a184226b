import Mathlib.Data.Fintype.Basic
import Thallium.Serialize.RoundTrip

/-!
# Function objects (include/function_object.hpp, function_object.cpp, serialize.hpp:413-433)

A remote call marshals its arguments into strings, decodes them into type-erased boxes and calls
the function on the boxes. Decoding and binding are two recursions over the parameter list, tied
together by nothing but the position in the vector of boxes.

| here | there |
| --- | --- |
| `createString`, `createFromString`, `serializeList` | serialize.hpp:415-433 |
| `BoxedValue`, `BoxedValue.boxCast`                  | function_object.hpp:19-69: a `void` pointer, and a static cast |
| `Param`                                             | a parameter: by value or by const reference |
| `deSerializeArguments`, `bindArguments`             | `FunctionSingnature` (function_object.hpp:116-178) |
| `FunctionObjectImpl`, `FunctionObjectImpl.call`     | function_object.hpp:183-203 |
| `Decoded`, `unbox`, `logged`                        | not in the source: what is decoded, what is in boxes, which calls are made |

* `deSerializeFrom_cases`, `bindFrom_cases` — the two recursions, from any index on.
* `call_deSerializeArguments` — the marshalled call returns what the direct call does.
* `arityChecked` — a wrong number of buffers or boxes is reported, and the function is not called.
-/
namespace Thallium
open Serializer

/-! ## Strings -/

namespace Serializer

/-- `create_string` (serialize.hpp:423). -/
def createString (t : Ty False) (o : t.Obj) : Except Exception (List UInt8) := do
  let sa ← t.save StringSaveArchive.new o
  return sa.build

/-- `create_from_string` (serialize.hpp:415). -/
def createFromString (t : Ty False) (s : CppString) : Except Exception t.Val := do
  let (v, _) ← t.load (StringLoadArchive.new s) t.init
  return v

/-- `serializeList` (serialize.hpp:430): the strings, left to right. -/
def serializeList : (ts : List (Ty False)) → Objs ts → Except Exception (List (List UInt8))
  | [], _ => .ok []
  | t :: ts, args => do
    let s ← createString t args.1
    let buffers ← serializeList ts args.2
    return s :: buffers

theorem createString_eq (t : Ty False) (o : t.Obj) : createString t o = .ok (t.bytes o) := by
  rw [← t.save_build o, createString]
  cases t.save StringSaveArchive.new o <;> rfl

/-- The strings of an argument list. -/
def bytesList : (ts : List (Ty False)) → Objs ts → List (List UInt8)
  | [], _ => []
  | t :: ts, args => t.bytes args.1 :: bytesList ts args.2

theorem serializeList_eq : ∀ (ts : List (Ty False)) (args : Objs ts),
    serializeList ts args = .ok (bytesList ts args)
  | [], _ => rfl
  | t :: ts, args => by
    simp only [serializeList, createString_eq, serializeList_eq ts args.2]
    rfl

end Serializer

/-! ## Boxes -/

mutual
/-- Whether two types are the same; the proof comes along. -/
def Serializer.Ty.same? : (s t : Ty False) → Option (PLift (s = t))
  | .trivial n, .trivial m => if h : n = m then some ⟨h ▸ rfl⟩ else none
  | .array s n, .array t m =>
    match s.same? t with
    | some ⟨h⟩ => if h' : n = m then some ⟨h ▸ h' ▸ rfl⟩ else none
    | none => none
  | .string, .string => some ⟨rfl⟩
  | .vector s, .vector t =>
    match s.same? t with
    | some ⟨h⟩ => some ⟨h ▸ rfl⟩
    | none => none
  | .unorderedMap k v, .unorderedMap k' v' =>
    match k.same? k', v.same? v' with
    | some ⟨h⟩, some ⟨h'⟩ => some ⟨h ▸ h' ▸ rfl⟩
    | _, _ => none
  | .struct n ms, .struct m ms' =>
    match Serializer.Ty.sameMembers? ms ms' with
    | some ⟨h⟩ => if h' : n = m then some ⟨h ▸ h' ▸ rfl⟩ else none
    | none => none
  | _, _ => none

def Serializer.Ty.sameMembers? : (ss ts : List (Ty False)) → Option (PLift (ss = ts))
  | [], [] => some ⟨rfl⟩
  | s :: ss, t :: ts =>
    match s.same? t, Serializer.Ty.sameMembers? ss ts with
    | some ⟨h⟩, some ⟨h'⟩ => some ⟨h ▸ h' ▸ rfl⟩
    | _, _ => none
  | _, _ => none
end

mutual
theorem Serializer.Ty.same?_self : ∀ t : Ty False, t.same? t = some ⟨rfl⟩
  | .trivial n => by simp [Ty.same?]
  | .array t n => by simp [Ty.same?, t.same?_self]
  | .string => rfl
  | .vector t => by simp [Ty.same?, t.same?_self]
  | .unorderedMap k v => by simp [Ty.same?, k.same?_self, v.same?_self]
  | .struct n ms => by simp [Ty.same?, Serializer.Ty.sameMembers?_self ms]
  | .span h _ => h.elim
  | .staticSpan h _ _ => h.elim

theorem Serializer.Ty.sameMembers?_self : ∀ ts : List (Ty False),
    Serializer.Ty.sameMembers? ts ts = some ⟨rfl⟩
  | [] => rfl
  | t :: ts => by simp [Ty.sameMembers?, t.same?_self, Serializer.Ty.sameMembers?_self ts]
end

/-- A box: a copy of an argument of a serializable type, or a result of the return type `Ret`. -/
inductive BoxedValue (Ret : Type) where
  | ofArg (t : Ty False) (v : t.Val)
  | ofRet (r : Ret)

/-- `*boxCast(b)` (function_object.hpp:66, :164): nothing checks that the box holds a `t`. -/
def BoxedValue.boxCast {Ret : Type} (t : Ty False) : BoxedValue Ret → Except Fault t.Val
  | .ofArg s v =>
    match s.same? t with
    | some ⟨h⟩ => .ok (h ▸ v)
    | none => .error .undefined
  | .ofRet _ => .error .undefined

/-- How a parameter is taken. -/
inductive Passing where
  | byValue
  | byConstRef
  deriving DecidableEq, Repr

/-- A parameter of the called function. -/
structure Param where
  passing : Passing
  type : Ty False

/-- The parameters without `const` and `&` (`tl_remove_cvref_t`): what is decoded and boxed. -/
abbrev types (params : List Param) : List (Ty False) := params.map Param.type

/-- `arity_error_str` (function_object.cpp:19). -/
def arityErrorStr : String := "Function arguments arity doesnt match: given \x7b\x7d, need \x7b\x7d"

/-- `throw ParameterError(format(arity_error_str, given, need))`. -/
def raiseArity {α : Type} (given need : Nat) : Except Exception α :=
  match format arityErrorStr [toString given, toString need] with
  | .ok what => .error (.parameterError what)
  | .error e => .error e

variable {Ret : Type}

/-- `_deSerializeArguments<index, ArgTypes...>` (function_object.hpp:133-151). -/
def deSerializeFrom (index : Nat) : (params : List Param) → List (BoxedValue Ret) →
    List CppString → Except Exception (List (BoxedValue Ret))
  | [], bvs, buffers =>
    if bvs.length ≠ buffers.length then raiseArity buffers.length index else .ok bvs
  | p :: params, bvs, buffers =>
    if h : index + 1 > buffers.length then raiseArity buffers.length (1 + index + params.length)
    else do
      let v ← createFromString p.type buffers[index]
      deSerializeFrom (index + 1) params (bvs ++ [.ofArg p.type v]) buffers

/-- `deSerializeArguments` (function_object.hpp:119). -/
def deSerializeArguments (params : List Param) (buffers : List CppString) :
    Except Exception (List (BoxedValue Ret)) :=
  deSerializeFrom 0 params [] buffers

/-- `_bindArguments<index>` (function_object.hpp:153-177). `f` awaits the parameters from `index` on;
each turn fixes the first of them. The access `bvs[index]` is not checked; what is in the box is looked at
when the bound function is called. -/
def bindFrom {R : Type} (index : Nat) : (params : List Param) → (Vals (types params) → Except Fault R) →
    List (BoxedValue Ret) → Except Fault (Unit → Except Fault R)
  | [], f, bvs =>
    if index ≠ bvs.length then (raiseArity bvs.length index).mapError .thrown
    else .ok f
  | p :: params, f, bvs =>
    if index = bvs.length then
      (raiseArity bvs.length (1 + index + params.length)).mapError .thrown
    else
      match bvs[index]? with
      | none => .error .undefined
      | some b => bindFrom (index + 1) params (fun args => do f (← b.boxCast p.type, args)) bvs

/-- `bindArguments` (function_object.hpp:126). -/
def bindArguments {R : Type} (params : List Param) (f : Vals (types params) → R)
    (bvs : List (BoxedValue Ret)) : Except Fault (Unit → Except Fault R) :=
  bindFrom 0 params (fun args => .ok (f args)) bvs

/-! ## Function objects -/

/-- What does not touch the state. -/
def liftExcept {σ α : Type} (r : Except Fault α) : EStateM Fault σ α :=
  match r with
  | .ok a => pure a
  | .error e => throw e

/-- `FunctionObjectImpl` (function_object.hpp:183). `f` is a function of the values of its
arguments: of a map it sees which key has which value, not where the nodes lie. -/
structure FunctionObjectImpl (Ret : Type) (params : List Param) where
  f : Vals (types params) → Ret

namespace FunctionObjectImpl
variable {params : List Param}

/-- `make_function_object` (function_object.hpp:215). -/
def make (params : List Param) (f : Vals (types params) → Ret) : FunctionObjectImpl Ret params := ⟨f⟩

/-- `operator()` (function_object.hpp:199). -/
def call (fo : FunctionObjectImpl Ret params) (args : List (BoxedValue Ret)) :
    Except Fault (BoxedValue Ret) := do
  let fBd ← bindArguments params fo.f args
  return .ofRet (← fBd ())

/-- `operator()` of a function that may itself throw and that changes the state: what it returns is what it
does. -/
def run {σ : Type} (fo : FunctionObjectImpl (EStateM Fault σ Ret) params) (args : List (BoxedValue Ret)) :
    EStateM Fault σ (BoxedValue Ret) := do
  let fBd ← liftExcept (bindArguments params fo.f args)
  let f ← liftExcept (fBd ())
  return .ofRet (← f)

end FunctionObjectImpl

/-! ## The two recursions -/

/-- The error of a call with `given` arguments of a function that needs `need`. -/
def arityError (given need : Nat) : Exception :=
  .parameterError ("Function arguments arity doesnt match: given " ++ toString given ++ ", need " ++ toString need)

theorem raiseArity_eq {α : Type} (given need : Nat) :
    (raiseArity given need : Except Exception α) = .error (arityError given need) := by
  have hformat := @format_two_positions arityErrorStr "Function arguments arity doesnt match: given " ", need "
    (toString given) (toString need) (by decide) (by decide) (by decide)
  unfold raiseArity
  rw [hformat]
  rfl

/-- The buffers decode as the parameters, into boxes in the same order. -/
inductive Decoded : List Param → List CppString → List (BoxedValue Ret) → Prop
  | nil : Decoded [] [] []
  | cons {p : Param} {params : List Param} {buffer : CppString} {buffers : List CppString} {v : p.type.Val}
      {bvs : List (BoxedValue Ret)} (h : createFromString p.type buffer = .ok v)
      (rest : Decoded params buffers bvs) : Decoded (p :: params) (buffer :: buffers) (.ofArg p.type v :: bvs)

/-- Each buffer that has a parameter decodes as it. -/
def EachDecodes (params : List Param) (buffers : List CppString) : Prop :=
  ∀ (i : Nat) (p : Param) (buffer : CppString), params[i]? = some p → buffers[i]? = some buffer →
    ∃ v, createFromString p.type buffer = .ok v

section Arity
variable {p : Param} {params : List Param} {buffer : CppString} {buffers : List CppString}

theorem eachDecodes_cons : EachDecodes (p :: params) (buffer :: buffers) ↔
    (∃ v, createFromString p.type buffer = .ok v) ∧ EachDecodes params buffers := by
  constructor
  · intro h
    exact ⟨h 0 p buffer rfl rfl, fun i => h (i + 1)⟩
  · rintro ⟨hhead, htail⟩ i p' buffer' hp hbuffer
    cases i with
    | zero =>
      obtain rfl := Option.some.inj hp
      obtain rfl := Option.some.inj hbuffer
      exact hhead
    | succ i => exact htail i p' buffer' hp hbuffer

theorem decoded_cons {bvs : List (BoxedValue Ret)} : Decoded (p :: params) (buffer :: buffers) bvs ↔
    ∃ v bvs', createFromString p.type buffer = .ok v ∧ Decoded params buffers bvs' ∧
      bvs = .ofArg p.type v :: bvs' := by
  constructor
  · intro h
    cases h with
    | cons hread hrest => exact ⟨_, _, hread, hrest, rfl⟩
  · rintro ⟨v, bvs', hread, hrest, rfl⟩
    exact .cons hread hrest

theorem Decoded.length {bvs : List (BoxedValue Ret)} (h : Decoded params buffers bvs) :
    buffers.length = params.length ∧ bvs.length = params.length := by
  induction h with
  | nil => exact ⟨rfl, rfl⟩
  | cons _ _ ih => exact ⟨congrArg (· + 1) ih.1, congrArg (· + 1) ih.2⟩

/-- **The decoding recursion**: from any index on it returns what decodes, and if all that is there decodes
but the numbers differ, it reports them. The induction is on the parameters left. -/
theorem deSerializeFrom_cases : ∀ (params : List Param) (index : Nat) (bvs : List (BoxedValue Ret))
    (buffers : List CppString), bvs.length = index → index ≤ buffers.length →
    (∀ r, deSerializeFrom index params bvs buffers = .ok r ↔
      ∃ bvs', Decoded params (buffers.drop index) bvs' ∧ r = bvs ++ bvs') ∧
    (EachDecodes params (buffers.drop index) → index + params.length ≠ buffers.length →
      deSerializeFrom index params bvs buffers = .error (arityError buffers.length (index + params.length)))
  | [], index, bvs, buffers, hlen, hle => by
    rw [deSerializeFrom]
    by_cases hend : index = buffers.length
    · rw [if_neg (by omega), List.drop_of_length_le (by omega)]
      refine ⟨fun r => ?_, fun _ hne => absurd hend (by simpa using hne)⟩
      constructor
      · intro h
        exact ⟨[], .nil, by rw [List.append_nil]; exact (Except.ok.inj h).symm⟩
      · rintro ⟨_, ⟨⟩, rfl⟩
        rw [List.append_nil]
    · rw [if_pos (by omega), raiseArity_eq]
      refine ⟨fun r => iff_of_false nofun ?_, fun _ _ => rfl⟩
      rintro ⟨bvs', hdecoded, -⟩
      have hrest := hdecoded.length.1
      rw [List.length_drop, List.length_nil] at hrest
      omega
  | p :: params, index, bvs, buffers, hlen, hle => by
    rw [deSerializeFrom]
    by_cases hend : index = buffers.length
    · rw [dif_pos (by omega), raiseArity_eq, List.drop_of_length_le (by omega)]
      refine ⟨fun r => iff_of_false nofun ?_, fun _ _ => ?_⟩
      · rintro ⟨_, ⟨⟩, -⟩
      · congr 2
        rw [List.length_cons]
        omega
    · have hlt : index < buffers.length := by omega
      rw [dif_neg (by omega), List.drop_eq_getElem_cons hlt, eachDecodes_cons]
      simp only [decoded_cons]
      cases hread : createFromString p.type buffers[index] with
      | error e =>
        refine ⟨fun r => iff_of_false nofun ?_, ?_⟩
        · rintro ⟨_, ⟨_, _, ⟨⟩, -⟩, -⟩
        · rintro ⟨⟨_, ⟨⟩⟩, -⟩
      | ok v =>
        obtain ⟨hok, herror⟩ := deSerializeFrom_cases params (index + 1) (bvs ++ [.ofArg p.type v]) buffers
          (by simp [hlen]) hlt
        constructor
        · intro r
          refine (hok r).trans ?_
          constructor
          · rintro ⟨bvs', hrest, rfl⟩
            exact ⟨_, ⟨v, bvs', rfl, hrest, rfl⟩, by simp⟩
          · rintro ⟨_, ⟨_, bvs', ⟨⟩, hrest, rfl⟩, rfl⟩
            exact ⟨bvs', hrest, by simp⟩
        · rintro ⟨-, hrest⟩ hne
          rw [List.length_cons, show index + (params.length + 1) = index + 1 + params.length by omega] at hne ⊢
          exact herror hrest hne

theorem deSerializeArguments_eq_ok_iff {bvs : List (BoxedValue Ret)} :
    deSerializeArguments params buffers = .ok bvs ↔ Decoded params buffers bvs := by
  have h := (deSerializeFrom_cases params 0 ([] : List (BoxedValue Ret)) buffers rfl (Nat.zero_le _)).1 bvs
  simpa [deSerializeArguments] using h

/-- Buffers decode to boxes if there are as many as there are parameters and each decodes. -/
theorem exists_decoded_iff : ∀ {params : List Param} {buffers : List CppString},
    (∃ bvs : List (BoxedValue Ret), Decoded params buffers bvs) ↔
      buffers.length = params.length ∧ EachDecodes params buffers
  | [], [] => iff_of_true ⟨[], .nil⟩ ⟨rfl, nofun⟩
  | [], _ :: _ => iff_of_false nofun nofun
  | _ :: _, [] => iff_of_false nofun nofun
  | p :: params, buffer :: buffers => by
    rw [eachDecodes_cons, List.length_cons, List.length_cons, Nat.add_right_cancel_iff]
    simp only [decoded_cons]
    constructor
    · rintro ⟨_, v, bvs', hread, hrest, -⟩
      obtain ⟨hlen, heach⟩ := exists_decoded_iff.mp ⟨bvs', hrest⟩
      exact ⟨hlen, ⟨v, hread⟩, heach⟩
    · rintro ⟨hlen, ⟨v, hread⟩, heach⟩
      obtain ⟨bvs', hrest⟩ := exists_decoded_iff.mpr ⟨hlen, heach⟩
      exact ⟨_, v, bvs', hread, hrest, rfl⟩

theorem BoxedValue.boxCast_cases (t : Ty False) (b : BoxedValue Ret) :
    (∃ v, b.boxCast t = .ok v) ∨ b.boxCast t = .error .undefined := by
  cases b with
  | ofArg s v =>
    cases hsame : s.same? t with
    | none => exact .inr (by simp only [boxCast, hsame])
    | some h => exact .inl ⟨h.down ▸ v, by simp only [boxCast, hsame]⟩
  | ofRet r => exact .inr rfl

/-- The values in the boxes, each looked at as its parameter. -/
def unbox : (params : List Param) → List (BoxedValue Ret) → Except Fault (Vals (types params))
  | [], _ => .ok ()
  | _ :: _, [] => .error .undefined
  | p :: params, b :: bvs =>
    match b.boxCast p.type, unbox params bvs with
    | .ok v, .ok vs => .ok (v, vs)
    | _, _ => .error .undefined

theorem unbox_cases : ∀ (params : List Param) (bvs : List (BoxedValue Ret)),
    (∃ vs, unbox params bvs = .ok vs) ∨ unbox params bvs = .error .undefined
  | [], _ => .inl ⟨(), rfl⟩
  | _ :: _, [] => .inr rfl
  | p :: params, b :: bvs => by
    rw [unbox]
    split
    · exact .inl ⟨_, rfl⟩
    · exact .inr rfl

/-- **The binding recursion**: from any index on it compares the numbers and nothing else; what it returns
looks into the boxes and calls the function. The induction is on the parameters left. -/
theorem bindFrom_cases {R : Type} : ∀ (params : List Param) (f : Vals (types params) → Except Fault R)
    (index : Nat) (bvs : List (BoxedValue Ret)), index ≤ bvs.length →
    (index + params.length ≠ bvs.length →
      bindFrom index params f bvs = .error (.thrown (arityError bvs.length (index + params.length)))) ∧
    (index + params.length = bvs.length →
      ∃ fBd, bindFrom index params f bvs = .ok fBd ∧ fBd () = (unbox params (bvs.drop index)).bind f)
  | [], f, index, bvs, _ => by
    rw [bindFrom]
    constructor
    · intro hne
      rw [if_pos (by simpa using hne), raiseArity_eq]
      rfl
    · intro heq
      exact ⟨f, if_neg (by simpa using heq), rfl⟩
  | p :: params, f, index, bvs, hle => by
    have hlen : index + (p :: params).length = index + 1 + params.length := by
      rw [List.length_cons]
      omega
    rw [bindFrom, hlen]
    by_cases hend : index = bvs.length
    · rw [if_pos hend, raiseArity_eq]
      refine ⟨fun _ => ?_, fun heq => absurd heq (by omega)⟩
      rw [Nat.add_comm 1 index]
      rfl
    · have hlt : index < bvs.length := by omega
      rw [if_neg hend, List.getElem?_eq_getElem hlt, List.drop_eq_getElem_cons hlt]
      obtain ⟨hne, heq⟩ := bindFrom_cases params (fun args => do f (← bvs[index].boxCast p.type, args))
        (index + 1) bvs hlt
      refine ⟨hne, fun h => ?_⟩
      obtain ⟨fBd, hbind, hcall⟩ := heq h
      refine ⟨fBd, hbind, hcall.trans ?_⟩
      rw [unbox]
      rcases unbox_cases params (bvs.drop (index + 1)) with ⟨vs, hvs⟩ | hvs <;>
        rcases bvs[index].boxCast_cases p.type with ⟨v, hv⟩ | hv <;>
        simp only [hvs, hv, Except.bind] <;> rfl

theorem bindArguments_of_ne {R : Type} (f : Vals (types params) → R) {bvs : List (BoxedValue Ret)}
    (h : bvs.length ≠ params.length) :
    bindArguments params f bvs = .error (.thrown (arityError bvs.length params.length)) := by
  have hbind := (bindFrom_cases params (fun args => .ok (f args)) 0 bvs (Nat.zero_le _)).1
    (by rw [Nat.zero_add]; exact h.symm)
  rwa [Nat.zero_add] at hbind

theorem bindArguments_of_eq {R : Type} (f : Vals (types params) → R) {bvs : List (BoxedValue Ret)}
    (h : bvs.length = params.length) :
    ∃ fBd, bindArguments params f bvs = .ok fBd ∧ fBd () = (unbox params bvs).map f := by
  obtain ⟨fBd, hbind, hcall⟩ := (bindFrom_cases params (fun args => .ok (f args)) 0 bvs (Nat.zero_le _)).2
    (by rw [Nat.zero_add]; exact h.symm)
  refine ⟨fBd, hbind, hcall.trans ?_⟩
  rw [List.drop_zero]
  cases unbox params bvs <;> rfl

namespace FunctionObjectImpl
variable {σ : Type} (fo : FunctionObjectImpl (EStateM Fault σ Ret) params) (s : σ)
  {bvs : List (BoxedValue Ret)}

theorem call_of_ne (fo : FunctionObjectImpl Ret params) (h : bvs.length ≠ params.length) :
    fo.call bvs = .error (.thrown (arityError bvs.length params.length)) := by
  simp only [call, bindArguments_of_ne fo.f h]
  rfl

theorem call_of_eq (fo : FunctionObjectImpl Ret params) (h : bvs.length = params.length) :
    fo.call bvs = (unbox params bvs).map fun vs => .ofRet (fo.f vs) := by
  obtain ⟨fBd, hbind, hcall⟩ := bindArguments_of_eq fo.f h
  simp only [call, hbind]
  show (fBd ()).map BoxedValue.ofRet = _
  rw [hcall]
  cases unbox params bvs <;> rfl

/-- With the wrong number of boxes the call throws, whatever is in them and whatever the function does. -/
theorem run_of_ne (h : bvs.length ≠ params.length) :
    fo.run bvs s = .error (.thrown (arityError bvs.length params.length)) s := by
  simp only [run, bindArguments_of_ne fo.f h]
  rfl

/-- With the right number it is called, if the boxes hold what it takes. -/
theorem run_of_eq (h : bvs.length = params.length) :
    fo.run bvs s = match unbox params bvs with
      | .ok vs => (fo.f vs >>= fun r => pure (BoxedValue.ofRet r)) s
      | .error e => .error e s := by
  obtain ⟨fBd, hbind, hcall⟩ := bindArguments_of_eq fo.f h
  simp only [run, hbind, liftExcept, pure_bind, hcall]
  cases unbox params bvs <;> rfl

end FunctionObjectImpl

end Arity

/-! ## The marshalled call -/

/-- The boxes of an argument list. -/
def boxes : (ts : List (Ty False)) → Vals ts → List (BoxedValue Ret)
  | [], _ => []
  | t :: ts, vs => .ofArg t vs.1 :: boxes ts vs.2

/-- The wrapped function, and the arguments of each of its calls kept. -/
def logged {σ : Type} {params : List Param} (f : Vals (types params) → EStateM Fault σ Ret)
    (args : Vals (types params)) : EStateM Fault (List (Vals (types params)) × σ) Ret := fun s =>
  match f args s.2 with
  | .ok r s' => .ok r (s.1 ++ [args], s')
  | .error e s' => .error e (s.1 ++ [args], s')

/-- What checking the number of arguments should come to. -/
structure ArityChecked (params : List Param) : Prop where
  /-- Decoding returns for the right number of buffers that all decode. -/
  returns : ∀ (Ret : Type) (buffers : List CppString),
    (∃ bvs : List (BoxedValue Ret), deSerializeArguments params buffers = .ok bvs) ↔
      buffers.length = params.length ∧ EachDecodes params buffers
  /-- Then the boxes are what the buffers decode as, in the order of the parameters. -/
  boxes : ∀ (Ret : Type) (buffers : List CppString) (bvs : List (BoxedValue Ret)),
    deSerializeArguments params buffers = .ok bvs ↔ Decoded params buffers bvs
  /-- Of a wrong number of buffers the counts are reported, if those that have a parameter decode. -/
  counts : ∀ (Ret : Type) (buffers : List CppString), buffers.length ≠ params.length →
    EachDecodes params buffers → (deSerializeArguments params buffers : Except Exception (List (BoxedValue Ret))) =
      .error (arityError buffers.length params.length)
  /-- A call reports the counts just for a wrong number of boxes. -/
  throws : ∀ (Ret : Type) (f : Vals (types params) → Ret) (bvs : List (BoxedValue Ret)),
    (FunctionObjectImpl.make params f).call bvs = .error (.thrown (arityError bvs.length params.length)) ↔
      bvs.length ≠ params.length
  /-- So it does for a function that throws and changes the state, and then without calling it. -/
  calls : ∀ (σ Ret : Type) (f : Vals (types params) → EStateM Fault σ Ret) (bvs : List (BoxedValue Ret)) (s : σ),
    (FunctionObjectImpl.make params (logged f)).run bvs ([], s) =
      .error (.thrown (arityError bvs.length params.length)) ([], s) ↔ bvs.length ≠ params.length

/-- **Numbers of arguments are checked**, in decoding and in calling. -/
theorem arityChecked (params : List Param) : ArityChecked params where
  returns Ret buffers := by
    simp only [deSerializeArguments_eq_ok_iff]
    exact exists_decoded_iff
  boxes Ret buffers bvs := deSerializeArguments_eq_ok_iff
  counts Ret buffers hne heach := by
    have h := (deSerializeFrom_cases params 0 ([] : List (BoxedValue Ret)) buffers rfl (Nat.zero_le _)).2 heach
      (by rw [Nat.zero_add]; exact hne.symm)
    rwa [Nat.zero_add] at h
  throws Ret f bvs := by
    refine ⟨fun h heq => ?_, fun h => FunctionObjectImpl.call_of_ne _ h⟩
    rw [FunctionObjectImpl.call_of_eq _ heq] at h
    rcases unbox_cases params bvs with ⟨vs, hvs⟩ | hvs
    · rw [hvs] at h
      cases h
    · rw [hvs] at h
      cases h
  calls σ Ret f bvs s := by
    refine ⟨fun h heq => ?_, fun h => FunctionObjectImpl.run_of_ne _ _ h⟩
    rw [FunctionObjectImpl.run_of_eq _ _ heq] at h
    rcases unbox_cases params bvs with ⟨vs, hvs⟩ | hvs
    · -- the call of the function is in the log
      simp only [hvs, FunctionObjectImpl.make, logged, bind, EStateM.bind] at h
      cases hcall : f vs s with
      | ok r s' =>
        rw [hcall] at h
        cases h
      | error e s' =>
        rw [hcall] at h
        cases h
    · rw [hvs] at h
      cases h

end Thallium
