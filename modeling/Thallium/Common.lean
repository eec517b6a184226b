import Mathlib.Algebra.Ring.Nat
import Mathlib.Data.List.Basic

/-!
# `format` and the exceptions (include/common.hpp, common.cpp)

The log and error texts of the program are built by `format`, which itself throws when braces
and arguments do not fit, so a handler that logs can raise. Arguments are the texts that
`operator<<` prints for them.

| here | there |
| --- | --- |
| `Exception`       | the exception classes the modelled code throws, with `what()` |
| `Fault`           | an exception, or undefined behaviour |
| `formatRest`      | `_format(ss, fmt, pos)`, no argument left (common.cpp:7) |
| `formatArg`       | the loop of `_format(ss, fmt, pos, t, args...)` (common.hpp:61-94) |
| `format`          | `format(fmt, args...)` (common.hpp:100) |
| `raising`, `log`  | what may throw, and the `TI_` logs (logging.hpp:34-57), in a handler |
-/
namespace Thallium

/-- Thrown objects: the class and `what()`. -/
inductive Exception where
  | runtimeError (what : String)
  | logicError (what : String)
  | lengthError (what : String)
  | formatError (what : String)
  | parameterError (what : String)
  | badArrayNewLength
  | badUserInput (what : String)
  deriving DecidableEq, Repr

/-- What stops a call: a thrown exception, or a step C++ gives no meaning. -/
inductive Fault where
  | thrown (e : Exception)
  | undefined
  deriving DecidableEq, Repr

/-- `__raise_left_brace_unmatch` (common.hpp:29). -/
def raiseLeftBraceUnmatch {α : Type} (fmt : String) : Except Exception α :=
  .error (.formatError ("Expecting '\x7b' in the brace pair: " ++ fmt))

/-- `__raise_right_brace_unmatch` (common.hpp:33). -/
def raiseRightBraceUnmatch {α : Type} (fmt : String) : Except Exception α :=
  .error (.formatError ("Expecting '\x7d' in the brace pair: " ++ fmt))

/-- `__raise_too_many_args` (common.hpp:48): the stream is opened on the text without `ate`, so
printing `t` overwrites its first characters. -/
def raiseTooManyArgs {α : Type} (t : String) : Except Exception α :=
  .error (.formatError (t ++ String.ofList ("Too many argumetns given: ".toList.drop t.length)))

/-- `_format` with no argument left (common.cpp:7). -/
def formatRest (fmt : String) : List Char → Except Exception (List Char)
  | [] => .ok []
  | ['{'] => raiseRightBraceUnmatch fmt
  | ['}'] => raiseLeftBraceUnmatch fmt
  | '{' :: '{' :: cs => (formatRest fmt cs).map ('{' :: ·)
  | '{' :: '}' :: _ => .error (.formatError ("Too many format positions '\x7b\x7d'" ++ fmt))
  | '{' :: _ :: _ => raiseRightBraceUnmatch fmt
  | '}' :: '}' :: cs => (formatRest fmt cs).map ('}' :: ·)
  | '}' :: _ :: _ => raiseLeftBraceUnmatch fmt
  | c :: cs => (formatRest fmt cs).map (c :: ·)

/-- The loop of `_format` while `t` waits for its position (common.hpp:64-93): the text up to and
including `t`, and what is left of the format string. A brace `{` before any other character is
skipped without a trace (`:69`, neither inner branch taken). -/
def formatArg (fmt t : String) : List Char → Except Exception (List Char × List Char)
  | [] => raiseTooManyArgs t
  | ['{'] => raiseRightBraceUnmatch fmt
  | ['}'] => raiseLeftBraceUnmatch fmt
  | '{' :: '{' :: cs => (formatArg fmt t cs).map fun r => ('{' :: r.1, r.2)
  | '{' :: '}' :: cs => .ok (t.toList, cs)
  | '{' :: c :: cs => formatArg fmt t (c :: cs)
  | '}' :: '}' :: cs => (formatArg fmt t cs).map fun r => ('}' :: r.1, r.2)
  | '}' :: _ :: _ => raiseLeftBraceUnmatch fmt
  | c :: cs => (formatArg fmt t cs).map fun r => (c :: r.1, r.2)

/-- The recursion of `_format` over the arguments (common.hpp:96). -/
def formatArgs (fmt : String) : List String → List Char → Except Exception (List Char)
  | [], cs => formatRest fmt cs
  | t :: ts, cs =>
    match formatArg fmt t cs with
    | .ok (out, rest) => (formatArgs fmt ts rest).map (out ++ ·)
    | .error e => .error e

/-- `format` (common.hpp:100). -/
def format (fmt : String) (args : List String) : Except Exception String :=
  (formatArgs fmt args fmt.toList).map String.ofList

/-- No character of it means anything to `format`. -/
def noBraces (text : String) : Bool := text.toList.all fun c => c != '{' && c != '}'

theorem ne_of_noBraces {text : String} (h : noBraces text = true) : ∀ c ∈ text.toList, c ≠ '{' ∧ c ≠ '}' := by
  intro c hc
  have hboth := List.all_eq_true.mp h c hc
  rw [Bool.and_eq_true, bne_iff_ne, bne_iff_ne] at hboth
  exact hboth

/-- Text up to a position, and the argument in its place. -/
theorem formatArg_text_position {cs : List Char} (h : ∀ c ∈ cs, c ≠ '{' ∧ c ≠ '}') (fmt t : String)
    (rest : List Char) : formatArg fmt t (cs ++ '{' :: '}' :: rest) = .ok (cs ++ t.toList, rest) := by
  induction cs with
  | nil => rfl
  | cons c cs ih =>
    have hc := h c List.mem_cons_self
    rw [List.cons_append, formatArg, ih fun d hd => h d (List.mem_cons_of_mem c hd)]
    · rfl
    all_goals simp [hc.1, hc.2]

/-- Text with one position behind it. -/
theorem format_text_position {fmt : String} (text t : String) (hfmt : fmt = text ++ "\x7b\x7d")
    (h : noBraces text = true) : format fmt [t] = .ok (text ++ t) := by
  subst hfmt
  have htext : (text ++ "\x7b\x7d").toList = text.toList ++ ['{', '}'] := by
    rw [String.toList_append]
    rfl
  rw [format, htext]
  simp only [formatArgs, formatArg_text_position (ne_of_noBraces h), formatRest, Except.map, List.append_nil]
  rw [← String.toList_append, String.ofList_toList]

/-- Two positions, the second at the end. -/
theorem format_two_positions {fmt : String} (text text' t t' : String)
    (hfmt : fmt = text ++ "\x7b\x7d" ++ text' ++ "\x7b\x7d") (h : noBraces text = true)
    (h' : noBraces text' = true) : format fmt [t, t'] = .ok (text ++ t ++ text' ++ t') := by
  subst hfmt
  have htext : (text ++ "\x7b\x7d" ++ text' ++ "\x7b\x7d").toList =
      text.toList ++ '{' :: '}' :: (text'.toList ++ ['{', '}']) := by
    simp only [String.toList_append, List.append_assoc]
    rfl
  rw [format, htext]
  simp only [formatArgs, formatArg_text_position (ne_of_noBraces h), formatArg_text_position (ne_of_noBraces h'),
    formatRest, Except.map, List.append_nil, List.append_assoc]
  simp only [← String.toList_append, String.ofList_toList, String.append_assoc]

example : format "Worker \x7b\x7d registered." ["3"] = .ok "Worker 3 registered." := by decide

/-! ## Handlers -/

section Handlers
variable {ε σ α β : Type}

/-- What may throw, in a handler. -/
def raising (r : Except Exception α) : EStateM Exception σ α :=
  match r with
  | .ok a => pure a
  | .error e => throw e

/-- A `TI_` log of a formatted text. -/
def log (fmt : String) (args : List String) : EStateM Exception σ Unit :=
  match format fmt args with
  | .ok _ => pure ()
  | .error e => throw e

@[simp] theorem get_bind_apply (f : σ → EStateM ε σ α) (s : σ) :
    ((get : EStateM ε σ σ) >>= f) s = f s s := rfl

@[simp] theorem modify_apply (g : σ → σ) (s : σ) :
    (modify g : EStateM ε σ PUnit) s = .ok () (g s) := rfl

@[simp] theorem modify_bind_apply (g : σ → σ) (h : PUnit → EStateM ε σ α) (s : σ) :
    ((modify g : EStateM ε σ PUnit) >>= h) s = h () (g s) := rfl

@[simp] theorem pure_apply (a : α) (s : σ) : (pure a : EStateM ε σ α) s = .ok a s := rfl

@[simp] theorem throw_apply (e : ε) (s : σ) : (throw e : EStateM ε σ α) s = .error e s := rfl

@[simp] theorem pure_bind_apply (a : β) (h : β → EStateM ε σ α) (s : σ) :
    ((pure a : EStateM ε σ β) >>= h) s = h a s := rfl

theorem bind_apply {x : EStateM ε σ α} {a : α} {s s' : σ} (h : x s = .ok a s')
    (f : α → EStateM ε σ β) : (x >>= f) s = f a s' := by
  simp only [bind, EStateM.bind, h]

theorem bind_error_apply {x : EStateM ε σ α} {e : ε} {s s' : σ} (h : x s = .error e s')
    (f : α → EStateM ε σ β) : (x >>= f) s = .error e s' := by
  simp only [bind, EStateM.bind, h]

theorem raising_bind_apply {r : Except Exception β} {a : β} (hr : r = .ok a)
    (h : β → EStateM Exception σ α) (s : σ) : (raising r >>= h) s = h a s := by
  rw [hr]
  rfl

/-- A log whose text can be formatted does nothing. -/
theorem log_bind_apply {fmt : String} {args : List String} {h : Unit → EStateM Exception σ α} {s : σ}
    (hlog : (log fmt args : EStateM Exception σ Unit) = pure ()) : (log fmt args >>= h) s = h () s := by
  rw [hlog, pure_bind_apply]

end Handlers

/-! ## Counters and lists -/

/-- Below 2^32 an `unsigned int` that counts up does not come back. -/
theorem ofNat_injOn {i j : Nat} (hi : i < 2 ^ 32) (hj : j < 2 ^ 32)
    (h : UInt32.ofNat i = UInt32.ofNat j) : i = j := by
  have hnat := congrArg UInt32.toNat h
  rwa [UInt32.toNat_ofNat_of_lt' hi, UInt32.toNat_ofNat_of_lt' hj] at hnat

theorem ne_concat {α : Type} {l : List α} {x : α} : l ≠ l ++ [x] := by
  intro h
  simpa using congrArg List.length h

/-- What stands at a position of a list that has been appended to. -/
theorem getElem?_concat_eq_some {α : Type} {l : List α} {x y : α} {i : Nat} :
    (l ++ [x])[i]? = some y ↔ l[i]? = some y ∨ i = l.length ∧ x = y := by
  rcases Nat.lt_trichotomy i l.length with hi | hi | hi
  · rw [List.getElem?_append_left hi]
    simp [Nat.ne_of_lt hi]
  · subst hi
    simp
  · have hnone : l[i]? = none := List.getElem?_eq_none (Nat.le_of_lt hi)
    have hnone' : (l ++ [x])[i]? = none := List.getElem?_eq_none (by simp; omega)
    simp [hnone, hnone', Nat.ne_of_gt hi]

section Forall₂
variable {α β : Type} {R : α → β → Prop}

theorem forall₂_getElem? {as : List α} {bs : List β} (h : List.Forall₂ R as bs) {i : Nat} {a : α} {b : β}
    (ha : as[i]? = some a) (hb : bs[i]? = some b) : R a b := by
  induction h generalizing i with
  | nil => cases ha
  | cons hab _ ih =>
    cases i with
    | zero =>
      obtain rfl := Option.some.inj ha
      obtain rfl := Option.some.inj hb
      exact hab
    | succ i => exact ih ha hb

theorem forall₂_eraseIdx {as : List α} {bs : List β} (h : List.Forall₂ R as bs) (i : Nat) :
    List.Forall₂ R (as.eraseIdx i) (bs.eraseIdx i) := by
  induction h generalizing i with
  | nil => exact .nil
  | cons hab hrest ih =>
    cases i with
    | zero => exact hrest
    | succ i => exact .cons hab (ih i)

/-- One element of the first list may change, if it still fits the one beside it. -/
theorem forall₂_set {as : List α} {bs : List β} (h : List.Forall₂ R as bs) {i : Nat} {a : α}
    (ha : ∀ b, bs[i]? = some b → R a b) : List.Forall₂ R (as.set i a) bs := by
  induction h generalizing i with
  | nil => exact .nil
  | cons hab hrest ih =>
    cases i with
    | zero => exact .cons (ha _ rfl) hrest
    | succ i => exact .cons hab (ih ha)

end Forall₂

end Thallium
