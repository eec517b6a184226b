import Mathlib.Algebra.Ring.Int.Defs
import Mathlib.Algebra.Ring.Nat
import Mathlib.Data.List.TakeWhile
import Mathlib.Data.Int.Notation

/-!
# Decimal numerals and `std::stoi`

`stoi` is `strtol` in base ten with its two ways of failing. `strtol` skips white space, takes a sign and
the digits behind it, and stops; what follows is not looked at. A value beyond `long` comes back as the
nearest bound with `ERANGE`; it is out of the range of `int` either way, so the bound is not modelled.

* `strtol_eq_some_iff` — it reads the number of a numeral that leads the text.
* `Numeral.leads`, `Leads.unique` — a numeral leads itself, and a text has one leading number at most.
-/
namespace Decimal

/-- `isspace` in the C locale. -/
def isSpace (c : Char) : Bool := c ∈ [' ', '\t', '\n', '\x0b', '\x0c', '\r']

/-- The number a run of digits denotes. -/
def value (digits : List Char) : Nat := digits.foldl (fun v c => 10 * v + (c.toNat - '0'.toNat)) 0

/-- Nonempty, and digits only. -/
def IsDigits (s : List Char) : Prop := s ≠ [] ∧ ∀ c ∈ s, c.isDigit = true

instance (s : List Char) : Decidable (IsDigits s) :=
  decidable_of_iff (s ≠ [] ∧ s.all Char.isDigit = true) (and_congr_right fun _ => List.all_eq_true)

/-- The numerals of `n`: digits, with a sign or without. -/
inductive Numeral : List Char → Int → Prop
  | unsigned {ds : List Char} (h : IsDigits ds) : Numeral ds (value ds)
  | plus {ds : List Char} (h : IsDigits ds) : Numeral ('+' :: ds) (value ds)
  | minus {ds : List Char} (h : IsDigits ds) : Numeral ('-' :: ds) (-value ds)

/-- `s` starts with a numeral of `n`, white space before it aside; it is the longest one there. -/
def Leads (s : List Char) (n : Int) : Prop :=
  ∃ blanks numeral rest, s = blanks ++ (numeral ++ rest) ∧ (∀ c ∈ blanks, isSpace c = true) ∧
    Numeral numeral n ∧ ∀ c, rest.head? = some c → c.isDigit = false

/-! ## `strtol` and `stoi` -/

/-- The sign, if there is one, and what is behind it. -/
def takeSign : List Char → Int × List Char
  | '-' :: cs => (-1, cs)
  | '+' :: cs => (1, cs)
  | cs => (1, cs)

/-- `strtol(s, &end, 10)`; `none` if no digit is found and `end` stays at the start. -/
def strtol (s : List Char) : Option Int :=
  let (sign, rest) := takeSign (s.dropWhile isSpace)
  let digits := rest.takeWhile Char.isDigit
  if digits = [] then none else some (sign * value digits)

inductive StoiError where
  | invalidArgument
  | outOfRange
  deriving DecidableEq, Repr

/-- `std::stoi(s)`, for an `int` of 32 bits. -/
def stoi (s : List Char) : Except StoiError Int :=
  match strtol s with
  | none => .error .invalidArgument
  | some n => if -2 ^ 31 ≤ n ∧ n < 2 ^ 31 then .ok n else .error .outOfRange

example : stoi " -12abc".toList = .ok (-12) := by decide

/-! ## What they read -/

section Reading
variable {s : List Char} {n : Int}

theorem isSpace_of_isDigit {c : Char} (h : c.isDigit = true) : isSpace c = false := by
  by_contra hspace
  rw [Bool.not_eq_false] at hspace
  have hspace : c ∈ [' ', '\t', '\n', '\x0b', '\x0c', '\r'] := of_decide_eq_true hspace
  simp only [List.mem_cons, List.not_mem_nil, or_false] at hspace
  rcases hspace with rfl | rfl | rfl | rfl | rfl | rfl <;> simp at h

theorem takeSign_cases (t : List Char) :
    (∃ cs, t = '-' :: cs ∧ takeSign t = (-1, cs)) ∨ (∃ cs, t = '+' :: cs ∧ takeSign t = (1, cs)) ∨
      takeSign t = (1, t) := by
  unfold takeSign
  split
  · exact .inl ⟨_, rfl, rfl⟩
  · exact .inr (.inl ⟨_, rfl, rfl⟩)
  · exact .inr (.inr rfl)

theorem takeSign_of_isDigit {c : Char} (h : c.isDigit = true) (cs : List Char) :
    takeSign (c :: cs) = (1, c :: cs) := by
  rcases takeSign_cases (c :: cs) with ⟨_, heq, -⟩ | ⟨_, heq, -⟩ | heq
  · obtain ⟨rfl, -⟩ := List.cons.inj heq
    exact absurd h (by decide)
  · obtain ⟨rfl, -⟩ := List.cons.inj heq
    exact absurd h (by decide)
  · exact heq

/-- The digits at the front of a text whose digits end where `rest` starts. -/
theorem takeWhile_isDigit {ds rest : List Char} (hds : ∀ c ∈ ds, c.isDigit = true)
    (hrest : ∀ c, rest.head? = some c → c.isDigit = false) :
    (ds ++ rest).takeWhile Char.isDigit = ds := by
  have hnone : rest.takeWhile Char.isDigit = [] := by
    cases rest with
    | nil => rfl
    | cons c rest => rw [List.takeWhile_cons, hrest c rfl, if_neg Bool.false_ne_true]
  rw [List.takeWhile_append_of_pos hds, hnone, List.append_nil]

/-- A numeral starts with a digit or a sign, so no white space is taken for a part of it. -/
theorem Numeral.head {numeral : List Char} (h : Numeral numeral n) :
    ∃ c cs, numeral = c :: cs ∧ isSpace c = false := by
  cases h with
  | unsigned h =>
    obtain ⟨c, cs, rfl⟩ := List.exists_cons_of_ne_nil h.1
    exact ⟨c, cs, rfl, isSpace_of_isDigit (h.2 c List.mem_cons_self)⟩
  | plus h => exact ⟨'+', _, rfl, by decide⟩
  | minus h => exact ⟨'-', _, rfl, by decide⟩

/-- Behind its first character a numeral has digits only. -/
theorem Numeral.isDigit_of_mem_tail {numeral : List Char} (h : Numeral numeral n) {c : Char}
    (hc : c ∈ numeral.tail) : c.isDigit = true := by
  cases h with
  | unsigned h => exact h.2 c (List.mem_of_mem_tail hc)
  | plus h => exact h.2 c hc
  | minus h => exact h.2 c hc

theorem strtol_of_leads (h : Leads s n) : strtol s = some n := by
  obtain ⟨blanks, numeral, rest, rfl, hblanks, hnumeral, hrest⟩ := h
  have hskip : (blanks ++ (numeral ++ rest)).dropWhile isSpace = numeral ++ rest := by
    obtain ⟨c, cs, rfl, hc⟩ := hnumeral.head
    rw [List.dropWhile_append_of_pos hblanks, List.cons_append, List.dropWhile_cons, hc,
      if_neg Bool.false_ne_true]
  rw [strtol, hskip]
  cases hnumeral with
  | unsigned h =>
    obtain ⟨c, cs, rfl⟩ := List.exists_cons_of_ne_nil h.1
    have hsign := takeSign_of_isDigit (h.2 c List.mem_cons_self) (cs ++ rest)
    rw [← List.cons_append] at hsign
    simp only [hsign, takeWhile_isDigit h.2 hrest, if_neg h.1, Int.one_mul]
  | plus h => simp [takeSign, takeWhile_isDigit h.2 hrest, h.1]
  | minus h => simp [takeSign, takeWhile_isDigit h.2 hrest, h.1]

theorem leads_of_strtol (h : strtol s = some n) : Leads s n := by
  set t := s.dropWhile isSpace with ht
  set ds := (takeSign t).2.takeWhile Char.isDigit with hds
  have hrest : ∀ c, ((takeSign t).2.dropWhile Char.isDigit).head? = some c → c.isDigit = false := by
    intro c hc
    have hnot := List.head?_dropWhile_not Char.isDigit (takeSign t).2
    rw [hc] at hnot
    simpa using hnot
  have hsplit : ds ++ (takeSign t).2.dropWhile Char.isDigit = (takeSign t).2 := List.takeWhile_append_dropWhile
  have hnone : ds ≠ [] := by
    intro hnone
    simp [strtol, ← ht, ← hds, hnone] at h
  have hdigits : IsDigits ds := ⟨hnone, fun c hc => List.mem_takeWhile_imp hc⟩
  have hn : n = (takeSign t).1 * value ds := by
    simpa [strtol, ← ht, ← hds, hnone] using h.symm
  have hnumeral : ∃ numeral, t = numeral ++ (takeSign t).2.dropWhile Char.isDigit ∧ Numeral numeral n := by
    rcases takeSign_cases t with ⟨cs, hform, hsign⟩ | ⟨cs, hform, hsign⟩ | hsign
    · rw [hsign] at hn hsplit
      refine ⟨'-' :: ds, by rw [hsign, List.cons_append, hsplit, hform], ?_⟩
      rw [hn, Int.neg_one_mul]
      exact .minus hdigits
    · rw [hsign] at hn hsplit
      refine ⟨'+' :: ds, by rw [hsign, List.cons_append, hsplit, hform], ?_⟩
      rw [hn, Int.one_mul]
      exact .plus hdigits
    · rw [hsign] at hn hsplit
      refine ⟨ds, by rw [hsign, hsplit], ?_⟩
      rw [hn, Int.one_mul]
      exact .unsigned hdigits
  obtain ⟨numeral, hform, hnumeral⟩ := hnumeral
  refine ⟨s.takeWhile isSpace, numeral, _, ?_, fun c hc => List.mem_takeWhile_imp hc, hnumeral, hrest⟩
  rw [← hform, ht, List.takeWhile_append_dropWhile]

/-- **`strtol` reads the leading number**, if there is one. -/
theorem strtol_eq_some_iff : strtol s = some n ↔ Leads s n := ⟨leads_of_strtol, strtol_of_leads⟩

theorem Leads.unique {m : Int} (hn : Leads s n) (hm : Leads s m) : n = m :=
  Option.some.inj ((strtol_of_leads hn).symm.trans (strtol_of_leads hm))

/-- A numeral leads itself. -/
theorem Numeral.leads (h : Numeral s n) : Leads s n :=
  ⟨[], s, [], by simp, by simp, h, by simp⟩

/-- Digits alone lead with their own value. -/
theorem leads_iff_of_isDigit (h : ∀ c ∈ s, c.isDigit = true) : Leads s n ↔ s ≠ [] ∧ n = value s := by
  constructor
  · intro hleads
    have hne : s ≠ [] := by
      obtain ⟨blanks, numeral, rest, rfl, -, hnumeral, -⟩ := hleads
      obtain ⟨c, cs, rfl, -⟩ := hnumeral.head
      simp
    exact ⟨hne, hleads.unique (Numeral.unsigned ⟨hne, h⟩).leads⟩
  · rintro ⟨hne, rfl⟩
    exact (Numeral.unsigned ⟨hne, h⟩).leads

theorem stoi_eq_ok_iff : stoi s = .ok n ↔ Leads s n ∧ -2 ^ 31 ≤ n ∧ n < 2 ^ 31 := by
  rw [← strtol_eq_some_iff, stoi]
  cases hread : strtol s with
  | none => simp
  | some m =>
    by_cases hrange : -2 ^ 31 ≤ m ∧ m < 2 ^ 31
    · simp only [if_pos hrange, Except.ok.injEq, Option.some.injEq]
      exact ⟨fun h => ⟨h, h ▸ hrange⟩, fun h => h.1⟩
    · simp only [if_neg hrange, reduceCtorEq, Option.some.injEq, false_iff]
      rintro ⟨rfl, h⟩
      exact hrange h

end Reading

end Decimal
