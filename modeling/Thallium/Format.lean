import Thallium.Common

/-!
# What `format` accepts (common.hpp:57-105, common.cpp:7-35)

A format string is a sequence of tokens: `{{` and `}}` stand for one brace, `{}` for the next
argument, any other character for itself. A brace in none of these is stray. The scanner for the
text after the last argument throws at every stray brace; the one that looks for the position of
an argument walks past a stray left brace (common.hpp:69-79).

| here | there |
| --- | --- |
| `tokens`, `Fits`, `texts` | the grammar: tokens, the strings it accepts, what they stand for |
| `Accepted`                | what `format` accepts |

* `formatArgs_gives` — the two scanners together, for every format string and all arguments.
* `format_meets_iff` — they keep to the grammar **iff** the string is not one whose only faults are
  stray left braces, each with a position after it.
-/
namespace Thallium.Format

/-! ## Tokens -/

inductive Token where
  | text (c : Char)
  | position
  | strayLeft
  | strayRight
  deriving DecidableEq

def tokens : List Char → List Token
  | [] => []
  | '{' :: '{' :: cs => .text '{' :: tokens cs
  | '{' :: '}' :: cs => .position :: tokens cs
  | '{' :: cs => .strayLeft :: tokens cs
  | '}' :: '}' :: cs => .text '}' :: tokens cs
  | '}' :: cs => .strayRight :: tokens cs
  | c :: cs => .text c :: tokens cs

theorem tokens_strayLeft {c : Char} {cs : List Char} (hl : c ≠ '{') (hr : c ≠ '}') :
    tokens ('{' :: c :: cs) = .strayLeft :: tokens (c :: cs) := by
  rw [tokens]
  · rintro cs' h
    exact hl (List.cons.inj h).1
  · rintro cs' h
    exact hr (List.cons.inj h).1

theorem tokens_strayRight {c : Char} {cs : List Char} (hr : c ≠ '}') :
    tokens ('}' :: c :: cs) = .strayRight :: tokens (c :: cs) := by
  rw [tokens]
  rintro cs' h
  exact hr (List.cons.inj h).1

theorem tokens_text {c : Char} {cs : List Char} (hl : c ≠ '{') (hr : c ≠ '}') :
    tokens (c :: cs) = .text c :: tokens cs := by
  rw [tokens] <;> simp_all

/-- The texts of the tokens, the arguments put in their positions. -/
def texts : List Token → List String → List Char
  | [], _ => []
  | .text c :: ts, args => c :: texts ts args
  | .position :: ts, t :: args => t.toList ++ texts ts args
  | .position :: ts, [] | .strayLeft :: ts, [] | .strayRight :: ts, [] => texts ts []
  | .strayLeft :: ts, t :: args | .strayRight :: ts, t :: args => texts ts (t :: args)

/-- Every brace belongs to a token, and there is a position for each of `n` arguments. -/
def Fits (n : Nat) (ts : List Token) : Prop :=
  .strayLeft ∉ ts ∧ .strayRight ∉ ts ∧ ts.count .position = n

instance (n : Nat) (ts : List Token) : Decidable (Fits n ts) := inferInstanceAs (Decidable (_ ∧ _ ∧ _))

/-- `r` is `out` where `P` holds, and a `format_error` everywhere else. -/
def Gives {α : Type} (P : Prop) (out : α) (r : Except Exception α) : Prop :=
  (P → r = .ok out) ∧ (¬ P → ∃ what, r = .error (.formatError what))

/-- A call of `format` returns the texts of the tokens or throws, according to the grammar. -/
def Meets (fmt : String) (args : List String) : Prop :=
  Gives (Fits args.length (tokens fmt.toList)) (String.ofList (texts (tokens fmt.toList) args))
    (format fmt args)

/-- A stray left brace counts for nothing as long as a position follows. -/
def Accepted (n : Nat) (ts : List Token) : Prop :=
  .strayRight ∉ ts ∧ ts.count .position = n ∧ ∀ post, .strayLeft :: post <:+ ts → .position ∈ post

/-! ## The two scanners -/

section Accepted
variable {n : Nat} {c : Char} {ts : List Token}

@[simp] theorem accepted_nil : Accepted n [] ↔ n = 0 := by
  simp [Accepted, eq_comm]

@[simp] theorem accepted_text : Accepted n (.text c :: ts) ↔ Accepted n ts := by
  simp [Accepted, List.suffix_cons_iff]

@[simp] theorem accepted_position : Accepted (n + 1) (.position :: ts) ↔ Accepted n ts := by
  simp [Accepted, List.suffix_cons_iff]

@[simp] theorem not_accepted_position : ¬ Accepted 0 (.position :: ts) := by
  simp [Accepted]

@[simp] theorem not_accepted_strayRight : ¬ Accepted n (.strayRight :: ts) := by
  simp [Accepted]

@[simp] theorem accepted_strayLeft : Accepted (n + 1) (.strayLeft :: ts) ↔ Accepted (n + 1) ts := by
  constructor
  · rintro ⟨hright, hcount, hleft⟩
    refine ⟨by simpa using hright, by simpa using hcount, ?_⟩
    intro post hpost
    exact hleft post (hpost.trans (List.suffix_cons _ _))
  · rintro ⟨hright, hcount, hleft⟩
    refine ⟨by simpa using hright, by simpa using hcount, ?_⟩
    intro post hpost
    rcases List.suffix_cons_iff.mp hpost with heq | hpost
    · rw [(List.cons.inj heq).2]
      exact List.count_pos_iff.mp (by omega)
    · exact hleft post hpost

@[simp] theorem not_accepted_strayLeft : ¬ Accepted 0 (.strayLeft :: ts) := by
  rintro ⟨-, hcount, hleft⟩
  have hpos := List.count_pos_iff.mpr (hleft ts List.suffix_rfl)
  simp at hcount
  omega

end Accepted

section Gives
variable {α : Type} {P Q : Prop} {out : α} {r : Except Exception α}

theorem Gives.congr (h : Gives P out r) (hiff : Q ↔ P) : Gives Q out r :=
  ⟨fun hq => h.1 (hiff.mp hq), fun hq => h.2 fun hp => hq (hiff.mpr hp)⟩

theorem Gives.map {β : Type} (h : Gives P out r) (f : α → β) : Gives P (f out) (r.map f) := by
  constructor
  · intro hp
    rw [h.1 hp]
    rfl
  · intro hn
    obtain ⟨what, hr⟩ := h.2 hn
    exact ⟨what, by rw [hr]; rfl⟩

theorem gives_error (hn : ¬ P) (what : String) : Gives P out (.error (.formatError what)) :=
  ⟨fun hp => absurd hp hn, fun _ => ⟨what, rfl⟩⟩

end Gives

theorem ne_of_cases {c d : Char} {cs : List Char} (hnil : c = d → cs = [] → False)
    (hcons : ∀ head tail, c = d → cs = head :: tail → False) : c ≠ d := by
  intro h
  cases cs with
  | nil => exact hnil h rfl
  | cons head tail => exact hcons head tail h rfl

/-- Once no argument is left, a position is as wrong as a stray brace. -/
theorem formatRest_gives (fmt : String) (cs : List Char) :
    Gives (Accepted 0 (tokens cs)) (texts (tokens cs) []) (formatRest fmt cs) := by
  fun_induction formatRest fmt cs with
  | case1 => exact ⟨fun _ => rfl, fun hn => absurd (by simp [tokens]) hn⟩
  | case2 => exact gives_error (by simp [tokens]) _
  | case3 => exact gives_error (by simp [tokens]) _
  | case4 cs ih => exact (ih.map ('{' :: ·)).congr (by simp [tokens])
  | case5 cs => exact gives_error (by simp [tokens]) _
  | case6 c cs hleft hright =>
    rw [tokens_strayLeft hleft hright]
    exact gives_error not_accepted_strayLeft _
  | case7 cs ih => exact (ih.map ('}' :: ·)).congr (by simp [tokens])
  | case8 c cs hright =>
    rw [tokens_strayRight hright]
    exact gives_error not_accepted_strayRight _
  | case9 c cs hlast hlast' _ _ hleft _ hright ih =>
    have hl := ne_of_cases hlast hleft
    have hr := ne_of_cases hlast' hright
    rw [tokens_text hl hr]
    exact (ih.map (c :: ·)).congr accepted_text

section Arg
variable {fmt t : String} {args : List String} {cs cs' : List Char}

theorem formatArgs_text {c : Char}
    (h : formatArg fmt t cs = (formatArg fmt t cs').map fun r => (c :: r.1, r.2)) :
    formatArgs fmt (t :: args) cs = (formatArgs fmt (t :: args) cs').map (c :: ·) := by
  rw [formatArgs, h, formatArgs]
  cases formatArg fmt t cs' with
  | error e => rfl
  | ok r =>
    simp only [Except.map]
    cases formatArgs fmt args r.2 <;> rfl

theorem formatArgs_skip (h : formatArg fmt t cs = formatArg fmt t cs') :
    formatArgs fmt (t :: args) cs = formatArgs fmt (t :: args) cs' := by
  rw [formatArgs, h, formatArgs]

theorem formatArgs_error {e : Exception} (h : formatArg fmt t cs = .error e) :
    formatArgs fmt (t :: args) cs = .error e := by
  rw [formatArgs, h]

/-- While the argument `t` waits for its position, `args` after it. -/
theorem formatArg_gives
    (hrest : ∀ cs, Gives (Accepted args.length (tokens cs)) (texts (tokens cs) args) (formatArgs fmt args cs))
    (cs : List Char) :
    Gives (Accepted (args.length + 1) (tokens cs)) (texts (tokens cs) (t :: args))
      (formatArgs fmt (t :: args) cs) := by
  induction cs using formatArg.induct with
  | case1 =>
    rw [formatArgs_error rfl]
    exact gives_error (by simp [tokens]) _
  | case2 =>
    rw [formatArgs_error rfl]
    exact gives_error (by simp [tokens]) _
  | case3 =>
    rw [formatArgs_error rfl]
    exact gives_error (by simp [tokens]) _
  | case4 cs ih =>
    rw [formatArgs_text rfl]
    exact (ih.map ('{' :: ·)).congr (by simp [tokens])
  | case5 cs =>
    have hposition : formatArgs fmt (t :: args) ('{' :: '}' :: cs) =
        (formatArgs fmt args cs).map (t.toList ++ ·) := rfl
    rw [hposition]
    exact ((hrest cs).map (t.toList ++ ·)).congr (by simp [tokens])
  | case6 c cs hleft hright ih =>
    -- the brace is neither written nor refused
    have hskip : formatArg fmt t ('{' :: c :: cs) = formatArg fmt t (c :: cs) := by
      rw [formatArg]
      · exact hleft
      · exact hright
    rw [formatArgs_skip hskip, tokens_strayLeft hleft hright]
    exact ih.congr accepted_strayLeft
  | case7 cs ih =>
    rw [formatArgs_text rfl]
    exact (ih.map ('}' :: ·)).congr (by simp [tokens])
  | case8 c cs hright =>
    have hraise : formatArg fmt t ('}' :: c :: cs) = raiseLeftBraceUnmatch fmt := by
      rw [formatArg]
      exact hright
    rw [formatArgs_error hraise, tokens_strayRight hright]
    exact gives_error not_accepted_strayRight _
  | case9 c cs hlast hlast' _ _ hleft _ hright ih =>
    have hl := ne_of_cases hlast hleft
    have hr := ne_of_cases hlast' hright
    have htext : formatArg fmt t (c :: cs) = (formatArg fmt t cs).map fun r => (c :: r.1, r.2) := by
      rw [formatArg] <;> simp [hl, hr]
    rw [formatArgs_text htext, tokens_text hl hr]
    exact (ih.map (c :: ·)).congr accepted_text

end Arg

/-- **`format`, for every format string and all arguments.** -/
theorem formatArgs_gives (fmt : String) (args : List String) (cs : List Char) :
    Gives (Accepted args.length (tokens cs)) (texts (tokens cs) args) (formatArgs fmt args cs) := by
  induction args generalizing cs with
  | nil => exact formatRest_gives fmt cs
  | cons t args ih => exact formatArg_gives ih cs

/-! ## The grammar -/

/-- Without stray braces the code follows the grammar. -/
theorem accepted_iff_fits {n : Nat} {ts : List Token} (h : .strayLeft ∉ ts) : Accepted n ts ↔ Fits n ts := by
  constructor
  · rintro ⟨hright, hcount, -⟩
    exact ⟨h, hright, hcount⟩
  · rintro ⟨-, hright, hcount⟩
    refine ⟨hright, hcount, ?_⟩
    intro post hpost
    exact absurd (hpost.subset (List.mem_cons_self ..)) h

/-- **`format` keeps to the grammar** iff the string does not combine all of these: stray left braces, a
position after each of them, no stray right brace, as many positions as arguments. -/
theorem format_meets_iff (fmt : String) (args : List String) :
    Meets fmt args ↔ ¬ (.strayLeft ∈ tokens fmt.toList ∧ Accepted args.length (tokens fmt.toList)) := by
  have hgives := (formatArgs_gives fmt args fmt.toList).map String.ofList
  constructor
  · rintro h ⟨hleft, haccepted⟩
    obtain ⟨what, herr⟩ := h.2 fun hfits => hfits.1 hleft
    have hok : format fmt args = .ok _ := hgives.1 haccepted
    rw [hok] at herr
    cases herr
  · intro hn
    by_cases hleft : .strayLeft ∈ tokens fmt.toList
    · -- a stray left brace without a position after it, or some other fault: both throw
      refine ⟨fun hfits => absurd hleft hfits.1, fun _ => hgives.2 fun ha => hn ⟨hleft, ha⟩⟩
    · exact hgives.congr (accepted_iff_fits hleft).symm

/-- A stray left brace is dropped. -/
theorem not_format_meets_stray : ¬ Meets "Hello \x7bworld \x7b\x7d" ["!"] := by
  intro h
  obtain ⟨what, herr⟩ := h.2 (by decide)
  have hok : format "Hello \x7bworld \x7b\x7d" ["!"] = .ok "Hello world !" := by decide
  rw [hok] at herr
  cases herr

end Thallium.Format
