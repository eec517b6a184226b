import Mathlib.Data.List.Basic

/-!
# Programs over a source of bytes

A program asks its source for the next `n` bytes and goes on with what it gets. The source is any
state with a `next`; a program is the same whatever it is run on, so what is proved by induction on
the program holds of all sources at once.

* `run_bind` — sequencing.
* `run_agree` — sources that answer alike give results that are alike, as long as no request is
  larger than they can tell.
* `run_local` — off a list a program takes what it returns from the bytes it consumes.
-/
namespace ByteProgram

inductive Program (ε α : Type) where
  | done (x : α)
  | fail (e : ε)
  | read (n : Nat) (k : List UInt8 → Program ε α)

namespace Program

variable {ε α β S T : Type}

def bind : Program ε α → (α → Program ε β) → Program ε β
  | done x, f => f x
  | fail e, _ => fail e
  | read n k, f => read n fun bs => (k bs).bind f

/-- Running a program on a source. -/
def run (next : S → Nat → Except ε (List UInt8 × S)) : Program ε α → S → Except ε (α × S)
  | done x, s => .ok (x, s)
  | fail e, _ => .error e
  | read n k, s => next s n >>= fun r => (k r.1).run next r.2

/-- No request is larger than `max`. -/
def Bounded (max : Nat) : Program ε α → Prop
  | done _ => True
  | fail _ => True
  | read n k => n ≤ max ∧ ∀ bs, (k bs).Bounded max

theorem run_bind (next : S → Nat → Except ε (List UInt8 × S)) (f : α → Program ε β) :
    ∀ (p : Program ε α) (s : S), (p.bind f).run next s = p.run next s >>= fun r => (f r.1).run next r.2
  | done _, _ => rfl
  | fail _, _ => rfl
  | read n k, s => by
    simp only [Program.bind, run]
    cases next s n with
    | error e => rfl
    | ok r => exact run_bind next f (k r.1) r.2

theorem Bounded.bind {max : Nat} {f : α → Program ε β} (hf : ∀ x, (f x).Bounded max) :
    ∀ {p : Program ε α}, p.Bounded max → (p.bind f).Bounded max
  | done x, _ => hf x
  | fail _, _ => trivial
  | read _ _, h => ⟨h.1, fun bs => (h.2 bs).bind hf⟩

end Program

/-! ## Two sources -/

section Agree
variable {ε α S T : Type}

/-- Results that are alike: equal values and related states, or related errors. -/
inductive Agree (E : ε → ε → Prop) (R : S → T → Prop) : Except ε (α × S) → Except ε (α × T) → Prop
  | ok {x : α} {s : S} {t : T} (h : R s t) : Agree E R (.ok (x, s)) (.ok (x, t))
  | error {e e' : ε} (h : E e e') : Agree E R (.error e) (.error e')

variable {E : ε → ε → Prop} {R : S → T → Prop} {next : S → Nat → Except ε (List UInt8 × S)}
  {next' : T → Nat → Except ε (List UInt8 × T)} {max : Nat}

/-- Sources that answer every request up to `max` alike cannot be told apart. -/
theorem run_agree (hE : ∀ e, E e e)
    (hnext : ∀ s t n, R s t → n ≤ max → Agree E R (next s n) (next' t n)) :
    ∀ {p : Program ε α} {s : S} {t : T}, p.Bounded max → R s t → Agree E R (p.run next s) (p.run next' t)
  | .done _, _, _, _, h => .ok h
  | .fail e, _, _, _, _ => .error (hE e)
  | .read n k, s, t, hp, h => by
    have hn := hnext s t n h hp.1
    simp only [Program.run]
    revert hn
    generalize next s n = r
    generalize next' t n = r'
    rintro (⟨hst⟩ | ⟨he⟩)
    · exact run_agree hE hnext (hp.2 _) hst
    · exact .error he

theorem Agree.eq {R : S → T → Prop} {r : Except ε (α × S)} {r' : Except ε (α × T)} {f : S → T}
    (h : Agree Eq R r r') (hR : ∀ s t, R s t → f s = t) : r.map (fun x => (x.1, f x.2)) = r' := by
  cases h with
  | ok h => exact congrArg _ (congrArg _ (hR _ _ h))
  | error h => exact congrArg _ h

end Agree

/-! ## Lists -/

section Lists
variable {ε α : Type}

/-- A list as a source: the front is handed out. -/
def take (e : ε) (bs : List UInt8) (n : Nat) : Except ε (List UInt8 × List UInt8) :=
  if n ≤ bs.length then .ok (bs.take n, bs.drop n) else .error e

/-- A program that succeeds has consumed a prefix of the list, and would have done so with anything
else behind it. -/
theorem run_local {e : ε} : ∀ {p : Program ε α} {bs rest : List UInt8} {x : α},
    p.run (take e) bs = .ok (x, rest) →
      ∃ used, bs = used ++ rest ∧ ∀ rest', p.run (take e) (used ++ rest') = .ok (x, rest')
  | .done _, bs, rest, x, h => by
    cases h
    exact ⟨[], rfl, fun _ => rfl⟩
  | .fail _, _, _, _, h => by cases h
  | .read n k, bs, rest, x, h => by
    by_cases hn : n ≤ bs.length
    · simp only [Program.run, take, if_pos hn] at h
      obtain ⟨used, hbs, hused⟩ := run_local h
      refine ⟨bs.take n ++ used, ?_, ?_⟩
      · rw [List.append_assoc, ← hbs, List.take_append_drop]
      · intro rest'
        have hlen : (bs.take n).length = n := by simp [hn]
        have hle : n ≤ (bs.take n ++ used ++ rest').length := by simp [hn]
        simp only [Program.run, take, if_pos hle]
        rw [List.append_assoc, List.take_left' hlen, List.drop_left' hlen]
        exact hused rest'
    · simp only [Program.run, take, if_neg hn] at h
      cases h

/-- The bytes consumed do not depend on what lies behind them. -/
theorem run_take {e : ε} {p : Program ε α} {bs rest bs' : List UInt8} {x : α}
    (h : p.run (take e) bs = .ok (x, rest))
    (hbs : bs'.take (bs.length - rest.length) = bs.take (bs.length - rest.length)) :
    ∃ rest', p.run (take e) bs' = .ok (x, rest') ∧
      bs'.length - rest'.length = bs.length - rest.length ∧ rest'.length ≤ bs'.length := by
  obtain ⟨used, rfl, hused⟩ := run_local h
  have hlen : (used ++ rest).length - rest.length = used.length := by simp
  rw [hlen, List.take_left] at hbs
  refine ⟨bs'.drop used.length, ?_, ?_, by simp⟩
  · rw [← List.take_append_drop used.length bs', hbs]
    have hdrop : (used ++ bs'.drop used.length).drop used.length = bs'.drop used.length := List.drop_left
    rw [hdrop]
    exact hused _
  · have hle : used.length ≤ bs'.length := by
      have := congrArg List.length hbs
      simp at this
      omega
    simp
    omega

/-- A list that ends before what is consumed does is not enough. -/
theorem run_prefix {e : ε} {p : Program ε α} {bs rest bs' : List UInt8} {x : α}
    (h : p.run (take e) bs = .ok (x, rest)) (hbs : bs' <+: bs)
    (hlt : bs'.length < bs.length - rest.length) : ∃ e', p.run (take e) bs' = .error e' := by
  cases hr : p.run (take e) bs' with
  | error e' => exact ⟨e', rfl⟩
  | ok r =>
    -- a success on the shorter list would be one on the longer
    obtain ⟨more, rfl⟩ := hbs
    obtain ⟨used, hused, hall⟩ := run_local hr
    have hlong := hall (r.2 ++ more)
    rw [← List.append_assoc, ← hused, h] at hlong
    have hrest : rest = r.2 ++ more := congrArg Prod.snd (Except.ok.inj hlong)
    have hle : more.length ≤ rest.length := by simp [hrest]
    simp at hlt
    omega

end Lists

end ByteProgram
