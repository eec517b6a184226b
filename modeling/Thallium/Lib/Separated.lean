import Mathlib.Algebra.Ring.Nat
import Mathlib.Data.List.Infix

/-!
# Texts in pieces

A text falls into pieces at the occurrences of a separator, found from the left and not overlapping: each
piece ends where the separator is first found behind the separator before it.

* `IsSplit.cons`, `IsSplit.tail` — one piece more, one piece less.
* `IsSplit.unique` — there is one such decomposition only.
-/
namespace Separated
variable {α : Type}

/-- The first occurrence of `sep` in `text` is at `i`. -/
def FirstAt (sep text : List α) (i : Nat) : Prop :=
  sep <+: text.drop i ∧ ∀ j < i, ¬ sep <+: text.drop j

/-- Where the piece behind `before` starts. -/
def start (sep : List α) (before : List (List α)) : Nat :=
  (before.map fun p => p.length + sep.length).sum

/-- The pieces of `s` between the separators, the separators found from the left. -/
structure IsSplit (s sep : List α) (pieces : List (List α)) : Prop where
  joins : sep.intercalate pieces = s
  free : ∀ p ∈ pieces, ¬ sep <:+: p
  leftmost : ∀ before p q after, pieces = before ++ p :: q :: after →
    FirstAt sep (s.drop (start sep before)) p.length

section Decomposition
variable {s sep : List α}

theorem infix_iff_drop : sep <:+: s ↔ ∃ i, i ≤ s.length ∧ sep <+: s.drop i := by
  constructor
  · rintro ⟨before, after, rfl⟩
    refine ⟨before.length, by simp, after, ?_⟩
    rw [List.append_assoc, List.drop_left]
  · rintro ⟨i, -, h⟩
    exact h.isInfix.trans (List.drop_suffix i s).isInfix

/-- Nothing stands at or after the end. -/
theorem FirstAt.le (hsep : sep ≠ []) {i : Nat} (h : FirstAt sep s i) : i + sep.length ≤ s.length := by
  have hpos := List.length_pos_iff.mpr hsep
  have hle := h.1.length_le
  rw [List.length_drop] at hle
  omega

theorem FirstAt.unique {i j : Nat} (hi : FirstAt sep s i) (hj : FirstAt sep s j) : i = j := by
  rcases Nat.lt_trichotomy i j with h | h | h
  · exact absurd hi.1 (hj.2 i h)
  · exact h
  · exact absurd hj.1 (hi.2 j h)

/-- The text before the first occurrence has none. -/
theorem FirstAt.free (hsep : sep ≠ []) {i : Nat} (h : FirstAt sep s i) : ¬ sep <:+: s.take i := by
  intro hin
  obtain ⟨j, -, hj⟩ := infix_iff_drop.mp hin
  have hpos := List.length_pos_iff.mpr hsep
  have hle := hj.length_le
  rw [List.length_drop, List.length_take] at hle
  refine h.2 j (by omega) (hj.trans ?_)
  rw [List.drop_take]
  exact List.take_prefix _ _

/-- The text is the part before the first occurrence, the separator, and the rest. -/
theorem FirstAt.eq {i : Nat} (h : FirstAt sep s i) : s.take i ++ (sep ++ s.drop (i + sep.length)) = s := by
  obtain ⟨rest, hrest⟩ := h.1
  have hdrop : s.drop (i + sep.length) = rest := by
    rw [← List.drop_drop, ← hrest, List.drop_left]
  rw [hdrop, hrest, List.take_append_drop]

theorem isSplit_single (h : ¬ sep <:+: s) : IsSplit s sep [s] where
  joins := List.intercalate_singleton
  free p hp := by rwa [List.mem_singleton.mp hp]
  leftmost before p q after heq := by
    have hlen := congrArg List.length heq
    simp at hlen
    omega

/-- One more piece in front: the text up to the first occurrence. -/
theorem IsSplit.cons (hsep : sep ≠ []) {i : Nat} (h : FirstAt sep s i) {p : List α} {ps : List (List α)}
    (hrest : IsSplit (s.drop (i + sep.length)) sep (p :: ps)) : IsSplit s sep (s.take i :: p :: ps) where
  joins := by
    rw [List.intercalate_cons_cons, hrest.joins, List.append_assoc, h.eq]
  free q hq := by
    rcases List.mem_cons.mp hq with rfl | hq
    · exact h.free hsep
    · exact hrest.free q hq
  leftmost before q r after heq := by
    have hle := h.le hsep
    have hlen : (s.take i).length = i := by rw [List.length_take]; omega
    cases before with
    | nil =>
      obtain ⟨rfl, -⟩ := List.cons.inj heq
      rw [hlen]
      exact h
    | cons b before =>
      obtain ⟨rfl, htail⟩ := List.cons.inj heq
      have hfirst := hrest.leftmost before q r after htail
      rw [List.drop_drop] at hfirst
      rw [start, List.map_cons, List.sum_cons, hlen]
      exact hfirst

/-- The other way round: what stands behind the first piece and its separator is split the same way. -/
theorem IsSplit.tail {p q : List α} {ps : List (List α)} (h : IsSplit s sep (p :: q :: ps)) :
    IsSplit (s.drop (p.length + sep.length)) sep (q :: ps) where
  joins := by
    rw [← h.joins, List.intercalate_cons_cons, List.append_assoc, ← List.drop_drop, List.drop_left,
      List.drop_left]
  free r hr := h.free r (List.mem_cons_of_mem _ hr)
  leftmost before r r' after heq := by
    have hfirst := h.leftmost (p :: before) r r' after (by rw [heq]; rfl)
    rw [start, List.map_cons, List.sum_cons] at hfirst
    rw [List.drop_drop]
    exact hfirst

theorem IsSplit.firstAt {p q : List α} {ps : List (List α)} (h : IsSplit s sep (p :: q :: ps)) :
    FirstAt sep s p.length :=
  h.leftmost [] p q ps rfl

theorem IsSplit.head_eq {p q : List α} {ps : List (List α)} (h : IsSplit s sep (p :: q :: ps)) :
    p = s.take p.length := by
  rw [← h.joins, List.intercalate_cons_cons, List.append_assoc, List.take_left]

/-- A text in one piece has no separator, so it is not in more pieces. -/
theorem IsSplit.not_single {p q r : List α} {ps : List (List α)} (hone : IsSplit s sep [p])
    (hmore : IsSplit s sep (q :: r :: ps)) : False := by
  have hp : p = s := by rw [← hone.joins, List.intercalate_singleton]
  have hin : sep <:+: s := hmore.firstAt.1.isInfix.trans (List.drop_suffix _ s).isInfix
  exact hone.free p List.mem_cons_self (hp ▸ hin)

/-- **There is one leftmost decomposition only**: each piece ends where the separator is first found. -/
theorem IsSplit.unique {s : List α} : ∀ {ps qs : List (List α)}, IsSplit s sep ps → IsSplit s sep qs →
    ps ≠ [] → qs ≠ [] → ps = qs
  | [], _, _, _, h, _ => (h rfl).elim
  | _ :: _, [], _, _, _, h => (h rfl).elim
  | [p], [q], hp, hq, _, _ => by
    have hone : ∀ r : List α, sep.intercalate [r] = r := fun _ => List.intercalate_singleton
    have heq : p = q := by rw [← hone p, hp.joins, ← hq.joins, hone]
    rw [heq]
  | [_], _ :: _ :: _, hp, hq, _, _ => (hp.not_single hq).elim
  | _ :: _ :: _, [_], hp, hq, _, _ => (hq.not_single hp).elim
  | p :: p' :: ps, q :: q' :: qs, hp, hq, _, _ => by
    have hlen : p.length = q.length := hp.firstAt.unique hq.firstAt
    have hhead : p = q := by rw [hp.head_eq, hq.head_eq, hlen]
    have htail := IsSplit.unique hp.tail (hlen ▸ hq.tail) (List.cons_ne_nil _ _) (List.cons_ne_nil _ _)
    rw [hhead, htail]

end Decomposition

end Separated
