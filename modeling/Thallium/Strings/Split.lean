import Mathlib.Data.List.DropRight
import Thallium.Lib.Separated

/-!
# `string_split` and `string_trim` (include/common.hpp:127-172, :210-303)

The loop of the split looks for the separator from the end of the last match on, so matches do not
overlap and each is the leftmost one there is.

| here | there |
| --- | --- |
| `find`                                | `basic_string::find(substr, pos)`; `none` is `npos` |
| `splitLoop`                           | the loop of `__string_split` (:286-292) |
| `stringSplit`                         | `string_split` (:301), `__string_split` (:277) |
| `findFirstNotOf`, `findLastNotOf`     | the members of `basic_string` of these names |
| `stringTrimModified`, `stringTrim`    | `string_trim_modified` (:144) with a cutset, `string_trim` with the default one (:218) |
| `trim`                                | not in the source: what trimming should leave |

* `stringSplit_leftmost` — **the pieces are the leftmost non-overlapping decomposition.**
* `stringSplit_eq_iff` — and no others are.
* `stringTrimModified_eq` — trimming drops from both ends what is in the cutset.
-/
namespace Thallium.Strings
open Separated

variable {α : Type}

/-! ## Splitting -/

section Function
variable [DecidableEq α]

/-- `s.find(substr, pos)`. -/
def find (s substr : List α) (pos : Nat) : Option Nat :=
  (List.range' pos (s.length + 1 - pos)).find? fun i => substr.isPrefixOf (s.drop i)

theorem find_eq_some {s substr : List α} {pos found : Nat} (h : find s substr pos = some found) :
    pos ≤ found ∧ found ≤ s.length ∧ FirstAt substr (s.drop pos) (found - pos) := by
  obtain ⟨hfound, hmem, hbefore⟩ := List.find?_range'_eq_some.mp h
  have hrange := List.mem_range'_1.mp hmem
  refine ⟨hrange.1, by omega, ?_, ?_⟩
  · rw [List.drop_drop, Nat.add_sub_cancel' hrange.1]
    exact List.isPrefixOf_iff_prefix.mp hfound
  · intro j hj hprefix
    rw [List.drop_drop] at hprefix
    have hnot := hbefore (pos + j) (Nat.le_add_right _ _) (by omega)
    rw [List.isPrefixOf_iff_prefix.mpr hprefix] at hnot
    cases hnot

theorem find_eq_none {s substr : List α} {pos : Nat} (hpos : pos ≤ s.length)
    (h : find s substr pos = none) : ¬ substr <:+: s.drop pos := by
  intro hin
  obtain ⟨i, hi, hprefix⟩ := infix_iff_drop.mp hin
  rw [List.length_drop] at hi
  rw [List.drop_drop] at hprefix
  have hnot := List.find?_range'_eq_none.mp h (pos + i) (Nat.le_add_right _ _) (by omega)
  rw [List.isPrefixOf_iff_prefix.mpr hprefix] at hnot
  cases hnot

/-- A match ends inside the string. -/
theorem find_le {s substr : List α} (hsub : substr ≠ []) {pos found : Nat}
    (h : find s substr pos = some found) : pos ≤ found ∧ found + substr.length ≤ s.length := by
  obtain ⟨hle, hfound, hfirst⟩ := find_eq_some h
  have hend := hfirst.le hsub
  rw [List.length_drop] at hend
  omega

/-- The loop of `__string_split` (common.hpp:288): the pieces from `prePos` on. Each round ends behind a
match, so closer to the end. -/
def splitLoop (s substr : List α) (hsub : substr ≠ []) (prePos : Nat) : List (List α) :=
  match _h : find s substr prePos with
  | some found =>
    (s.drop prePos).take (found - prePos) :: splitLoop s substr hsub (found + substr.length)
  | none => [(s.drop prePos).take (s.length - prePos)]
termination_by s.length - prePos
decreasing_by
  have hpos := List.length_pos_iff.mpr hsub
  have hle := find_le hsub _h
  omega

/-- `string_split` (common.hpp:277). -/
def stringSplit (s substr : List α) : List (List α) :=
  if h : s = [] ∨ substr = [] then [s]
  else splitLoop s substr (fun hsub => h (.inr hsub)) 0

theorem splitLoop_ne_nil {s substr : List α} (hsub : substr ≠ []) (prePos : Nat) :
    splitLoop s substr hsub prePos ≠ [] := by
  rw [splitLoop]
  split <;> exact List.cons_ne_nil _ _

/-- **The loop**: what is collected from a position on is the decomposition of the text from there. The
induction is along the rounds; the next one starts behind the match. -/
theorem splitLoop_isSplit {s substr : List α} (hsub : substr ≠ []) (prePos : Nat)
    (hpos : prePos ≤ s.length) : IsSplit (s.drop prePos) substr (splitLoop s substr hsub prePos) := by
  fun_induction splitLoop s substr hsub prePos with
  | case1 prePos found h ih =>
    obtain ⟨hle, -, hfirst⟩ := find_eq_some h
    have hrest := ih (find_le hsub h).2
    obtain ⟨p, ps, hps⟩ := List.exists_cons_of_ne_nil (splitLoop_ne_nil (s := s) hsub (found + substr.length))
    have hnext : s.drop (found + substr.length) = (s.drop prePos).drop (found - prePos + substr.length) := by
      rw [List.drop_drop]
      congr 1
      omega
    rw [hps, hnext] at hrest
    rw [hps]
    exact hrest.cons hsub hfirst
  | case2 prePos h =>
    rw [List.take_of_length_le (by rw [List.length_drop])]
    exact isSplit_single (find_eq_none hpos h)

theorem stringSplit_ne_nil (s substr : List α) : stringSplit s substr ≠ [] := by
  rw [stringSplit]
  split
  · exact List.cons_ne_nil _ _
  · exact splitLoop_ne_nil _ _

theorem isSplit_stringSplit (s : List α) {sep : List α} (hsep : sep ≠ []) :
    IsSplit s sep (stringSplit s sep) := by
  by_cases h : s = [] ∨ sep = []
  · obtain rfl := h.resolve_right hsep
    rw [stringSplit, dif_pos h]
    exact isSplit_single fun hin => hsep (List.eq_nil_of_infix_nil hin)
  · rw [stringSplit, dif_neg h]
    exact splitLoop_isSplit hsep 0 (Nat.zero_le _)

/-- There is no other leftmost decomposition. -/
theorem stringSplit_eq_iff {s sep : List α} (hsep : sep ≠ []) {ps : List (List α)} :
    stringSplit s sep = ps ↔ ps ≠ [] ∧ IsSplit s sep ps := by
  constructor
  · rintro rfl
    exact ⟨stringSplit_ne_nil s sep, isSplit_stringSplit s hsep⟩
  · rintro ⟨hne, hsplit⟩
    exact (isSplit_stringSplit s hsep).unique hsplit (stringSplit_ne_nil s sep) hne

/-- **`string_split` returns the leftmost non-overlapping decomposition**, and the string itself if there is
no separator. -/
theorem stringSplit_leftmost (s sep : List α) :
    (sep ≠ [] → stringSplit s sep ≠ [] ∧ IsSplit s sep (stringSplit s sep)) ∧
      (sep = [] → stringSplit s sep = [s]) :=
  ⟨fun hsep => ⟨stringSplit_ne_nil s sep, isSplit_stringSplit s hsep⟩, fun hsep => dif_pos (.inr hsep)⟩

/-- A separator that overlaps itself, and none at all. -/
theorem stringSplit_leftmost_overlap :
    IsSplit [1, 1, 1, 2] [1, 1] (stringSplit [1, 1, 1, 2] [1, 1]) ∧ stringSplit [1, 1] [] = [[1, 1]] :=
  ⟨((stringSplit_leftmost [1, 1, 1, 2] [1, 1]).1 (by decide)).2, (stringSplit_leftmost [1, 1] []).2 rfl⟩

/-! ### Separators of one character -/

/-- The standard library's split at one element is the same function. -/
theorem stringSplit_singleton (s : List α) (c : α) : stringSplit s [c] = s.splitOn c := by
  have h := isSplit_stringSplit s (List.cons_ne_nil c [])
  have hfree : ∀ p ∈ stringSplit s [c], c ∉ p := fun p hp hc =>
    h.free p hp ((List.singleton_infix_iff c p).mpr hc)
  conv_rhs => rw [← h.joins]
  exact (List.splitOn_intercalate c hfree (stringSplit_ne_nil s [c])).symm

theorem stringSplit_singleton_eq_iff {s : List α} {c : α} {ps : List (List α)} :
    stringSplit s [c] = ps ↔ ps ≠ [] ∧ [c].intercalate ps = s ∧ ∀ p ∈ ps, c ∉ p := by
  constructor
  · rintro rfl
    have h := isSplit_stringSplit s (List.cons_ne_nil c [])
    exact ⟨stringSplit_ne_nil s [c], h.joins, fun p hp hc =>
      h.free p hp ((List.singleton_infix_iff c p).mpr hc)⟩
  · rintro ⟨hne, rfl, hfree⟩
    rw [stringSplit_singleton, List.splitOn_intercalate c hfree hne]

/-! ## Trimming -/

/-- `s.find_first_not_of(cutset)`. -/
def findFirstNotOf (s cutset : List α) : Option Nat := s.findIdx? fun c => decide (c ∉ cutset)

/-- `s.find_last_not_of(cutset)`. -/
def findLastNotOf (s cutset : List α) : Option Nat :=
  (findFirstNotOf s.reverse cutset).map (s.length - 1 - ·)

/-- `string_trim_modified` (common.hpp:144). `npos + 1` is zero. -/
def stringTrimModified (s cutset : List α) : List α :=
  if s = [] then s
  else if cutset = [] then s
  else
    match findFirstNotOf s cutset with
    | none => []
    | some lPos =>
      let rPos := ((findLastNotOf s cutset).map (· + 1)).getD 0
      let s := if rPos < s.length then s.take rPos else s
      if lPos > 0 then s.drop lPos else s

/-- What is trimmed off: characters of the cutset, at either end. -/
def trim (cutset s : List α) : List α :=
  (s.rdropWhile fun c => decide (c ∈ cutset)).dropWhile fun c => decide (c ∈ cutset)

section Trim
variable {s cutset : List α}

theorem findFirstNotOf_eq_some {i : Nat} (h : findFirstNotOf s cutset = some i) :
    i < s.length ∧ s.drop i = s.dropWhile fun c => decide (c ∈ cutset) := by
  obtain ⟨hlt, hi⟩ := List.findIdx?_eq_some_iff_findIdx_eq.mp h
  have hnot : (fun c => decide (c ∉ cutset)) = fun c => !decide (c ∈ cutset) := by
    funext c
    exact decide_not
  rw [hnot] at hi
  rw [List.dropWhile_eq_drop_findIdx_not, hi]
  exact ⟨hlt, rfl⟩

theorem findFirstNotOf_eq_none : findFirstNotOf s cutset = none ↔ ∀ c ∈ s, c ∈ cutset := by
  rw [findFirstNotOf, List.findIdx?_eq_none_iff]
  simp

theorem findLastNotOf_eq_some {i : Nat} (h : findFirstNotOf s cutset = some i) :
    ∃ r, findLastNotOf s cutset = some r ∧ r < s.length ∧
      s.take (r + 1) = s.rdropWhile fun c => decide (c ∈ cutset) := by
  cases hback : findFirstNotOf s.reverse cutset with
  | none =>
    have hall : ∀ c ∈ s, c ∈ cutset := fun c hc =>
      findFirstNotOf_eq_none.mp hback c (List.mem_reverse.mpr hc)
    rw [findFirstNotOf_eq_none.mpr hall] at h
    cases h
  | some k =>
    obtain ⟨hlt, hdrop⟩ := findFirstNotOf_eq_some hback
    rw [List.length_reverse] at hlt
    refine ⟨s.length - 1 - k, by rw [findLastNotOf, hback]; rfl, by omega, ?_⟩
    rw [List.rdropWhile, ← hdrop, List.drop_reverse, List.reverse_reverse]
    congr 1
    omega

/-- The first character that stays is not behind the last one. -/
theorem findFirstNotOf_lt {i r : Nat} (h : findFirstNotOf s cutset = some i)
    (htake : s.take r = s.rdropWhile fun c => decide (c ∈ cutset)) : i < r := by
  obtain ⟨hlt, hnot, -⟩ := List.findIdx?_eq_some_iff_getElem.mp h
  by_contra hge
  have hback : s.drop r = s.rtakeWhile fun c => decide (c ∈ cutset) := by
    have hsame : s.take r ++ s.drop r = s.take r ++ s.rtakeWhile fun c => decide (c ∈ cutset) := by
      rw [List.take_append_drop, htake, List.rdropWhile_append_rtakeWhile]
    exact List.append_cancel_left hsame
  have hmem : s[i] ∈ s.drop r := List.mem_drop_iff_getElem.mpr ⟨i - r, by omega, by congr 1; omega⟩
  rw [hback] at hmem
  have hin := List.mem_rtakeWhile_imp hmem
  simp_all

/-- **Trimming** drops what is in the cutset from both ends: the last characters first, then from what is
left the first ones. -/
theorem stringTrimModified_eq (s cutset : List α) : stringTrimModified s cutset = trim cutset s := by
  by_cases hs : s = []
  · subst hs
    simp [stringTrimModified, trim]
  by_cases hcutset : cutset = []
  · subst hcutset
    have hself : ∀ l : List α, l.dropWhile (fun c => decide (c ∈ ([] : List α))) = l := fun l => by
      cases l <;> simp
    rw [stringTrimModified, if_neg hs, if_pos rfl, trim, List.rdropWhile, hself, hself, List.reverse_reverse]
  rw [stringTrimModified, if_neg hs, if_neg hcutset]
  cases hfirst : findFirstNotOf s cutset with
  | none =>
    have hall : (s.rdropWhile fun c => decide (c ∈ cutset)) = [] := by
      simpa [List.rdropWhile_eq_nil_iff] using findFirstNotOf_eq_none.mp hfirst
    simp only [trim, hall, List.dropWhile_nil]
  | some lPos =>
    obtain ⟨rPos, hlast, hlt, htake⟩ := findLastNotOf_eq_some hfirst
    have hle : lPos < rPos + 1 := findFirstNotOf_lt hfirst htake
    have hfirst' : findFirstNotOf (s.take (rPos + 1)) cutset = some lPos := by
      rw [findFirstNotOf, List.findIdx?_take, ← findFirstNotOf, hfirst]
      exact if_pos (decide_eq_true hle)
    have hback : (if rPos + 1 < s.length then s.take (rPos + 1) else s) = s.take (rPos + 1) := by
      split
      · rfl
      · rw [List.take_of_length_le (by omega)]
    have hfront : ∀ l : List α, (if lPos > 0 then l.drop lPos else l) = l.drop lPos := fun l => by
      rcases Nat.eq_zero_or_pos lPos with h | h
      · rw [h, if_neg (Nat.lt_irrefl 0), List.drop_zero]
      · rw [if_pos h]
    simp only [hlast, Option.map_some, Option.getD_some, hback, hfront]
    rw [(findFirstNotOf_eq_some hfirst').2, htake, trim]

end Trim

end Function

/-- `get_default_cutset` (common.hpp:127). -/
def defaultCutset : List Char := [' ', '\r', '\t', '\n', '\t']

/-- `string_trim(s)` (common.hpp:218). -/
def stringTrim (s : List Char) : List Char := stringTrimModified s defaultCutset

end Thallium.Strings
