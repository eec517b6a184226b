import Thallium.Common
import Thallium.Lib.EventRun

/-!
# Spans (gsl/span.hpp:53-64)

A span is a pointer and a number of elements. `first`, `last` and `subspan` cut views out of it, and views
out of views. A pointer is the place of its element, counted in elements; what C++ gives no meaning, a
pointer that has left its array, is a number like any other.

| here | there |
| --- | --- |
| `Span`                       | span.hpp:90 |
| `first`, `last`, `subspan`   | span.hpp:53-64 |
| `SpanOp`, `nest`             | a call of one of the three; calls on what the last one returned |
| `Part`, `Inside`             | not in the source: elements that are a stretch of another span's; a range in the numbers |

* `exec_iff` — one call: which ranges the check gets right.
* `Part.trans` — a stretch of a stretch.
* `nest_part`, `nest_elements` — views nested to any depth: where they are and what they show.
* `nestOk_iff` — which nests throw and return what they should.
-/
namespace Thallium.Gsl
open EventRun

structure Span where
  data : Int
  size : UInt64
  deriving DecidableEq, Repr

namespace Span

/-- `first` (span.hpp:53). -/
def first (count : UInt64) (s : Span) : Except Exception Span :=
  if count > s.size then .error (.lengthError "span")
  else .ok ⟨s.data, count⟩

/-- `last` (span.hpp:57). -/
def last (count : UInt64) (s : Span) : Except Exception Span :=
  if count > s.size then .error (.lengthError "span")
  else .ok ⟨s.data + s.size.toNat - count.toNat, count⟩

/-- `subspan` (span.hpp:61): the sum wraps. -/
def subspan (offset count : UInt64) (s : Span) : Except Exception Span :=
  if offset + count > s.size then .error (.lengthError "span")
  else .ok ⟨s.data + offset.toNat, count⟩

/-- The place of the `i`-th element: `operator[]` (span.hpp:74). -/
def element (s : Span) (i : Nat) : Int := s.data + i

/-- What the elements are, in a memory. -/
def elements {α : Type} (mem : Int → α) (s : Span) : List α :=
  (List.range s.size.toNat).map fun i => mem (s.element i)

/-- The elements of `t` are those of `s` from the `offset`-th on, and none behind the last. -/
structure Part (t s : Span) (offset : Int) : Prop where
  nonneg : 0 ≤ offset
  data : t.data = s.data + offset
  le : offset + t.size.toNat ≤ s.size.toNat

end Span

inductive SpanOp where
  | first (count : UInt64)
  | last (count : UInt64)
  | subspan (offset count : UInt64)

namespace SpanOp

def exec : SpanOp → Span → Except Exception Span
  | first count => Span.first count
  | last count => Span.last count
  | subspan offset count => Span.subspan offset count

def count : SpanOp → UInt64
  | first count | last count | subspan _ count => count

/-- Where the range begins, without a bound on numbers. -/
def offset (size : UInt64) : SpanOp → Int
  | first _ => 0
  | last count => size.toNat - count.toNat
  | subspan offset _ => offset.toNat

/-- The range `[offset, offset + count)` in `[0, size)`: both of its ends are. -/
def Inside (size : UInt64) (op : SpanOp) : Prop :=
  0 ≤ op.offset size ∧ op.offset size + op.count.toNat ≤ size.toNat

/-- The sum of the check does not wrap, or is still too large. -/
def Fits (size : UInt64) : SpanOp → Prop
  | first _ | last _ => True
  | subspan offset count => offset.toNat + count.toNat < 2 ^ 64 ∨ size < offset + count

instance (size : UInt64) (op : SpanOp) : Decidable (op.Fits size) := by
  cases op <;> unfold Fits <;> infer_instance

/-- It throws and the range is not inside, or returns the elements of the range. -/
def Cuts (op : SpanOp) (s : Span) : Prop :=
  match op.exec s with
  | .ok t => op.Inside s.size ∧ t.size = op.count ∧ t.Part s (op.offset s.size)
  | .error e => e = .lengthError "span" ∧ ¬ op.Inside s.size

end SpanOp

/-! ## One call -/

namespace Span

theorem Part.trans {t v s : Span} {a b : Int} (h : t.Part v a) (h' : v.Part s b) : t.Part s (b + a) := by
  have hdata := h.data
  have hdata' := h'.data
  have hnonneg := h.nonneg
  have hnonneg' := h'.nonneg
  have hle := h.le
  have hle' := h'.le
  exact ⟨by omega, by omega, by omega⟩

theorem Part.refl (s : Span) : s.Part s 0 := ⟨Int.le_refl 0, (Int.add_zero _).symm, by omega⟩

/-- A part shows the elements that stand there. -/
theorem Part.elements {t s : Span} {offset : Nat} (h : t.Part s offset) {α : Type} (mem : Int → α) :
    t.elements mem = ((s.elements mem).drop offset).take t.size.toNat := by
  have hle := h.le
  apply List.ext_getElem
  · simp only [Span.elements, List.length_map, List.length_range, List.length_take, List.length_drop]
    omega
  · intro i hi _
    simp only [Span.elements, List.getElem_map, List.getElem_range, List.getElem_take, List.getElem_drop,
      element, h.data, Int.natCast_add, Int.add_assoc]

end Span

namespace SpanOp
variable {op : SpanOp} {s : Span}

theorem cuts_of_ok {t : Span} (hexec : op.exec s = .ok t) (hin : op.Inside s.size) (hsize : t.size = op.count)
    (hdata : t.data = s.data + op.offset s.size) : op.Cuts s := by
  rw [Cuts, hexec]
  exact ⟨hin, hsize, hin.1, hdata, by rw [hsize]; exact hin.2⟩

theorem cuts_of_error (hexec : op.exec s = .error (.lengthError "span")) (hout : ¬ op.Inside s.size) :
    op.Cuts s := by
  rw [Cuts, hexec]
  exact ⟨rfl, hout⟩

theorem first_cuts (count : UInt64) (s : Span) : (first count).Cuts s := by
  by_cases h : count > s.size
  · refine cuts_of_error (if_pos h) fun hin => ?_
    have hle := hin.2
    rw [gt_iff_lt, UInt64.lt_iff_toNat_lt] at h
    simp only [offset, SpanOp.count] at hle
    omega
  · refine cuts_of_ok (if_neg h) ⟨Int.le_refl 0, ?_⟩ rfl (Int.add_zero _).symm
    rw [gt_iff_lt, UInt64.lt_iff_toNat_lt] at h
    simp only [offset, SpanOp.count]
    omega

theorem last_cuts (count : UInt64) (s : Span) : (last count).Cuts s := by
  by_cases h : count > s.size
  · refine cuts_of_error (if_pos h) fun hin => ?_
    have hnonneg := hin.1
    rw [gt_iff_lt, UInt64.lt_iff_toNat_lt] at h
    simp only [offset] at hnonneg
    omega
  · refine cuts_of_ok (if_neg h) ?_ rfl ?_
    · rw [gt_iff_lt, UInt64.lt_iff_toNat_lt] at h
      simp only [Inside, offset, SpanOp.count]
      omega
    · simp only [offset]
      omega

/-- **`subspan`**: the check is right unless the sum wraps to no more than the size. -/
theorem subspan_cuts_iff (offset count : UInt64) (s : Span) :
    (subspan offset count).Cuts s ↔ (subspan offset count).Fits s.size := by
  have hsum : (offset + count).toNat = (offset.toNat + count.toNat) % 2 ^ 64 := UInt64.toNat_add _ _
  have hsize : s.size.toNat < 2 ^ 64 := s.size.toNat_lt
  have hinside : (subspan offset count).Inside s.size ↔ offset.toNat + count.toNat ≤ s.size.toNat := by
    simp only [Inside, SpanOp.offset, SpanOp.count]
    omega
  by_cases h : offset + count > s.size
  · have hlt := h
    rw [gt_iff_lt, UInt64.lt_iff_toNat_lt] at hlt
    refine iff_of_true (cuts_of_error (if_pos h) ?_) (.inr h)
    rw [hinside]
    omega
  · have hle := h
    rw [gt_iff_lt, UInt64.lt_iff_toNat_lt] at hle
    by_cases hwrap : offset.toNat + count.toNat < 2 ^ 64
    · refine iff_of_true (cuts_of_ok (if_neg h) ?_ rfl rfl) (.inl hwrap)
      rw [hinside]
      omega
    · -- a span is returned, but the range ends behind `2 ^ 64`
      refine iff_of_false ?_ ?_
      · intro hcuts
        have hexec : (subspan offset count).exec s = .ok ⟨s.data + offset.toNat, count⟩ := if_neg h
        rw [Cuts, hexec] at hcuts
        have hin := hinside.mp hcuts.1
        omega
      · rintro (hfits | hfits)
        · exact hwrap hfits
        · exact h hfits

/-- **One call** on any span. -/
theorem cuts_iff (op : SpanOp) (s : Span) : op.Cuts s ↔ op.Fits s.size := by
  cases op with
  | first count => exact iff_of_true (first_cuts count s) trivial
  | last count => exact iff_of_true (last_cuts count s) trivial
  | subspan offset count => exact subspan_cuts_iff offset count s

end SpanOp

/-! ## Views of views -/

namespace Span

/-- Each call is made on what the one before returned. -/
def nest (ops : List SpanOp) (s : Span) : Except Exception Span := ops.foldlM (fun v op => op.exec v) s

/-- Each call of a nest cuts what it should out of the view it is made on, and what it returns is a stretch
of the span itself. -/
def NestOk (s : Span) (ops : List SpanOp) : Prop :=
  Throughout (fun before op => ∀ v, nest before s = .ok v →
    op.Cuts v ∧ ∀ t, op.exec v = .ok t → ∃ offset, t.Part s offset) ops

/-- The sum of each `subspan` does not wrap, or is still too large for the view the call is made on. -/
def NestFits (s : Span) (ops : List SpanOp) : Prop :=
  Throughout (fun before op => ∀ v, nest before s = .ok v → op.Fits v.size) ops

theorem nest_concat {ops : List SpanOp} {op : SpanOp} {s t : Span} :
    nest (ops ++ [op]) s = .ok t ↔ ∃ v, nest ops s = .ok v ∧ op.exec v = .ok t := by
  rw [nest, List.foldlM_append, ← nest]
  cases hv : nest ops s with
  | error e =>
    constructor
    · intro h
      cases h
    · rintro ⟨v, h, -⟩
      cases h
  | ok v =>
    constructor
    · intro h
      refine ⟨v, rfl, ?_⟩
      rw [← h]
      cases hexec : op.exec v <;> simp [List.foldlM, hexec, bind, Except.bind, pure, Except.pure]
    · rintro ⟨v', h, hexec⟩
      obtain rfl := Except.ok.inj h
      simp [List.foldlM, hexec, bind, Except.bind, pure, Except.pure]

theorem Part.exec {v s t : Span} {offset : Int} (h : v.Part s offset) {op : SpanOp} (hcuts : op.Cuts v)
    (hexec : op.exec v = .ok t) : ∃ offset, t.Part s offset := by
  rw [SpanOp.Cuts, hexec] at hcuts
  exact ⟨_, hcuts.2.2.trans h⟩

/-- What a nest returns is a stretch of the span. The induction is from the last call. -/
theorem nest_part {s t : Span} {ops : List SpanOp} (hfits : s.NestFits ops) (h : nest ops s = .ok t) :
    ∃ offset, t.Part s offset := by
  induction ops using List.reverseRecOn generalizing t with
  | nil =>
    obtain rfl := Except.ok.inj h
    exact ⟨0, Part.refl s⟩
  | append_singleton ops op ih =>
    obtain ⟨hops, hop⟩ := throughout_concat.mp hfits
    obtain ⟨v, hv, hexec⟩ := nest_concat.mp h
    obtain ⟨offset, hpart⟩ := ih hops hv
    exact hpart.exec ((SpanOp.cuts_iff op v).mpr (hop v hv)) hexec

/-- It shows what stands there in the span. -/
theorem nest_elements {s t : Span} {ops : List SpanOp} (hfits : s.NestFits ops) (h : nest ops s = .ok t)
    {α : Type} (mem : Int → α) :
    ∃ offset, t.elements mem = ((s.elements mem).drop offset).take t.size.toNat := by
  obtain ⟨offset, hpart⟩ := nest_part hfits h
  obtain ⟨n, rfl⟩ := Int.eq_ofNat_of_zero_le hpart.nonneg
  exact ⟨n, hpart.elements mem⟩

/-- **Exact condition of nested views.** For every span and every nest of `first`, `last` and `subspan` calls
with any counts and offsets, each call throws exactly if its range is not inside the view it is made on,
and otherwise returns the elements of the range, all of them elements of the span, **iff** no `subspan` has a
sum that wraps to no more than the size of its view. -/
theorem nestOk_iff (s : Span) (ops : List SpanOp) : s.NestOk ops ↔ s.NestFits ops := by
  apply throughout_iff (J := s.NestFits)
  · exact throughout_nil
  · intro before op hbefore hop
    exact throughout_concat.mpr ⟨hbefore, hop⟩
  · intro before op hbefore
    refine forall₂_congr fun v hv => ?_
    rw [SpanOp.cuts_iff]
    refine and_iff_left_of_imp fun hfits t hexec => ?_
    obtain ⟨offset, hpart⟩ := nest_part hbefore hv
    exact hpart.exec ((SpanOp.cuts_iff op v).mpr hfits) hexec

/-- Five elements: `subspan(2^64 - 1, 1)` begins with the one before the first. -/
theorem not_nestOk_wrap : ¬ (⟨0, 5⟩ : Span).NestOk [.subspan 18446744073709551615 1] := by
  intro h
  have hcuts := (h [] _ [] rfl ⟨0, 5⟩ rfl).1
  rw [SpanOp.cuts_iff] at hcuts
  revert hcuts
  decide

end Span
end Thallium.Gsl
