import Mathlib.Data.Finmap
import Thallium.Lib.LittleEndian

/-!
# The types `operator<<` and `operator>>` accept (include/serialize.hpp)

The overload families of the serializer are dispatched over an open universe of C++ types,
reified here as `Ty`. `views` says whether `gsl::span` and `gsl::static_span` occur: they can be
saved but not loaded, so `Ty False` is what both directions accept.

| here | there |
| --- | --- |
| `Ty.trivial n`      | an arithmetic or enum type of `n` bytes (`is_trivially_serializable`, serialize.hpp:78) |
| `Ty.array t n`      | `T[n]` |
| `Ty.struct sz ms`   | a class with a `serializable` member listing the members `ms`, `sizeof` = `sz` |
| `Ty.Obj t`          | an object in memory; a map is the list of its nodes in iteration order |
| `Ty.Val t`          | a value, i.e. an object up to `==`: a map is its key-to-value function |
| `Ty.value`          | the value of an object |
| `Rep`               | an object representation, what `reinterpret_cast<const char *>(&t)` shows |
-/
namespace Thallium.Serializer
open LittleEndian

inductive Ty (views : Prop) where
  | trivial (size : Nat)
  | array (t : Ty views) (n : Nat)
  | string
  | vector (t : Ty views)
  | unorderedMap (k v : Ty views)
  | struct (size : Nat) (members : List (Ty views))
  | span (h : views) (t : Ty views)
  | staticSpan (h : views) (t : Ty views) (n : Nat)

variable {views : Prop}

/-- `sizeof` (LP64, libstdc++). -/
def Ty.sizeof : Ty views → Nat
  | .trivial n => n
  | .array t n => n * t.sizeof
  | .string => 32
  | .vector _ => 24
  | .unorderedMap _ _ => 56
  | .struct size _ => size
  | .span _ _ => 16
  | .staticSpan _ _ _ => 16

/-- `max_size()` of a container whose elements take `size` bytes: `2^63 - 1` bytes in total. -/
def maxSize (size : Nat) : Nat := (2 ^ 63 - 1) / size

theorem maxSize_one : maxSize 1 = 2 ^ 63 - 1 := Nat.div_one _

/-- A list whose length satisfies `p`. -/
@[ext] structure Sized (p : Nat → Prop) (α : Type) where
  val : List α
  sized : p val.length
  deriving DecidableEq

namespace Sized
variable {p : Nat → Prop} {α β γ : Type}

def map (f : α → β) (x : Sized p α) : Sized p β where
  val := x.val.map f
  sized := by rw [List.length_map]; exact x.sized

@[simp] theorem map_val (f : α → β) (x : Sized p α) : (x.map f).val = x.val.map f := rfl

/-- Each element combined with the one at its place in a list that is long enough. -/
def zipWith (f : α → β → γ) (x : Sized p α) (l : List β) (h : x.val.length ≤ l.length) : Sized p γ where
  val := List.zipWith f x.val l
  sized := by rw [List.length_zipWith, Nat.min_eq_left h]; exact x.sized

end Sized

/-- `std::string`: no longer than `max_size()`. -/
abbrev CppString : Type := Sized (· ≤ maxSize 1) UInt8

mutual
/-- The data of a type, given what a map is. -/
def Ty.Carrier (M : Type → Type → Type) : Ty views → Type
  | .trivial n => BitVec (8 * n)
  | .array t n => Sized (· = n) (t.Carrier M)
  | .string => CppString
  | .vector t => Sized (· ≤ maxSize t.sizeof) (t.Carrier M)
  | .unorderedMap k v => M (k.Carrier M) (v.Carrier M)
  | .struct _ ms => Ty.Members M ms
  | .span _ t => Sized (· < 2 ^ 64) (t.Carrier M)
  | .staticSpan _ t n => Sized (· = n) (t.Carrier M)

/-- One component for each member a struct's `serializable` lists, in that order. -/
def Ty.Members (M : Type → Type → Type) : List (Ty views) → Type
  | [] => Unit
  | t :: ts => t.Carrier M × Ty.Members M ts
end

/-- The nodes of an `unordered_map` in iteration order; `size()` is a `size_t`. -/
abbrev Nodes (K V : Type) : Type := Sized (· < 2 ^ 64) (K × V)

/-- An `unordered_map` as a value: what each key is mapped to. -/
abbrev MapOf (K V : Type) : Type := Finmap (fun _ : K => V)

abbrev Ty.Obj (t : Ty views) : Type := t.Carrier Nodes
abbrev Ty.Val (t : Ty views) : Type := t.Carrier MapOf
abbrev Objs (ts : List (Ty views)) : Type := Ty.Members Nodes ts
abbrev Vals (ts : List (Ty views)) : Type := Ty.Members MapOf ts

mutual
def Ty.decEq : (t : Ty views) → DecidableEq t.Val
  | .trivial n => inferInstanceAs (DecidableEq (BitVec (8 * n)))
  | .array t n => letI := t.decEq; inferInstanceAs (DecidableEq (Sized (· = n) t.Val))
  | .string => inferInstanceAs (DecidableEq CppString)
  | .vector t => letI := t.decEq; inferInstanceAs (DecidableEq (Sized (· ≤ maxSize t.sizeof) t.Val))
  | .unorderedMap k v =>
    letI := k.decEq; letI := v.decEq; inferInstanceAs (DecidableEq (MapOf k.Val v.Val))
  | .struct _ ms => Ty.membersDecEq ms
  | .span _ t => letI := t.decEq; inferInstanceAs (DecidableEq (Sized (· < 2 ^ 64) t.Val))
  | .staticSpan _ t n => letI := t.decEq; inferInstanceAs (DecidableEq (Sized (· = n) t.Val))

def Ty.membersDecEq : (ms : List (Ty views)) → DecidableEq (Vals ms)
  | [] => inferInstanceAs (DecidableEq Unit)
  | t :: ts =>
    letI := t.decEq; letI := Ty.membersDecEq ts; inferInstanceAs (DecidableEq (t.Val × Vals ts))
end

instance (t : Ty views) : DecidableEq t.Val := t.decEq
instance (ts : List (Ty views)) : DecidableEq (Vals ts) := Ty.membersDecEq ts

/-- The map with the given nodes: each walked node sets its key. -/
def mapOfNodes {K V : Type} [DecidableEq K] (nodes : List (K × V)) : MapOf K V :=
  nodes.foldl (fun m e => m.insert e.1 e.2) ∅

mutual
/-- The value of an object: the iteration order of its maps forgotten. -/
def Ty.value : (t : Ty views) → t.Obj → t.Val
  | .trivial _, x => x
  | .array t _, x => Sized.map t.value x
  | .string, s => s
  | .vector t, x => Sized.map t.value x
  | .unorderedMap k v, m => mapOfNodes ((Sized.val m).map fun e => (k.value e.1, v.value e.2))
  | .struct _ ms, x => Ty.values ms x
  | .span _ t, x => Sized.map t.value x
  | .staticSpan _ t _, x => Sized.map t.value x

def Ty.values : (ts : List (Ty views)) → Objs ts → Vals ts
  | [], _ => ()
  | t :: ts, x => (t.value x.1, Ty.values ts x.2)
end

mutual
/-- A value-initialised object (`T()`): zero, empty, or so member by member. -/
def Ty.init : (t : Ty views) → t.Val
  | .trivial n => (0 : BitVec (8 * n))
  | .array t n => (⟨List.replicate n t.init, List.length_replicate⟩ : Sized (· = n) t.Val)
  | .string => (⟨[], Nat.zero_le _⟩ : CppString)
  | .vector t => (⟨[], Nat.zero_le _⟩ : Sized (· ≤ maxSize t.sizeof) t.Val)
  | .unorderedMap k v => (∅ : MapOf k.Val v.Val)
  | .struct _ ms => Ty.inits ms
  | .span _ t => (⟨[], Nat.two_pow_pos 64⟩ : Sized (· < 2 ^ 64) t.Val)
  | .staticSpan _ t n => (⟨List.replicate n t.init, List.length_replicate⟩ : Sized (· = n) t.Val)

def Ty.inits : (ts : List (Ty views)) → Vals ts
  | [] => ()
  | t :: ts => (t.init, Ty.inits ts)
end

mutual
/-- A freshly constructed object: its containers are empty, its arithmetic members hold
anything. -/
def Ty.Fresh : (t : Ty views) → t.Val → Prop
  | .trivial _, _ => True
  | .array t _, d => ∀ e ∈ Sized.val d, t.Fresh e
  | .string, d => Sized.val d = []
  | .vector _, d => Sized.val d = []
  | .unorderedMap _ _, d => d = (∅ : Finmap _)
  | .struct _ ms, d => Ty.Freshes ms d
  | .span _ _, d => Sized.val d = []
  | .staticSpan _ t _, d => ∀ e ∈ Sized.val d, t.Fresh e

def Ty.Freshes : (ts : List (Ty views)) → Vals ts → Prop
  | [], _ => True
  | t :: ts, d => t.Fresh d.1 ∧ Ty.Freshes ts d.2
end

mutual
theorem Ty.fresh_init : ∀ t : Ty views, t.Fresh t.init
  | .trivial _ => True.intro
  | .array t _ => fun _ he => (List.eq_of_mem_replicate he) ▸ t.fresh_init
  | .string => rfl
  | .vector _ => rfl
  | .unorderedMap _ _ => rfl
  | .struct _ ms => Ty.freshes_inits ms
  | .span _ _ => rfl
  | .staticSpan _ t _ => fun _ he => (List.eq_of_mem_replicate he) ▸ t.fresh_init

theorem Ty.freshes_inits : ∀ ts : List (Ty views), Ty.Freshes ts (Ty.inits ts)
  | [] => True.intro
  | t :: ts => ⟨t.fresh_init, Ty.freshes_inits ts⟩
end

/-! ## Object representations -/

/-- The bytes of an object that is copied as it lies in memory. -/
structure Rep (α : Type) where
  size : Nat
  toBytes : α → List UInt8
  ofBytes : List UInt8 → α
  length_toBytes : ∀ x, (toBytes x).length = size
  ofBytes_toBytes : ∀ x, ofBytes (toBytes x) = x

/-- An arithmetic or enum type of `n` bytes, least significant byte first. -/
def trivialRep (n : Nat) : Rep (BitVec (8 * n)) where
  size := n
  toBytes x := toLE n x.toNat
  ofBytes bs := BitVec.ofNat (8 * n) (ofLE bs)
  length_toBytes _ := length_toLE _ _
  ofBytes_toBytes x := by
    have h : x.toNat < 256 ^ n := by
      have := x.isLt
      rwa [Nat.pow_mul] at this
    rw [ofLE_toLE_of_lt h, BitVec.ofNat_toNat, BitVec.setWidth_eq]

/-- `char`. -/
def charRep : Rep UInt8 where
  size := 1
  toBytes c := [c]
  ofBytes bs := bs.headD 0
  length_toBytes _ := rfl
  ofBytes_toBytes _ := rfl

/-- `is_trivially_serializable` (serialize.hpp:78): the type is copied as it lies in memory. -/
def Ty.rep (M : Type → Type → Type) : (t : Ty views) → Option (Rep (t.Carrier M))
  | .trivial n => some (trivialRep n)
  | _ => none

/-- The object representation of a `size_t`. -/
def sizeRep : Rep (BitVec 64) := trivialRep 8

end Thallium.Serializer
