import Thallium.Serialize.Archive

/-!
# `operator<<`, `operator>>` and `real_size` (include/serialize.hpp)

The three overload families, each by recursion on the type. A `struct` runs its `serializable`
over the archive, i.e. the operator on each listed member in turn.

| here | there |
| --- | --- |
| `serialize`, `deserialize`              | the trivially serializable overloads (serialize.hpp:111, :173) |
| `spanSerialize`, `spanDeserialize`      | `_span_serialize`, `_span_deserialize` (:83-101, :131-149) |
| `serializeSpan`                         | `serialize` of a `gsl::span` (:126): the length, then the elements |
| `deserializeResizeable`                 | `deserialize` of a vector or string (:158) |
| `Ty.save`, `Ty.load`                    | `operator<<` (:199-248), `operator>>` (:250-296) |
| `Ty.realSize`                           | `real_size` (:299-411, serialize.cpp:49) |
| `Ty.bytes`                              | not in the source: the wire format |

`Ty.load` takes the object read into, as `operator>>` does: `resize` keeps the elements a vector
had, and a map keeps the keys it had.
-/
namespace Thallium.Serializer

/-! ## Saving -/

section Save
variable {views : Prop} {A α : Type} [SaveArchive A]

/-- `serialize` of a trivially serializable value (serialize.hpp:111). -/
def serialize (r : Rep α) (a : A) (t : α) : Except Exception A := do
  let (dst, a) ← SaveArchive.getSaveCursor a r.size
  return SaveArchive.copy a dst (r.toBytes t)

/-- `_span_serialize` (serialize.hpp:83-101): one block when the elements are trivially
serializable, else one after the other. -/
def spanSerialize (r : Option (Rep α)) (save : A → α → Except Exception A) (a : A) (sp : List α) :
    Except Exception A :=
  match r with
  | some r => do
    let (dst, a) ← SaveArchive.getSaveCursor a (sp.length * r.size)
    return SaveArchive.copy a dst (sp.flatMap r.toBytes)
  | none => sp.foldlM save a

/-- `serialize` of a `gsl::span` (serialize.hpp:126). -/
def serializeSpan (r : Option (Rep α)) (save : A → α → Except Exception A) (a : A) (sp : List α) :
    Except Exception A := do
  let a ← serialize sizeRep a (BitVec.ofNat 64 sp.length)
  spanSerialize r save a sp

mutual
/-- `operator<<` (serialize.hpp:199-248). -/
def Ty.save : (t : Ty views) → A → t.Obj → Except Exception A
  | .trivial n, a, x => serialize (trivialRep n) a x
  | .array t _, a, x => spanSerialize (t.rep Nodes) t.save a (Sized.val x)
  | .string, a, s => serializeSpan (some charRep) (serialize charRep) a (Sized.val s)
  | .vector t, a, v => serializeSpan (t.rep Nodes) t.save a (Sized.val v)
  | .unorderedMap k v, a, m => do
    let a ← serialize sizeRep a (BitVec.ofNat 64 (Sized.val m).length)
    (Sized.val m).foldlM (fun a kv => do
      let a ← k.save a kv.1
      v.save a kv.2) a
  | .struct _ ms, a, x => Ty.saveMembers ms a x
  | .span _ t, a, sp => serializeSpan (t.rep Nodes) t.save a (Sized.val sp)
  | .staticSpan _ t _, a, sp => spanSerialize (t.rep Nodes) t.save a (Sized.val sp)

/-- `serializable` on a saving archive: `ar & m` for each member. -/
def Ty.saveMembers : (ms : List (Ty views)) → A → Objs ms → Except Exception A
  | [], a, _ => .ok a
  | t :: ms, a, x => do
    let a ← t.save a x.1
    Ty.saveMembers ms a x.2
end

end Save

/-! ## Loading -/

section Load
variable {A α : Type} [LoadArchive A]

/-- `deserialize` of a trivially serializable value (serialize.hpp:173). -/
def deserialize (r : Rep α) (a : A) : Except Exception (α × A) := do
  let (src, a) ← LoadArchive.getLoadCursor a r.size
  return (r.ofBytes src, a)

/-- `for (auto &element : sp) a >> element` (serialize.hpp:146). -/
def loadElements (load : A → α → Except Exception (α × A)) :
    (sp : List α) → A → Except Exception (Sized (· = sp.length) α × A)
  | [], a => .ok (⟨[], rfl⟩, a)
  | e :: sp, a => do
    let (e, a) ← load a e
    let (l, a) ← loadElements load sp a
    return (⟨e :: l.val, congrArg (· + 1) l.sized⟩, a)

/-- The `n` objects a block of bytes holds. -/
def reinterpret (r : Rep α) : (n : Nat) → List UInt8 → Sized (· = n) α
  | 0, _ => ⟨[], rfl⟩
  | n + 1, src =>
    let l := reinterpret r n (src.drop r.size)
    ⟨r.ofBytes (src.take r.size) :: l.val, congrArg (· + 1) l.sized⟩

/-- `_span_deserialize` (serialize.hpp:131-149). -/
def spanDeserialize (r : Option (Rep α)) (load : A → α → Except Exception (α × A)) (a : A)
    (sp : List α) : Except Exception (Sized (· = sp.length) α × A) :=
  match r with
  | some r => do
    let (src, a) ← LoadArchive.getLoadCursor a (sp.length * r.size)
    return (reinterpret r sp.length src, a)
  | none => loadElements load sp a

/-- `resize` of a vector or string: elements beyond the old size are value-initialised. `what` is
libstdc++'s text. -/
def resize {size : Nat} (what : String) (init : α) (n : Nat) (v : Sized (· ≤ maxSize size) α) :
    Except Exception (Sized (· ≤ maxSize size) α) :=
  if h : n ≤ maxSize size then
    .ok ⟨v.val.take n ++ List.replicate (n - v.val.length) init, by simp; omega⟩
  else .error (.lengthError what)

/-- `deserialize` of a vector or string (serialize.hpp:158). -/
def deserializeResizeable {size : Nat} (what : String) (r : Option (Rep α)) (init : α)
    (load : A → α → Except Exception (α × A)) (a : A) (v : Sized (· ≤ maxSize size) α) :
    Except Exception (Sized (· ≤ maxSize size) α × A) := do
  let (sizeToIncrease, a) ← deserialize sizeRep a
  let v ← resize what init sizeToIncrease.toNat v
  if sizeToIncrease.toNat > 0 then
    let (l, a) ← spanDeserialize r load a v.val
    return (⟨l.val, by rw [l.sized]; exact v.sized⟩, a)
  else return (v, a)

/-- The loop of `operator>>` on an `unordered_map` (serialize.hpp:289): `K k; V v;` are fresh in
every turn, `map[k] = v`. -/
def loadNodes {K V : Type} [DecidableEq K] (loadKey : A → K → Except Exception (K × A))
    (loadValue : A → V → Except Exception (V × A)) (key : K) (value : V) :
    Nat → A → MapOf K V → Except Exception (MapOf K V × A)
  | 0, a, map => .ok (map, a)
  | n + 1, a, map => do
    let (k, a) ← loadKey a key
    let (v, a) ← loadValue a value
    loadNodes loadKey loadValue key value n a (map.insert k v)

mutual
/-- `operator>>` (serialize.hpp:250-296) into the object given last. -/
def Ty.load : (t : Ty False) → A → t.Val → Except Exception (t.Val × A)
  | .trivial n, a, _ => deserialize (trivialRep n) a
  | .array t _, a, x => do
    let (l, a) ← spanDeserialize (t.rep MapOf) t.load a (Sized.val x)
    return (⟨l.val, l.sized.trans (Sized.sized x)⟩, a)
  | .string, a, s =>
    deserializeResizeable "basic_string::_M_replace_aux" (some charRep) 0
      (fun a _ => deserialize charRep a) a s
  | .vector t, a, v =>
    deserializeResizeable "vector::_M_default_append" (t.rep MapOf) t.init t.load a v
  | .unorderedMap k v, a, m => do
    let (length, a) ← deserialize sizeRep a
    loadNodes k.load v.load k.init v.init length.toNat a m
  | .struct _ ms, a, x => Ty.loadMembers ms a x
  | .span h _, _, _ => h.elim
  | .staticSpan h _ _, _, _ => h.elim

/-- `serializable` on a loading archive: `ar & m` for each member. -/
def Ty.loadMembers : (ms : List (Ty False)) → A → Vals ms → Except Exception (Vals ms × A)
  | [], a, _ => .ok ((), a)
  | t :: ms, a, x => do
    let (y, a) ← t.load a x.1
    let (ys, a) ← Ty.loadMembers ms a x.2
    return ((y, ys), a)
end

end Load

/-! ## Sizes

A size is a `size_t`: sums and products wrap. -/

section Size
variable {views : Prop} {α : Type}

/-- `real_size` of a `gsl::span` (serialize.hpp:371-391); a `static_span` takes this overload too. -/
def realSizeSpan (r : Option (Rep α)) (realSize : α → BitVec 64) (sp : List α) : BitVec 64 :=
  match r with
  | some r => BitVec.ofNat 64 r.size * BitVec.ofNat 64 sp.length + BitVec.ofNat 64 sizeRep.size
  | none => sp.foldl (fun sum i => sum + realSize i) (BitVec.ofNat 64 sizeRep.size)

mutual
/-- `real_size` (serialize.hpp:299-411, serialize.cpp:49). -/
def Ty.realSize : (t : Ty views) → t.Obj → BitVec 64
  | .trivial n, _ => BitVec.ofNat 64 n
  | .array t n, x =>
    match t.rep Nodes with
    | some r => BitVec.ofNat 64 n * BitVec.ofNat 64 r.size
    -- minus a `size_t`, which the span overload counts for a dynamic span
    | none => realSizeSpan (t.rep Nodes) t.realSize (Sized.val x) - BitVec.ofNat 64 sizeRep.size
  | .string, s =>
    BitVec.ofNat 64 (Sized.val s).length * BitVec.ofNat 64 charRep.size + BitVec.ofNat 64 sizeRep.size
  | .vector t, v => realSizeSpan (t.rep Nodes) t.realSize (Sized.val v)
  | .unorderedMap k v, m =>
    (Sized.val m).foldl (fun sum kv => sum + k.realSize kv.1 + v.realSize kv.2)
      (BitVec.ofNat 64 sizeRep.size)
  | .struct _ ms, x => Ty.realSizeMembers ms 0 x
  | .span _ t, sp => realSizeSpan (t.rep Nodes) t.realSize (Sized.val sp)
  | .staticSpan _ t _, sp => realSizeSpan (t.rep Nodes) t.realSize (Sized.val sp)

/-- `serializable` on a `SizeArchive` holding `total_size` (serialize.hpp:337). -/
def Ty.realSizeMembers : (ms : List (Ty views)) → BitVec 64 → Objs ms → BitVec 64
  | [], totalSize, _ => totalSize
  | t :: ms, totalSize, x => Ty.realSizeMembers ms (totalSize + t.realSize x.1) x.2
end

end Size

/-! ## The wire format -/

section Bytes
variable {views : Prop}

/-- A length on the wire. -/
def lengthBytes (n : Nat) : List UInt8 := sizeRep.toBytes (BitVec.ofNat 64 n)

mutual
/-- What a saved object looks like. -/
def Ty.bytes : (t : Ty views) → t.Obj → List UInt8
  | .trivial n, x => (trivialRep n).toBytes x
  | .array t _, x => (Sized.val x).flatMap t.bytes
  | .string, s => lengthBytes (Sized.val s).length ++ Sized.val s
  | .vector t, v => lengthBytes (Sized.val v).length ++ (Sized.val v).flatMap t.bytes
  | .unorderedMap k v, m =>
    lengthBytes (Sized.val m).length ++
      (Sized.val m).flatMap fun kv => k.bytes kv.1 ++ v.bytes kv.2
  | .struct _ ms, x => Ty.bytesMembers ms x
  | .span _ t, sp => lengthBytes (Sized.val sp).length ++ (Sized.val sp).flatMap t.bytes
  | .staticSpan _ t _, sp => (Sized.val sp).flatMap t.bytes

def Ty.bytesMembers : (ms : List (Ty views)) → Objs ms → List UInt8
  | [], _ => []
  | t :: ms, x => t.bytes x.1 ++ Ty.bytesMembers ms x.2
end

end Bytes

end Thallium.Serializer
