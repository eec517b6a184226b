import Thallium.Serialize.RoundTrip

/-!
# `real_size` and what is written (include/serialize.hpp:299-412)

`real_size` walks an object as `operator<<` does, with overloads of its own. A `static_span` takes the
one for spans (serialize.hpp:371-391), which counts a length that saving it does not write; the
overload for arrays takes that length off again (:397). Sizes wrap at `2^64`, which what is written for
spans of spans over the same memory may exceed.

| here | there |
| --- | --- |
| `Ty.staticSpans`  | not in the source: how many `static_span`s are saved |
| `Advances`        | not in the source: how far a fixed buffer is filled |
| `Ty.footprint`    | not in the source: the memory an object takes |

* `Ty.realSize_eq` — `real_size`, exactly, for every object of every type.
* `Ty.advances` — a fixed buffer that takes an object has had room for all of its bytes.
* `Ty.length_bytes_le` — an object without views is written in no more bytes than it takes in memory.
-/
namespace Thallium.Serializer

variable {views : Prop}

/-! ## The `static_span`s of an object -/

mutual
/-- How many `static_span`s saving the object comes to. -/
def Ty.staticSpans : (t : Ty views) → t.Obj → Nat
  | .trivial _, _ => 0
  | .array t _, x => ((Sized.val x).map t.staticSpans).sum
  | .string, _ => 0
  | .vector t, v => ((Sized.val v).map t.staticSpans).sum
  | .unorderedMap k v, m =>
    ((Sized.val m).map fun kv => k.staticSpans kv.1 + v.staticSpans kv.2).sum
  | .struct _ ms, x => Ty.staticSpansMembers ms x
  | .span _ t, sp => ((Sized.val sp).map t.staticSpans).sum
  | .staticSpan _ t _, sp => ((Sized.val sp).map t.staticSpans).sum + 1

def Ty.staticSpansMembers : (ms : List (Ty views)) → Objs ms → Nat
  | [], _ => 0
  | t :: ms, x => t.staticSpans x.1 + Ty.staticSpansMembers ms x.2
end

theorem Ty.rep_staticSpans : ∀ (t : Ty views) (r : Rep t.Obj), t.rep Nodes = some r →
    ∀ o, t.staticSpans o = 0
  | .trivial _, _, rfl => fun _ => rfl

theorem sum_eq_zero {α : Type} {n : α → Nat} (h : ∀ x, n x = 0) (l : List α) : (l.map n).sum = 0 := by
  induction l with
  | nil => rfl
  | cons x l ih => rw [List.map_cons, List.sum_cons, ih, h]

mutual
theorem Ty.staticSpans_eq_zero : ∀ (t : Ty False) (o : t.Obj), t.staticSpans o = 0
  | .trivial _, _ => rfl
  | .array t _, o => sum_eq_zero t.staticSpans_eq_zero (Sized.val o)
  | .string, _ => rfl
  | .vector t, o => sum_eq_zero t.staticSpans_eq_zero (Sized.val o)
  | .unorderedMap k v, o =>
    sum_eq_zero (fun kv => by rw [k.staticSpans_eq_zero, v.staticSpans_eq_zero]) (Sized.val o)
  | .struct _ ms, o => Ty.staticSpansMembers_eq_zero ms o
  | .span h _, _ => h.elim
  | .staticSpan h _ _, _ => h.elim

theorem Ty.staticSpansMembers_eq_zero : ∀ (ms : List (Ty False)) (o : Objs ms),
    Ty.staticSpansMembers ms o = 0
  | [], _ => rfl
  | t :: ms, o => by
    show t.staticSpans o.1 + Ty.staticSpansMembers ms o.2 = 0
    rw [t.staticSpans_eq_zero, Ty.staticSpansMembers_eq_zero ms]
end

/-! ## Sizes -/

section Spans
variable {α : Type}

@[simp] theorem length_lengthBytes (n : Nat) : (lengthBytes n).length = sizeRep.size :=
  sizeRep.length_toBytes _

variable {size : α → BitVec 64} {n : α → Nat} {bytes : α → List UInt8}

/-- A loop that adds up sizes. -/
theorem foldl_sizes (h : ∀ x, size x = BitVec.ofNat 64 ((bytes x).length + sizeRep.size * n x))
    (l : List α) (s : BitVec 64) :
    l.foldl (fun sum i => sum + size i) s =
      s + BitVec.ofNat 64 ((l.flatMap bytes).length + sizeRep.size * (l.map n).sum) := by
  induction l generalizing s with
  | nil => exact (BitVec.add_zero s).symm
  | cons x l ih =>
    have hsum : ((x :: l).flatMap bytes).length + sizeRep.size * ((x :: l).map n).sum =
        (bytes x).length + sizeRep.size * n x +
          ((l.flatMap bytes).length + sizeRep.size * (l.map n).sum) := by
      rw [List.flatMap_cons, List.length_append, List.map_cons, List.sum_cons, Nat.mul_add]
      omega
    rw [List.foldl_cons, ih, h, BitVec.add_assoc, ← BitVec.ofNat_add, hsum]

/-- A span is its length and its elements, with what is counted too much for them. -/
theorem realSizeSpan_eq {r : Option (Rep α)} (hr : ∀ r', r = some r' → bytes = r'.toBytes)
    (hn : ∀ r', r = some r' → ∀ x, n x = 0)
    (h : ∀ x, size x = BitVec.ofNat 64 ((bytes x).length + sizeRep.size * n x)) (sp : List α) :
    realSizeSpan r size sp = BitVec.ofNat 64
      (sizeRep.size + ((sp.flatMap bytes).length + sizeRep.size * (sp.map n).sum)) := by
  cases r with
  | none => rw [realSizeSpan, foldl_sizes h, ← BitVec.ofNat_add]
  | some r =>
    rw [hr r rfl, length_flatMap_toBytes, realSizeSpan, sum_eq_zero (hn r rfl), Nat.mul_zero,
      Nat.add_zero, Nat.add_comm, Nat.mul_comm, BitVec.ofNat_add, BitVec.ofNat_mul]

end Spans

mutual
/-- **Size.** What `build` reserves for an object is what saving it takes, and the length of a span
for every `static_span` in it, up to multiples of `2^64`. -/
theorem Ty.realSize_eq : ∀ (t : Ty views) (o : t.Obj),
    t.realSize o = BitVec.ofNat 64 ((t.bytes o).length + sizeRep.size * t.staticSpans o)
  | .trivial n, o => congrArg (BitVec.ofNat 64) ((trivialRep n).length_toBytes o).symm
  | .array t n, o => by
    have hlen : (Sized.val o).length = n := Sized.sized o
    show _ = BitVec.ofNat 64 (((Sized.val o).flatMap t.bytes).length +
      sizeRep.size * ((Sized.val o).map t.staticSpans).sum)
    cases hr : t.rep Nodes with
    | some r =>
      have hs : (Ty.array t n).realSize o = BitVec.ofNat 64 n * BitVec.ofNat 64 r.size := by
        simp only [Ty.realSize, hr]
      rw [hs, sum_eq_zero (t.rep_staticSpans r hr), t.rep_bytes r hr, length_flatMap_toBytes, hlen,
        Nat.mul_zero, Nat.add_zero, BitVec.ofNat_mul]
    | none =>
      have hspan := realSizeSpan_eq t.rep_bytes t.rep_staticSpans t.realSize_eq (Sized.val o)
      have hs : (Ty.array t n).realSize o =
          realSizeSpan (t.rep Nodes) t.realSize (Sized.val o) - BitVec.ofNat 64 sizeRep.size := by
        simp only [Ty.realSize, hr]
      rw [hs, hspan, BitVec.ofNat_add, BitVec.add_comm, BitVec.add_sub_cancel]
  | .string, o => by
    show _ = BitVec.ofNat 64 ((lengthBytes _ ++ Sized.val o).length + 0)
    rw [List.length_append, length_lengthBytes, Nat.add_zero, Nat.add_comm, BitVec.ofNat_add]
    exact congrArg (· + BitVec.ofNat 64 sizeRep.size) (BitVec.mul_one _)
  | .vector t, o => by
    show realSizeSpan _ _ _ = BitVec.ofNat 64 ((lengthBytes _ ++ _).length + _)
    rw [realSizeSpan_eq t.rep_bytes t.rep_staticSpans t.realSize_eq, List.length_append,
      length_lengthBytes, Nat.add_assoc]
    rfl
  | .unorderedMap k v, o => by
    have hnode : ∀ kv : k.Obj × v.Obj, k.realSize kv.1 + v.realSize kv.2 =
        BitVec.ofNat 64 ((k.bytes kv.1 ++ v.bytes kv.2).length +
          sizeRep.size * (k.staticSpans kv.1 + v.staticSpans kv.2)) := by
      intro kv
      rw [k.realSize_eq, v.realSize_eq, ← BitVec.ofNat_add, List.length_append, Nat.mul_add]
      congr 1
      omega
    show (Sized.val o).foldl _ _ = BitVec.ofNat 64 ((lengthBytes _ ++ _).length + _)
    simp only [BitVec.add_assoc]
    rw [foldl_sizes hnode, ← BitVec.ofNat_add, List.length_append, length_lengthBytes, Nat.add_assoc]
    rfl
  | .struct _ ms, o => (Ty.realSizeMembers_eq ms 0 o).trans (BitVec.zero_add _)
  | .span _ t, o => by
    show realSizeSpan _ _ _ = BitVec.ofNat 64 ((lengthBytes _ ++ _).length + _)
    rw [realSizeSpan_eq t.rep_bytes t.rep_staticSpans t.realSize_eq, List.length_append,
      length_lengthBytes, Nat.add_assoc]
    rfl
  | .staticSpan _ t _, o => by
    -- saved as the elements alone
    show realSizeSpan _ _ _ = BitVec.ofNat 64 (((Sized.val o).flatMap t.bytes).length +
      sizeRep.size * (((Sized.val o).map t.staticSpans).sum + 1))
    rw [realSizeSpan_eq t.rep_bytes t.rep_staticSpans t.realSize_eq, Nat.mul_add, Nat.mul_one]
    congr 1
    omega

theorem Ty.realSizeMembers_eq : ∀ (ms : List (Ty views)) (totalSize : BitVec 64) (o : Objs ms),
    Ty.realSizeMembers ms totalSize o = totalSize + BitVec.ofNat 64
      ((Ty.bytesMembers ms o).length + sizeRep.size * Ty.staticSpansMembers ms o)
  | [], totalSize, _ => (BitVec.add_zero totalSize).symm
  | t :: ms, totalSize, o => by
    show Ty.realSizeMembers ms (totalSize + t.realSize o.1) o.2 = _ + BitVec.ofNat 64
      ((t.bytes o.1 ++ _).length + sizeRep.size * (t.staticSpans o.1 + Ty.staticSpansMembers ms o.2))
    rw [Ty.realSizeMembers_eq ms, t.realSize_eq, BitVec.add_assoc, ← BitVec.ofNat_add,
      List.length_append, Nat.mul_add]
    congr 2
    omega
end

/-! ## Fixed buffers -/

/-- If `save` returns, the cursor is `n` bytes on, in a buffer of the same size. -/
def Advances (save : FixSizeBufferSavingArchive → Except Exception FixSizeBufferSavingArchive)
    (n : Nat) : Prop :=
  ∀ ⦃a a'⦄, save a = .ok a' → a'.saveCursor = a.saveCursor + n ∧ a'.buf.length = a.buf.length ∧
    (a.saveCursor ≤ a.buf.length → a'.saveCursor ≤ a'.buf.length)

section Advance
variable {α : Type}

theorem Advances.ok : Advances (fun a => .ok a) 0 := by
  rintro a a' h
  obtain rfl := Except.ok.inj h
  exact ⟨rfl, rfl, id⟩

theorem Advances.bind {f g : FixSizeBufferSavingArchive → Except Exception FixSizeBufferSavingArchive}
    {m n : Nat} (hf : Advances f m) (hg : Advances g n) : Advances (fun a => f a >>= g) (m + n) := by
  intro a a'' h
  replace h : (f a >>= g) = .ok a'' := h
  cases h' : f a with
  | error e =>
    rw [h'] at h
    cases h
  | ok a' =>
    rw [h'] at h
    obtain ⟨hcur, hlen, hle⟩ := hf h'
    obtain ⟨hcur', hlen', hle'⟩ := hg h
    exact ⟨by omega, by omega, hle' ∘ hle⟩

theorem Advances.foldlM {save : FixSizeBufferSavingArchive → α → Except Exception FixSizeBufferSavingArchive}
    {bytes : α → List UInt8} (h : ∀ x, Advances (save · x) (bytes x).length) (l : List α) :
    Advances (fun a => l.foldlM save a) (l.flatMap bytes).length := by
  induction l with
  | nil => exact Advances.ok
  | cons x l ih =>
    simp only [List.foldlM_cons, List.flatMap_cons, List.length_append]
    exact (h x).bind ih

/-- A block copied to a cursor for it. -/
theorem Advances.copy (src : List UInt8) : Advances (fun a => do
    let (dst, a) ← SaveArchive.getSaveCursor a src.length
    return SaveArchive.copy a dst src) src.length := by
  rintro ⟨buf, cur⟩ a' h
  simp only [SaveArchive.getSaveCursor, FixSizeBufferSavingArchive.getSaveCursor] at h
  by_cases hroom : cur + src.length > buf.length
  · simp only [if_pos hroom] at h
    split at h <;> cases h
  · simp only [if_neg hroom] at h
    obtain rfl := Except.ok.inj h
    have hlen : (copyTo buf cur src).length = buf.length := length_copyTo (by omega)
    exact ⟨rfl, hlen, fun _ => by simp only [SaveArchive.copy, hlen]; omega⟩

theorem serialize_advances (r : Rep α) (t : α) :
    Advances (fun a => serialize r a t) (r.toBytes t).length := by
  have h := Advances.copy (r.toBytes t)
  rwa [r.length_toBytes] at h ⊢

theorem spanSerialize_advances {r : Option (Rep α)}
    {save : FixSizeBufferSavingArchive → α → Except Exception FixSizeBufferSavingArchive}
    {bytes : α → List UInt8} (hr : ∀ r', r = some r' → bytes = r'.toBytes)
    (h : ∀ x, Advances (save · x) (bytes x).length) (sp : List α) :
    Advances (fun a => spanSerialize r save a sp) (sp.flatMap bytes).length := by
  cases r with
  | none => exact Advances.foldlM h sp
  | some r =>
    rw [hr r rfl]
    have hcopy := Advances.copy (sp.flatMap r.toBytes)
    rwa [length_flatMap_toBytes] at hcopy ⊢

theorem serializeSpan_advances {r : Option (Rep α)}
    {save : FixSizeBufferSavingArchive → α → Except Exception FixSizeBufferSavingArchive}
    {bytes : α → List UInt8} (hr : ∀ r', r = some r' → bytes = r'.toBytes)
    (h : ∀ x, Advances (save · x) (bytes x).length) (sp : List α) :
    Advances (fun a => serializeSpan r save a sp)
      (lengthBytes sp.length ++ sp.flatMap bytes).length := by
  rw [List.length_append]
  exact (serialize_advances sizeRep _).bind (spanSerialize_advances hr h sp)

end Advance

mutual
/-- **A fixed buffer** that takes an object has had room for all of its bytes. -/
theorem Ty.advances : ∀ (t : Ty views) (o : t.Obj),
    Advances (fun a => t.save a o) (t.bytes o).length
  | .trivial n, o => serialize_advances (trivialRep n) o
  | .array t _, o => spanSerialize_advances t.rep_bytes t.advances (Sized.val o)
  | .string, o => by
    have h := serializeSpan_advances (fun _ hr => congrArg Rep.toBytes (Option.some.inj hr))
      (serialize_advances charRep) (Sized.val o)
    rwa [flatMap_charRep] at h
  | .vector t, o => serializeSpan_advances t.rep_bytes t.advances (Sized.val o)
  | .unorderedMap k v, o => by
    have hnode (kv : k.Obj × v.Obj) := (k.advances kv.1).bind (v.advances kv.2)
    simp only [← List.length_append] at hnode
    have h := (serialize_advances sizeRep (BitVec.ofNat 64 (Sized.val o).length)).bind
      (Advances.foldlM hnode (Sized.val o))
    rwa [← List.length_append] at h
  | .struct _ ms, o => Ty.advances_members ms o
  | .span _ t, o => serializeSpan_advances t.rep_bytes t.advances (Sized.val o)
  | .staticSpan _ t _, o => spanSerialize_advances t.rep_bytes t.advances (Sized.val o)

theorem Ty.advances_members : ∀ (ms : List (Ty views)) (o : Objs ms),
    Advances (fun a => Ty.saveMembers ms a o) (Ty.bytesMembers ms o).length
  | [], _ => Advances.ok
  | t :: ms, o => by
    have h := (t.advances o.1).bind (Ty.advances_members ms o.2)
    rwa [← List.length_append] at h
end

/-! ## Objects in memory -/

mutual
/-- The memory an object takes: its own bytes, as far as they are its members', and those it has
allocated. A string of up to 15 characters is kept inside the object, a node of a map has a link to
the next. -/
def Ty.footprint : (t : Ty views) → t.Obj → Nat
  | .trivial n, _ => n
  | .array t _, x => ((Sized.val x).map t.footprint).sum
  | .string, s =>
    (.string : Ty views).sizeof + if (Sized.val s).length < 16 then 0 else (Sized.val s).length + 1
  | .vector t, v => (Ty.vector t).sizeof + ((Sized.val v).map t.footprint).sum
  | .unorderedMap k v, m => (Ty.unorderedMap k v).sizeof +
    ((Sized.val m).map fun kv => 8 + (k.footprint kv.1 + v.footprint kv.2)).sum
  | .struct _ ms, x => Ty.footprintMembers ms x
  | .span h t, _ => (Ty.span h t).sizeof
  | .staticSpan h t n, _ => (Ty.staticSpan h t n).sizeof

def Ty.footprintMembers : (ms : List (Ty views)) → Objs ms → Nat
  | [], _ => 0
  | t :: ms, x => t.footprint x.1 + Ty.footprintMembers ms x.2
end

/-- Objects that are in memory at the same time. A process has half an address space, `2^63` bytes. -/
structure Resident (ts : List (Ty views)) where
  objs : Objs ts
  resident : Ty.footprintMembers ts objs < 2 ^ 63

theorem length_flatMap_le {α : Type} {bytes : α → List UInt8} {size : α → Nat}
    (h : ∀ x, (bytes x).length ≤ size x) (l : List α) : (l.flatMap bytes).length ≤ (l.map size).sum := by
  induction l with
  | nil => exact Nat.le_refl 0
  | cons x l ih =>
    rw [List.flatMap_cons, List.length_append, List.map_cons, List.sum_cons]
    exact Nat.add_le_add (h x) ih

mutual
/-- **Without views** nothing is written twice: the bytes are no more than the object takes. -/
theorem Ty.length_bytes_le : ∀ (t : Ty False) (o : t.Obj), (t.bytes o).length ≤ t.footprint o
  | .trivial n, o => Nat.le_of_eq ((trivialRep n).length_toBytes o)
  | .array t _, o => length_flatMap_le t.length_bytes_le (Sized.val o)
  | .string, o => by
    show (lengthBytes _ ++ Sized.val o).length ≤ 32 + ite _ _ _
    rw [List.length_append, length_lengthBytes]
    show 8 + _ ≤ _
    split <;> omega
  | .vector t, o => by
    have h := length_flatMap_le t.length_bytes_le (Sized.val o)
    show (lengthBytes _ ++ _).length ≤ 24 + _
    rw [List.length_append, length_lengthBytes]
    exact Nat.add_le_add (by decide) h
  | .unorderedMap k v, o => by
    have hnode (kv : k.Obj × v.Obj) : (k.bytes kv.1 ++ v.bytes kv.2).length ≤
        8 + (k.footprint kv.1 + v.footprint kv.2) := by
      rw [List.length_append]
      exact Nat.le_add_left_of_le (Nat.add_le_add (k.length_bytes_le _) (v.length_bytes_le _))
    have h := length_flatMap_le hnode (Sized.val o)
    show (lengthBytes _ ++ _).length ≤ 56 + _
    rw [List.length_append, length_lengthBytes]
    exact Nat.add_le_add (by decide) h
  | .struct _ ms, o => Ty.length_bytesMembers_le ms o
  | .span h _, _ => h.elim
  | .staticSpan h _ _, _ => h.elim

theorem Ty.length_bytesMembers_le : ∀ (ms : List (Ty False)) (o : Objs ms),
    (Ty.bytesMembers ms o).length ≤ Ty.footprintMembers ms o
  | [], _ => Nat.le_refl 0
  | t :: ms, o => by
    show (t.bytes o.1 ++ _).length ≤ t.footprint o.1 + _
    rw [List.length_append]
    exact Nat.add_le_add (t.length_bytes_le o.1) (Ty.length_bytesMembers_le ms o.2)
end

/-- What is in memory can be written into one buffer. -/
theorem Resident.fits {ts : List (Ty False)} (args : Resident ts) :
    (Ty.bytesMembers ts args.objs).length ≤ maxSize 1 := by
  have hle := (Ty.length_bytesMembers_le ts args.objs).trans_lt args.resident
  rw [maxSize_one]
  omega

end Thallium.Serializer
