import Thallium.Lib.ByteProgram
import Thallium.Serialize.Operators

/-!
# Loading from any bytes (include/serialize.hpp, serialize.cpp:36-47, network/protocol.hpp:119-147)

`operator>>` on bytes nobody vouches for. The overloads use an archive through `get_load_cursor` and
nothing else, so loading is one program over the bytes in front of the cursor, whichever archive holds
them; `max_size` keeps its requests below `2^63`, and cursors that far from the end of the address
space do not wrap.

| here | there |
| --- | --- |
| `CppType`                  | a type whose objects are no larger than `PTRDIFF_MAX` |
| `Placement`                | where the bytes lie: the upper half of the address space is not the program's |
| `loadString`, `loadBuffer` | a load through either archive, with its `size()` |
| `Watched`                  | not in the source: an archive whose reads are checked against its buffer |

* `Ty.load_uniform` — `operator>>` as a program.
* `load_untrusted` — both archives on any bytes.
-/
namespace Thallium.Serializer
open ByteProgram Message

/-! ## Types and places -/

/-- The largest object: `PTRDIFF_MAX` bytes. -/
abbrev maxObject : Nat := 2 ^ 63 - 1

mutual
/-- No object of the type, nor of a type it is made of, is too large. -/
def Ty.Valid {views : Prop} : Ty views → Prop
  | .trivial n => n ≤ maxObject
  | .array t n => t.Valid ∧ n * t.sizeof ≤ maxObject
  | .string => True
  | .vector t => t.Valid
  | .unorderedMap k v => k.Valid ∧ v.Valid
  | .struct size ms => size ≤ maxObject ∧ Ty.Valids ms
  | .span _ t => t.Valid
  | .staticSpan _ t n => t.Valid ∧ n * t.sizeof ≤ maxObject

def Ty.Valids {views : Prop} : List (Ty views) → Prop
  | [] => True
  | t :: ts => t.Valid ∧ Ty.Valids ts
end

/-- A type that can be loaded. -/
structure CppType where
  type : Ty False
  valid : type.Valid

/-- Where a byte string lies in memory. -/
structure Placement (b : CppString) where
  addr : Nat
  fits : addr + b.val.length ≤ 2 ^ 63

def Placement.buffer {b : CppString} (p : Placement b) : ReadOnlyBuffer where
  buf := p.addr
  bytes := b.val
  fits := by have := p.fits; omega

/-! ## Loading as a program -/

section Uniform
variable {α β : Type}

/-- `load` asks its archive for bytes and does nothing else with it. -/
def Uniform (load : ∀ (A : Type) [LoadArchive A], A → Except Exception (α × A)) : Prop :=
  ∃ p : Program Exception α, p.Bounded maxObject ∧
    ∀ (A : Type) [LoadArchive A] (a : A), load A a = p.run LoadArchive.getLoadCursor a

theorem Uniform.ok (x : α) : Uniform fun _ _ a => .ok (x, a) :=
  ⟨.done x, trivial, fun _ _ _ => rfl⟩

theorem Uniform.error (e : Exception) : Uniform (α := α) fun _ _ _ => .error e :=
  ⟨.fail e, trivial, fun _ _ _ => rfl⟩

theorem Uniform.bind {f : ∀ (A : Type) [LoadArchive A], A → Except Exception (α × A)}
    {g : α → ∀ (A : Type) [LoadArchive A], A → Except Exception (β × A)} (hf : Uniform f)
    (hg : ∀ x, Uniform (g x)) : Uniform fun A _ a => f A a >>= fun r => g r.1 A r.2 := by
  obtain ⟨p, hp, hrun⟩ := hf
  choose q hq hrun' using hg
  refine ⟨p.bind q, hp.bind hq, fun A _ a => ?_⟩
  simp only [Program.run_bind, hrun, hrun']

/-- What is loaded may be put into another shape. -/
theorem Uniform.map {f : ∀ (A : Type) [LoadArchive A], A → Except Exception (α × A)} (hf : Uniform f)
    (g : α → β) : Uniform fun A _ a => f A a >>= fun r => .ok (g r.1, r.2) :=
  hf.bind fun x => Uniform.ok (g x)

/-- A cursor for `num` bytes. -/
theorem Uniform.cursor {num : Nat} (h : num ≤ maxObject) (f : List UInt8 → α) :
    Uniform fun _ _ a => LoadArchive.getLoadCursor a num >>= fun r => .ok (f r.1, r.2) :=
  ⟨.read num fun src => .done (f src), ⟨h, fun _ => trivial⟩, fun _ _ _ => rfl⟩

theorem deserialize_uniform (r : Rep α) (h : r.size ≤ maxObject) :
    Uniform fun _ _ a => deserialize r a :=
  Uniform.cursor h r.ofBytes

theorem loadElements_uniform {load : ∀ (A : Type) [LoadArchive A], A → α → Except Exception (α × A)}
    (h : ∀ d, Uniform fun A _ a => load A a d) :
    ∀ sp : List α, Uniform fun A _ a => loadElements (load A) sp a
  | [] => Uniform.ok _
  | e :: sp => by
    have hrest (e' : α) := (loadElements_uniform h sp).map
      fun l => (⟨e' :: l.val, congrArg (· + 1) l.sized⟩ : Sized (· = (e :: sp).length) α)
    exact (h e).bind hrest

theorem spanDeserialize_uniform {r : Option (Rep α)}
    {load : ∀ (A : Type) [LoadArchive A], A → α → Except Exception (α × A)}
    (h : ∀ d, Uniform fun A _ a => load A a d) (sp : List α)
    (hr : ∀ r', r = some r' → sp.length * r'.size ≤ maxObject) :
    Uniform fun A _ a => spanDeserialize r (load A) a sp := by
  cases r with
  | none => exact loadElements_uniform h sp
  | some r => exact Uniform.cursor (hr r rfl) fun src => reinterpret r sp.length src

/-- `resize` keeps the block copy below the bound, whatever the length was. -/
theorem deserializeResizeable_uniform (size : Nat) {what : String} {r : Option (Rep α)} {init : α}
    {load : ∀ (A : Type) [LoadArchive A], A → α → Except Exception (α × A)}
    (h : ∀ d, Uniform fun A _ a => load A a d) (hr : ∀ r', r = some r' → r'.size = size)
    (v : Sized (· ≤ maxSize size) α) :
    Uniform fun A _ a => deserializeResizeable what r init (load A) a v := by
  have hrest (n : BitVec 64) : Uniform fun A _ a => resize what init n.toNat v >>= fun v' =>
      if n.toNat > 0 then spanDeserialize r (load A) a v'.val >>= fun r =>
        .ok ((⟨r.1.val, by rw [r.1.sized]; exact v'.sized⟩ : Sized (· ≤ maxSize size) α), r.2)
      else .ok (v', a) := by
    cases hv : resize what init n.toNat v with
    | error e => exact Uniform.error e
    | ok v' =>
      by_cases hn : n.toNat > 0
      · have hmul : v'.val.length * size ≤ maxObject :=
          (Nat.mul_le_mul_right size v'.sized).trans (Nat.div_mul_le_self _ _)
        have hspan := spanDeserialize_uniform h v'.val fun r' hr' => by rw [hr r' hr']; exact hmul
        simp only [if_pos hn]
        exact hspan.map fun l => (⟨l.val, by rw [l.sized]; exact v'.sized⟩ : Sized (· ≤ maxSize size) α)
      · simp only [if_neg hn]
        exact Uniform.ok v'
  exact (deserialize_uniform sizeRep (by decide)).bind hrest

theorem loadNodes_uniform {K V : Type} [DecidableEq K]
    {loadKey : ∀ (A : Type) [LoadArchive A], A → K → Except Exception (K × A)}
    {loadValue : ∀ (A : Type) [LoadArchive A], A → V → Except Exception (V × A)} {key : K} {value : V}
    (hk : Uniform fun A _ a => loadKey A a key) (hv : Uniform fun A _ a => loadValue A a value) :
    ∀ (n : Nat) (map : MapOf K V),
      Uniform fun A _ a => loadNodes (loadKey A) (loadValue A) key value n a map
  | 0, map => Uniform.ok map
  | n + 1, map => by
    have hrest (k : K) (v : V) := loadNodes_uniform hk hv n (map.insert k v)
    exact hk.bind fun k => hv.bind (hrest k)

end Uniform

theorem Ty.rep_size {views : Prop} : ∀ (t : Ty views) (r : Rep t.Val), t.rep MapOf = some r → r.size = t.sizeof
  | .trivial _, _, rfl => rfl

mutual
/-- **`operator>>` is a program**, for every type and every object read into. -/
theorem Ty.load_uniform : ∀ (t : Ty False), t.Valid → ∀ d : t.Val, Uniform fun _ _ a => t.load a d
  | .trivial n, h, _ => deserialize_uniform (trivialRep n) h
  | .array t n, h, d => by
    have hspan := spanDeserialize_uniform (t.load_uniform h.1) (Sized.val d) fun r hr => by
      rw [t.rep_size r hr, (Sized.sized d : (Sized.val d).length = n)]
      exact h.2
    exact hspan.map fun l => (⟨l.val, l.sized.trans (Sized.sized d)⟩ : Sized (· = n) t.Val)
  | .string, _, d =>
    deserializeResizeable_uniform 1 (fun _ => deserialize_uniform charRep (by decide))
      (fun _ hr => congrArg Rep.size (Option.some.inj hr).symm) d
  | .vector t, h, d => deserializeResizeable_uniform t.sizeof (t.load_uniform h) t.rep_size d
  | .unorderedMap k v, h, d =>
    (deserialize_uniform sizeRep (by decide)).bind fun n =>
      loadNodes_uniform (k.load_uniform h.1 k.init) (v.load_uniform h.2 v.init) n.toNat d
  | .struct _ ms, h, d => Ty.loadMembers_uniform ms h.2 d
  | .span h _, _, _ => h.elim
  | .staticSpan h _ _, _, _ => h.elim

theorem Ty.loadMembers_uniform : ∀ (ms : List (Ty False)), Ty.Valids ms → ∀ d : Vals ms,
    Uniform fun _ _ a => Ty.loadMembers ms a d
  | [], _, _ => Uniform.ok ()
  | t :: ms, h, d =>
    (t.load_uniform h.1 d.1).bind fun y => (Ty.loadMembers_uniform ms h.2 d.2).map fun ys => (y, ys)
end

/-! ## The archives -/

/-- A loading archive whose cursor says which bytes of the buffer are read next. `InFront a n rest`: `n`
bytes are consumed, `rest` is in front, and no cursor for less than `2^63` bytes wraps. -/
class ExactLoadArchive (A : Type) [LoadArchive A] where
  InFront : A → Nat → List UInt8 → Prop
  size : A → Nat
  /-- The `num` bytes at the cursor are bytes of the buffer. -/
  within : A → Nat → Bool
  size_eq : ∀ {a : A} {n : Nat} {rest : List UInt8}, InFront a n rest → size a = n
  load : ∀ {a : A} {n num : Nat} {rest : List UInt8}, InFront a n rest → num ≤ rest.length →
    ∃ a', LoadArchive.getLoadCursor a num = .ok (rest.take num, a') ∧
      InFront a' (n + num) (rest.drop num) ∧ within a num = true
  short : ∀ {a : A} {n num : Nat} {rest : List UInt8}, InFront a n rest → num ≤ maxObject →
    rest.length < num → ∃ e, LoadArchive.getLoadCursor a num = .error e

/-- Below `2^63` the offset does not wrap. -/
instance : ExactLoadArchive StringLoadArchive where
  InFront a n rest := a.loadCursor = n ∧ n ≤ a.buf.val.length ∧ a.buf.val.drop n = rest
  size := StringLoadArchive.size
  within a num := decide (a.loadCursor + num ≤ a.buf.val.length)
  size_eq h := h.1
  load := by
    rintro ⟨buf, cur⟩ n num rest ⟨rfl, hle, rfl⟩ hnum
    have hmax : buf.val.length ≤ maxSize 1 := buf.sized
    simp only [maxSize, List.length_drop] at hmax hle hnum
    have hmod : (cur + num) % 2 ^ 64 = cur + num := Nat.mod_eq_of_lt (by omega)
    refine ⟨⟨buf, cur + num⟩, ?_, ⟨rfl, by simp only; omega, List.drop_drop.symm⟩, by simp; omega⟩
    simp only [LoadArchive.getLoadCursor, StringLoadArchive.getLoadCursor, hmod, slice]
    rw [if_neg (by omega)]
  short := by
    rintro ⟨buf, cur⟩ n num rest ⟨rfl, hle, rfl⟩ hnum hshort
    have hmax : buf.val.length ≤ maxSize 1 := buf.sized
    simp only [maxSize, maxObject, List.length_drop] at hmax hle hnum hshort
    have hmod : (cur + num) % 2 ^ 64 = cur + num := Nat.mod_eq_of_lt (by omega)
    refine ⟨.logicError "buf load overflow!", ?_⟩
    simp only [LoadArchive.getLoadCursor, StringLoadArchive.getLoadCursor, hmod]
    rw [if_pos (by omega)]

namespace FixSizeBufferLoadingArchive
variable {a : FixSizeBufferLoadingArchive} {n num : Nat} {rest : List UInt8}

/-- In the lower half of the address space the address does not wrap. -/
theorem load_inFront (h : a.loadCursor = a.buf.buf + n ∧ n ≤ a.buf.bytes.length ∧ a.buf.bytes.drop n = rest ∧
    a.buf.buf + a.buf.bytes.length ≤ 2 ^ 63) (hnum : num ≤ rest.length) :
    LoadArchive.getLoadCursor a num = .ok (rest.take num, ⟨a.buf, a.loadCursor + num⟩) ∧
      a.loadCursor + num ≤ a.buf.buf + a.buf.bytes.length := by
  obtain ⟨buf, cur⟩ := a
  obtain ⟨hcur, hle, rfl, hlow⟩ := h
  simp only [List.length_drop] at hcur hle hlow hnum
  subst hcur
  have hmod : (buf.buf + n + num) % 2 ^ 64 = buf.buf + n + num := Nat.mod_eq_of_lt (by omega)
  refine ⟨?_, by simp only; omega⟩
  simp only [LoadArchive.getLoadCursor, FixSizeBufferLoadingArchive.getLoadCursor, hmod, slice,
    Nat.add_sub_cancel_left]
  rw [if_neg (by omega)]

theorem short_inFront (h : a.loadCursor = a.buf.buf + n ∧ n ≤ a.buf.bytes.length ∧ a.buf.bytes.drop n = rest ∧
    a.buf.buf + a.buf.bytes.length ≤ 2 ^ 63) (hnum : num ≤ maxObject) (hshort : rest.length < num) :
    ∃ e, LoadArchive.getLoadCursor a num = .error e := by
  obtain ⟨buf, cur⟩ := a
  obtain ⟨hcur, hle, rfl, hlow⟩ := h
  simp only [maxObject, List.length_drop] at hcur hle hlow hnum hshort
  subst hcur
  have hmod : (buf.buf + n + num) % 2 ^ 64 = buf.buf + n + num := Nat.mod_eq_of_lt (by omega)
  simp only [LoadArchive.getLoadCursor, FixSizeBufferLoadingArchive.getLoadCursor, hmod]
  rw [if_pos (by omega)]
  split <;> exact ⟨_, rfl⟩

end FixSizeBufferLoadingArchive

instance : ExactLoadArchive FixSizeBufferLoadingArchive where
  InFront a n rest := a.loadCursor = a.buf.buf + n ∧ n ≤ a.buf.bytes.length ∧
    a.buf.bytes.drop n = rest ∧ a.buf.buf + a.buf.bytes.length ≤ 2 ^ 63
  size := FixSizeBufferLoadingArchive.size
  within a num := decide (a.buf.buf ≤ a.loadCursor ∧ a.loadCursor + num ≤ a.buf.buf + a.buf.bytes.length)
  size_eq {a n rest} h := by rw [FixSizeBufferLoadingArchive.size, h.1]; omega
  load {a n num rest} h hnum := by
    obtain ⟨hload, hend⟩ := FixSizeBufferLoadingArchive.load_inFront h hnum
    obtain ⟨hcur, hle, rfl, hlow⟩ := h
    refine ⟨_, hload, ⟨?_, ?_, List.drop_drop.symm, hlow⟩, decide_eq_true ⟨?_, hend⟩⟩
    · rw [hcur, Nat.add_assoc]
    · show n + num ≤ a.buf.bytes.length
      omega
    · omega
  short := FixSizeBufferLoadingArchive.short_inFront

theorem StringLoadArchive.inFront_new (b : CppString) :
    ExactLoadArchive.InFront (StringLoadArchive.new b) 0 b.val :=
  ⟨rfl, Nat.zero_le _, rfl⟩

theorem Placement.inFront_new {b : CppString} (p : Placement b) :
    ExactLoadArchive.InFront (FixSizeBufferLoadingArchive.new p.buffer) 0 b.val :=
  ⟨rfl, Nat.zero_le _, rfl, p.fits⟩

/-- An archive of which no byte outside its buffer may be read: `onEscape` is thrown instead. -/
structure Watched (A : Type) where
  archive : A
  onEscape : Exception

instance {A : Type} [LoadArchive A] [ExactLoadArchive A] : LoadArchive (Watched A) where
  getLoadCursor w num := do
    let (src, a) ← LoadArchive.getLoadCursor w.archive num
    if ExactLoadArchive.within w.archive num then return (src, { w with archive := a })
    else throw w.onEscape

/-! ## Programs on the archives -/

section Archives
variable {α A : Type} [LoadArchive A] [ExactLoadArchive A] {p : Program Exception α}

/-- What is thrown over a list that is too short. -/
def overflow : Exception := .logicError "buf load overflow!"

/-- An archive tells as much as the bytes it has in front. -/
theorem run_inFront (hp : p.Bounded maxObject) {a : A} {n : Nat} {rest : List UInt8}
    (h : ExactLoadArchive.InFront a n rest) :
    Agree (fun _ _ => True)
      (fun (a' : A) rest' => rest'.length ≤ rest.length ∧
        ExactLoadArchive.InFront a' (n + (rest.length - rest'.length)) rest')
      (p.run LoadArchive.getLoadCursor a) (p.run (take overflow) rest) := by
  refine run_agree (fun _ => trivial) ?_ hp ⟨Nat.le_refl _, by simpa using h⟩
  rintro a' rest' num ⟨hle, hfront⟩ hnum
  by_cases hlen : num ≤ rest'.length
  · obtain ⟨a'', hget, hfront', -⟩ := ExactLoadArchive.load hfront hlen
    rw [hget, take, if_pos hlen]
    refine .ok ⟨by simp; omega, ?_⟩
    have hsum : n + (rest.length - rest'.length) + num =
        n + (rest.length - (rest'.drop num).length) := by simp; omega
    rwa [← hsum]
  · obtain ⟨e, hget⟩ := ExactLoadArchive.short hfront hnum (by omega)
    rw [hget, take, if_neg hlen]
    exact .error trivial

/-- A program reads no byte outside the buffer, whether it succeeds or fails. -/
theorem run_watched (hp : p.Bounded maxObject) {a : A} {n : Nat} {rest : List UInt8}
    (h : ExactLoadArchive.InFront a n rest) (onEscape : Exception) :
    (p.run LoadArchive.getLoadCursor (⟨a, onEscape⟩ : Watched A)).map (fun r => (r.1, r.2.archive)) =
      p.run LoadArchive.getLoadCursor a := by
  refine Agree.eq (R := fun (w : Watched A) a => w.archive = a ∧ w.onEscape = onEscape ∧
    ∃ n rest, ExactLoadArchive.InFront a n rest) (run_agree (fun _ => rfl) ?_ hp ⟨rfl, rfl, n, rest, h⟩)
    fun _ _ hR => hR.1
  rintro ⟨a', _⟩ _ num ⟨rfl, rfl, n', rest', hfront⟩ hnum
  by_cases hlen : num ≤ rest'.length
  · obtain ⟨a'', hget, hfront', hwithin⟩ := ExactLoadArchive.load hfront hlen
    simp only [LoadArchive.getLoadCursor] at hget ⊢
    rw [hget]
    simp only [bind, Except.bind, hwithin, if_true]
    exact .ok ⟨rfl, rfl, _, _, hfront'⟩
  · obtain ⟨e, hget⟩ := ExactLoadArchive.short hfront hnum (by omega)
    simp only [LoadArchive.getLoadCursor] at hget ⊢
    rw [hget]
    exact .error rfl

end Archives

/-! ## Both archives on any bytes -/

/-- A load, and the `size()` of its archive. -/
def loadSized {A : Type} [LoadArchive A] [ExactLoadArchive A] (t : Ty False) (a : A) (d : t.Val) :
    Except Exception (t.Val × Nat) := do
  let (v, a) ← t.load a d
  return (v, ExactLoadArchive.size a)

def loadString (t : Ty False) (b : CppString) (d : t.Val) : Except Exception (t.Val × Nat) :=
  loadSized t (StringLoadArchive.new b) d

def loadBuffer (t : Ty False) (buf : ReadOnlyBuffer) (d : t.Val) : Except Exception (t.Val × Nat) :=
  loadSized t (FixSizeBufferLoadingArchive.new buf) d

section Both
variable (t : Ty False) (d : t.Val) (b : CppString)

/-- Both loads give `v` and consume `n` bytes, wherever the bytes lie. -/
def Gives (v : t.Val) (n : Nat) : Prop :=
  loadString t b d = .ok (v, n) ∧ ∀ p : Placement b, loadBuffer t p.buffer d = .ok (v, n)

def Fails : Prop :=
  (∃ e, loadString t b d = .error e) ∧ ∀ p : Placement b, ∃ e, loadBuffer t p.buffer d = .error e

/-- Watching the reads changes nothing: none of them is outside the buffer. -/
def ReadsWithin : Prop :=
  ∀ onEscape : Exception,
    (t.load (⟨StringLoadArchive.new b, onEscape⟩ : Watched _) d).map (fun r => (r.1, r.2.archive)) =
        t.load (StringLoadArchive.new b) d ∧
      ∀ p : Placement b,
        (t.load (⟨FixSizeBufferLoadingArchive.new p.buffer, onEscape⟩ : Watched _) d).map
            (fun r => (r.1, r.2.archive)) =
          t.load (FixSizeBufferLoadingArchive.new p.buffer) d

/-- The value depends on the first `n` bytes, on all of them, and on nothing else. -/
structure Determined (v : t.Val) (n : Nat) : Prop where
  inside : n ≤ b.val.length
  firstBytes : ∀ b' : CppString, b'.val.take n = b.val.take n → Gives t d b' v n
  short : ∀ b' : CppString, b'.val <+: b.val → b'.val.length < n → Fails t d b'

end Both

section Load
variable {t : Ty False} {d : t.Val} {p : Program Exception t.Val}

/-- What an archive with `bs` in front makes of a load. -/
theorem loadSized_eq {A : Type} [LoadArchive A] [ExactLoadArchive A] (hp : p.Bounded maxObject) {a : A}
    (hrun : t.load a d = p.run LoadArchive.getLoadCursor a) {bs : List UInt8}
    (h : ExactLoadArchive.InFront a 0 bs) :
    (∀ v rest, p.run (take overflow) bs = .ok (v, rest) →
      loadSized t a d = .ok (v, bs.length - rest.length)) ∧
    (∀ e, p.run (take overflow) bs = .error e → ∃ e', loadSized t a d = .error e') := by
  have hagree := run_inFront hp h
  rw [loadSized, hrun]
  revert hagree
  generalize p.run LoadArchive.getLoadCursor a = r
  generalize p.run (take overflow) bs = r'
  rintro (⟨-, hfront⟩ | ⟨-⟩)
  · refine ⟨fun v rest hok => ?_, fun e herr => by cases herr⟩
    cases hok
    have hsize := ExactLoadArchive.size_eq hfront
    rw [Nat.zero_add] at hsize
    rw [← hsize]
    rfl
  · exact ⟨fun v rest hok => (by cases hok), fun _ _ => ⟨_, rfl⟩⟩

variable (hp : p.Bounded maxObject)
  (hrun : ∀ (A : Type) [LoadArchive A] (a : A), t.load a d = p.run LoadArchive.getLoadCursor a)
include hp hrun

theorem gives_of_run {b : CppString} {v : t.Val} {rest : List UInt8}
    (h : p.run (take overflow) b.val = .ok (v, rest)) : Gives t d b v (b.val.length - rest.length) :=
  ⟨(loadSized_eq hp (hrun _ _) (StringLoadArchive.inFront_new b)).1 v rest h,
    fun pl => (loadSized_eq hp (hrun _ _) pl.inFront_new).1 v rest h⟩

theorem fails_of_run {b : CppString} {e : Exception} (h : p.run (take overflow) b.val = .error e) :
    Fails t d b :=
  ⟨(loadSized_eq hp (hrun _ _) (StringLoadArchive.inFront_new b)).2 e h,
    fun pl => (loadSized_eq hp (hrun _ _) pl.inFront_new).2 e h⟩

theorem readsWithin_of_run (b : CppString) : ReadsWithin t d b := by
  intro onEscape
  simp only [hrun]
  exact ⟨run_watched hp (StringLoadArchive.inFront_new b) onEscape,
    fun pl => run_watched hp pl.inFront_new onEscape⟩

end Load

/-- **Untrusted bytes.** Whatever the bytes, the type and the object read into: both archives fail, or both
give the same value and consume the same bytes, which alone decide the value and of which none is
spare; and no byte outside the buffer is read. -/
theorem load_untrusted (T : CppType) (d : T.type.Val) (b : CppString) :
    ReadsWithin T.type d b ∧
      (Fails T.type d b ∨ ∃ v n, Gives T.type d b v n ∧ Determined T.type d b v n) := by
  obtain ⟨p, hp, hrun⟩ := T.type.load_uniform T.valid d
  refine ⟨readsWithin_of_run hp hrun b, ?_⟩
  cases h : p.run (take overflow) b.val with
  | error e => exact .inl (fails_of_run hp hrun h)
  | ok r =>
    refine .inr ⟨r.1, b.val.length - r.2.length, gives_of_run hp hrun h, Nat.sub_le _ _, ?_, ?_⟩
    · intro b' hfirst
      obtain ⟨rest', h', hlen, -⟩ := run_take h hfirst
      rw [← hlen]
      exact gives_of_run hp hrun h'
    · intro b' hprefix hshort
      obtain ⟨e, herr⟩ := run_prefix h hprefix hshort
      exact fails_of_run hp hrun herr

end Thallium.Serializer
