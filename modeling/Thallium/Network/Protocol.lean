import Thallium.Serialize.Size

/-!
# The network protocol (network/protocol.hpp, protocol.cpp)

Frame headers, and `build`/`cast`, which turn a sequence of values into a buffer and back.

| here | there |
| --- | --- |
| `Header`, `headerToString`, `stringToHeader` | protocol.hpp:16-25, protocol.cpp:7-12 |
| `ConnectionEvent`                            | protocol.hpp:33 |
| `build`, `buildArgs`                         | `build`, `_build` (:168-188) |
| `cast`, `castArgs`                           | `cast`, `_cast` (:150-165) |

* `build_ok_iff`, `build_eq_iff` — when `build` returns, and when it returns the bytes of its arguments.
* `cast_build` — `cast` gives the values back and returns the size of the buffer.
* `build_writes` — a `StringSaveArchive` holds its writes one after the other, and `build` gives the same
  bytes if no `static_span` is written and they fit into a buffer.
* `sizeExact_iff` — its buffer is filled, and exactly, **iff** they fit and the lengths counted for
  `static_span`s cancel out, as those of none do.
-/
namespace Thallium.Message
open Serializer LittleEndian

/-! ## Headers -/

/-- `HeaderMessageType` (protocol.hpp:21). -/
inductive HeaderMessageType where
  | heartbeat
  | normal
  deriving DecidableEq, Repr

/-- The underlying `u_int8_t`. -/
def HeaderMessageType.value : HeaderMessageType → UInt8
  | heartbeat => 0
  | normal => 1

/-- The enumerator a `switch` on a byte finds, if any. -/
def HeaderMessageType.ofByte? (b : UInt8) : Option HeaderMessageType :=
  if b = heartbeat.value then some heartbeat
  else if b = normal.value then some normal
  else none

/-- `Header` (protocol.hpp:16). `msg_type` is a byte off the wire, of any value. -/
structure Header where
  msgType : UInt8
  bodyLength : UInt32
  deriving DecidableEq, Repr

/-- `sizeof(Header)` (protocol.hpp:27): `body_length` is aligned to four bytes. -/
def headerSize : Nat := 8

/-- The bytes between the two members. They are copied along and never set. -/
abbrev Padding : Type := Sized (· = 3) UInt8

/-- `header_to_string` (protocol.cpp:7). -/
def headerToString (padding : Padding) (h : Header) : List UInt8 :=
  h.msgType :: (padding.val ++ toLE 4 h.bodyLength.toNat)

/-- `string_to_header` (protocol.cpp:9), on a buffer of `header_size` bytes. -/
def stringToHeader (buf : List UInt8) : Header where
  msgType := buf.headD 0
  bodyLength := UInt32.ofNat (ofLE (slice buf 4 4))

@[simp] theorem length_headerToString (padding : Padding) (h : Header) :
    (headerToString padding h).length = headerSize := by
  simp [headerToString, padding.sized, headerSize]

@[simp] theorem stringToHeader_headerToString (padding : Padding) (h : Header) :
    stringToHeader (headerToString padding h) = h := by
  have hlt : h.bodyLength.toNat < 256 ^ 4 := h.bodyLength.toNat_lt
  have hdrop : (padding.val ++ toLE 4 h.bodyLength.toNat).drop 3 = toLE 4 h.bodyLength.toNat :=
    List.drop_left' padding.sized
  have htake : (toLE 4 h.bodyLength.toNat).take 4 = toLE 4 h.bodyLength.toNat :=
    List.take_of_length_le (by rw [length_toLE])
  simp only [stringToHeader, headerToString, slice, List.headD_cons, List.drop_succ_cons, hdrop,
    htake, ofLE_toLE_of_lt hlt, UInt32.ofNat_toNat]

/-- `ConnectionEvent` (protocol.hpp:33). -/
inductive ConnectionEvent where
  | timeout
  | close
  | pipe
  | start
  deriving DecidableEq, Repr

/-! ## `build` and `cast` -/

section BuildCast
variable {views : Prop}

/-- `variadic_sum(real_size(args)...)` (common.hpp:44). -/
def realSizes : (ts : List (Ty views)) → Objs ts → BitVec 64
  | [], _ => 0
  | t :: ts, args => t.realSize args.1 + realSizes ts args.2

/-- `_build` (protocol.hpp:168-178). -/
def buildArgs {A : Type} [SaveArchive A] : (ts : List (Ty views)) → A → Objs ts → Except Exception A
  | [], ar, _ => .ok ar
  | t :: ts, ar, args => do
    let ar ← t.save ar args.1
    buildArgs ts ar args.2

/-- `Buffer buf(total, 0)` for a `ZeroCopyBuffer`, which is a `vector<char>`. `what` is libstdc++'s text. -/
def newBuffer (total : Nat) : Except Exception (List UInt8) :=
  if total ≤ maxSize 1 then .ok (List.replicate total 0)
  else .error (.lengthError "cannot create std::vector larger than max_size()")

/-- `build` (protocol.hpp:181). -/
def build (ts : List (Ty views)) (args : Objs ts) : Except Exception (List UInt8) := do
  let total := realSizes ts args
  let buf ← newBuffer total.toNat
  let arcv ← buildArgs ts (FixSizeBufferSavingArchive.new buf) args
  return arcv.buf

/-- `_cast` (protocol.hpp:150-159): the last call returns `ar.size()`. -/
def castArgs : (ts : List (Ty False)) → FixSizeBufferLoadingArchive → Vals ts →
    Except Exception (Vals ts × Nat)
  | [], ar, _ => .ok ((), ar.size)
  | t :: ts, ar, args => do
    let (arg, ar) ← t.load ar args.1
    let (rest, size) ← castArgs ts ar args.2
    return ((arg, rest), size)

/-- `cast` (protocol.hpp:162) into the targets `args`. -/
def cast (ts : List (Ty False)) (buf : ReadOnlyBuffer) (args : Vals ts) :
    Except Exception (Vals ts × Nat) :=
  castArgs ts (FixSizeBufferLoadingArchive.new buf) args

/-- `_build` saves its arguments as a struct saves its members. -/
theorem buildArgs_eq_saveMembers {A : Type} [SaveArchive A] :
    ∀ (ts : List (Ty views)) (ar : A) (args : Objs ts),
      buildArgs ts ar args = Ty.saveMembers ts ar args
  | [], _, _ => rfl
  | t :: ts, ar, args => by
    have h : (fun ar : A => buildArgs ts ar args.2) = fun ar => Ty.saveMembers ts ar args.2 :=
      funext fun ar => buildArgs_eq_saveMembers ts ar args.2
    exact congrArg (t.save ar args.1 >>= ·) h

theorem realSizes_eq (ts : List (Ty views)) (args : Objs ts) : realSizes ts args = BitVec.ofNat 64
    ((Ty.bytesMembers ts args).length + sizeRep.size * Ty.staticSpansMembers ts args) := by
  induction ts with
  | nil => rfl
  | cons t ts ih =>
    show t.realSize args.1 + realSizes ts args.2 = BitVec.ofNat 64 ((t.bytes args.1 ++ _).length +
      sizeRep.size * (t.staticSpans args.1 + Ty.staticSpansMembers ts args.2))
    rw [t.realSize_eq, ih, ← BitVec.ofNat_add, List.length_append, Nat.mul_add]
    congr 1
    omega

/-- Sizes are exact below `2^64` when the lengths counted for `static_span`s come to a multiple of it. -/
theorem toNat_size_eq_iff (w n : Nat) :
    (BitVec.ofNat 64 (w + sizeRep.size * n)).toNat = w ↔ w < 2 ^ 64 ∧ 2 ^ 61 ∣ n := by
  rw [BitVec.toNat_ofNat, show sizeRep.size = 8 from rfl]
  omega

/-- What the archive of a `build` holds, once it has taken the arguments. -/
theorem buildArgs_spec {ts : List (Ty views)} {args : Objs ts} {total : Nat} {ar : FixSizeBufferSavingArchive}
    (h : buildArgs ts (FixSizeBufferSavingArchive.new (List.replicate total 0)) args = .ok ar) :
    (Ty.bytesMembers ts args).length ≤ total ∧ ar.saveCursor = (Ty.bytesMembers ts args).length ∧
      ar.buf.length = total := by
  rw [buildArgs_eq_saveMembers] at h
  obtain ⟨hcur, hlen, hle⟩ := Ty.advances_members ts args h
  have hroom := hle (Nat.zero_le _)
  rw [FixSizeBufferSavingArchive.new, Nat.zero_add] at hcur
  rw [FixSizeBufferSavingArchive.new, List.length_replicate] at hlen
  exact ⟨by omega, hcur, hlen⟩

/-- It takes them if there is room for their bytes. -/
theorem buildArgs_ok {ts : List (Ty views)} {args : Objs ts} {total : Nat}
    (hroom : (Ty.bytesMembers ts args).length ≤ total) :
    ∃ ar, buildArgs ts (FixSizeBufferSavingArchive.new (List.replicate total 0)) args = .ok ar ∧
      ar.buf.take ar.saveCursor = Ty.bytesMembers ts args := by
  have hat : LawfulSaveArchive.At (FixSizeBufferSavingArchive.new (List.replicate total 0)) []
      ((Ty.bytesMembers ts args).length + (total - (Ty.bytesMembers ts args).length)) := by
    refine ⟨rfl, rfl, ?_⟩
    rw [FixSizeBufferSavingArchive.new, List.length_replicate, Nat.zero_add, Nat.add_sub_cancel' hroom]
  obtain ⟨ar, hsave, hdone, -⟩ := Ty.saves_members ts args hat
  exact ⟨ar, (buildArgs_eq_saveMembers ts _ args).trans hsave, hdone⟩

/-- A `build` reserves its buffer and fills it. -/
theorem build_eq_ok_iff {ts : List (Ty views)} {args : Objs ts} {bytes : List UInt8} :
    build ts args = .ok bytes ↔ (realSizes ts args).toNat ≤ maxSize 1 ∧ ∃ ar,
      buildArgs ts (FixSizeBufferSavingArchive.new (List.replicate (realSizes ts args).toNat 0)) args =
        .ok ar ∧ ar.buf = bytes := by
  unfold build newBuffer
  by_cases htotal : (realSizes ts args).toNat ≤ maxSize 1
  · simp only [htotal, true_and]
    show (buildArgs ts _ args >>= _) = _ ↔ _
    cases buildArgs ts (FixSizeBufferSavingArchive.new (List.replicate (realSizes ts args).toNat 0)) args with
    | error e => exact iff_of_false nofun nofun
    | ok ar =>
      constructor
      · intro h
        exact ⟨ar, rfl, Except.ok.inj h⟩
      · rintro ⟨_, ⟨⟩, rfl⟩
        rfl
  · simp only [htotal, false_and, iff_false]
    nofun

/-- **When `build` returns**: its buffer must be possible, and hold all bytes of its arguments. -/
theorem build_ok_iff (ts : List (Ty views)) (args : Objs ts) : (∃ bytes, build ts args = .ok bytes) ↔
    (Ty.bytesMembers ts args).length ≤ (realSizes ts args).toNat ∧ (realSizes ts args).toNat ≤ maxSize 1 := by
  constructor
  · rintro ⟨bytes, h⟩
    obtain ⟨htotal, ar, har, -⟩ := build_eq_ok_iff.mp h
    exact ⟨(buildArgs_spec har).1, htotal⟩
  · rintro ⟨hroom, htotal⟩
    obtain ⟨ar, har, -⟩ := buildArgs_ok hroom
    exact ⟨ar.buf, build_eq_ok_iff.mpr ⟨htotal, ar, har, rfl⟩⟩

/-- **When it returns exactly these bytes.** -/
theorem build_eq_iff (ts : List (Ty views)) (args : Objs ts) :
    build ts args = .ok (Ty.bytesMembers ts args) ↔
      (Ty.bytesMembers ts args).length ≤ maxSize 1 ∧ 2 ^ 61 ∣ Ty.staticSpansMembers ts args := by
  have hexact := toNat_size_eq_iff (Ty.bytesMembers ts args).length (Ty.staticSpansMembers ts args)
  rw [← realSizes_eq] at hexact
  constructor
  · intro h
    obtain ⟨htotal, ar, har, hbuf⟩ := build_eq_ok_iff.mp h
    obtain ⟨-, -, hlen⟩ := buildArgs_spec har
    rw [hbuf] at hlen
    exact ⟨hlen ▸ htotal, (hexact.mp hlen.symm).2⟩
  · rintro ⟨hfits, hcancel⟩
    have hlt : (Ty.bytesMembers ts args).length < 2 ^ 64 := hfits.trans_lt (by decide)
    have htotal := hexact.mpr ⟨hlt, hcancel⟩
    obtain ⟨ar, har, hdone⟩ := buildArgs_ok htotal.ge
    obtain ⟨-, hcur, hlen⟩ := buildArgs_spec har
    rw [hcur, ← htotal, ← hlen, List.take_length] at hdone
    exact build_eq_ok_iff.mpr ⟨htotal ▸ hfits, ar, har, hdone⟩

/-- Values without views: `build` writes their bytes if it can have a buffer for them, and else throws. -/
theorem build_eq {ts : List (Ty False)} {args : Objs ts}
    (hfits : (Ty.bytesMembers ts args).length ≤ maxSize 1) :
    build ts args = .ok (Ty.bytesMembers ts args) := by
  refine (build_eq_iff ts args).mpr ⟨hfits, ?_⟩
  rw [Ty.staticSpansMembers_eq_zero]
  exact Nat.dvd_zero _

theorem build_fits {ts : List (Ty False)} {args : Objs ts} {bytes : List UInt8}
    (h : build ts args = .ok bytes) : (Ty.bytesMembers ts args).length ≤ maxSize 1 := by
  obtain ⟨hroom, htotal⟩ := (build_ok_iff ts args).mp ⟨bytes, h⟩
  exact hroom.trans htotal

/-- What the first target reads is the first result, if the others can be read. -/
theorem castArgs_cons {t : Ty False} {ts : List (Ty False)} {ar ar' : FixSizeBufferLoadingArchive}
    {args : Vals (t :: ts)} {arg : t.Val} (h : t.load ar args.1 = .ok (arg, ar')) :
    castArgs (t :: ts) ar args =
      (castArgs ts ar' args.2).map fun r => ((arg, r.1), r.2) := by
  simp only [castArgs, h]
  show (castArgs ts ar' args.2 >>= _) = _
  cases castArgs ts ar' args.2 <;> rfl

/-- Reading the targets of `cast` one by one. -/
theorem castArgs_eq : ∀ (ts : List (Ty False)) (args : Objs ts) (targets : Vals ts)
    (ar : FixSizeBufferLoadingArchive) (n : Nat), Ty.Freshes ts targets →
    LawfulLoadArchive.At ar n (Ty.bytesMembers ts args) →
      castArgs ts ar targets = .ok (Ty.values ts args, n + (Ty.bytesMembers ts args).length)
  | [], _, _, ar, n, _, hat => by
    have hsize : ar.size = n := by
      rw [FixSizeBufferLoadingArchive.size, hat.1, Nat.add_sub_cancel_left]
    show Except.ok ((), ar.size) = _
    rw [hsize]
    rfl
  | t :: ts, args, targets, ar, n, hfresh, hat => by
    obtain ⟨ar', hload, hat'⟩ := t.loads args.1 targets.1 hfresh.1 hat
    have ih := castArgs_eq ts args.2 targets.2 ar' _ hfresh.2 hat'
    have hlen : (Ty.bytesMembers (t :: ts) args).length =
        (t.bytes args.1).length + (Ty.bytesMembers ts args.2).length := List.length_append
    rw [castArgs_cons hload, ih, hlen, ← Nat.add_assoc]
    rfl

/-- `cast` on a buffer that holds the bytes of the arguments. -/
theorem cast_eq (ts : List (Ty False)) (args : Objs ts) (buf : ReadOnlyBuffer) (targets : Vals ts)
    (hbuf : buf.bytes = Ty.bytesMembers ts args) (hfresh : Ty.Freshes ts targets) :
    cast ts buf targets = .ok (Ty.values ts args, buf.bytes.length) := by
  have hat : LawfulLoadArchive.At (FixSizeBufferLoadingArchive.new buf) 0
      (Ty.bytesMembers ts args) := ⟨rfl, Nat.zero_le _, hbuf⟩
  rw [cast, castArgs_eq ts args targets _ 0 hfresh hat, hbuf, Nat.zero_add]

/-- **Build, then cast.** For all types and arguments, `build` succeeds, and casting the buffer it
returns, wherever it lies in memory, into freshly constructed targets gives the arguments' values
and returns the size of the buffer. -/
theorem cast_build (ts : List (Ty False)) (args : Resident ts) :
    ∃ bytes, build ts args.objs = .ok bytes ∧
      ∀ (buf : ReadOnlyBuffer) (targets : Vals ts), buf.bytes = bytes → Ty.Freshes ts targets →
        cast ts buf targets = .ok (Ty.values ts args.objs, buf.bytes.length) :=
  ⟨_, build_eq args.fits, fun buf targets => cast_eq ts args.objs buf targets⟩

/-- A `vector<string>` and an `unordered_map<char, char>`. -/
theorem cast_build_vector_map :
    cast [.vector .string, .unorderedMap (.trivial 1) (.trivial 1)]
        ⟨4096, [1, 0, 0, 0, 0, 0, 0, 0, 1, 0, 0, 0, 0, 0, 0, 0, 104, 1, 0, 0, 0, 0, 0, 0, 0, 7, 9],
          by decide⟩ (Ty.inits _) =
      .ok ((⟨[⟨[104], by decide⟩], by decide⟩, Finmap.singleton (7 : BitVec 8) (9 : BitVec 8), ()),
        27) := by
  obtain ⟨bytes, hbuild, hcast⟩ := cast_build
    [.vector .string, .unorderedMap (.trivial 1) (.trivial 1)]
    ⟨(⟨[⟨[104], by decide⟩], by decide⟩, ⟨[((7 : BitVec 8), (9 : BitVec 8))], by decide⟩, ()), by decide⟩
  rw [hcast _ (Ty.inits _) (Except.ok.inj (hbuild.symm.trans rfl)).symm (Ty.freshes_inits _)]
  rfl

/-! ## One archive, many writes -/

/-- Each argument written to a `StringSaveArchive` of its own. -/
def buildEach : (ts : List (Ty views)) → Objs ts → Except Exception (List (List UInt8))
  | [], _ => .ok []
  | t :: ts, args => do
    let sa ← t.save StringSaveArchive.new args.1
    let bufs ← buildEach ts args.2
    return sa.build :: bufs

theorem buildEach_flatten (ts : List (Ty views)) (args : Objs ts) :
    ∃ bufs, buildEach ts args = .ok bufs ∧ bufs.flatten = Ty.bytesMembers ts args := by
  induction ts with
  | nil => exact ⟨[], rfl, rfl⟩
  | cons t ts ih =>
    obtain ⟨bufs, hbufs, hflat⟩ := ih args.2
    have hbuild := t.save_build args.1
    simp only [buildEach, hbufs]
    cases hsave : t.save StringSaveArchive.new args.1 with
    | error e => simp [hsave, Except.map] at hbuild
    | ok sa =>
      rw [hsave] at hbuild
      refine ⟨sa.build :: bufs, rfl, ?_⟩
      rw [List.flatten_cons, hflat, Except.ok.inj hbuild]
      rfl

/-- Writing arguments to a fresh archive. -/
theorem buildArgs_at {A : Type} [SaveArchive A] [LawfulSaveArchive A] (ts : List (Ty views)) (args : Objs ts)
    {a : A} (h : LawfulSaveArchive.At a [] ((Ty.bytesMembers ts args).length + 0)) :
    ∃ a', buildArgs ts a args = .ok a' ∧ LawfulSaveArchive.At a' (Ty.bytesMembers ts args) 0 := by
  obtain ⟨a', hsave, hat⟩ := Ty.saves_members ts args h
  exact ⟨a', (buildArgs_eq_saveMembers ts a args).trans hsave, hat⟩

/-- **Growing and fixed archives.** Whatever is written to one `StringSaveArchive`, it builds the writes one
after the other, which is what the values alone are built as; and `build` gives the same bytes for the
same values **iff** they fit into a buffer, as the string that the archive has built does, and the lengths
counted for `static_span`s cancel out: where there is none among what is written, they do. -/
theorem build_writes (ts : List (Ty views)) (args : Objs ts) :
    ∃ log bufs sa, buildArgs ts WriteLog.new args = .ok log ∧ buildEach ts args = .ok bufs ∧
      buildArgs ts StringSaveArchive.new args = .ok sa ∧
      sa.build = log.writes.flatten ∧ sa.build = bufs.flatten ∧
      (build ts args = .ok sa.build ↔
        sa.build.length ≤ maxSize 1 ∧ 2 ^ 61 ∣ Ty.staticSpansMembers ts args) := by
  obtain ⟨log, hlog, hwrites⟩ := buildArgs_at ts args (WriteLog.at_new _)
  obtain ⟨bufs, hbufs, hflat⟩ := buildEach_flatten ts args
  obtain ⟨sa, hsa, hbuilt, -⟩ := buildArgs_at ts args (StringSaveArchive.at_new _)
  refine ⟨log, bufs, sa, hlog, hbufs, hsa, hbuilt.trans hwrites.symm, hbuilt.trans hflat.symm, ?_⟩
  rw [StringSaveArchive.build, hbuilt]
  exact build_eq_iff ts args

/-! ## Exact sizes -/

/-- `build` returns, with no byte of its buffer left unwritten. -/
def Filled (ts : List (Ty views)) (args : Objs ts) : Prop :=
  ∃ ar, buildArgs ts
      (FixSizeBufferSavingArchive.new (List.replicate (realSizes ts args).toNat 0)) args = .ok ar ∧
    build ts args = .ok ar.buf ∧ ar.saveCursor = ar.buf.length

theorem filled_iff (ts : List (Ty views)) (args : Objs ts) : Filled ts args ↔
    (Ty.bytesMembers ts args).length ≤ maxSize 1 ∧ 2 ^ 61 ∣ Ty.staticSpansMembers ts args := by
  rw [← build_eq_iff]
  constructor
  · rintro ⟨ar, har, hbuild, hfull⟩
    obtain ⟨ar', har', hdone⟩ := buildArgs_ok (buildArgs_spec har).1
    obtain rfl := Except.ok.inj (har.symm.trans har')
    rw [hfull, List.take_length] at hdone
    rw [hbuild, hdone]
  · intro hbuild
    obtain ⟨-, ar, har, hbuf⟩ := build_eq_ok_iff.mp hbuild
    obtain ⟨-, hcur, -⟩ := buildArgs_spec har
    exact ⟨ar, har, hbuf ▸ hbuild, hcur.trans (congrArg List.length hbuf.symm)⟩

/-- `real_size` is the number of bytes `operator<<` writes, and a message of the object is filled. -/
structure SizeExact (t : Ty views) (o : t.Obj) : Prop where
  written : (t.save WriteLog.new o).map (·.writes.flatten.length) = .ok (t.realSize o).toNat
  filled : Filled [t] (o, ())

theorem save_length (t : Ty views) (o : t.Obj) :
    (t.save WriteLog.new o).map (·.writes.flatten.length) = .ok (t.bytes o).length := by
  obtain ⟨log, hlog, hat⟩ := t.saves o (WriteLog.at_new ((t.bytes o).length + 0))
  have hsave : t.save WriteLog.new o = .ok log := hlog
  rw [hsave]
  exact congrArg (fun bytes => Except.ok (List.length bytes)) hat

/-- **Exact sizes.** The size of an object is what is written for it, and a message of it is filled,
**iff** what is written fits into a buffer and the number of `static_span`s among it is a multiple of
`2^61`: each is counted with a length that only a dynamic span has on the wire, and that many come to a
multiple of `2^64`. So many there are only where spans view the same `static_span`s over and over;
elsewhere it has to be none. -/
theorem sizeExact_iff (t : Ty views) (o : t.Obj) :
    SizeExact t o ↔ (t.bytes o).length ≤ maxSize 1 ∧ 2 ^ 61 ∣ t.staticSpans o := by
  have hone : Ty.staticSpansMembers [t] ((o, ()) : Objs [t]) = t.staticSpans o := Nat.add_zero _
  have hbytes : Ty.bytesMembers [t] ((o, ()) : Objs [t]) = t.bytes o := List.append_nil _
  have hfilled := filled_iff [t] (o, ())
  rw [hone, hbytes] at hfilled
  constructor
  · intro h
    exact hfilled.mp h.filled
  · rintro ⟨hfits, hcancel⟩
    have hlt : (t.bytes o).length < 2 ^ 64 := hfits.trans_lt (by decide)
    refine ⟨?_, hfilled.mpr ⟨hfits, hcancel⟩⟩
    rw [save_length, t.realSize_eq, (toNat_size_eq_iff _ _).mpr ⟨hlt, hcancel⟩]

/-- A `static_span` of one `int`. -/
theorem not_sizeExact_staticSpan :
    ¬ SizeExact (.staticSpan True.intro (.trivial 4) 1) ⟨[(7 : BitVec 32)], rfl⟩ := by
  intro h
  have hwritten := h.written
  revert hwritten
  decide

end BuildCast

end Thallium.Message
