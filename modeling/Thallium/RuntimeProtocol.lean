import Thallium.Network.Protocol

/-!
# The runtime protocol (runtime_protocol.hpp, runtime_protocol.cpp, worker.hpp)

The messages of the coordinator and the workers. A message class has data members and a
`serializable` that lists those that go over the wire; sizes, writing and reading all follow that
one list, so a member it leaves out is dropped without a trace.

| here | there |
| --- | --- |
| `MessageType`, `readHeaderMessagetype`       | runtime_protocol.hpp:13, runtime_protocol.cpp:22 |
| `firstConCookie`                             | `FirstConCookie` (runtime_protocol.hpp:31) |
| `toPrintable`, `fromPrintable`, `cookieEq`   | its `to_printable`, constructor from a string and `operator==` |
| `workerDataServerInfo`, `workerInfo`         | worker.hpp:7-28 |
| `MsgClass`                                   | `Firsconnection`, `FirsconnectionOK`, `WorkerInfoMap` (runtime_protocol.hpp:68-98) |
| `toBuffer`, `fromBuffer`                     | `to_buffer`, `from_buffer` (runtime_protocol.hpp:51-66) |

* `toBuffer_eq`, `fromBuffer_eq` — what is written, and what reading it stores.
* `fromBuffer_unmatch` — reading it as another class throws.
* `roundTrip_iff` — a message comes back whole **iff** it fits into a buffer and its class is not
  `Firsconnection`.
* `printable_bijective` — cookies and the texts that are read as cookies correspond, one to one.
-/
namespace Thallium
open Message Serializer

/-! ## Message types -/

/-- `MessageType` (runtime_protocol.hpp:13). -/
inductive MessageType where
  | firstconnection
  | firstconnectionok
  | peersinfo
  | peersconnected
  | fail
  deriving DecidableEq, Repr

/-- The underlying `u_int8_t`. -/
def MessageType.value : MessageType → BitVec 8
  | firstconnection => 0
  | firstconnectionok => 1
  | peersinfo => 2
  | peersconnected => 3
  | fail => 4

/-- `runtime_header` (runtime_protocol.hpp:21): its `message_type` is a byte of any value once it
comes off the wire. -/
def runtimeHeader : Ty False := .struct 1 [.trivial 1]

/-- `read_header_messagetype` (runtime_protocol.cpp:22). -/
def readHeaderMessagetype (buf : ReadOnlyBuffer) : Except Exception (BitVec 8) := do
  let (args, _) ← Message.cast [runtimeHeader] buf (Ty.inits _)
  return args.1.1

/-! ## The message classes -/

/-- `FirstConCookie` (runtime_protocol.hpp:31): `data`. -/
def firstConCookie : Ty False := .struct 16 [.array (.trivial 1) 16]

/-- `WorkerDataServerInfo` (worker.hpp:7): `port` and `addr`. -/
def workerDataServerInfo : Ty False := .struct 40 [.trivial 2, .string]

/-- `WorkerInfo` (worker.hpp:21): `data_server`. -/
def workerInfo : Ty False := .struct 40 [workerDataServerInfo]

abbrev FirstConCookie : Type := firstConCookie.Val
abbrev WorkerInfo : Type := workerInfo.Val

/-- `data_server.port`. -/
def WorkerInfo.port (info : WorkerInfo) : BitVec 16 := info.1.1

/-- `data_server.addr`. -/
def WorkerInfo.addr (info : WorkerInfo) : CppString := info.1.2.1

/-- The digit for a number below 16 (runtime_protocol.cpp:64). -/
def digit (n : Nat) : Char := "0123456789ABCDEF".toList.getD n '0'

/-- `to_printable` (runtime_protocol.cpp:62). -/
def toPrintable (c : FirstConCookie) : String :=
  String.ofList (c.1.val.flatMap fun b : BitVec 8 => [digit (b.toNat / 16), digit (b.toNat % 16)])

/-- `ctoi` (runtime_protocol.cpp:41). -/
def ctoi (cByte : Char) : Except Exception (BitVec 8) :=
  if '0' ≤ cByte ∧ cByte ≤ '9' then .ok (BitVec.ofNat 8 (cByte.toNat - '0'.toNat))
  else if 'A' ≤ cByte ∧ cByte ≤ 'F' then .ok (BitVec.ofNat 8 (cByte.toNat - 'A'.toNat + 10))
  else .error (.runtimeError "string element should be hexdecimal")

/-- The loop of the constructor (runtime_protocol.cpp:38). Past its end a string reads as zero, which
is no digit. -/
def fromDigits : (n : Nat) → List Char → Except Exception (Sized (· = n) (BitVec 8))
  | 0, _ => .ok ⟨[], rfl⟩
  | n + 1, h :: l :: cs => do
    let byte := (← ctoi h) * 16 + (← ctoi l)
    let data ← fromDigits n cs
    return ⟨byte :: data.val, congrArg Nat.succ data.sized⟩
  | _ + 1, _ => .error (.runtimeError "string element should be hexdecimal")

/-- `FirstConCookie(const string &)` (runtime_protocol.cpp:33). -/
def fromPrintable (printable : String) : Except Exception FirstConCookie := do
  if printable.length ≠ 2 * 16 then
    throw (.runtimeError (← format "The cookie string length should be \x7b\x7d" ["32"]))
  let data ← fromDigits 16 printable.toList
  return (data, ())

/-- `data` (runtime_protocol.hpp:34). -/
def cookieData (c : FirstConCookie) : List (BitVec 8) := c.1.val

/-- `operator==` (runtime_protocol.cpp:71). -/
def cookieEq (c other : FirstConCookie) : Bool :=
  (List.range 16).all fun i => (cookieData c)[i]? == (cookieData other)[i]?

/-- The classes `from_buffer` and `to_buffer` are used with. -/
inductive MsgClass where
  | firsconnection
  | firsconnectionOK
  | workerInfoMap
  deriving DecidableEq, Repr

namespace MsgClass

/-- `MsgClass::message_type`. -/
def messageType : MsgClass → MessageType
  | firsconnection => .firstconnection
  | firsconnectionOK => .firstconnectionok
  | workerInfoMap => .peersinfo

/-- The data members: `firstcookie` and `worker_info`; none; `worker_info`. -/
def members : MsgClass → List (Ty False)
  | firsconnection => [firstConCookie, workerInfo]
  | firsconnectionOK => []
  | workerInfoMap => [.unorderedMap (.trivial 4) workerInfo]

/-- The members `serializable` lists (runtime_protocol.hpp:75, :85, :95). -/
def serializable : MsgClass → List (Ty False)
  | firsconnection => [firstConCookie]
  | firsconnectionOK => []
  | workerInfoMap => [.unorderedMap (.trivial 4) workerInfo]

/-- `sizeof`. -/
def size : MsgClass → Nat
  | firsconnection => 56
  | firsconnectionOK => 1
  | workerInfoMap => 56

abbrev Obj (c : MsgClass) : Type := Objs c.members
abbrev Val (c : MsgClass) : Type := Vals c.members

/-- `Firsconnection::firstcookie`. A cookie is bytes, so an object and its value are the same. -/
def Obj.firstcookie (m : firsconnection.Obj) : FirstConCookie := m.1

/-- `Firsconnection::worker_info`. -/
def Val.workerInfo (m : firsconnection.Val) : WorkerInfo := m.2.1

/-- A message up to equality of all its data members. -/
def value (c : MsgClass) (m : c.Obj) : c.Val := Ty.values c.members m

/-- A default-constructed message: the map and the address are empty; the cookie is random and the
port is not initialised, so both may be anything. -/
def Fresh (c : MsgClass) (d : c.Val) : Prop := Ty.Freshes c.members d

/-- The listed members of a message. -/
def listed {M : Type → Type → Type} : (c : MsgClass) → Ty.Members M c.members →
    Ty.Members M c.serializable
  | firsconnection, m => (m.1, ())
  | firsconnectionOK, m => m
  | workerInfoMap, m => m

/-- The message with its listed members replaced. -/
def store : (c : MsgClass) → c.Val → Vals c.serializable → c.Val
  | firsconnection, m, l => (l.1, m.2)
  | firsconnectionOK, _, l => l
  | workerInfoMap, _, l => l

/-- What a message class is to the archives. -/
def shape (c : MsgClass) : Ty False := .struct c.size c.serializable

theorem messageType_value_injective {a b : MsgClass}
    (h : a.messageType.value = b.messageType.value) : a = b := by
  cases a <;> cases b <;> first | rfl | exact absurd h (by decide)

theorem listed_fresh : ∀ (c : MsgClass) (d : c.Val), c.Fresh d →
    Ty.Freshes c.serializable (c.listed d)
  | firsconnection, _, h => ⟨h.1, trivial⟩
  | firsconnectionOK, _, _ => trivial
  | workerInfoMap, _, h => h

/-- What storing the listed members of a message into a fresh one leaves. -/
theorem store_value : ∀ (c : MsgClass) (m : c.Obj) (d : c.Val), c ≠ firsconnection →
    c.store d (Ty.values c.serializable (c.listed m)) = c.value m
  | firsconnection, _, _, h => absurd rfl h
  | firsconnectionOK, _, _, _ => rfl
  | workerInfoMap, _, _, _ => rfl

end MsgClass

/-- `to_buffer` (runtime_protocol.hpp:63). -/
def toBuffer (c : MsgClass) (msgobj : c.Obj) : Except Exception (List UInt8) :=
  build [runtimeHeader, c.shape] ((c.messageType.value, ()), c.listed msgobj, ())

/-- `from_buffer` (runtime_protocol.hpp:51). `msg` is the message it default-constructs. -/
def fromBuffer (c : MsgClass) (buf : ReadOnlyBuffer) (msg : c.Val) : Except Exception c.Val := do
  let (args, _) ← Message.cast [runtimeHeader, c.shape] buf (((0 : BitVec 8), ()), c.listed msg, ())
  let messageType : BitVec 8 := args.1.1
  if messageType ≠ c.messageType.value then throw (.logicError "Message type unmatch!")
  return c.store msg args.2.1

/-- The bytes of a message: its type, and its listed members. -/
def MsgClass.bytes (c : MsgClass) (m : c.Obj) : List UInt8 :=
  Ty.bytesMembers [runtimeHeader, c.shape] ((c.messageType.value, ()), c.listed m, ())

/-- `to_buffer` throws only for want of a buffer that is long enough. -/
theorem toBuffer_eq {c : MsgClass} {m : c.Obj} (hfits : (c.bytes m).length ≤ maxSize 1) :
    toBuffer c m = .ok (c.bytes m) :=
  build_eq hfits

theorem toBuffer_fits {c : MsgClass} {m : c.Obj} {bytes : List UInt8} (h : toBuffer c m = .ok bytes) :
    (c.bytes m).length ≤ maxSize 1 :=
  build_fits h

/-- A `Firsconnection` takes 17 bytes: a buffer for it can lie anywhere. -/
theorem length_bytes_firsconnection (m : MsgClass.firsconnection.Obj) :
    (MsgClass.firsconnection.bytes m).length = 17 := by
  obtain ⟨⟨⟨data, hdata⟩, ⟨⟩⟩, rest⟩ := m
  have hlen : (data.flatMap (trivialRep 1).toBytes).length = 16 :=
    (length_flatMap_toBytes (trivialRep 1) data).trans (congrArg (· * 1) hdata)
  show ((trivialRep 1).toBytes _ ++ [] ++
    (data.flatMap (trivialRep 1).toBytes ++ [] ++ [] ++ [])).length = 17
  simp only [List.append_nil, List.length_append, hlen, (trivialRep 1).length_toBytes]
  rfl

theorem toBuffer_firsconnection (m : MsgClass.firsconnection.Obj) :
    toBuffer .firsconnection m = .ok (MsgClass.firsconnection.bytes m) :=
  toBuffer_eq (by rw [length_bytes_firsconnection]; decide)

theorem toBuffer_firsconnectionOK : toBuffer .firsconnectionOK () = .ok (MsgClass.firsconnectionOK.bytes ()) :=
  toBuffer_eq (by decide)

/-- Reading a message back stores the listed members and leaves the others as they were. -/
theorem fromBuffer_eq (c : MsgClass) (m : c.Obj) (d : c.Val) (hd : c.Fresh d)
    (buf : ReadOnlyBuffer) (hbuf : buf.bytes = c.bytes m) :
    fromBuffer c buf d = .ok (c.store d (Ty.values c.serializable (c.listed m))) := by
  have hcast := Message.cast_eq [runtimeHeader, c.shape]
    ((c.messageType.value, ()), c.listed m, ()) buf (((0 : BitVec 8), ()), c.listed d, ()) hbuf
    ⟨⟨trivial, trivial⟩, c.listed_fresh d hd, trivial⟩
  simp only [fromBuffer, hcast]
  exact if_neg (not_not_intro rfl)

/-- The first byte of a message is its type, whatever class it is read as. -/
theorem load_header (c : MsgClass) (m : c.Obj) (buf : ReadOnlyBuffer)
    (hbuf : buf.bytes = c.bytes m) (header : runtimeHeader.Val) :
    ∃ ar, runtimeHeader.load (FixSizeBufferLoadingArchive.new buf) header =
      .ok ((c.messageType.value, ()), ar) := by
  have hat : LawfulLoadArchive.At (FixSizeBufferLoadingArchive.new buf) 0 (c.bytes m) :=
    ⟨rfl, Nat.zero_le _, hbuf⟩
  obtain ⟨ar, hload, -⟩ := runtimeHeader.loads (c.messageType.value, ()) header ⟨trivial, trivial⟩ hat
  exact ⟨ar, hload⟩

theorem readHeaderMessagetype_eq (c : MsgClass) (m : c.Obj) (buf : ReadOnlyBuffer)
    (hbuf : buf.bytes = c.bytes m) :
    readHeaderMessagetype buf = .ok c.messageType.value := by
  obtain ⟨ar, har⟩ := load_header c m buf hbuf (Ty.inits [runtimeHeader]).1
  rw [readHeaderMessagetype, Message.cast, castArgs_cons har]
  rfl

/-- Reading a message as another class throws, wherever in the bytes the reading stops. -/
theorem fromBuffer_unmatch {c c' : MsgClass} (hc : c ≠ c') (m : c.Obj) (d : c'.Val)
    (buf : ReadOnlyBuffer) (hbuf : buf.bytes = c.bytes m) :
    ∃ e, fromBuffer c' buf d = .error e := by
  have hne : c.messageType.value ≠ c'.messageType.value := fun h =>
    hc (MsgClass.messageType_value_injective h)
  obtain ⟨ar, har⟩ := load_header c m buf hbuf ((0 : BitVec 8), ())
  have hcast : Message.cast [runtimeHeader, c'.shape] buf (((0 : BitVec 8), ()), c'.listed d, ()) = _ :=
    castArgs_cons har
  rw [fromBuffer, hcast]
  cases castArgs [c'.shape] ar (c'.listed d, ()) with
  | error e => exact ⟨e, rfl⟩
  | ok r => exact ⟨.logicError "Message type unmatch!", if_pos hne⟩

/-! ## Printable cookies -/

theorem ctoi_digit (b : BitVec 8) :
    ctoi (digit (b.toNat / 16)) = .ok (BitVec.ofNat 8 (b.toNat / 16)) ∧
      ctoi (digit (b.toNat % 16)) = .ok (BitVec.ofNat 8 (b.toNat % 16)) := by
  have hdigit : ∀ n < 16, ctoi (digit n) = .ok (BitVec.ofNat 8 n) := by decide
  have hlt := b.isLt
  exact ⟨hdigit _ (by omega), hdigit _ (by omega)⟩

theorem fromDigits_digits : ∀ (n : Nat) (data : List (BitVec 8)) (h : data.length = n),
    fromDigits n (data.flatMap fun b => [digit (b.toNat / 16), digit (b.toNat % 16)]) = .ok ⟨data, h⟩
  | 0, [], _ => rfl
  | n + 1, b :: data, h => by
    obtain ⟨hhigh, hlow⟩ := ctoi_digit b
    have hbyte : BitVec.ofNat 8 (b.toNat / 16) * 16 + BitVec.ofNat 8 (b.toNat % 16) = b := by
      apply BitVec.eq_of_toNat_eq
      have hlt := b.isLt
      have h16 : (16 : BitVec 8).toNat = 16 := rfl
      simp only [BitVec.toNat_add, BitVec.toNat_mul, BitVec.toNat_ofNat, h16]
      omega
    simp only [List.flatMap_cons, List.cons_append, List.nil_append, fromDigits, hhigh, hlow,
      fromDigits_digits n data (Nat.succ.inj h)]
    simp only [bind, Except.bind, pure, Except.pure, hbyte]

theorem length_digits (data : List (BitVec 8)) :
    (data.flatMap fun b => [digit (b.toNat / 16), digit (b.toNat % 16)]).length = 2 * data.length := by
  induction data with
  | nil => rfl
  | cons b data ih =>
    rw [List.flatMap_cons, List.length_append, ih, List.length_cons, List.length_cons,
      List.length_cons, List.length_nil]
    omega

/-- A printed cookie is read back. -/
theorem fromPrintable_toPrintable (c : FirstConCookie) : fromPrintable (toPrintable c) = .ok c := by
  have hlen : (toPrintable c).length = 2 * 16 := by
    have hsize : c.1.val.length = 16 := c.1.sized
    rw [toPrintable, String.length_ofList]
    exact (length_digits c.1.val).trans (congrArg (2 * ·) hsize)
  have hdata := fromDigits_digits 16 c.1.val c.1.sized
  have htext : (toPrintable c).toList =
      c.1.val.flatMap fun b : BitVec 8 => [digit (b.toNat / 16), digit (b.toNat % 16)] :=
    String.toList_ofList
  simp only [fromPrintable, ne_eq, hlen, not_true, htext]
  rw [hdata]
  rfl

/-- The characters a printed cookie is made of. -/
def IsHex (c : Char) : Prop := '0' ≤ c ∧ c ≤ '9' ∨ 'A' ≤ c ∧ c ≤ 'F'

theorem ctoi_ok_iff {c : Char} : (∃ b, ctoi c = .ok b) ↔ IsHex c := by
  unfold ctoi IsHex
  split
  · rename_i h
    exact iff_of_true ⟨_, rfl⟩ (.inl h)
  · rename_i hnum
    split
    · rename_i h
      exact iff_of_true ⟨_, rfl⟩ (.inr h)
    · rename_i hletter
      exact iff_of_false nofun (not_or.mpr ⟨hnum, hletter⟩)

/-- A character that is read is the digit of the number it is read as. -/
theorem digit_of_ctoi {c : Char} {b : BitVec 8} (h : ctoi c = .ok b) : b.toNat < 16 ∧ digit b.toNat = c := by
  have hnum : ∀ n < 10, digit n = Char.ofNat ('0'.toNat + n) := by decide
  have hletter : ∀ n < 6, digit (n + 10) = Char.ofNat ('A'.toNat + n) := by decide
  unfold ctoi at h
  split at h
  · rename_i hc
    obtain rfl := Except.ok.inj h
    have hlow : '0'.toNat ≤ c.toNat := hc.1
    have hhigh : c.toNat ≤ '9'.toNat := hc.2
    have hlt : c.toNat - '0'.toNat < 10 := by
      simp only [Char.reduceToNat] at hlow hhigh ⊢
      omega
    rw [BitVec.toNat_ofNat, Nat.mod_eq_of_lt (by omega), hnum _ hlt, Nat.add_sub_cancel' hlow,
      Char.ofNat_toNat]
    exact ⟨by omega, rfl⟩
  · split at h
    · rename_i hc
      obtain rfl := Except.ok.inj h
      have hlow : 'A'.toNat ≤ c.toNat := hc.1
      have hhigh : c.toNat ≤ 'F'.toNat := hc.2
      have hlt : c.toNat - 'A'.toNat < 6 := by
        simp only [Char.reduceToNat] at hlow hhigh ⊢
        omega
      rw [BitVec.toNat_ofNat, Nat.mod_eq_of_lt (by omega), hletter _ hlt, Nat.add_sub_cancel' hlow,
        Char.ofNat_toNat]
      exact ⟨by omega, rfl⟩
    · cases h

/-- Two digits make the byte they are printed from. -/
theorem digits_of_ctoi {h l : Char} {high low : BitVec 8} (hh : ctoi h = .ok high) (hl : ctoi l = .ok low) :
    digit ((high * 16 + low).toNat / 16) = h ∧ digit ((high * 16 + low).toNat % 16) = l := by
  obtain ⟨hhigh, rfl⟩ := digit_of_ctoi hh
  obtain ⟨hlow, rfl⟩ := digit_of_ctoi hl
  have hbyte : (high * 16 + low).toNat = high.toNat * 16 + low.toNat := by
    have h16 : (16 : BitVec 8).toNat = 16 := rfl
    simp only [BitVec.toNat_add, BitVec.toNat_mul, h16]
    omega
  rw [hbyte, show (high.toNat * 16 + low.toNat) / 16 = high.toNat by omega,
    show (high.toNat * 16 + low.toNat) % 16 = low.toNat by omega]
  exact ⟨rfl, rfl⟩

/-- One round of the loop. -/
theorem fromDigits_cons {n : Nat} {h l : Char} {cs : List Char} {data : Sized (· = n + 1) (BitVec 8)} :
    fromDigits (n + 1) (h :: l :: cs) = .ok data ↔ ∃ high low rest, ctoi h = .ok high ∧ ctoi l = .ok low ∧
      fromDigits n cs = .ok rest ∧ data.val = (high * 16 + low) :: rest.val := by
  rw [fromDigits]
  cases hh : ctoi h with
  | error e => exact iff_of_false nofun nofun
  | ok high =>
    cases hl : ctoi l with
    | error e => exact iff_of_false nofun nofun
    | ok low =>
      cases hrest : fromDigits n cs with
      | error e => exact iff_of_false nofun nofun
      | ok rest =>
        constructor
        · intro hread
          obtain rfl := Except.ok.inj hread
          exact ⟨high, low, rest, rfl, rfl, rfl, rfl⟩
        · rintro ⟨_, _, _, ⟨⟩, ⟨⟩, ⟨⟩, hdata⟩
          exact congrArg Except.ok (Sized.ext hdata.symm)

/-- **The loop of the constructor**: what it reads prints as the text it is read from. The induction is on
the bytes still to be read. -/
theorem digits_fromDigits : ∀ {n : Nat} {cs : List Char} {data : Sized (· = n) (BitVec 8)},
    cs.length = 2 * n → fromDigits n cs = .ok data →
    (data.val.flatMap fun b => [digit (b.toNat / 16), digit (b.toNat % 16)]) = cs
  | 0, cs, data, hlen, h => by
    obtain rfl := Except.ok.inj h
    exact (List.eq_nil_of_length_eq_zero hlen).symm
  | n + 1, [], _, hlen, _ => by simp at hlen
  | n + 1, [_], _, hlen, _ => by simp at hlen; omega
  | n + 1, h :: l :: cs, data, hlen, hread => by
    have hlen' : cs.length = 2 * n := by
      simp only [List.length_cons] at hlen
      omega
    obtain ⟨high, low, rest, hh, hl, hrest, hdata⟩ := fromDigits_cons.mp hread
    obtain ⟨hhigh, hlow⟩ := digits_of_ctoi hh hl
    rw [hdata, List.flatMap_cons, hhigh, hlow, digits_fromDigits hlen' hrest]
    rfl

/-- It stops nowhere if all characters are digits, and else throws. -/
theorem fromDigits_ok_iff : ∀ {n : Nat} {cs : List Char}, cs.length = 2 * n →
    ((∃ data, fromDigits n cs = .ok data) ↔ ∀ c ∈ cs, IsHex c)
  | 0, cs, hlen => by
    obtain rfl := List.eq_nil_of_length_eq_zero hlen
    exact iff_of_true ⟨_, rfl⟩ nofun
  | n + 1, [], hlen => by simp at hlen
  | n + 1, [_], hlen => by simp at hlen; omega
  | n + 1, h :: l :: cs, hlen => by
    have hlen' : cs.length = 2 * n := by
      simp only [List.length_cons] at hlen
      omega
    rw [List.forall_mem_cons, List.forall_mem_cons, ← ctoi_ok_iff, ← ctoi_ok_iff, ← fromDigits_ok_iff hlen']
    simp only [fromDigits_cons]
    constructor
    · rintro ⟨data, high, low, rest, hh, hl, hrest, -⟩
      exact ⟨⟨high, hh⟩, ⟨low, hl⟩, ⟨rest, hrest⟩⟩
    · rintro ⟨⟨high, hh⟩, ⟨low, hl⟩, ⟨rest, hrest⟩⟩
      exact ⟨⟨(high * 16 + low) :: rest.val, congrArg Nat.succ rest.sized⟩, high, low, rest, hh, hl, hrest, rfl⟩

/-- The texts of cookies: 32 upper-case hexadecimal digits. -/
def IsPrintable (s : String) : Prop := s.length = 32 ∧ ∀ c ∈ s.toList, IsHex c

theorem fromPrintable_eq_ok_iff {s : String} {c : FirstConCookie} :
    fromPrintable s = .ok c ↔ s.length = 32 ∧ fromDigits 16 s.toList = .ok c.1 := by
  unfold fromPrintable
  by_cases hlen : s.length = 32
  · simp only [hlen, ne_eq, not_true, true_and]
    cases hread : fromDigits 16 s.toList with
    | error e => exact iff_of_false nofun nofun
    | ok data =>
      constructor
      · intro h
        obtain rfl := Except.ok.inj h
        rfl
      · intro h
        obtain rfl := Except.ok.inj h
        rfl
  · simp only [hlen, ne_eq, not_false_eq_true, false_and, iff_false]
    have hformat : ∃ what, format "The cookie string length should be \x7b\x7d" ["32"] = .ok what := ⟨_, rfl⟩
    obtain ⟨what, hwhat⟩ := hformat
    rw [hwhat]
    nofun

theorem length_toList_eq {s : String} (h : s.length = 32) : s.toList.length = 2 * 16 :=
  String.length_toList.trans h

theorem toPrintable_fromPrintable {s : String} {c : FirstConCookie} (h : fromPrintable s = .ok c) :
    toPrintable c = s := by
  obtain ⟨hlen, hread⟩ := fromPrintable_eq_ok_iff.mp h
  have hdigits := digits_fromDigits (length_toList_eq hlen) hread
  exact (congrArg String.ofList hdigits).trans String.ofList_toList

/-- Cookies are compared byte by byte. -/
theorem cookieEq_iff {c other : FirstConCookie} : cookieEq c other = true ↔ c = other := by
  constructor
  · intro h
    have hlen : (cookieData c).length = 16 := c.1.sized
    have hlen' : (cookieData other).length = 16 := other.1.sized
    have hbytes : cookieData c = cookieData other := by
      apply List.ext_getElem? fun i => ?_
      by_cases hi : i < 16
      · exact beq_iff_eq.mp (List.all_eq_true.mp h i (List.mem_range.mpr hi))
      · rw [List.getElem?_eq_none (by omega), List.getElem?_eq_none (by omega)]
    exact Prod.ext (Sized.ext hbytes) rfl
  · rintro rfl
    exact List.all_eq_true.mpr fun i _ => beq_self_eq_true _

/-- **Printing and reading cookies** undo each other, up to `operator==`, which is equality; what is read are
the printable texts, no more. -/
theorem printable_bijective :
    (∀ c, fromPrintable (toPrintable c) = .ok c) ∧ (∀ c other, cookieEq c other = true ↔ c = other) ∧
      (∀ s, (∃ c, fromPrintable s = .ok c) ↔ IsPrintable s) ∧
        ∀ s c, fromPrintable s = .ok c → toPrintable c = s := by
  refine ⟨fromPrintable_toPrintable, fun _ _ => cookieEq_iff, fun s => ?_, fun s c => toPrintable_fromPrintable⟩
  simp only [fromPrintable_eq_ok_iff, IsPrintable]
  constructor
  · rintro ⟨c, hlen, hread⟩
    exact ⟨hlen, (fromDigits_ok_iff (length_toList_eq hlen)).mp ⟨c.1, hread⟩⟩
  · rintro ⟨hlen, hhex⟩
    obtain ⟨data, hread⟩ := (fromDigits_ok_iff (length_toList_eq hlen)).mpr hhex
    exact ⟨(data, ()), hlen, hread⟩

/-- The cookie of zeros. -/
theorem printable_bijective_zeros :
    toPrintable (⟨List.replicate 16 (0 : BitVec 8), rfl⟩, ()) = "00000000000000000000000000000000" :=
  printable_bijective.2.2.2 _ _ (fromPrintable_eq_ok_iff.mpr ⟨by decide, rfl⟩)

/-! ## Which messages come back whole -/

/-- What a message should do: `from_buffer` of its own class returns it, in every data member and
whatever the default-constructed message held, and `from_buffer` of every other class throws. -/
def RoundTrip (c : MsgClass) (m : c.Obj) : Prop :=
  ∃ bytes, toBuffer c m = .ok bytes ∧ ∀ buf : ReadOnlyBuffer, buf.bytes = bytes →
    (∀ d, c.Fresh d → fromBuffer c buf d = .ok (c.value m)) ∧
    ∀ c', c' ≠ c → ∀ d, c'.Fresh d → ∃ e, fromBuffer c' buf d = .error e

/-- What a `Firsconnection` comes back as: its `worker_info` is the default-constructed one. -/
theorem fromBuffer_firsconnection (m : MsgClass.firsconnection.Obj)
    (d : MsgClass.firsconnection.Val) (hd : MsgClass.firsconnection.Fresh d) (buf : ReadOnlyBuffer)
    (hbuf : buf.bytes = MsgClass.firsconnection.bytes m) :
    fromBuffer .firsconnection buf d = .ok (firstConCookie.value m.1, d.2) :=
  fromBuffer_eq .firsconnection m d hd buf hbuf

/-- **Round trip of the runtime messages.** A message comes back whole, and only as its own class,
**iff** it fits into a buffer, as whatever is in memory does, and is not a `Firsconnection`: that class does
not list `worker_info`. -/
theorem roundTrip_iff (c : MsgClass) (m : c.Obj) :
    RoundTrip c m ↔ c ≠ .firsconnection ∧ (c.bytes m).length ≤ maxSize 1 := by
  constructor
  · rintro ⟨bytes, hto, h⟩
    refine ⟨?_, toBuffer_fits hto⟩
    rintro rfl
    have hbytes : MsgClass.firsconnection.bytes m = bytes :=
      Except.ok.inj ((toBuffer_firsconnection m).symm.trans hto)
    -- a default-constructed message whose port is not the one of `m`
    let port : BitVec 16 := m.2.1.1.1
    let d : MsgClass.firsconnection.Val :=
      (firstConCookie.init, ((port + 1, (⟨[], Nat.zero_le _⟩ : CppString), ()), ()), ())
    have hd : MsgClass.firsconnection.Fresh d :=
      ⟨firstConCookie.fresh_init, ⟨⟨trivial, rfl, trivial⟩, trivial⟩, trivial⟩
    have hfits : 0 + bytes.length < 2 ^ 64 := by
      rw [← hbytes, length_bytes_firsconnection]
      decide
    have hback := (h ⟨0, bytes, hfits⟩ rfl).1 d hd
    rw [fromBuffer_firsconnection m d hd _ hbytes.symm] at hback
    have hport : port + 1 = port :=
      congrArg (fun v : MsgClass.firsconnection.Val => v.2.1.1.1) (Except.ok.inj hback)
    exact absurd hport (by simp)
  · rintro ⟨hc, hfits⟩
    refine ⟨_, toBuffer_eq hfits, fun buf hbuf => ⟨fun d hd => ?_, fun c' hc' d _ => ?_⟩⟩
    · rw [fromBuffer_eq c m d hd buf hbuf, c.store_value m d hc]
    · exact fromBuffer_unmatch (Ne.symm hc') m d buf hbuf

/-- A worker at `10.0.0.1:5000` introduces itself; the coordinator reads no address. -/
theorem not_roundTrip_firsconnection :
    ¬ RoundTrip .firsconnection
      ((⟨List.replicate 16 (0 : BitVec 8), by decide⟩, ()),
        (((5000 : BitVec 16), (⟨[49, 48, 46, 48, 46, 48, 46, 49], by decide⟩ : CppString), ()), ()), ()) := by
  rintro ⟨bytes, hto, h⟩
  have hbytes := Except.ok.inj ((toBuffer_firsconnection _).symm.trans hto)
  have hback := (h ⟨0, bytes, by rw [← hbytes]; decide⟩ rfl).1 (Ty.inits _) (Ty.freshes_inits _)
  rw [fromBuffer_firsconnection _ _ (Ty.freshes_inits _) _ hbytes.symm] at hback
  have haddr := congrArg (fun v : MsgClass.firsconnection.Val => Sized.val v.2.1.1.2.1)
    (Except.ok.inj hback)
  exact absurd haddr (by decide)

end Thallium
