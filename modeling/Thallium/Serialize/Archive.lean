import Thallium.Common
import Thallium.Serialize.Shape

/-!
# Archives (include/serialize.hpp, serialize.cpp, network/protocol.hpp)

An archive hands out cursors into a byte buffer. Saving archives append; loading archives read
on. Cursor sums of the loading archives are taken modulo `2^64`, as `size_t` and pointer
arithmetic are; a buffer in memory ends below `2^64`.

| here | there |
| --- | --- |
| `SaveArchive`, `LoadArchive`     | the interface the overloads use: `get_save_cursor`, `get_load_cursor` and `std::copy` |
| `StringSaveArchive`              | the growing archive (serialize.cpp:11-34) |
| `StringLoadArchive`              | serialize.cpp:36-47 |
| `FixSizeBufferSavingArchive`     | protocol.hpp:92-117 |
| `FixSizeBufferLoadingArchive`    | protocol.hpp:120-147 |
| `ReadOnlyBuffer`                 | `message::ReadOnlyBuffer` (protocol.hpp:56): an address and the bytes there |
| `WriteLog`                       | not in the source: an archive that keeps every write apart |

`LawfulSaveArchive` and `LawfulLoadArchive` say what the overloads rely on; all archives are instances.
-/
namespace Thallium.Serializer

/-- A saving archive: a cursor for `num` bytes, and the copy to it. -/
class SaveArchive (A : Type) where
  getSaveCursor : A → Nat → Except Exception (Nat × A)
  copy : A → Nat → List UInt8 → A

/-- A loading archive: the `num` bytes at the cursor, which moves past them. -/
class LoadArchive (A : Type) where
  getLoadCursor : A → Nat → Except Exception (List UInt8 × A)

/-- `std::copy(src, src + n, buf + dst)`. -/
def copyTo (buf : List UInt8) (dst : Nat) (src : List UInt8) : List UInt8 :=
  buf.take dst ++ src ++ buf.drop (dst + src.length)

/-- Bytes `[dst, dst + n)` of a buffer. -/
def slice (buf : List UInt8) (dst n : Nat) : List UInt8 := (buf.drop dst).take n

/-! ## The four archives -/

/-- `StringSaveArchive` (serialize.hpp:51). `buf` is the whole allocation, `saveCursor` the offset
of `save_cursor` in it. -/
structure StringSaveArchive where
  capacity : Nat
  buf : List UInt8
  saveCursor : Nat

namespace StringSaveArchive

/-- The constructor (serialize.cpp:11). Fresh `char[]` memory is shown as zeros; it is never read. -/
def new : StringSaveArchive := ⟨64, List.replicate 64 0, 0⟩

/-- `get_save_cursor` (serialize.cpp:17). -/
def getSaveCursor (a : StringSaveArchive) (num : Nat) : Except Exception (Nat × StringSaveArchive) :=
  let sizeUsed := a.saveCursor
  let a :=
    if sizeUsed + num > a.capacity then
      let newCapacity := max (sizeUsed + num) (a.capacity * 2)
      let newBuf := List.replicate newCapacity 0
      { capacity := newCapacity, buf := copyTo newBuf 0 (a.buf.take sizeUsed), saveCursor := sizeUsed }
    else a
  .ok (a.saveCursor, { a with saveCursor := a.saveCursor + num })

/-- `build` (serialize.cpp:34). -/
def build (a : StringSaveArchive) : List UInt8 := a.buf.take a.saveCursor

instance : SaveArchive StringSaveArchive where
  getSaveCursor := getSaveCursor
  copy a dst src := { a with buf := copyTo a.buf dst src }

end StringSaveArchive

/-- `FixSizeBufferSavingArchive` (protocol.hpp:92). -/
structure FixSizeBufferSavingArchive where
  buf : List UInt8
  saveCursor : Nat

namespace FixSizeBufferSavingArchive

def new (buf : List UInt8) : FixSizeBufferSavingArchive := ⟨buf, 0⟩

/-- `get_save_cursor` (protocol.hpp:106). -/
def getSaveCursor (a : FixSizeBufferSavingArchive) (num : Nat) :
    Except Exception (Nat × FixSizeBufferSavingArchive) :=
  let ret := a.saveCursor
  let result := a.saveCursor + num
  if result > a.buf.length then
    match format "Internal buf not big enough to hold \x7b\x7d size value." [toString num] with
    | .ok what => .error (.runtimeError what)
    | .error e => .error e
  else .ok (ret, { a with saveCursor := result })

instance : SaveArchive FixSizeBufferSavingArchive where
  getSaveCursor := getSaveCursor
  copy a dst src := { a with buf := copyTo a.buf dst src }

end FixSizeBufferSavingArchive

/-- The writes an archive is asked for, in order. -/
structure WriteLog where
  writes : List (List UInt8)

namespace WriteLog

def new : WriteLog := ⟨[]⟩

instance : SaveArchive WriteLog where
  getSaveCursor a _ := .ok (a.writes.length, a)
  copy a _ src := ⟨a.writes ++ [src]⟩

end WriteLog

/-- `StringLoadArchive` (serialize.hpp:65); the cursor as an offset. -/
structure StringLoadArchive where
  buf : CppString
  loadCursor : Nat

namespace StringLoadArchive

def new (s : CppString) : StringLoadArchive := ⟨s, 0⟩

/-- `get_load_cursor` (serialize.cpp:39). -/
def getLoadCursor (a : StringLoadArchive) (num : Nat) :
    Except Exception (List UInt8 × StringLoadArchive) :=
  let result := (a.loadCursor + num) % 2 ^ 64
  if result > a.buf.val.length then .error (.logicError "buf load overflow!")
  else .ok (slice a.buf.val a.loadCursor num, { a with loadCursor := (a.loadCursor + num) % 2 ^ 64 })

/-- `size` (serialize.hpp:73): the bytes consumed. -/
def size (a : StringLoadArchive) : Nat := a.loadCursor

instance : LoadArchive StringLoadArchive where
  getLoadCursor := getLoadCursor

end StringLoadArchive

end Thallium.Serializer

namespace Thallium.Message

/-- `message::ReadOnlyBuffer` (protocol.hpp:56): the address `buf` and the bytes lying there. -/
structure ReadOnlyBuffer where
  buf : Nat
  bytes : List UInt8
  fits : buf + bytes.length < 2 ^ 64

end Thallium.Message

namespace Thallium.Serializer
open Message

/-- `FixSizeBufferLoadingArchive` (protocol.hpp:120); the cursor as an address. -/
structure FixSizeBufferLoadingArchive where
  buf : ReadOnlyBuffer
  loadCursor : Nat

namespace FixSizeBufferLoadingArchive

def new (buf : ReadOnlyBuffer) : FixSizeBufferLoadingArchive := ⟨buf, buf.buf⟩

/-- `get_load_cursor` (protocol.hpp:134): the comparison is between addresses. -/
def getLoadCursor (a : FixSizeBufferLoadingArchive) (num : Nat) :
    Except Exception (List UInt8 × FixSizeBufferLoadingArchive) :=
  let result := (a.loadCursor + num) % 2 ^ 64
  if result > a.buf.bytes.length + a.buf.buf then
    match format "Remaining buf (size: \x7b\x7d) not enough to convert \x7b\x7d size value."
        [toString (a.buf.bytes.length + a.buf.buf - a.loadCursor), toString num] with
    | .ok what => .error (.runtimeError what)
    | .error e => .error e
  else .ok (slice a.buf.bytes (a.loadCursor - a.buf.buf) num, { a with loadCursor := result })

/-- `size` (protocol.hpp:146): the bytes consumed. -/
def size (a : FixSizeBufferLoadingArchive) : Nat := a.loadCursor - a.buf.buf

instance : LoadArchive FixSizeBufferLoadingArchive where
  getLoadCursor := getLoadCursor

end FixSizeBufferLoadingArchive

/-! ## What the overloads rely on -/

/-- A saving archive that appends. `At a done room`: `a` holds `done` and takes `room` more bytes. -/
class LawfulSaveArchive (A : Type) [SaveArchive A] where
  At : A → List UInt8 → Nat → Prop
  save : ∀ {a : A} {done src : List UInt8} {room : Nat}, At a done (src.length + room) →
    ∃ dst a', SaveArchive.getSaveCursor a src.length = .ok (dst, a') ∧
      At (SaveArchive.copy a' dst src) (done ++ src) room

/-- A loading archive that reads on. `At a n rest`: `a` has consumed `n` bytes and has `rest` in
front of it. -/
class LawfulLoadArchive (A : Type) [LoadArchive A] where
  At : A → Nat → List UInt8 → Prop
  load : ∀ {a : A} {n : Nat} {src rest : List UInt8}, At a n (src ++ rest) →
    ∃ a', LoadArchive.getLoadCursor a src.length = .ok (src, a') ∧ At a' (n + src.length) rest

theorem length_copyTo {buf src : List UInt8} {dst : Nat} (h : dst + src.length ≤ buf.length) :
    (copyTo buf dst src).length = buf.length := by
  simp [copyTo]; omega

theorem take_copyTo {buf src : List UInt8} {dst : Nat} (h : dst + src.length ≤ buf.length) :
    (copyTo buf dst src).take (dst + src.length) = buf.take dst ++ src := by
  have hl : (buf.take dst ++ src).length = dst + src.length := by simp; omega
  rw [copyTo, ← hl, List.take_left]

/-- The growing archive takes any number of bytes: `room` is not bounded. -/
instance : LawfulSaveArchive StringSaveArchive where
  At a done _ := a.buf.take a.saveCursor = done ∧ a.saveCursor = done.length ∧
    a.buf.length = a.capacity ∧ a.saveCursor ≤ a.capacity
  save := by
    rintro ⟨cap, buf, cur⟩ done src room ⟨rfl, hcur, hlen, hle⟩
    simp only at hcur hlen hle
    simp only [SaveArchive.getSaveCursor, StringSaveArchive.getSaveCursor, SaveArchive.copy]
    by_cases hg : cur + src.length > cap
    · -- reallocation: the used bytes are copied to the front of the new allocation
      set newCap := max (cur + src.length) (cap * 2) with hnew
      have hused : (buf.take cur).length = cur := hcur.symm
      have hfit : 0 + (buf.take cur).length ≤ (List.replicate newCap (0 : UInt8)).length := by
        simp only [List.length_replicate, hused]; omega
      have hl := length_copyTo hfit
      rw [List.length_replicate] at hl
      have ht := take_copyTo hfit
      rw [hused, Nat.zero_add, List.take_zero, List.nil_append] at ht
      have hfit' : cur + src.length ≤ (copyTo (List.replicate newCap 0) 0 (buf.take cur)).length := by
        rw [hl]; omega
      refine ⟨cur, ⟨newCap, copyTo (List.replicate newCap 0) 0 (buf.take cur), cur + src.length⟩,
        by rw [if_pos hg], ?_, by simp [hused], ?_, by simp only; omega⟩
      · simp only [take_copyTo hfit', ht]
      · simp only [length_copyTo hfit', hl]
    · have hfit : cur + src.length ≤ buf.length := by omega
      refine ⟨cur, ⟨cap, buf, cur + src.length⟩, by rw [if_neg hg], take_copyTo hfit,
        by simp [← hcur], ?_, by simp only; omega⟩
      simp only [length_copyTo hfit, hlen]

theorem StringSaveArchive.at_new (room : Nat) : LawfulSaveArchive.At StringSaveArchive.new [] room :=
  ⟨rfl, rfl, rfl, Nat.zero_le _⟩

instance : LawfulSaveArchive FixSizeBufferSavingArchive where
  At a done room := a.buf.take a.saveCursor = done ∧ a.saveCursor = done.length ∧
    a.saveCursor + room = a.buf.length
  save := by
    rintro ⟨buf, cur⟩ done src room ⟨rfl, hcur, hroom⟩
    simp only at hcur hroom
    have hfit : cur + src.length ≤ buf.length := by omega
    refine ⟨cur, ⟨buf, cur + src.length⟩, ?_, ?_⟩
    · simp [SaveArchive.getSaveCursor, FixSizeBufferSavingArchive.getSaveCursor, hfit]
    · refine ⟨take_copyTo hfit, by simp only [SaveArchive.copy, List.length_append, ← hcur], ?_⟩
      simp only [SaveArchive.copy, length_copyTo hfit]; omega

instance : LawfulSaveArchive WriteLog where
  At a done _ := a.writes.flatten = done
  save {a _ src _} h := ⟨_, _, rfl, by simp [SaveArchive.copy, h]⟩

theorem WriteLog.at_new (room : Nat) : LawfulSaveArchive.At WriteLog.new [] room := rfl

instance : LawfulLoadArchive StringLoadArchive where
  At a n rest := a.loadCursor = n ∧ n ≤ a.buf.val.length ∧ a.buf.val.drop n = rest
  load := by
    rintro ⟨buf, cur⟩ n src rest ⟨rfl, hle, hrest⟩
    simp only at hle hrest
    have hlen : cur + (src ++ rest).length = buf.val.length := by
      rw [← hrest, List.length_drop]; omega
    have hmax : buf.val.length ≤ maxSize 1 := buf.sized
    have h64 : cur + src.length < 2 ^ 64 := by
      simp only [maxSize, List.length_append] at hlen hmax; omega
    rw [List.length_append] at hlen
    refine ⟨⟨buf, cur + src.length⟩, ?_, rfl, by simp; omega, ?_⟩
    · simp only [LoadArchive.getLoadCursor, StringLoadArchive.getLoadCursor, Nat.mod_eq_of_lt h64,
        slice, hrest, List.take_left]
      rw [if_neg (by omega)]
    · simp only [← List.drop_drop, hrest, List.drop_left]

instance : LawfulLoadArchive FixSizeBufferLoadingArchive where
  At a n rest := a.loadCursor = a.buf.buf + n ∧ n ≤ a.buf.bytes.length ∧ a.buf.bytes.drop n = rest
  load := by
    rintro ⟨buf, cur⟩ n src rest ⟨hcur, hle, hrest⟩
    simp only at hcur hle hrest
    have hlen : n + (src ++ rest).length = buf.bytes.length := by
      rw [← hrest, List.length_drop]; omega
    have hfits := buf.fits
    rw [List.length_append] at hlen
    have h64 : cur + src.length < 2 ^ 64 := by omega
    refine ⟨⟨buf, cur + src.length⟩, ?_, by simp; omega, by simp; omega, ?_⟩
    · have hoff : cur - buf.buf = n := by omega
      simp only [LoadArchive.getLoadCursor, FixSizeBufferLoadingArchive.getLoadCursor,
        Nat.mod_eq_of_lt h64, slice, hoff, hrest, List.take_left]
      rw [if_neg (by omega)]
    · simp only [← List.drop_drop, hrest, List.drop_left]

end Thallium.Serializer
