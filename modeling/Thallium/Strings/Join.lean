import Thallium.Serialize.Archive

/-!
# `string_join` (include/common.hpp:222-263)

The joined text is put together in an array of characters and made a string from there. The positions
count characters; `memcpy` counts bytes, and is given the same numbers.

| here | there |
| --- | --- |
| `CharType`, `BasicString` | `char`, `wchar_t` and the strings of them |
| `memcpy`, `joinLoop`      | the loop and the last copy (common.hpp:249-258) |
| `readCStr`                | `String ret{new_str}` (:260): up to the first zero |
| `stringJoin`              | `string_join` (:222) |
| `joined`                  | not in the source: the text that is asked for |
| `Survives`                | not in the source: a piece of which no character is lost |

* `joinLoop_eq` — what the array holds in the end.
* `joins_iff` — the result is the joined text **iff** the text fits into memory and all its pieces survive.
-/
namespace Thallium.Strings
open Serializer LittleEndian

/-! ## Strings of characters -/

inductive CharType where
  | char
  | wchar
  deriving DecidableEq, Repr

/-- `sizeof` (LP64). -/
def CharType.size : CharType → Nat
  | char => 1
  | wchar => 4

abbrev CharType.Unit (c : CharType) : Type := BitVec (8 * c.size)

/-- `std::basic_string`: no longer than `max_size()`. -/
abbrev BasicString (c : CharType) : Type := Sized (· ≤ maxSize c.size) c.Unit

variable {c : CharType}

/-- The characters as they lie in memory. -/
def bytes (s : List c.Unit) : List UInt8 := s.flatMap (trivialRep c.size).toBytes

theorem length_bytes (s : List c.Unit) : (bytes s).length = s.length * c.size := by
  induction s with
  | nil => simp [bytes]
  | cons u s ih =>
    have hu : ((trivialRep c.size).toBytes u).length = c.size := (trivialRep c.size).length_toBytes u
    rw [bytes, List.flatMap_cons, List.length_append, hu, ← bytes, ih, List.length_cons, Nat.succ_mul]
    omega

theorem bytes_append (s s' : List c.Unit) : bytes (s ++ s') = bytes s ++ bytes s' := List.flatMap_append

/-! ## The function -/

/-- `memcpy(new_str + pos, s.c_str(), n)`: `n` is a number of bytes, `pos` one of characters. -/
def memcpy (newStr : List UInt8) (pos : Nat) (s : BasicString c) (n : Nat) : Except Fault (List UInt8) :=
  if pos * c.size + n ≤ newStr.length then .ok (copyTo newStr (pos * c.size) ((bytes s.val).take n))
  else .error .undefined

/-- The loop over all elements but the last, each followed by the separator, and the copy of the last
(common.hpp:249-258). -/
def joinLoop (sep : BasicString c) : List (BasicString c) → List UInt8 → Nat → Except Fault (List UInt8)
  | [], newStr, _ => .ok newStr
  | [s], newStr, pos => memcpy newStr pos s s.val.length
  | s :: l, newStr, pos => do
    let newStr ← memcpy newStr pos s s.val.length
    let newStr ← memcpy newStr (pos + s.val.length) sep sep.val.length
    joinLoop sep l newStr (pos + s.val.length + sep.val.length)

/-- A string off an array of `n` characters: what stands before the first zero. -/
def readCStr (c : CharType) : Nat → List UInt8 → Except Fault (List c.Unit)
  | 0, _ => .error .undefined
  | n + 1, newStr =>
    let u := (trivialRep c.size).ofBytes (newStr.take c.size)
    if u = 0 then .ok [] else (readCStr c n (newStr.drop c.size)).map (u :: ·)

/-- `total_length` (common.hpp:237-243) before it is cut to a `size_t`. -/
def totalLength (stringList : List (BasicString c)) (sep : BasicString c) : Nat :=
  (stringList.map (·.val.length)).sum + (stringList.length - 1) * sep.val.length

/-- `string_join` (common.hpp:222). -/
def stringJoin (stringList : List (BasicString c)) (sep : BasicString c) : Except Fault (List c.Unit) :=
  if stringList.length = 0 then .ok []
  else
    let totalLength := totalLength stringList sep % 2 ^ 64
    if (totalLength + 1) * c.size > 2 ^ 63 - 1 then .error (.thrown .badArrayNewLength)
    else do
      let newStr ← joinLoop sep stringList (List.replicate ((totalLength + 1) * c.size) 0) 0
      readCStr c (totalLength + 1) newStr

/-! ## The array -/

/-- The pieces of the joined text, in order. -/
def pieces (sep : BasicString c) (stringList : List (BasicString c)) : List (List c.Unit) :=
  (stringList.map Sized.val).intersperse sep.val

/-- What is left of a piece in the array: as many of its bytes as it has characters, then zeros. -/
def copied (s : List c.Unit) : List UInt8 :=
  (bytes s).take s.length ++ List.replicate (s.length * c.size - s.length) 0

theorem CharType.size_pos : ∀ c : CharType, 0 < c.size
  | .char => by decide
  | .wchar => by decide

theorem length_copied (s : List c.Unit) : (copied s).length = s.length * c.size := by
  have hle : s.length ≤ s.length * c.size := Nat.le_mul_of_pos_right _ c.size_pos
  rw [copied, List.length_append, List.length_take, length_bytes, List.length_replicate]
  omega

/-- A copy behind what is there already, into fresh memory. -/
theorem memcpy_eq (s : BasicString c) {front : List UInt8} {pos : Nat} (room : Nat)
    (hpos : front.length = pos * c.size) :
    memcpy (front ++ List.replicate (s.val.length * c.size + room) 0) pos s s.val.length =
      .ok (front ++ copied s.val ++ List.replicate room 0) := by
  have hle : s.val.length ≤ s.val.length * c.size := Nat.le_mul_of_pos_right _ c.size_pos
  have htake : ((bytes s.val).take s.val.length).length = s.val.length := by
    rw [List.length_take, length_bytes, Nat.min_eq_left hle]
  have hfit : pos * c.size + s.val.length ≤
      (front ++ List.replicate (s.val.length * c.size + room) (0 : UInt8)).length := by
    rw [List.length_append, List.length_replicate, hpos]
    omega
  have hdrop : (front ++ List.replicate (s.val.length * c.size + room) (0 : UInt8)).drop
      (front.length + s.val.length) =
        List.replicate (s.val.length * c.size - s.val.length) 0 ++ List.replicate room 0 := by
    rw [List.drop_append, List.drop_of_length_le (Nat.le_add_right _ _), List.nil_append,
      Nat.add_sub_cancel_left, List.drop_replicate, List.replicate_append_replicate]
    congr 1
    omega
  rw [memcpy, if_pos hfit, copyTo, htake, ← hpos, hdrop, List.take_left, copied]
  simp only [List.append_assoc]

theorem totalLength_cons (sep s s' : BasicString c) (l : List (BasicString c)) :
    totalLength (s :: s' :: l) sep = s.val.length + (sep.val.length + totalLength (s' :: l) sep) := by
  simp only [totalLength, List.map_cons, List.sum_cons, List.length_cons, Nat.add_sub_cancel,
    Nat.add_mul, Nat.one_mul]
  omega

/-- **The array**: the pieces one behind the other, each as far as it was copied. The induction is on the
elements still to be copied. -/
theorem joinLoop_eq (sep : BasicString c) : ∀ (l : List (BasicString c)) {front : List UInt8} {pos : Nat}
    (room : Nat), l ≠ [] → front.length = pos * c.size →
    joinLoop sep l (front ++ List.replicate (totalLength l sep * c.size + room) 0) pos =
      .ok (front ++ (pieces sep l).flatMap copied ++ List.replicate room 0)
  | [], _, _, _, hl, _ => (hl rfl).elim
  | [s], front, pos, room, _, hpos => by
    have htotal : totalLength [s] sep = s.val.length := by simp [totalLength]
    rw [joinLoop, htotal, memcpy_eq s room hpos]
    simp [pieces]
  | s :: s' :: l, front, pos, room, _, hpos => by
    have hroom : totalLength (s :: s' :: l) sep * c.size + room =
        s.val.length * c.size + (sep.val.length * c.size + (totalLength (s' :: l) sep * c.size + room)) := by
      rw [totalLength_cons, Nat.add_mul, Nat.add_mul]
      omega
    have hpos₁ : (front ++ copied s.val).length = (pos + s.val.length) * c.size := by
      rw [List.length_append, length_copied, hpos, Nat.add_mul]
    have hpos₂ : (front ++ copied s.val ++ copied sep.val).length =
        (pos + s.val.length + sep.val.length) * c.size := by
      rw [List.length_append, hpos₁, length_copied, ← Nat.add_mul]
    have ih := joinLoop_eq sep (s' :: l) room (List.cons_ne_nil _ _) hpos₂
    rw [joinLoop, hroom, memcpy_eq s _ hpos]
    · simp only [bind, Except.bind, memcpy_eq sep _ hpos₁, ih]
      simp [pieces]
    · exact List.cons_ne_nil _ _

/-! ## The string off the array -/

theorem length_trivialRep_toBytes (u : c.Unit) : ((trivialRep c.size).toBytes u).length = c.size :=
  (trivialRep c.size).length_toBytes u

/-- Every character's worth of bytes is some character's. -/
theorem toBytes_ofBytes {bs : List UInt8} (h : bs.length = c.size) :
    (trivialRep c.size).toBytes ((trivialRep c.size).ofBytes bs) = bs := by
  have hlt : ofLE bs < 2 ^ (8 * c.size) := by
    have hlt := ofLE_lt bs
    rwa [h, show 256 = 2 ^ 8 from rfl, ← Nat.pow_mul] at hlt
  simp only [trivialRep, BitVec.toNat_ofNat, Nat.mod_eq_of_lt hlt]
  rw [← h, toLE_ofLE]

theorem bytes_cons (u : c.Unit) (l : List c.Unit) :
    bytes (u :: l) = (trivialRep c.size).toBytes u ++ bytes l := rfl

theorem length_readCStr : ∀ {n : Nat} {buf : List UInt8} {l : List c.Unit},
    readCStr c n buf = .ok l → l.length < n
  | 0, _, _, h => by cases h
  | n + 1, buf, l, h => by
    rw [readCStr] at h
    split at h
    · cases h
      exact Nat.succ_pos n
    · cases hrest : readCStr c n (buf.drop c.size) with
      | error _ => rw [hrest] at h; cases h
      | ok l' =>
        rw [hrest] at h
        cases h
        exact Nat.succ_lt_succ (length_readCStr hrest)

theorem ofBytes_zeros : (trivialRep c.size).ofBytes (List.replicate c.size 0) = (0 : c.Unit) := by
  cases c <;> decide

/-- An array that a zero ends gives some string. -/
theorem readCStr_ok : ∀ {n : Nat} {buf : List UInt8}, buf.length = n * c.size →
    ∃ r, readCStr c (n + 1) (buf ++ List.replicate c.size 0) = .ok r
  | 0, buf, hlen => by
    obtain rfl : buf = [] := List.eq_nil_of_length_eq_zero (by rw [hlen, Nat.zero_mul])
    refine ⟨[], ?_⟩
    rw [List.nil_append, readCStr, List.take_of_length_le (by simp), if_pos ofBytes_zeros]
  | n + 1, buf, hlen => by
    rw [Nat.add_mul, Nat.one_mul] at hlen
    rw [readCStr, List.take_append_of_le_length (by omega), List.drop_append_of_le_length (by omega)]
    split
    · exact ⟨[], rfl⟩
    · have hrest : (buf.drop c.size).length = n * c.size := by rw [List.length_drop]; omega
      obtain ⟨r, hr⟩ := readCStr_ok hrest
      exact ⟨_, congrArg (Except.map _) hr⟩

/-- **Reading back**: an array that a zero ends gives a string of its length only if it holds the
characters of it, none of them zero. -/
theorem readCStr_eq_iff : ∀ {buf : List UInt8} {l : List c.Unit}, buf.length = l.length * c.size →
    (readCStr c (l.length + 1) (buf ++ List.replicate c.size 0) = .ok l ↔ bytes l = buf ∧ 0 ∉ l)
  | buf, [], hlen => by
    obtain rfl : buf = [] := List.eq_nil_of_length_eq_zero (by rw [hlen, List.length_nil, Nat.zero_mul])
    rw [List.nil_append, List.length_nil, readCStr, List.take_of_length_le (by simp), if_pos ofBytes_zeros]
    simp [bytes]
  | buf, u :: l, hlen => by
    rw [List.length_cons, Nat.add_mul, Nat.one_mul] at hlen
    have htake : (buf.take c.size).length = c.size := by rw [List.length_take]; omega
    have hdrop : (buf.drop c.size).length = l.length * c.size := by rw [List.length_drop]; omega
    have ih := readCStr_eq_iff hdrop
    have hbuf : bytes (u :: l) = buf ↔
        (trivialRep c.size).ofBytes (buf.take c.size) = u ∧ bytes l = buf.drop c.size := by
      constructor
      · rintro rfl
        have hu := length_trivialRep_toBytes u
        rw [bytes_cons, List.take_left' hu, List.drop_left' hu]
        exact ⟨(trivialRep c.size).ofBytes_toBytes u, rfl⟩
      · rintro ⟨rfl, hl⟩
        rw [bytes_cons, toBytes_ofBytes htake, hl, List.take_append_drop]
    rw [List.length_cons, readCStr, List.take_append_of_le_length (by omega),
      List.drop_append_of_le_length (by omega), hbuf]
    by_cases hzero : (trivialRep c.size).ofBytes (buf.take c.size) = (0 : c.Unit)
    · rw [if_pos hzero, hzero]
      constructor
      · intro h
        cases h
      · rintro ⟨⟨rfl, -⟩, hnot⟩
        exact (hnot List.mem_cons_self).elim
    · rw [if_neg hzero]
      have hmap : (readCStr c (l.length + 1) (buf.drop c.size ++ List.replicate c.size 0)).map
          ((trivialRep c.size).ofBytes (buf.take c.size) :: ·) = .ok (u :: l) ↔
          readCStr c (l.length + 1) (buf.drop c.size ++ List.replicate c.size 0) = .ok l ∧
            (trivialRep c.size).ofBytes (buf.take c.size) = u := by
        cases readCStr c (l.length + 1) (buf.drop c.size ++ List.replicate c.size 0) with
        | error _ => simp [Except.map]
        | ok _ => simp [Except.map, and_comm]
      rw [hmap, ih]
      constructor
      · rintro ⟨⟨hl, hnot⟩, rfl⟩
        exact ⟨⟨rfl, hl⟩, fun hmem => (List.mem_cons.mp hmem).elim (fun h => hzero h.symm) hnot⟩
      · rintro ⟨⟨rfl, hl⟩, hnot⟩
        exact ⟨⟨hl, fun h => hnot (List.mem_cons_of_mem _ h)⟩, rfl⟩

/-! ## The pieces -/

/-- What the copies leave whole: characters of one byte; of wider ones no more than one, with nothing
but zeros above its first byte. And the string ends at its first zero. -/
def Survives (s : List c.Unit) : Prop :=
  0 ∉ s ∧ (c = .wchar → s.length ≤ 1 ∧ ∀ u ∈ s, u.toNat < 256)

theorem bytes_eq_copied_iff {s : List c.Unit} :
    bytes s = copied s ↔ (bytes s).drop s.length = List.replicate (s.length * c.size - s.length) 0 := by
  conv_lhs => rw [copied, ← List.take_append_drop s.length (bytes s)]
  rw [List.take_left' (by rw [List.length_take, length_bytes, Nat.min_eq_left
    (Nat.le_mul_of_pos_right _ c.size_pos)]), List.append_cancel_left_eq]

theorem toBytes_eq_zeros {u : c.Unit} :
    (trivialRep c.size).toBytes u = List.replicate c.size 0 ↔ u = 0 := by
  have hlt : u.toNat < 256 ^ c.size := by
    have hlt := u.isLt
    rwa [Nat.pow_mul] at hlt
  have hbytes : (trivialRep c.size).toBytes u = toLE c.size u.toNat := rfl
  rw [hbytes, toLE_eq_zeros hlt]
  exact BitVec.toNat_inj (y := 0#(8 * c.size))

theorem bytes_eq_copied_wchar_single {u : CharType.wchar.Unit} :
    bytes [u] = copied [u] ↔ u.toNat < 256 := by
  have hlt : u.toNat / 256 < 256 ^ 3 := Nat.div_lt_of_lt_mul u.isLt
  have hdrop : (bytes [u]).drop [u].length = toLE 3 (u.toNat / 256) := rfl
  rw [bytes_eq_copied_iff, hdrop]
  exact (toLE_eq_zeros hlt).trans ⟨by omega, by omega⟩

/-- The bytes of the last character lie behind the part that was copied. -/
theorem bytes_ne_copied_wchar {s : List CharType.wchar.Unit} {u : CharType.wchar.Unit} (hs : s ≠ [])
    (hu : u ≠ 0) : bytes (s ++ [u]) ≠ copied (s ++ [u]) := by
  have hpos : 0 < s.length := List.length_pos_iff.mpr hs
  have hlen : (bytes s).length = s.length * 4 := length_bytes s
  have hlast : (bytes (s ++ [u])).drop (s.length * 4) = (trivialRep CharType.wchar.size).toBytes u := by
    rw [bytes_append, List.drop_left' hlen]
    exact List.append_nil _
  intro h
  have hzeros := congrArg (List.drop (s.length * 3 - 1)) (bytes_eq_copied_iff.mp h)
  rw [List.drop_drop, List.drop_replicate, List.length_append, List.length_singleton,
    show s.length + 1 + (s.length * 3 - 1) = s.length * 4 from by omega, hlast,
    show (s.length + 1) * CharType.wchar.size - (s.length + 1) - (s.length * 3 - 1) = CharType.wchar.size
      from by simp only [CharType.size]; omega] at hzeros
  exact hu (toBytes_eq_zeros.mp hzeros)

theorem bytes_eq_copied {s : List c.Unit} : bytes s = copied s ∧ 0 ∉ s ↔ Survives s := by
  cases c with
  | char =>
    have hcopied : copied s = bytes s := by
      have hlen : (bytes s).length = s.length := by rw [length_bytes, CharType.size, Nat.mul_one]
      rw [copied, ← hlen, List.take_length, CharType.size, Nat.mul_one, Nat.sub_self,
        List.replicate_zero, List.append_nil]
    simp [Survives, hcopied]
  | wchar =>
    rw [Survives, and_comm, and_congr_right_iff]
    intro hzero
    induction s using List.reverseRecOn with
    | nil => simp [bytes, copied]
    | append_singleton s u _ =>
      have hu : u ≠ 0 := by
        rintro rfl
        exact hzero (by simp)
      rcases eq_or_ne s [] with rfl | hs
      · simp only [List.nil_append, bytes_eq_copied_wchar_single]
        simp
      · have hlen := List.length_pos_iff.mpr hs
        refine iff_of_false (bytes_ne_copied_wchar hs hu) fun h => ?_
        have hle := (h rfl).1
        rw [List.length_append, List.length_singleton] at hle
        omega

/-- Texts laid out piece by piece agree only if every piece does. -/
theorem flatMap_eq_iff {α β : Type} {f g : α → List β} (h : ∀ a, (f a).length = (g a).length) :
    ∀ l : List α, l.flatMap f = l.flatMap g ↔ ∀ a ∈ l, f a = g a
  | [] => by simp
  | a :: l => by
    rw [List.flatMap_cons, List.flatMap_cons, List.forall_mem_cons, ← flatMap_eq_iff h l]
    constructor
    · intro heq
      exact List.append_inj heq (h a)
    · rintro ⟨hhead, htail⟩
      rw [hhead, htail]

/-! ## What is returned -/

/-- The elements in order, the separator between each two neighbours. -/
def joined (stringList : List (BasicString c)) (sep : BasicString c) : List c.Unit :=
  sep.val.intercalate (stringList.map Sized.val)

theorem length_joined (sep : BasicString c) :
    ∀ l : List (BasicString c), (joined l sep).length = totalLength l sep
  | [] => by simp [joined, totalLength]
  | [s] => by simp [joined, totalLength]
  | s :: s' :: l => by
    have hcons : joined (s :: s' :: l) sep = s.val ++ (sep.val ++ joined (s' :: l) sep) := by
      simp [joined]
    rw [hcons, totalLength_cons, List.length_append, List.length_append, length_joined sep (s' :: l)]

theorem bytes_joined (l : List (BasicString c)) (sep : BasicString c) :
    bytes (joined l sep) = (pieces sep l).flatMap bytes := by
  rw [joined, List.intercalate, ← List.flatMap_id, bytes, List.flatMap_assoc]
  rfl

/-- The array is as long as the text and its zero. -/
def Fits (l : List (BasicString c)) (sep : BasicString c) : Prop :=
  (totalLength l sep + 1) * c.size ≤ 2 ^ 63 - 1

theorem stringJoin_eq {l : List (BasicString c)} {sep : BasicString c} (hl : l ≠ []) (hfits : Fits l sep) :
    stringJoin l sep =
      readCStr c (totalLength l sep + 1) ((pieces sep l).flatMap copied ++ List.replicate c.size 0) := by
  have hpos := c.size_pos
  have hlt : totalLength l sep < 2 ^ 64 := by
    have hle : totalLength l sep + 1 ≤ (totalLength l sep + 1) * c.size := Nat.le_mul_of_pos_right _ hpos
    rw [Fits] at hfits
    omega
  have hloop := @joinLoop_eq c sep l [] 0 c.size hl (Nat.zero_mul _).symm
  rw [List.nil_append, List.nil_append, ← Nat.succ_mul] at hloop
  rw [stringJoin, if_neg (mt List.length_eq_zero_iff.mp hl)]
  simp only [Nat.mod_eq_of_lt hlt, if_neg (Nat.not_lt.mpr hfits), hloop, bind, Except.bind]

theorem length_copied_pieces (l : List (BasicString c)) (sep : BasicString c) :
    ((pieces sep l).flatMap copied).length = totalLength l sep * c.size := by
  rw [← length_joined, ← length_bytes, bytes_joined, List.length_flatMap, List.length_flatMap]
  simp only [length_copied, length_bytes]

/-- **A text that fits** is returned, whatever becomes of its characters. -/
theorem stringJoin_ok {l : List (BasicString c)} {sep : BasicString c} (hfits : Fits l sep) :
    ∃ r, stringJoin l sep = .ok r := by
  rcases eq_or_ne l [] with rfl | hl
  · exact ⟨[], rfl⟩
  · rw [stringJoin_eq hl hfits]
    exact readCStr_ok (length_copied_pieces l sep)

/-- A text that does not fit is not returned: the array is refused, or its length has come round and it
is too short for the text. -/
theorem fits_of_stringJoin {l : List (BasicString c)} {sep : BasicString c} {r : List c.Unit} (hl : l ≠ [])
    (h : stringJoin l sep = .ok r) (hlen : totalLength l sep ≤ r.length) : Fits l sep := by
  rw [stringJoin, if_neg (mt List.length_eq_zero_iff.mp hl)] at h
  by_cases hbig : (totalLength l sep % 2 ^ 64 + 1) * c.size > 2 ^ 63 - 1
  · simp only [if_pos hbig] at h
    cases h
  · simp only [if_neg hbig] at h
    cases hloop : joinLoop sep l (List.replicate ((totalLength l sep % 2 ^ 64 + 1) * c.size) 0) 0 with
    | error _ =>
      rw [hloop] at h
      cases h
    | ok newStr =>
      rw [hloop] at h
      have hread : r.length < totalLength l sep % 2 ^ 64 + 1 := length_readCStr h
      have hmod : totalLength l sep % 2 ^ 64 = totalLength l sep :=
        Nat.le_antisymm (Nat.mod_le _ _) (by omega)
      rw [hmod] at hbig
      exact Nat.not_lt.mp hbig

/-- What `string_join` should return, for whatever it is given. -/
def Joins (l : List (BasicString c)) (sep : BasicString c) : Prop :=
  ∃ r, stringJoin l sep = .ok r ∧ r = joined l sep ∧
    r.length = (l.map (·.val.length)).sum + (l.length - 1) * sep.val.length

theorem joins_iff_stringJoin {l : List (BasicString c)} {sep : BasicString c} :
    Joins l sep ↔ stringJoin l sep = .ok (joined l sep) := by
  constructor
  · rintro ⟨r, hr, rfl, -⟩
    exact hr
  · intro h
    exact ⟨_, h, rfl, length_joined sep l⟩

/-- **`string_join` joins iff the text fits and its pieces survive the copying.** -/
theorem joins_iff (l : List (BasicString c)) (sep : BasicString c) :
    Joins l sep ↔ Fits l sep ∧ ∀ s ∈ pieces sep l, Survives s := by
  rw [joins_iff_stringJoin]
  rcases eq_or_ne l [] with rfl | hl
  · have hfits : Fits [] sep := by
      cases c <;> simp [Fits, totalLength, CharType.size]
    simp [stringJoin, joined, pieces, hfits]
  have hbuf : ((pieces sep l).flatMap copied).length = (joined l sep).length * c.size := by
    rw [length_copied_pieces, length_joined]
  have hwhole : bytes (joined l sep) = (pieces sep l).flatMap copied ∧ 0 ∉ joined l sep ↔
      ∀ s ∈ pieces sep l, Survives s := by
    have hzero : 0 ∉ joined l sep ↔ ∀ s ∈ pieces sep l, 0 ∉ s := by
      simp [joined, pieces, List.intercalate]
    rw [bytes_joined, flatMap_eq_iff (fun s => by rw [length_bytes, length_copied]), hzero,
      ← forall₂_and]
    simp only [bytes_eq_copied]
  rw [← hwhole, ← readCStr_eq_iff hbuf, length_joined]
  constructor
  · intro h
    have hfits := fits_of_stringJoin hl h (length_joined sep l).ge
    exact ⟨hfits, stringJoin_eq hl hfits ▸ h⟩
  · rintro ⟨hfits, h⟩
    rw [stringJoin_eq hl hfits, h]

/-- `string_join({L"ab"}, L"")` is `L"a"`: two of the eight bytes are copied. -/
theorem not_joins_wide : ¬ Joins (c := .wchar) [⟨[97, 98], by decide⟩] ⟨[], by decide⟩ := by
  rintro ⟨r, hr, rfl, -⟩
  have heval : stringJoin (c := .wchar) [⟨[97, 98], by decide⟩] ⟨[], by decide⟩ = .ok [97] := by decide
  rw [heval] at hr
  exact absurd hr (by decide)

end Thallium.Strings
