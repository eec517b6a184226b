import Thallium.Lib.Decimal
import Thallium.Strings.Split

/-!
# Hosts and ports as texts (network/network_utils.cpp:12-46)

| here | there |
| --- | --- |
| `CString`                       | a `const char *` that is not null: what stands before the zero |
| `isDigit`, .., `isLetter`       | `is_digit`, .., `is_letter` (common.hpp:305-311) |
| `validLabel`, `validHostname`   | the loop over the labels, `valid_hostname` (network_utils.cpp:12) |
| `validPort`, `portToInt`        | `valid_port` (:31), `port_to_int` (:33) |
| `IsLabel`, `IsHostname`, `IsPort` | not in the source: the grammar of a hostname, the texts of a port |

* `validHostname_iff` — `valid_hostname` accepts the grammar.
* `portToInt_eq_iff` — `port_to_int` gives the port its text denotes, and −1 for every other text.
-/
namespace Thallium.Network
open Strings Decimal

/-- A C string. -/
structure CString where
  chars : List Char
  noZero : '\x00' ∉ chars

def isDigit (c : Char) : Bool := c ≥ '0' && c ≤ '9'

def isLowercase (c : Char) : Bool := c ≥ 'a' && c ≤ 'z'

def isUppercase (c : Char) : Bool := c ≥ 'A' && c ≤ 'Z'

def isLetter (c : Char) : Bool := isLowercase c || isUppercase c

/-! ## Hostnames -/

/-- The body of the loop over the labels (network_utils.cpp:18-26). -/
def validLabel (label : List Char) : Bool :=
  if label.length = 0 || label.length > 63 then false
  else if label.any fun c => !(isDigit c || isLetter c || c == '-') then false
  else if label.head? == some '-' then false
  else true

/-- `valid_hostname` (network_utils.cpp:12). -/
def validHostname (hostname : Option CString) : Bool :=
  match hostname with
  | none => false
  | some hostname =>
    if hostname.chars.length > 255 then false
    else (stringSplit hostname.chars ['.']).all validLabel

/-- A label: letters, digits and hyphens, with no hyphen in front. -/
structure IsLabel (label : List Char) : Prop where
  pos : 1 ≤ label.length
  le : label.length ≤ 63
  chars : ∀ c ∈ label, c.isAlphanum = true ∨ c = '-'
  head : label.head? ≠ some '-'

/-- Labels with a dot between each two. -/
def IsHostname (s : List Char) : Prop :=
  s.length ≤ 255 ∧ ∃ labels, labels ≠ [] ∧ ['.'].intercalate labels = s ∧ ∀ label ∈ labels, IsLabel label

theorem isLetter_eq (c : Char) : isLetter c = c.isAlpha := by
  have hupper : isUppercase c = c.isUpper := (Bool.decide_and _ _).symm
  have hlower : isLowercase c = c.isLower := rfl
  rw [isLetter, Bool.or_comm, hupper, hlower]
  rfl

theorem labelChar_iff {c : Char} :
    (!(isDigit c || isLetter c || c == '-')) = false ↔ c.isAlphanum = true ∨ c = '-' := by
  rw [isLetter_eq, Char.isAlphanum, Bool.not_eq_false', Bool.or_eq_true, Bool.or_comm (isDigit c), beq_iff_eq]
  rfl

theorem validLabel_iff {label : List Char} : validLabel label = true ↔ IsLabel label := by
  rw [validLabel]
  split
  · rename_i hlength
    rw [Bool.or_eq_true, decide_eq_true_eq, decide_eq_true_eq] at hlength
    rw [iff_false_left Bool.false_ne_true]
    intro h
    have hpos := h.pos
    have hle := h.le
    omega
  · rename_i hlength
    rw [Bool.or_eq_true, decide_eq_true_eq, decide_eq_true_eq] at hlength
    split
    · rename_i hany
      obtain ⟨c, hc, hbad⟩ := List.any_eq_true.mp hany
      rw [iff_false_left Bool.false_ne_true]
      intro h
      rw [labelChar_iff.mpr (h.chars c hc)] at hbad
      cases hbad
    · rename_i hany
      rw [Bool.not_eq_true, List.any_eq_false] at hany
      have hchars : ∀ c ∈ label, c.isAlphanum = true ∨ c = '-' :=
        fun c hc => labelChar_iff.mp (Bool.not_eq_true _ ▸ hany c hc)
      split
      · rename_i hhead
        rw [iff_false_left Bool.false_ne_true]
        exact fun h => h.head (beq_iff_eq.mp hhead)
      · rename_i hhead
        exact ⟨fun _ => ⟨by omega, by omega, hchars, fun h => hhead (beq_iff_eq.mpr h)⟩, fun _ => rfl⟩

theorem IsLabel.noDot {label : List Char} (h : IsLabel label) : '.' ∉ label := by
  intro hdot
  rcases h.chars '.' hdot with hchar | hchar
  · revert hchar
    decide
  · revert hchar
    decide

/-- **`valid_hostname`** accepts the texts of at most 255 characters that are labels with dots between
them, and no other. -/
theorem validHostname_iff (h : CString) : validHostname (some h) = true ↔ IsHostname h.chars := by
  rw [validHostname]
  split
  · rename_i hlength
    rw [iff_false_left Bool.false_ne_true]
    exact fun h => Nat.not_le_of_gt hlength h.1
  · rename_i hlength
    rw [List.all_eq_true]
    constructor
    · intro hall
      obtain ⟨hne, hjoin, -⟩ := stringSplit_singleton_eq_iff.mp (rfl : stringSplit h.chars ['.'] = _)
      exact ⟨Nat.le_of_not_gt hlength, _, hne, hjoin, fun label hl => validLabel_iff.mp (hall label hl)⟩
    · rintro ⟨-, labels, hne, hjoin, hlabels⟩
      rw [stringSplit_singleton_eq_iff.mpr ⟨hne, hjoin, fun label hl => (hlabels label hl).noDot⟩]
      exact fun label hl => validLabel_iff.mpr (hlabels label hl)

/-! ## Ports -/

/-- `valid_port` (network_utils.cpp:31). -/
def validPort (port : Int) : Bool := port > 0 && port < 65536

/-- `port_to_int` (network_utils.cpp:33). -/
def portToInt (port : Option CString) : Int :=
  match port with
  | none => -1
  | some port =>
    if port.chars.any fun c => !isDigit c then -1
    else
      match stoi port.chars with
      | .error _ => -1
      | .ok p => if validPort p then p else -1

/-- The texts of port `n`: digits, and their value. -/
def IsPort (s : List Char) (n : Int) : Prop := IsDigits s ∧ n = value s ∧ 1 ≤ n ∧ n ≤ 65535

theorem isDigit_eq (c : Char) : isDigit c = c.isDigit := rfl

theorem validPort_iff {n : Int} : validPort n = true ↔ 1 ≤ n ∧ n ≤ 65535 := by
  simp only [validPort, Bool.and_eq_true, decide_eq_true_eq]
  omega

theorem loop_iff {port : CString} :
    (port.chars.any fun c => !isDigit c) = false ↔ ∀ c ∈ port.chars, c.isDigit = true := by
  simp only [List.any_eq_false, isDigit_eq, Bool.not_eq_true', Bool.not_eq_false]

theorem portToInt_of_isPort {port : CString} {n : Int} (h : IsPort port.chars n) :
    portToInt (some port) = n := by
  obtain ⟨hdigits, hn, hpos, hmax⟩ := h
  have hread : stoi port.chars = .ok n :=
    stoi_eq_ok_iff.mpr ⟨(leads_iff_of_isDigit hdigits.2).mpr ⟨hdigits.1, hn⟩, by omega, by omega⟩
  simp only [portToInt, loop_iff.mpr hdigits.2, hread, validPort_iff.mpr ⟨hpos, hmax⟩, if_true,
    Bool.false_eq_true, if_false]

theorem isPort_of_portToInt {port : CString} {n : Int} (h : portToInt (some port) = n) (hn : n ≠ -1) :
    IsPort port.chars n := by
  rw [portToInt] at h
  split at h
  · exact (hn h.symm).elim
  · rename_i hloop
    rw [Bool.not_eq_true, loop_iff] at hloop
    split at h
    · exact (hn h.symm).elim
    · rename_i p hread
      split at h
      · rename_i hvalid
        subst h
        obtain ⟨hne, hp⟩ := (leads_iff_of_isDigit hloop).mp (stoi_eq_ok_iff.mp hread).1
        exact ⟨⟨hne, hloop⟩, hp, validPort_iff.mp hvalid⟩
      · exact (hn h.symm).elim

/-- **`port_to_int`** gives the port that the text denotes, and −1 for all other texts. -/
theorem portToInt_eq_iff {port : CString} {n : Int} :
    portToInt (some port) = n ∧ n ≠ -1 ↔ IsPort port.chars n := by
  constructor
  · rintro ⟨h, hn⟩
    exact isPort_of_portToInt h hn
  · intro h
    refine ⟨portToInt_of_isPort h, ?_⟩
    have hpos := h.2.2.1
    omega

end Thallium.Network
