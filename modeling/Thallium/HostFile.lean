import Thallium.Common
import Thallium.Lib.Decimal
import Thallium.Strings.Split

/-!
# The host file (coordinator.cpp:18-55)

A line names a host and, behind a colon, how many processes it takes.

| here | there |
| --- | --- |
| `HostFileEntry`        | `host_file_entry` (coordinator.hpp:25) |
| `parseHostFileEntry`   | `parse_host_file_entry` (coordinator.cpp:18) |
| `Entry`                | not in the source: the lines that are well formed, and what they say |
| `StopsShort`           | not in the source: lines with a count that `stoi` reads only a part of |

* `parseHostFileEntry_cases` — the three shapes of a line, and what becomes of each.
* `parsesRight_iff` — well-formed lines are read and all others refused, **iff** the line does not `StopsShort`.
-/
namespace Thallium
open Strings Decimal

structure HostFileEntry where
  hostname : String
  processNum : Int
  deriving DecidableEq, Repr

/-- `parse_host_file_entry` (coordinator.cpp:18). `uninit` is what happens to lie in `process_num` when
`stoi` has thrown and `:37` reads it. -/
def parseHostFileEntry (uninit : Int) (line : String) : Except Exception HostFileEntry := do
  let splited := stringSplit line.toList [':']
  let processNum ←
    match splited with
    | [] => throw (.badUserInput "line is emtpy! Should not reach here.")
    | [_, count] =>
      let (valid, processNum) :=
        match stoi (stringTrim count) with
        | .ok n => (true, n)
        | .error .invalidArgument => (false, uninit)
        | .error .outOfRange => (false, uninit)
      let valid := if processNum ≤ 0 then false else valid
      if !valid then throw (.badUserInput (← format "Invalid process number: \x7b\x7d" [line]))
      else pure processNum
    | [_] => pure 1
    | _ => throw (.badUserInput (← format "Invalid format: \x7b\x7d" [line]))
  let hostname := stringTrim (splited.headD [])
  if hostname.length = 0 then throw (.badUserInput (← format "Invalid hostname: \x7b\x7d" [line]))
  return ⟨String.ofList hostname, processNum⟩

/-! ## The lines -/

/-- One field. -/
def OneField (line : String) : Prop := ':' ∉ line.toList

/-- Two fields, and the colon between them. -/
def TwoFields (line : String) (host count : List Char) : Prop :=
  line.toList = host ++ ':' :: count ∧ ':' ∉ host ∧ ':' ∉ count

/-- The line says `e`: a host, and a count of processes in the sense of `Count`. -/
def Entry (Count : List Char → Int → Prop) (line : String) (e : HostFileEntry) : Prop :=
  e.hostname.toList ≠ [] ∧
    (OneField line ∧ e.hostname.toList = trim defaultCutset line.toList ∧ e.processNum = 1 ∨
      ∃ host count, TwoFields line host count ∧ e.hostname.toList = trim defaultCutset host ∧
        Count (trim defaultCutset count) e.processNum ∧ 1 ≤ e.processNum ∧ e.processNum ≤ 2 ^ 31 - 1)

/-- The count starts with a number that would do, but is not that number. -/
def StopsShort (line : String) : Prop :=
  ∃ host count n, TwoFields line host count ∧ trim defaultCutset host ≠ [] ∧
    Leads (trim defaultCutset count) n ∧ 1 ≤ n ∧ n ≤ 2 ^ 31 - 1 ∧ ¬ Numeral (trim defaultCutset count) n

section Lines
variable {line : String} {host count : List Char}

theorem stringSplit_oneField : stringSplit line.toList [':'] = [line.toList] ↔ OneField line := by
  rw [stringSplit_singleton_eq_iff, OneField, List.intercalate_singleton, List.forall_mem_singleton]
  simp only [ne_eq, List.cons_ne_nil, not_false_eq_true, true_and]

theorem stringSplit_twoFields : stringSplit line.toList [':'] = [host, count] ↔ TwoFields line host count := by
  rw [stringSplit_singleton_eq_iff, TwoFields, List.intercalate_cons_cons, List.intercalate_singleton,
    List.append_assoc, List.singleton_append, List.forall_mem_cons, List.forall_mem_singleton,
    @eq_comm _ line.toList]
  simp only [ne_eq, List.cons_ne_nil, not_false_eq_true, true_and]

/-- A line has one field, two, or more. -/
theorem fields_cases (line : String) :
    OneField line ∨ (∃ host count, TwoFields line host count) ∨
      ∃ f f' f'' fs, stringSplit line.toList [':'] = f :: f' :: f'' :: fs := by
  cases hfields : stringSplit line.toList [':'] with
  | nil => exact (stringSplit_ne_nil _ _ hfields).elim
  | cons f fs =>
    cases fs with
    | nil =>
      have hline := (stringSplit_singleton_eq_iff.mp hfields).2.1
      rw [List.intercalate_singleton] at hline
      rw [hline] at hfields
      exact .inl (stringSplit_oneField.mp hfields)
    | cons f' fs =>
      cases fs with
      | nil => exact .inr (.inl ⟨f, f', stringSplit_twoFields.mp hfields⟩)
      | cons f'' fs => exact .inr (.inr ⟨f, f', f'', fs, rfl⟩)

theorem not_oneField (h : TwoFields line host count) : ¬ OneField line := by
  rw [OneField, h.1]
  simp

theorem twoFields_unique {host' count' : List Char} (h : TwoFields line host count)
    (h' : TwoFields line host' count') : host' = host ∧ count' = count := by
  have hsame := (stringSplit_twoFields.mpr h').symm.trans (stringSplit_twoFields.mpr h)
  simpa using hsame

variable {Count : List Char → Int → Prop} {e : HostFileEntry}

theorem entry_oneField (h : OneField line) :
    Entry Count line e ↔ e.hostname.toList ≠ [] ∧ e.hostname.toList = trim defaultCutset line.toList ∧
      e.processNum = 1 := by
  constructor
  · rintro ⟨hne, ⟨-, hentry⟩ | ⟨host, count, htwo, -⟩⟩
    · exact ⟨hne, hentry⟩
    · exact (not_oneField htwo h).elim
  · rintro ⟨hne, hentry⟩
    exact ⟨hne, .inl ⟨h, hentry⟩⟩

theorem entry_twoFields (h : TwoFields line host count) :
    Entry Count line e ↔ e.hostname.toList ≠ [] ∧ e.hostname.toList = trim defaultCutset host ∧
      Count (trim defaultCutset count) e.processNum ∧ 1 ≤ e.processNum ∧ e.processNum ≤ 2 ^ 31 - 1 := by
  constructor
  · rintro ⟨hne, ⟨hone, -⟩ | ⟨host', count', htwo, hentry⟩⟩
    · exact (not_oneField h hone).elim
    · obtain ⟨rfl, rfl⟩ := twoFields_unique h htwo
      exact ⟨hne, hentry⟩
  · rintro ⟨hne, hentry⟩
    exact ⟨hne, .inr ⟨host, count, h, hentry⟩⟩

theorem not_entry_moreFields {f f' f'' : List Char} {fs : List (List Char)}
    (h : stringSplit line.toList [':'] = f :: f' :: f'' :: fs) : ¬ Entry Count line e := by
  rintro ⟨-, ⟨hone, -⟩ | ⟨host, count, htwo, -⟩⟩
  · rw [stringSplit_oneField.mpr hone] at h
    simp at h
  · rw [stringSplit_twoFields.mpr htwo] at h
    simp at h

end Lines

/-! ## What becomes of a line -/

section Parse
variable {uninit : Int} {line : String} {host count : List Char}

/-- The last step: the host's name. -/
def named (line : String) (host : List Char) (processNum : Int) : Except Exception HostFileEntry :=
  if trim defaultCutset host = [] then .error (.badUserInput ("Invalid hostname: " ++ line))
  else .ok ⟨String.ofList (trim defaultCutset host), processNum⟩

theorem named_eq_ok_iff {n : Int} {e : HostFileEntry} :
    named line host n = .ok e ↔ e.hostname.toList ≠ [] ∧ e.hostname.toList = trim defaultCutset host ∧
      e.processNum = n := by
  rw [named]
  split
  · rename_i hnone
    refine iff_of_false nofun ?_
    rintro ⟨hne, hhost, -⟩
    exact hne (hhost.trans hnone)
  · rename_i hsome
    constructor
    · intro h
      obtain rfl := Except.ok.inj h
      rw [String.toList_ofList]
      exact ⟨hsome, rfl, rfl⟩
    · rintro ⟨-, hhost, rfl⟩
      rw [← hhost, String.ofList_toList]

theorem named_refuses {n : Int} (h : ∀ e, named line host n ≠ .ok e) :
    ∃ what, named line host n = .error (.badUserInput what) := by
  rw [named] at h ⊢
  split
  · exact ⟨_, rfl⟩
  · rename_i hsome
    rw [if_neg hsome] at h
    exact (h _ rfl).elim

theorem format_hostname (line : String) :
    format "Invalid hostname: \x7b\x7d" [line] = .ok ("Invalid hostname: " ++ line) :=
  format_text_position "Invalid hostname: " line (by decide) (by decide)

theorem format_processNum (line : String) :
    format "Invalid process number: \x7b\x7d" [line] = .ok ("Invalid process number: " ++ line) :=
  format_text_position "Invalid process number: " line (by decide) (by decide)

theorem format_fields (line : String) :
    format "Invalid format: \x7b\x7d" [line] = .ok ("Invalid format: " ++ line) :=
  format_text_position "Invalid format: " line (by decide) (by decide)

theorem parseHostFileEntry_oneField (h : OneField line) :
    parseHostFileEntry uninit line = named line line.toList 1 := by
  simp only [parseHostFileEntry, stringSplit_oneField.mpr h, stringTrim, stringTrimModified_eq, named,
    format_hostname, List.headD_cons, List.length_eq_zero_iff]
  by_cases hhost : trim defaultCutset line.toList = []
  · simp only [if_pos hhost]
    rfl
  · simp only [if_neg hhost]
    rfl

theorem parseHostFileEntry_twoFields (h : TwoFields line host count) :
    parseHostFileEntry uninit line =
      match stoi (trim defaultCutset count) with
      | .ok n => if 0 < n then named line host n else .error (.badUserInput ("Invalid process number: " ++ line))
      | .error _ => .error (.badUserInput ("Invalid process number: " ++ line)) := by
  simp only [parseHostFileEntry, stringSplit_twoFields.mpr h, stringTrim, stringTrimModified_eq, named,
    format_hostname, format_processNum, List.headD_cons, List.length_eq_zero_iff]
  cases hread : stoi (trim defaultCutset count) with
  | error e =>
    -- `valid` is false already, whatever `process_num` holds
    cases e <;> by_cases hle : uninit ≤ 0 <;> simp only [hle, if_true, if_false] <;> rfl
  | ok n =>
    by_cases hpos : 0 < n
    · have hle : ¬ n ≤ 0 := by omega
      by_cases hhost : trim defaultCutset host = []
      · simp only [hle, hpos, hhost, if_true, if_false]
        rfl
      · simp only [hle, hpos, hhost, if_true, if_false]
        rfl
    · have hle : n ≤ 0 := by omega
      simp only [hle, hpos, if_true, if_false]
      rfl

theorem parseHostFileEntry_moreFields {f f' f'' : List Char} {fs : List (List Char)}
    (h : stringSplit line.toList [':'] = f :: f' :: f'' :: fs) :
    parseHostFileEntry uninit line = .error (.badUserInput ("Invalid format: " ++ line)) := by
  simp only [parseHostFileEntry, h, format_fields]
  rfl

/-- What a line is read as. -/
theorem parseHostFileEntry_eq_ok_iff {e : HostFileEntry} :
    parseHostFileEntry uninit line = .ok e ↔ Entry Leads line e := by
  rcases fields_cases line with hone | ⟨host, count, htwo⟩ | ⟨f, f', f'', fs, hmore⟩
  · rw [parseHostFileEntry_oneField hone, named_eq_ok_iff, entry_oneField hone]
  · rw [parseHostFileEntry_twoFields htwo, entry_twoFields htwo]
    cases hread : stoi (trim defaultCutset count) with
    | error e' =>
      refine iff_of_false nofun ?_
      rintro ⟨-, -, hleads, hpos, hmax⟩
      rw [stoi_eq_ok_iff.mpr ⟨hleads, by omega, by omega⟩] at hread
      cases hread
    | ok n =>
      obtain ⟨hleads, -, hmax⟩ := stoi_eq_ok_iff.mp hread
      by_cases hpos : 0 < n
      · simp only [if_pos hpos, named_eq_ok_iff]
        constructor
        · rintro ⟨hne, hhost, rfl⟩
          exact ⟨hne, hhost, hleads, by omega, by omega⟩
        · rintro ⟨hne, hhost, hleads', -⟩
          exact ⟨hne, hhost, hleads'.unique hleads⟩
      · simp only [if_neg hpos]
        refine iff_of_false nofun ?_
        rintro ⟨-, -, hleads', hpos', -⟩
        rw [hleads'.unique hleads] at hpos'
        omega
  · rw [parseHostFileEntry_moreFields hmore]
    exact iff_of_false nofun (not_entry_moreFields hmore)

/-- A line that is not read is refused as bad input. -/
theorem parseHostFileEntry_refuses (h : ∀ e, parseHostFileEntry uninit line ≠ .ok e) :
    ∃ what, parseHostFileEntry uninit line = .error (.badUserInput what) := by
  rcases fields_cases line with hone | ⟨host, count, htwo⟩ | ⟨f, f', f'', fs, hmore⟩
  · rw [parseHostFileEntry_oneField hone] at h ⊢
    exact named_refuses h
  · rw [parseHostFileEntry_twoFields htwo] at h ⊢
    cases hread : stoi (trim defaultCutset count) with
    | error e' => exact ⟨_, rfl⟩
    | ok n =>
      by_cases hpos : 0 < n
      · simp only [hread, if_pos hpos] at h ⊢
        exact named_refuses h
      · simp only [if_neg hpos]
        exact ⟨_, rfl⟩
  · exact ⟨_, parseHostFileEntry_moreFields hmore⟩

end Parse

/-! ## Well-formed lines -/

/-- Well-formed lines are read as what they say, every other line is refused. -/
def ParsesRight (uninit : Int) (line : String) : Prop :=
  (∀ e, parseHostFileEntry uninit line = .ok e ↔ Entry Numeral line e) ∧
    ((∀ e, ¬ Entry Numeral line e) → ∃ what, parseHostFileEntry uninit line = .error (.badUserInput what))

/-- **A line is parsed right iff its count is not cut short.** -/
theorem parsesRight_iff (uninit : Int) (line : String) : ParsesRight uninit line ↔ ¬ StopsShort line := by
  have hsub : ∀ e, Entry Numeral line e → Entry Leads line e := by
    rintro e ⟨hne, hone | ⟨host, count, htwo, hhost, hnumeral, hrange⟩⟩
    · exact ⟨hne, .inl hone⟩
    · exact ⟨hne, .inr ⟨host, count, htwo, hhost, hnumeral.leads, hrange⟩⟩
  constructor
  · -- a line that stops short is read, and is not well formed
    rintro ⟨hread, -⟩ ⟨host, count, n, htwo, hhost, hleads, hpos, hmax, hnot⟩
    have hentry : Entry Leads line ⟨String.ofList (trim defaultCutset host), n⟩ := by
      rw [entry_twoFields htwo, String.toList_ofList]
      exact ⟨hhost, rfl, hleads, hpos, hmax⟩
    have hwell := (hread _).mp (parseHostFileEntry_eq_ok_iff.mpr hentry)
    rw [entry_twoFields htwo] at hwell
    exact hnot hwell.2.2.1
  · intro hshort
    have hsame : ∀ e, Entry Leads line e ↔ Entry Numeral line e := by
      refine fun e => ⟨?_, hsub e⟩
      rintro ⟨hne, hone | ⟨host, count, htwo, hhost, hleads, hpos, hmax⟩⟩
      · exact ⟨hne, .inl hone⟩
      · have hnumeral : Numeral (trim defaultCutset count) e.processNum := by
          by_contra hnot
          exact hshort ⟨host, count, _, htwo, hhost ▸ hne, hleads, hpos, hmax, hnot⟩
        exact ⟨hne, .inr ⟨host, count, htwo, hhost, hnumeral, hpos, hmax⟩⟩
    refine ⟨fun e => parseHostFileEntry_eq_ok_iff.trans (hsame e), fun hnone => ?_⟩
    refine parseHostFileEntry_refuses fun e h => hnone e ?_
    exact (hsame e).mp (parseHostFileEntry_eq_ok_iff.mp h)

/-- `host:4abc` is read as four processes on `host`. -/
theorem not_parsesRight_trailing : ¬ ParsesRight 0 "host:4abc" := by
  have htwo : TwoFields "host:4abc" "host".toList "4abc".toList := ⟨by decide, by decide, by decide⟩
  have htrim : trim defaultCutset "4abc".toList = "4abc".toList := by decide
  have hentry : Entry Leads "host:4abc" ⟨"host", 4⟩ := by
    rw [entry_twoFields htwo, htrim]
    exact ⟨by decide, by decide, strtol_eq_some_iff.mp (by decide), by decide, by decide⟩
  rintro ⟨hread, -⟩
  have hwell := (hread ⟨"host", 4⟩).mp (parseHostFileEntry_eq_ok_iff.mpr hentry)
  rw [entry_twoFields htwo, htrim] at hwell
  have hdigit : 'a'.isDigit = true := hwell.2.2.1.isDigit_of_mem_tail (by decide)
  exact absurd hdigit (by decide)

end Thallium
