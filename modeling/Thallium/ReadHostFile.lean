import Mathlib.Data.List.Forall2
import Thallium.HostFile

/-!
# Reading a host file (coordinator.cpp:57-74)

A host file is read line by line. Blank lines are passed over, and the first line that is refused ends the reading.

| here | there |
| --- | --- |
| `getline`      | `getline(host_f, in_str)`; what is left of the file is its second component |
| `readLoop`, `readHostFile` | `read_host_file` (coordinator.cpp:57); no file is one that cannot be opened |
| `Lines`        | not in the source: the lines of a text |

* `readLoop_eq` — the loop reads the lines of the text, whichever text has these lines.
* `readHostFile_reads` — which files are read and as what, and which line a refusal is about.
-/
namespace Thallium
open Strings Decimal

/-! ## All or the first failure -/

section MapM
variable {α β ε : Type} {f : α → Except ε β}

theorem mapM_eq_ok_iff : ∀ {as : List α} {bs : List β},
    as.mapM f = .ok bs ↔ List.Forall₂ (fun a b => f a = .ok b) as bs
  | [], bs => by
    rw [List.forall₂_nil_left_iff]
    constructor
    · intro h
      exact (Except.ok.inj h).symm
    · rintro rfl
      rfl
  | a :: as, bs => by
    rw [List.mapM_cons, List.forall₂_cons_left_iff]
    cases ha : f a with
    | error e =>
      refine iff_of_false nofun ?_
      rintro ⟨b, -, hb, -⟩
      cases hb
    | ok b =>
      cases has : as.mapM f with
      | error e =>
        refine iff_of_false nofun ?_
        rintro ⟨-, bs', -, hrest, -⟩
        rw [mapM_eq_ok_iff.mpr hrest] at has
        cases has
      | ok bs' =>
        constructor
        · intro h
          exact ⟨b, bs', rfl, mapM_eq_ok_iff.mp has, (Except.ok.inj h).symm⟩
        · rintro ⟨b', bs'', hb, hrest, rfl⟩
          obtain rfl := Except.ok.inj hb
          obtain rfl := Except.ok.inj (has.symm.trans (mapM_eq_ok_iff.mpr hrest))
          rfl

/-- It fails as the first element does that fails. -/
theorem mapM_error {a : α} {before after : List α} {e : ε} (hbefore : ∀ x ∈ before, ∃ b, f x = .ok b)
    (ha : f a = .error e) : (before ++ a :: after).mapM f = .error e := by
  induction before with
  | nil =>
    rw [List.nil_append, List.mapM_cons, ha]
    rfl
  | cons x before ih =>
    obtain ⟨b, hb⟩ := hbefore x List.mem_cons_self
    rw [List.cons_append, List.mapM_cons, hb, ih fun y hy => hbefore y (List.mem_cons_of_mem x hy)]
    rfl

end MapM

/-! ## The loop -/

/-- `getline` fails at the end of the file. -/
def getline (s : List Char) : Option (String × List Char) :=
  if s = [] then none
  else some (String.ofList (s.takeWhile (· ≠ '\n')), (s.dropWhile (· ≠ '\n')).drop 1)

theorem getline_length {s rest : List Char} {line : String} (h : getline s = some (line, rest)) :
    rest.length < s.length := by
  unfold getline at h
  split at h
  · cases h
  · rename_i hne
    obtain ⟨-, rfl⟩ := Prod.mk.inj (Option.some.inj h)
    have hle : (s.dropWhile (· ≠ '\n')).length ≤ s.length := (List.dropWhile_sublist _).length_le
    have hpos := List.length_pos_of_ne_nil hne
    rw [List.length_drop]
    omega

/-- The loop of `read_host_file` (coordinator.cpp:64-67). `uninit line` is what `parse_host_file_entry` finds in its
uninitialized variable for that line. -/
def readLoop (uninit : String → Int) (s : List Char) (hosts : List HostFileEntry) :
    Except Exception (List HostFileEntry) :=
  match h : getline s with
  | none => .ok hosts
  | some (line, rest) =>
    have := getline_length h
    if (stringTrim line.toList).length = 0 then readLoop uninit rest hosts
    else
      match parseHostFileEntry (uninit line) line with
      | .ok e => readLoop uninit rest (hosts ++ [e])
      | .error e => .error e
termination_by s.length

/-- `read_host_file` (coordinator.cpp:57). -/
def readHostFile (uninit : String → Int) (file : Option (List Char)) : Except Exception (List HostFileEntry) :=
  match readLoop uninit (file.getD []) [] with
  | .error e => .error e
  | .ok hosts => if hosts.length = 0 then .error (.badUserInput "Invalid hostfile") else .ok hosts

/-! ## The lines of a text -/

/-- Each line is ended by a newline; the last one may not be, unless it is empty. -/
inductive Lines : List Char → List String → Prop
  | nil : Lines [] []
  | last {line : String} (hne : line.toList ≠ []) (hfree : '\n' ∉ line.toList) : Lines line.toList [line]
  | cons {line : String} {s : List Char} {lines : List String} (hfree : '\n' ∉ line.toList)
      (rest : Lines s lines) : Lines (line.toList ++ '\n' :: s) (line :: lines)

/-- The lines that are not passed over. -/
def nonBlank (lines : List String) : List String :=
  lines.filter fun line => decide (trim defaultCutset line.toList ≠ [])

theorem takeWhile_line {line s : List Char} (hfree : '\n' ∉ line) :
    (line ++ '\n' :: s).takeWhile (· ≠ '\n') = line ∧ (line ++ '\n' :: s).dropWhile (· ≠ '\n') = '\n' :: s := by
  have hall : ∀ c ∈ line, decide (c ≠ '\n') = true := fun c hc => decide_eq_true fun heq => hfree (heq ▸ hc)
  rw [List.takeWhile_append_of_pos hall, List.dropWhile_append_of_pos hall]
  simp

theorem takeWhile_lastLine {line : List Char} (hfree : '\n' ∉ line) :
    line.takeWhile (· ≠ '\n') = line ∧ line.dropWhile (· ≠ '\n') = [] := by
  have hall : ∀ c ∈ line, decide (c ≠ '\n') = true := fun c hc => decide_eq_true fun heq => hfree (heq ▸ hc)
  exact ⟨List.takeWhile_eq_self_iff.mpr hall, List.dropWhile_eq_nil_iff.mpr hall⟩

/-- Every text has lines. -/
theorem exists_lines (s : List Char) : ∃ lines, Lines s lines := by
  induction hn : s.length using Nat.strongRecOn generalizing s with
  | ind n ih =>
    by_cases hmem : '\n' ∈ s
    · obtain ⟨line, rest, rfl, hfree⟩ := List.eq_append_cons_of_mem hmem
      have hlt : rest.length < n := by
        rw [← hn, List.length_append, List.length_cons]
        omega
      obtain ⟨lines, hlines⟩ := ih _ hlt rest rfl
      have hcons := @Lines.cons (String.ofList line) rest lines (by rwa [String.toList_ofList]) hlines
      rw [String.toList_ofList] at hcons
      exact ⟨_, hcons⟩
    · by_cases hempty : s = []
      · exact ⟨[], hempty ▸ .nil⟩
      · have hlast := @Lines.last (String.ofList s) (by rwa [String.toList_ofList]) (by rwa [String.toList_ofList])
        rw [String.toList_ofList] at hlast
        exact ⟨_, hlast⟩

/-- The next line. -/
theorem getline_lines {s : List Char} {lines : List String} (h : Lines s lines) :
    (lines = [] ∧ getline s = none) ∨
      ∃ line lines' rest, lines = line :: lines' ∧ getline s = some (line, rest) ∧ Lines rest lines' := by
  cases h with
  | nil => exact .inl ⟨rfl, rfl⟩
  | @last line hne hfree =>
    refine .inr ⟨line, [], [], rfl, ?_, .nil⟩
    obtain ⟨htake, hdrop⟩ := takeWhile_lastLine hfree
    rw [getline, if_neg hne, htake, hdrop, String.ofList_toList]
    rfl
  | @cons line s lines hfree hrest =>
    refine .inr ⟨line, lines, s, rfl, ?_, hrest⟩
    obtain ⟨htake, hdrop⟩ := takeWhile_line (s := s) hfree
    rw [getline, if_neg (by simp), htake, hdrop, String.ofList_toList]
    rfl

section Read
variable {uninit : String → Int} {s : List Char} {lines : List String}

/-- What each line that is not blank is read as. -/
def parsed (uninit : String → Int) (lines : List String) : Except Exception (List HostFileEntry) :=
  (nonBlank lines).mapM fun line => parseHostFileEntry (uninit line) line

/-- **The loop** reads the lines, whatever is behind them. -/
theorem readLoop_eq (h : Lines s lines) (hosts : List HostFileEntry) :
    readLoop uninit s hosts = (parsed uninit lines).map (hosts ++ ·) := by
  induction lines generalizing s hosts with
  | nil =>
    rcases getline_lines h with ⟨-, hend⟩ | ⟨line, lines', rest, hnil, -⟩
    · rw [readLoop]
      split
      · show Except.ok hosts = .ok (hosts ++ [])
        rw [List.append_nil]
      · rename_i hsome
        rw [hend] at hsome
        cases hsome
    · cases hnil
  | cons line lines ih =>
    rcases getline_lines h with ⟨hnil, -⟩ | ⟨line', lines', rest, hcons, hline, hrest⟩
    · cases hnil
    obtain ⟨rfl, rfl⟩ := List.cons.inj hcons
    rw [readLoop]
    split
    · rename_i hnone
      rw [hline] at hnone
      cases hnone
    · rename_i hsome
      rw [hline] at hsome
      obtain ⟨rfl, rfl⟩ := Prod.mk.inj (Option.some.inj hsome)
      rw [stringTrim, stringTrimModified_eq]
      by_cases hblank : trim defaultCutset line.toList = []
      · rw [if_pos (List.length_eq_zero_iff.mpr hblank), ih hrest]
        simp [parsed, nonBlank, hblank]
      · have hparsed : parsed uninit (line :: lines) = (do
            let e ← parseHostFileEntry (uninit line) line
            let es ← parsed uninit lines
            pure (e :: es)) := by
          simp [parsed, nonBlank, hblank, List.mapM_cons]
        rw [if_neg (fun hlength => hblank (List.length_eq_zero_iff.mp hlength)), hparsed]
        cases parseHostFileEntry (uninit line) line with
        | error e => rfl
        | ok e =>
          simp only [ih hrest]
          cases parsed uninit lines with
          | error e' => rfl
          | ok es =>
            show Except.ok (hosts ++ [e] ++ es) = .ok (hosts ++ e :: es)
            rw [List.append_assoc, List.singleton_append]

theorem readHostFile_eq (h : Lines s lines) : readHostFile uninit (some s) =
    match parsed uninit lines with
    | .error e => .error e
    | .ok hosts => if hosts = [] then .error (.badUserInput "Invalid hostfile") else .ok hosts := by
  rw [readHostFile, Option.getD_some, readLoop_eq h]
  cases parsed uninit lines with
  | error e => rfl
  | ok hosts => simp [Except.map]

end Read

/-- **What a host file is read as.** Of a text with the lines `lines`, the lines that are not blank are read one by
one, as what each of them says, and nothing is left out; a text in which there is none is refused, and so is one with
a line that says nothing, by what is wrong with the first such line. A file that cannot be opened is refused. -/
theorem readHostFile_reads (uninit : String → Int) {s : List Char} {lines : List String} (h : Lines s lines) :
    (∀ hosts, readHostFile uninit (some s) = .ok hosts ↔
      hosts ≠ [] ∧ List.Forall₂ (Entry Leads) (nonBlank lines) hosts) ∧
    (nonBlank lines = [] → readHostFile uninit (some s) = .error (.badUserInput "Invalid hostfile")) ∧
    (∀ before line after, nonBlank lines = before ++ line :: after → (∀ l ∈ before, ∃ e, Entry Leads l e) →
      (∀ e, ¬ Entry Leads line e) → ∃ what, parseHostFileEntry (uninit line) line = .error (.badUserInput what) ∧
        readHostFile uninit (some s) = .error (.badUserInput what)) ∧
    readHostFile uninit none = .error (.badUserInput "Invalid hostfile") := by
  refine ⟨fun hosts => ?_, fun hblank => ?_, fun before line after hlines hbefore hline => ?_, ?_⟩
  · have hiff : ∀ hosts, parsed uninit lines = .ok hosts ↔ List.Forall₂ (Entry Leads) (nonBlank lines) hosts := by
      intro hosts
      rw [parsed, mapM_eq_ok_iff]
      simp only [parseHostFileEntry_eq_ok_iff]
    rw [readHostFile_eq h, ← hiff]
    cases parsed uninit lines with
    | error e => simp
    | ok hosts' =>
      by_cases hempty : hosts' = []
      · subst hempty
        simp only [if_true]
        refine iff_of_false nofun ?_
        rintro ⟨hne, hok⟩
        exact hne (Except.ok.inj hok).symm
      · simp only [if_neg hempty]
        constructor
        · intro hok
          exact ⟨Except.ok.inj hok ▸ hempty, hok⟩
        · exact fun hok => hok.2
  · rw [readHostFile_eq h, parsed, hblank]
    rfl
  · obtain ⟨what, hwhat⟩ := parseHostFileEntry_refuses fun e hok => hline e (parseHostFileEntry_eq_ok_iff.mp hok)
    refine ⟨what, hwhat, ?_⟩
    have herror : parsed uninit lines = .error (.badUserInput what) := by
      rw [parsed, hlines]
      refine mapM_error (fun l hl => ?_) hwhat
      obtain ⟨e, he⟩ := hbefore l hl
      exact ⟨e, parseHostFileEntry_eq_ok_iff.mpr he⟩
    rw [readHostFile_eq h, herror]
  · rw [readHostFile, Option.getD_none, readLoop_eq .nil]
    rfl

/-- Two hosts, a blank line between them, and no newline at the end. -/
theorem readHostFile_reads_two : readHostFile (fun _ => 0) (some "a:2\n \nb".toList) =
    .ok [⟨"a", 2⟩, ⟨"b", 1⟩] := by
  have hlast : Lines "b".toList ["b"] := .last (by decide) (by decide)
  have hblank : Lines (" ".toList ++ '\n' :: "b".toList) [" ", "b"] := .cons (by decide) hlast
  have hlines : Lines ("a:2".toList ++ '\n' :: (" ".toList ++ '\n' :: "b".toList)) ["a:2", " ", "b"] :=
    .cons (by decide) hblank
  have hnonBlank : nonBlank ["a:2", " ", "b"] = ["a:2", "b"] := by decide
  refine ((readHostFile_reads (fun _ => 0) hlines).1 _).mpr ⟨by decide, ?_⟩
  rw [hnonBlank]
  have htwo : TwoFields "a:2" "a".toList "2".toList := ⟨by decide, by decide, by decide⟩
  have hone : OneField "b" := by
    unfold OneField
    decide
  have htrim : trim defaultCutset "2".toList = "2".toList := by decide
  have hentry : Entry Leads "a:2" ⟨"a", 2⟩ := by
    rw [entry_twoFields htwo, htrim]
    exact ⟨by decide, by decide, strtol_eq_some_iff.mp (by decide), by decide, by decide⟩
  have hentry' : Entry Leads "b" ⟨"b", 1⟩ := by
    rw [entry_oneField hone]
    exact ⟨by decide, by decide, rfl⟩
  exact .cons hentry (.cons hentry' .nil)

end Thallium
