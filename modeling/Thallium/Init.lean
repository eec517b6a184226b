import Thallium.Common
import Thallium.Network.Utils

/-!
# Starting up (thallium.cpp:101-134)

The coordinator's host and port come from the environment. What is wrong with them is printed, and the
process exits. The port is read off the host's text (thallium.cpp:130).

| here | there |
| --- | --- |
| `Context`             | `Context` (context.hpp:12) |
| `Exit`                | what ends the call instead of a return |
| `stderrAndQuit`       | `stderr_and_quit` (thallium.cpp:101, :106) |
| `thalliumInit`        | `thallium_init` (thallium.cpp:111) |

* `thalliumInit_eq_ok_iff` — what is taken for the port.
* `initRight_iff` — host and port are both taken as given **iff** their texts denote the same port, or none does.
-/
namespace Thallium
open Network Strings

/-- `ENVNAME_COORD_HOST` (context.cpp:6). -/
def envnameCoordHost : String := "THALLIUM_COORD_HOST"

/-- `ENVNAME_COORD_PORT` (context.cpp:7). -/
def envnameCoordPort : String := "THALLIUM_COORD_PORT"

structure Context where
  coordinatorHost : CString
  coordinatorPort : Int

/-- The message that is printed before `exit(-1)`, or a thrown exception. -/
inductive Exit where
  | quit (msg : String)
  | thrown (e : Exception)
  deriving DecidableEq, Repr

def stderrAndQuit {α : Type} (msg : Except Exception String) : Except Exit α :=
  match msg with
  | .ok msg => .error (.quit msg)
  | .error e => .error (.thrown e)

/-- `thallium_init` (thallium.cpp:111) with what `getenv` finds for the two names. -/
def thalliumInit (envCoordHost envCoordPort : Option CString) : Except Exit Context :=
  match envCoordHost with
  | none => stderrAndQuit (format "Environment varialble not set: \x7b\x7d" [envnameCoordHost])
  | some host =>
    if !validHostname (some host) then
      stderrAndQuit (format "Invalid coordinator hostname: \x7b\x7d = \x7b\x7d"
        [envnameCoordHost, String.ofList host.chars])
    else
      match envCoordPort with
      | none => stderrAndQuit (format "Environment varialble not set: \x7b\x7d" [envnameCoordPort])
      | some port =>
        let coordinatorPort := portToInt (some host)
        if -1 = coordinatorPort then
          stderrAndQuit (format "Invalid coordinator port: \x7b\x7d = \x7b\x7d"
            [envnameCoordPort, String.ofList port.chars])
        else .ok ⟨host, coordinatorPort⟩

theorem stderrAndQuit_ne_ok {α : Type} (msg : Except Exception String) (a : α) :
    stderrAndQuit msg ≠ .ok a := by
  cases msg <;> nofun

/-- **What is taken**: the host, if it is valid and there is a port, and the port that the host's text denotes. -/
theorem thalliumInit_eq_ok_iff {envCoordHost envCoordPort : Option CString} {ctx : Context} :
    thalliumInit envCoordHost envCoordPort = .ok ctx ↔
      envCoordHost = some ctx.coordinatorHost ∧ validHostname envCoordHost = true ∧ envCoordPort ≠ none ∧
        IsPort ctx.coordinatorHost.chars ctx.coordinatorPort := by
  unfold thalliumInit
  cases envCoordHost with
  | none => exact iff_of_false (stderrAndQuit_ne_ok _ _) nofun
  | some host =>
    by_cases hvalid : validHostname (some host) = true
    · simp only [hvalid, Bool.not_true, Bool.false_eq_true, if_false]
      cases envCoordPort with
      | none => exact iff_of_false (stderrAndQuit_ne_ok _ _) fun h => h.2.2.1 rfl
      | some port =>
        by_cases hport : -1 = portToInt (some host)
        · simp only [if_pos hport]
          refine iff_of_false (stderrAndQuit_ne_ok _ _) ?_
          rintro ⟨hhost, -, -, h⟩
          obtain rfl := Option.some.inj hhost
          obtain ⟨hread, hne⟩ := portToInt_eq_iff.mpr h
          exact hne (hread.symm.trans hport.symm)
        · simp only [if_neg hport]
          constructor
          · intro h
            obtain rfl := Except.ok.inj h
            exact ⟨rfl, trivial, nofun, portToInt_eq_iff.mp ⟨rfl, Ne.symm hport⟩⟩
          · rintro ⟨hhost, -, -, h⟩
            obtain rfl := Option.some.inj hhost
            rw [portToInt_of_isPort h]
    · simp only [hvalid, Bool.not_false, if_true]
      exact iff_of_false (stderrAndQuit_ne_ok _ _) fun h => Bool.false_ne_true h.2.1

/-- Host and port are taken if they are valid, and nothing else is. -/
def InitRight (envCoordHost envCoordPort : Option CString) : Prop :=
  ∀ ctx, thalliumInit envCoordHost envCoordPort = .ok ctx ↔
    envCoordHost = some ctx.coordinatorHost ∧ validHostname envCoordHost = true ∧
      ∃ port, envCoordPort = some port ∧ IsPort port.chars ctx.coordinatorPort

/-- **Start-up is right iff** there is nothing to start with, or host and port denote the same port or none. -/
theorem initRight_iff (envCoordHost envCoordPort : Option CString) :
    InitRight envCoordHost envCoordPort ↔
      validHostname envCoordHost = false ∨ envCoordPort = none ∨
        ∃ host port, envCoordHost = some host ∧ envCoordPort = some port ∧
          ∀ n, IsPort host.chars n ↔ IsPort port.chars n := by
  simp only [InitRight, thalliumInit_eq_ok_iff]
  cases envCoordHost with
  | none => exact iff_of_true (fun _ => iff_of_false nofun nofun) (.inl rfl)
  | some host =>
    by_cases hvalid : validHostname (some host) = true
    · cases envCoordPort with
      | none =>
        refine iff_of_true (fun ctx => iff_of_false (fun h => h.2.2.1 rfl) ?_) (.inr (.inl rfl))
        rintro ⟨-, -, port, hport, -⟩
        cases hport
      | some port =>
        constructor
        · intro h
          refine .inr (.inr ⟨host, port, rfl, rfl, fun n => ?_⟩)
          simpa [hvalid] using h ⟨host, n⟩
        · rintro (h | h | ⟨host', port', hhost, hport, hsame⟩)
          · rw [hvalid] at h
            cases h
          · cases h
          · obtain rfl := Option.some.inj hhost
            obtain rfl := Option.some.inj hport
            rintro ⟨h, n⟩
            constructor
            · rintro ⟨hhost, -, -, hn⟩
              obtain rfl := Option.some.inj hhost
              exact ⟨rfl, hvalid, port, rfl, (hsame n).mp hn⟩
            · rintro ⟨hhost, -, port', hport, hn⟩
              obtain rfl := Option.some.inj hhost
              obtain rfl := Option.some.inj hport
              exact ⟨rfl, hvalid, nofun, (hsame n).mpr hn⟩
    · rw [Bool.not_eq_true] at hvalid
      refine iff_of_true (fun ctx => iff_of_false ?_ ?_) (.inl hvalid)
      · rintro ⟨-, h, -⟩
        rw [hvalid] at h
        cases h
      · rintro ⟨-, h, -⟩
        rw [hvalid] at h
        cases h

def localhost : CString := ⟨"localhost".toList, by decide⟩

/-- Host `localhost` and port `1234`: the host's text is no port, so the process exits. -/
theorem not_initRight_localhost : ¬ InitRight (some localhost) (some ⟨"1234".toList, by decide⟩) := by
  intro h
  have hvalid : validHostname (some localhost) = true := by
    simp only [validHostname, stringSplit_singleton]
    decide
  have hport : IsPort "1234".toList 1234 := ⟨by decide, by decide, by decide, by decide⟩
  have hinit := (h ⟨localhost, 1234⟩).mpr ⟨rfl, hvalid, _, rfl, hport⟩
  obtain ⟨-, -, -, hdigits, -⟩ := thalliumInit_eq_ok_iff.mp hinit
  exact absurd hdigits (by decide)

end Thallium
