import Mathlib.Data.Finmap
import Thallium.Common

/-!
# Function ids and the function table (include/function_object.hpp, function_object.cpp)

A function's id is interned from the name of its type, and its object is filed under that id.
`F` is the functions that are registered, `T` the C++ types, `typeOf f` the type of the function
pointer (or `std::function`) passed for `f` and `name t` the text `typeid(t).name()`.

| here | there |
| --- | --- |
| `getMangled`                 | `get_mangled` (function_object.hpp:79) |
| `getIdfromMangled`           | `FuncIdGen` (function_object.cpp:10): `current` is an `unsigned int` |
| `functionId`                 | `function_id` (function_object.hpp:84) |
| `addFunc`, `getFuncObj`      | `FuncManager` (function_object.cpp:21-31) |
| `registerFunc`               | `register_func` (function_object.hpp:248) |
| `registerAll`                | the functions of a program, registered one after another |

* `registerFunc_ok`, `registerFunc_error` — one registration, from any reachable state.
* `registered_iff` — all registrations succeed, with distinct ids that lead back to their functions,
  **iff** the type names are pairwise distinct and there are no more of them than ids.
-/
namespace Thallium

/-- `FuncIdGen` and `FuncManager`: their static data. -/
structure Functions (F : Type) where
  current : UInt32
  idLookup : Finmap fun _ : String => UInt32
  fTable : Finmap fun _ : UInt32 => Option F

namespace Functions
variable {F : Type}

/-- `get_mangled` (function_object.hpp:79): the name of the type is all it sees of a function. -/
def getMangled {T : Type} (typeOf : F → T) (name : T → String) (f : F) : String := name (typeOf f)

/-- At program start. -/
def init : Functions F := ⟨0, ∅, ∅⟩

/-- `getIdfromMangled` (function_object.cpp:10). -/
def getIdfromMangled (s : String) (g : Functions F) : UInt32 × Functions F :=
  match g.idLookup.lookup s with
  | some id => (id, g)
  | none => (g.current,
    { g with current := g.current + 1, idLookup := g.idLookup.insert s g.current })

/-- `function_id` (function_object.hpp:84). -/
def functionId (typeName : F → String) (f : F) (g : Functions F) : UInt32 × Functions F :=
  getIdfromMangled (typeName f) g

/-- `addFunc` (function_object.cpp:21): the table is left alone when it throws. -/
def addFunc (fId : UInt32) (fPtr : Option F) (g : Functions F) : Except Exception (Functions F) :=
  if fId ∈ g.fTable then
    match format "The function: \x7b\x7d has been registered!" [toString fId.toNat] with
    | .ok what => .error (.logicError what)
    | .error e => .error e
  else .ok { g with fTable := g.fTable.insert fId fPtr }

/-- `get_function_object` (function_object.cpp:33): `f_table[f_id]` files a null pointer under an id
that is not there. An object is the function it invokes. -/
def getFunctionObject (fId : UInt32) (g : Functions F) : Option F × Functions F :=
  match g.fTable.lookup fId with
  | some fPtr => (fPtr, g)
  | none => (none, { g with fTable := g.fTable.insert fId none })

/-- `register_func` (function_object.hpp:248). -/
def registerFunc (typeName : F → String) (g : Functions F) (f : F) :
    Except Exception (Functions F) :=
  let (fId, g) := functionId typeName f g
  addFunc fId (some f) g

/-- Registering functions one after another, up to the first that throws. -/
def registerAll (typeName : F → String) (fs : List F) (g : Functions F) :
    Except Exception (Functions F) :=
  fs.foldlM (registerFunc typeName) g

/-! ## One registration -/

/-- The state after the functions `fs` were registered: the `i`-th got id `i`. -/
structure Holds (typeName : F → String) (fs : List F) (g : Functions F) : Prop where
  names : (fs.map typeName).Nodup
  bound : fs.length ≤ 2 ^ 32
  current : g.current = UInt32.ofNat fs.length
  ids : ∀ s id, g.idLookup.lookup s = some id ↔
    ∃ i f, fs[i]? = some f ∧ typeName f = s ∧ UInt32.ofNat i = id
  table : ∀ id fPtr, g.fTable.lookup id = some fPtr ↔
    ∃ i f, fs[i]? = some f ∧ UInt32.ofNat i = id ∧ some f = fPtr

variable {typeName : F → String} {fs : List F} {g : Functions F} {f : F}

theorem holds_init : Holds typeName [] (init : Functions F) where
  names := List.nodup_nil
  bound := Nat.zero_le _
  current := rfl
  ids := by simp [init]
  table := by simp [init]

/-- A type name that is not known yet gets the next id. -/
theorem lookup_name_none (h : Holds typeName fs g) (hf : typeName f ∉ fs.map typeName) :
    g.idLookup.lookup (typeName f) = none := by
  by_contra hne
  obtain ⟨id, hid⟩ := Option.ne_none_iff_exists'.mp hne
  obtain ⟨i, f', hi, hname, -⟩ := (h.ids _ _).mp hid
  exact hf (hname ▸ List.mem_map_of_mem (List.mem_of_getElem? hi))

/-- **A new type name**, and an id left for it: the function is filed under the next id. -/
theorem registerFunc_ok (h : Holds typeName fs g) (hf : typeName f ∉ fs.map typeName)
    (hlt : fs.length < 2 ^ 32) :
    ∃ g', registerFunc typeName g f = .ok g' ∧ Holds typeName (fs ++ [f]) g' := by
  have hnone := lookup_name_none h hf
  have hfree : g.current ∉ g.fTable := by
    intro hmem
    obtain ⟨fPtr, hlook⟩ := Finmap.mem_iff.mp hmem
    obtain ⟨i, f', hi, hid, -⟩ := (h.table _ _).mp hlook
    have hilt : i < fs.length := (List.getElem?_eq_some_iff.mp hi).1
    rw [h.current] at hid
    have := ofNat_injOn (by omega) hlt hid
    omega
  have hids := h.ids
  have htable := h.table
  rw [h.current] at hfree
  refine ⟨⟨g.current + 1, g.idLookup.insert (typeName f) (UInt32.ofNat fs.length),
    g.fTable.insert (UInt32.ofNat fs.length) (some f)⟩, ?_, ?_, ?_, ?_, ?_, ?_⟩
  · simp only [registerFunc, functionId, getIdfromMangled, hnone, addFunc, h.current]
    exact if_neg hfree
  · rw [List.map_append, List.nodup_append]
    refine ⟨h.names, by simp, ?_⟩
    rintro s hs t ht rfl
    simp only [List.map_cons, List.map_nil, List.mem_singleton] at ht
    exact hf (ht ▸ hs)
  · rw [List.length_append, List.length_singleton]
    omega
  · rw [List.length_append, List.length_singleton, h.current, UInt32.ofNat_add]
    rfl
  · intro s id
    simp only [getElem?_concat_eq_some]
    by_cases hs : s = typeName f
    · subst hs
      rw [Finmap.lookup_insert]
      constructor
      · rintro ⟨rfl⟩
        exact ⟨fs.length, f, .inr ⟨rfl, rfl⟩, rfl, rfl⟩
      · rintro ⟨i, f', hi | ⟨rfl, rfl⟩, hname, rfl⟩
        · exact absurd (hname ▸ List.mem_map_of_mem (List.mem_of_getElem? hi)) hf
        · rfl
    · rw [Finmap.lookup_insert_of_ne _ hs, hids]
      constructor
      · rintro ⟨i, f', hi, hname, hid⟩
        exact ⟨i, f', .inl hi, hname, hid⟩
      · rintro ⟨i, f', hi | ⟨-, rfl⟩, hname, hid⟩
        · exact ⟨i, f', hi, hname, hid⟩
        · exact absurd hname.symm hs
  · intro id fPtr
    simp only [getElem?_concat_eq_some]
    by_cases hid : id = UInt32.ofNat fs.length
    · subst hid
      rw [Finmap.lookup_insert]
      constructor
      · rintro ⟨rfl⟩
        exact ⟨fs.length, f, .inr ⟨rfl, rfl⟩, rfl, rfl⟩
      · rintro ⟨i, f', hi | ⟨rfl, rfl⟩, hid, rfl⟩
        · have hilt := (List.getElem?_eq_some_iff.mp hi).1
          exact absurd (ofNat_injOn (by omega) hlt hid) (by omega)
        · rfl
    · rw [Finmap.lookup_insert_of_ne _ hid, htable]
      constructor
      · rintro ⟨i, f', hi, hid', hf'⟩
        exact ⟨i, f', .inl hi, hid', hf'⟩
      · rintro ⟨i, f', hi | ⟨rfl, rfl⟩, hid', hf'⟩
        · exact ⟨i, f', hi, hid', hf'⟩
        · exact absurd hid'.symm hid

/-- **A type name seen before**, or none of the `2 ^ 32` ids left: the registration throws. -/
theorem registerFunc_error (h : Holds typeName fs g)
    (hbad : typeName f ∈ fs.map typeName ∨ fs.length = 2 ^ 32) :
    ∃ e, registerFunc typeName g f = .error e := by
  -- the id handed out belongs to a function registered earlier
  have htaken : ∃ i f', fs[i]? = some f' ∧
      ((functionId typeName f g).1 = UInt32.ofNat i ∧
        (functionId typeName f g).2.fTable = g.fTable) := by
    by_cases hf : typeName f ∈ fs.map typeName
    · obtain ⟨f', hmem, hname⟩ := List.mem_map.mp hf
      obtain ⟨i, hi⟩ := List.mem_iff_getElem?.mp hmem
      have hlook := (h.ids _ _).mpr ⟨i, f', hi, hname, rfl⟩
      exact ⟨i, f', hi, by simp [functionId, getIdfromMangled, hlook]⟩
    · have hfull : fs.length = 2 ^ 32 := hbad.resolve_left hf
      have hnone := lookup_name_none h hf
      obtain ⟨f', hf'⟩ : ∃ f', fs[0]? = some f' := ⟨_, List.getElem?_eq_getElem (by omega)⟩
      refine ⟨0, f', hf', ?_⟩
      simp only [functionId, getIdfromMangled, hnone, h.current, hfull]
      exact ⟨rfl, trivial⟩
  obtain ⟨i, f', hi, hid, htab⟩ := htaken
  have hmem : (functionId typeName f g).1 ∈ (functionId typeName f g).2.fTable := by
    rw [htab, hid]
    exact Finmap.mem_iff.mpr ⟨some f', (h.table _ _).mpr ⟨i, f', hi, rfl, rfl⟩⟩
  simp only [registerFunc, addFunc, if_pos hmem]
  split
  · exact ⟨_, rfl⟩
  · exact ⟨_, rfl⟩

/-! ## All registrations -/

/-- What registering a program's functions should do: no registration throws, the ids are pairwise
distinct, and the object under the id of a function invokes that function. -/
def Registered (typeName : F → String) (fs : List F) : Prop :=
  ∃ g, registerAll typeName fs init = .ok g ∧
    (fs.map fun f => (functionId typeName f g).1).Nodup ∧
    ∀ f ∈ fs, (getFunctionObject (functionId typeName f g).1 (functionId typeName f g).2).1 = some f

/-- Registering the rest of a program's functions goes through iff the names stay distinct and the
ids last. -/
theorem registerAll_iff : ∀ (rest : List F) {fs : List F} {g : Functions F}, Holds typeName fs g →
    ((∃ g', registerAll typeName rest g = .ok g') ↔
      ((fs ++ rest).map typeName).Nodup ∧ (fs ++ rest).length ≤ 2 ^ 32)
  | [], fs, g, h => by
    simp only [List.append_nil]
    exact ⟨fun _ => ⟨h.names, h.bound⟩, fun _ => ⟨g, rfl⟩⟩
  | f :: rest, fs, g, h => by
    have hassoc : fs ++ f :: rest = (fs ++ [f]) ++ rest := by simp
    by_cases hgood : typeName f ∉ fs.map typeName ∧ fs.length < 2 ^ 32
    · obtain ⟨g', hreg, hholds⟩ := registerFunc_ok h hgood.1 hgood.2
      rw [hassoc, ← registerAll_iff rest hholds]
      simp only [registerAll, List.foldlM_cons, hreg]
      rfl
    · have hbad : typeName f ∈ fs.map typeName ∨ fs.length = 2 ^ 32 := by
        have := h.bound
        by_cases hf : typeName f ∈ fs.map typeName
        · exact .inl hf
        · exact .inr (by have := not_and.mp hgood hf; omega)
      obtain ⟨e, herr⟩ := registerFunc_error h hbad
      constructor
      · rintro ⟨g', hg'⟩
        simp only [registerAll, List.foldlM_cons, herr] at hg'
        exact absurd hg' (by simp [bind, Except.bind])
      · rintro ⟨hnames, hlen⟩
        rw [List.map_append, List.nodup_append] at hnames
        rw [List.length_append, List.length_cons] at hlen
        rcases hbad with hf | hfull
        · exact absurd rfl (hnames.2.2 _ hf _ (by simp))
        · omega

theorem registerAll_holds : ∀ (rest : List F) {fs : List F} {g g' : Functions F},
    Holds typeName fs g → registerAll typeName rest g = .ok g' → Holds typeName (fs ++ rest) g'
  | [], fs, g, g', h, hreg => by
    rw [List.append_nil]
    exact (Except.ok.inj hreg) ▸ h
  | f :: rest, fs, g, g', h, hreg => by
    obtain ⟨hnames, hlen⟩ := (registerAll_iff (f :: rest) h).mp ⟨g', hreg⟩
    rw [List.map_append, List.nodup_append] at hnames
    rw [List.length_append, List.length_cons] at hlen
    have hf : typeName f ∉ fs.map typeName := fun hmem => hnames.2.2 _ hmem _ (by simp) rfl
    obtain ⟨g₁, hreg₁, hholds⟩ := registerFunc_ok h hf (by omega)
    have hrest : registerAll typeName rest g₁ = .ok g' := by
      simp only [registerAll, List.foldlM_cons, hreg₁] at hreg
      exact hreg
    have hassoc : fs ++ f :: rest = (fs ++ [f]) ++ rest := by simp
    rw [hassoc]
    exact registerAll_holds rest hholds hrest

/-- The `i`-th registered function has id `i`, and its object is filed there. -/
theorem Holds.lookup (h : Holds typeName fs g) {i : Nat} (hi : fs[i]? = some f) :
    functionId typeName f g = (UInt32.ofNat i, g) ∧
      (getFunctionObject (UInt32.ofNat i) g).1 = some f := by
  have hid := (h.ids (typeName f) _).mpr ⟨i, f, hi, rfl, rfl⟩
  have htab := (h.table (UInt32.ofNat i) (some f)).mpr ⟨i, f, hi, rfl, rfl⟩
  simp only [functionId, getIdfromMangled, hid, getFunctionObject, htab, and_self]

/-- **Exact condition of a correct function table.** The functions of a program are all registered,
under distinct ids that lead back to them, **iff** no two of them have the same type name and there
are at most `2 ^ 32`. Functions of one signature have one type name. -/
theorem registered_iff {T : Type} (typeOf : F → T) (name : T → String) (fs : List F) :
    Registered (getMangled typeOf name) fs ↔
      (fs.map (getMangled typeOf name)).Nodup ∧ fs.length ≤ 2 ^ 32 := by
  have hall : (∃ g, registerAll (getMangled typeOf name) fs init = .ok g) ↔ _ :=
    registerAll_iff fs holds_init
  rw [List.nil_append] at hall
  refine ⟨fun ⟨g, hreg, _, _⟩ => hall.mp ⟨g, hreg⟩, fun hcond => ?_⟩
  obtain ⟨g, hreg⟩ := hall.mpr hcond
  have h : Holds (getMangled typeOf name) fs g := registerAll_holds fs holds_init hreg
  refine ⟨g, hreg, ?_, fun f hf => ?_⟩
  · rw [List.nodup_iff_getElem?_ne_getElem?]
    intro i j hij hj heq
    rw [List.length_map] at hj
    have hi : i < fs.length := by omega
    have hb := h.bound
    simp only [List.getElem?_map, List.getElem?_eq_getElem hi, List.getElem?_eq_getElem hj,
      Option.map_some, Option.some.injEq, (h.lookup (List.getElem?_eq_getElem hi)).1,
      (h.lookup (List.getElem?_eq_getElem hj)).1] at heq
    have := ofNat_injOn (by omega) (by omega) heq
    omega
  · obtain ⟨i, hi⟩ := List.mem_iff_getElem?.mp hf
    rw [(h.lookup hi).1]
    exact (h.lookup hi).2

/-- `int add(int, int)` and `int sub(int, int)`: the second registration throws. -/
theorem not_registered_same_signature :
    ¬ Registered (getMangled (fun _ : String => "int (*)(int, int)") fun _ => "PFiiiE")
      ["add", "sub"] := by
  rintro ⟨g, hreg, -⟩
  have hnames := ((registerAll_iff _ holds_init).mp ⟨g, hreg⟩).1
  exact absurd hnames (by decide)

end Functions

end Thallium
