import Thallium.Serialize.Operators

/-!
# The serializer round trip

`Saves f bs` says that `f` appends `bs` to whatever archive takes it, `Loads f bs x` that `f` reads
`x` off an archive whose next bytes are `bs`. Both compose, so each overload is dealt with where it
stands and the types by induction.

* `Ty.saves` — every object is saved as `Ty.bytes`, in any lawful archive.
* `Ty.loads_loaded` — reading `Ty.bytes o` into any object leaves `Ty.loaded` there and stops right
  behind.
* `Ty.loads` — into a fresh object, that is the value of `o`.
-/
namespace Thallium.Serializer

/-! ## Rules for saving and loading -/

section Rules

/-- `save` appends `bs`. -/
def Saves {A : Type} [SaveArchive A] [LawfulSaveArchive A] (save : A → Except Exception A)
    (bs : List UInt8) : Prop :=
  ∀ ⦃a : A⦄ ⦃done : List UInt8⦄ ⦃room : Nat⦄, LawfulSaveArchive.At a done (bs.length + room) →
    ∃ a', save a = .ok a' ∧ LawfulSaveArchive.At a' (done ++ bs) room

/-- `load` reads `x` off `bs`. -/
def Loads {A α : Type} [LoadArchive A] [LawfulLoadArchive A]
    (load : A → Except Exception (α × A)) (bs : List UInt8) (x : α) : Prop :=
  ∀ ⦃a : A⦄ ⦃n : Nat⦄ ⦃rest : List UInt8⦄, LawfulLoadArchive.At a n (bs ++ rest) →
    ∃ a', load a = .ok (x, a') ∧ LawfulLoadArchive.At a' (n + bs.length) rest

variable {A B α β : Type} [SaveArchive A] [LawfulSaveArchive A] [LoadArchive B]
  [LawfulLoadArchive B]

theorem Saves.ok : Saves (fun a : A => .ok a) [] := by
  intro a done room h
  exact ⟨a, rfl, by simpa using h⟩

theorem Saves.bind {f g : A → Except Exception A} {bs cs : List UInt8} (hf : Saves f bs)
    (hg : Saves g cs) : Saves (fun a => f a >>= g) (bs ++ cs) := by
  intro a done room h
  rw [List.length_append, Nat.add_assoc] at h
  obtain ⟨a₁, h₁, hat₁⟩ := hf h
  obtain ⟨a₂, h₂, hat₂⟩ := hg hat₁
  refine ⟨a₂, ?_, by rwa [List.append_assoc] at hat₂⟩
  simp only [h₁]
  exact h₂

/-- A loop that saves the elements of a list one after the other. -/
theorem Saves.foldlM {save : A → α → Except Exception A} {bytes : α → List UInt8}
    (h : ∀ x, Saves (save · x) (bytes x)) (l : List α) :
    Saves (fun a => l.foldlM save a) (l.flatMap bytes) := by
  induction l with
  | nil => exact Saves.ok
  | cons x l ih =>
    simp only [List.foldlM_cons, List.flatMap_cons]
    exact (h x).bind ih

theorem Loads.ok (x : α) : Loads (fun a : B => .ok (x, a)) [] x := by
  intro a n rest h
  exact ⟨a, rfl, h⟩

theorem Loads.bind {f : B → Except Exception (α × B)} {g : α × B → Except Exception (β × B)}
    {bs cs : List UInt8} {x : α} {y : β} (hf : Loads f bs x) (hg : Loads (fun a => g (x, a)) cs y) :
    Loads (fun a => f a >>= g) (bs ++ cs) y := by
  intro a n rest h
  rw [List.append_assoc] at h
  obtain ⟨a₁, h₁, hat₁⟩ := hf h
  obtain ⟨a₂, h₂, hat₂⟩ := hg hat₁
  refine ⟨a₂, ?_, by rwa [List.length_append, ← Nat.add_assoc]⟩
  simp only [h₁]
  exact h₂

/-- What is read may be put into another shape. -/
theorem Loads.map {f : B → Except Exception (α × B)} {g : α × B → Except Exception (β × B)}
    {bs : List UInt8} {x : α} {y : β} (hf : Loads f bs x) (hg : ∀ a, g (x, a) = .ok (y, a)) :
    Loads (fun a => f a >>= g) bs y := by
  intro a n rest h
  obtain ⟨a', h', hat⟩ := hf h
  refine ⟨a', ?_, hat⟩
  simp only [h', ← hg]
  rfl

end Rules

/-! ## Trivially serializable values and spans of them -/

section Overloads
variable {A B α : Type} [SaveArchive A] [LawfulSaveArchive A] [LoadArchive B]
  [LawfulLoadArchive B]

theorem length_flatMap_toBytes (r : Rep α) (sp : List α) :
    (sp.flatMap r.toBytes).length = sp.length * r.size := by
  induction sp with
  | nil => simp
  | cons x sp ih =>
    rw [List.flatMap_cons, List.length_append, r.length_toBytes, ih, List.length_cons, Nat.succ_mul,
      Nat.add_comm]

theorem serialize_saves (r : Rep α) (t : α) : Saves (fun a : A => serialize r a t) (r.toBytes t) := by
  intro a done room h
  obtain ⟨dst, a', hc, hat⟩ := LawfulSaveArchive.save h
  refine ⟨_, ?_, hat⟩
  rw [r.length_toBytes] at hc
  simp only [serialize, hc]
  rfl

theorem deserialize_loads (r : Rep α) (t : α) :
    Loads (fun a : B => deserialize r a) (r.toBytes t) t := by
  intro a n rest h
  obtain ⟨a', hc, hat⟩ := LawfulLoadArchive.load h
  refine ⟨a', ?_, hat⟩
  rw [r.length_toBytes] at hc
  simp only [deserialize, hc]
  show Except.ok (r.ofBytes (r.toBytes t), a') = _
  rw [r.ofBytes_toBytes]

theorem length_saves (n : Nat) :
    Saves (fun a : A => serialize sizeRep a (BitVec.ofNat 64 n)) (lengthBytes n) :=
  serialize_saves sizeRep _

theorem length_loads (n : Nat) :
    Loads (fun a : B => deserialize sizeRep a) (lengthBytes n) (BitVec.ofNat 64 n) :=
  deserialize_loads sizeRep _

/-- The elements a span is saved as, whichever of the two ways is taken. -/
theorem spanSerialize_saves {r : Option (Rep α)} {save : A → α → Except Exception A}
    {bytes : α → List UInt8} (hr : ∀ r', r = some r' → bytes = r'.toBytes)
    (h : ∀ x, Saves (save · x) (bytes x)) (sp : List α) :
    Saves (fun a : A => spanSerialize r save a sp) (sp.flatMap bytes) := by
  cases r with
  | none => exact Saves.foldlM h sp
  | some r =>
    rw [hr r rfl]
    intro a done room hat
    obtain ⟨dst, a', hc, hat'⟩ := LawfulSaveArchive.save hat
    refine ⟨_, ?_, hat'⟩
    rw [length_flatMap_toBytes] at hc
    simp only [spanSerialize, hc]
    rfl

theorem serializeSpan_saves {r : Option (Rep α)} {save : A → α → Except Exception A}
    {bytes : α → List UInt8} (hr : ∀ r', r = some r' → bytes = r'.toBytes)
    (h : ∀ x, Saves (save · x) (bytes x)) (sp : List α) :
    Saves (fun a : A => serializeSpan r save a sp) (lengthBytes sp.length ++ sp.flatMap bytes) :=
  (length_saves sp.length).bind (spanSerialize_saves hr h sp)

/-- A block of bytes read as the objects it holds. -/
theorem reinterpret_flatMap (r : Rep α) (l : List α) (n : Nat) (h : l.length = n) :
    (reinterpret r n (l.flatMap r.toBytes)).val = l := by
  induction l generalizing n with
  | nil => subst h; rfl
  | cons x l ih =>
    subst h
    have htake : (r.toBytes x ++ l.flatMap r.toBytes).take r.size = r.toBytes x := by
      rw [← r.length_toBytes x, List.take_left]
    have hdrop : (r.toBytes x ++ l.flatMap r.toBytes).drop r.size = l.flatMap r.toBytes := by
      rw [← r.length_toBytes x, List.drop_left]
    simp only [List.length_cons, List.flatMap_cons, reinterpret, htake, hdrop, r.ofBytes_toBytes]
    rw [ih l.length rfl]

/-- Reading the elements of a span, each into the one that is there. -/
theorem loadElements_loads {load : B → β → Except Exception (β × B)} {bytes : α → List UInt8}
    {loaded : α → β → β} (h : ∀ x d, Loads (load · d) (bytes x) (loaded x d)) :
    ∀ (l : List α) (sp : List β) (hlen : l.length = sp.length),
      Loads (loadElements load sp) (l.flatMap bytes)
        (⟨List.zipWith loaded l sp, by simp [hlen]⟩ : Sized (· = sp.length) β)
  | [], [], _ => Loads.ok _
  | x :: l, d :: sp, hlen => by
    have ih := loadElements_loads h l sp (Nat.succ.inj hlen)
    rw [List.flatMap_cons]
    exact (h x d).bind (ih.map fun _ => rfl)

/-- The block a span is saved as is the block of what is read off it. -/
theorem flatMap_zipWith {bytes : α → List UInt8} {loaded : α → β → β} {r : Rep β}
    (h : ∀ x d, bytes x = r.toBytes (loaded x d)) :
    ∀ (l : List α) (sp : List β), l.length = sp.length →
      l.flatMap bytes = (List.zipWith loaded l sp).flatMap r.toBytes
  | [], [], _ => rfl
  | x :: l, d :: sp, hlen => by
    rw [List.flatMap_cons, List.zipWith_cons_cons, List.flatMap_cons, h x d,
      flatMap_zipWith h l sp (Nat.succ.inj hlen)]

/-- Reading a span, whichever of the two ways is taken. -/
theorem spanDeserialize_loads {r : Option (Rep β)} {load : B → β → Except Exception (β × B)}
    {bytes : α → List UInt8} {loaded : α → β → β}
    (hr : ∀ r', r = some r' → ∀ x d, bytes x = r'.toBytes (loaded x d))
    (h : ∀ x d, Loads (load · d) (bytes x) (loaded x d)) (l : List α) (sp : List β)
    (hlen : l.length = sp.length) :
    Loads (fun a : B => spanDeserialize r load a sp) (l.flatMap bytes)
      (⟨List.zipWith loaded l sp, by simp [hlen]⟩ : Sized (· = sp.length) β) := by
  cases r with
  | none => exact loadElements_loads h l sp hlen
  | some r =>
    have hzip : (List.zipWith loaded l sp).length = sp.length := by simp [hlen]
    intro a n rest hat
    rw [flatMap_zipWith (hr r rfl) l sp hlen] at hat ⊢
    obtain ⟨a', hc, hat'⟩ := LawfulLoadArchive.load hat
    refine ⟨a', ?_, hat'⟩
    rw [length_flatMap_toBytes, hzip] at hc
    have hval : reinterpret r sp.length ((List.zipWith loaded l sp).flatMap r.toBytes) =
        ⟨List.zipWith loaded l sp, hzip⟩ := Sized.ext (reinterpret_flatMap r _ _ hzip)
    simp only [spanDeserialize, hc, ← hval]
    rfl

/-- The elements there are after a `resize`. -/
def resized (init : β) (n : Nat) (v : List β) : List β := v.take n ++ List.replicate (n - v.length) init

@[simp] theorem length_resized (init : β) (n : Nat) (v : List β) : (resized init n v).length = n := by
  simp [resized]
  omega

/-- Reading a length and the elements into a vector or string. -/
theorem deserializeResizeable_loads {size : Nat} {what : String} {r : Option (Rep β)} {init : β}
    {load : B → β → Except Exception (β × B)} {bytes : α → List UInt8} {loaded : α → β → β}
    (hr : ∀ r', r = some r' → ∀ x d, bytes x = r'.toBytes (loaded x d))
    (h : ∀ x d, Loads (load · d) (bytes x) (loaded x d)) (o : Sized (· ≤ maxSize size) α)
    (d : Sized (· ≤ maxSize size) β) :
    Loads (fun a : B => deserializeResizeable what r init load a d)
      (lengthBytes o.val.length ++ o.val.flatMap bytes)
      (o.zipWith loaded (resized init o.val.length d.val) (by simp)) := by
  have hlt : o.val.length < 2 ^ 64 := by
    have h1 := o.sized
    have h2 : maxSize size ≤ 2 ^ 63 - 1 := Nat.div_le_self _ _
    omega
  have hn : (BitVec.ofNat 64 o.val.length).toNat = o.val.length := by
    rw [BitVec.toNat_ofNat, Nat.mod_eq_of_lt hlt]
  have hresize : resize what init o.val.length d =
      .ok ⟨resized init o.val.length d.val, by rw [length_resized]; exact o.sized⟩ := by
    simp only [resize, dif_pos o.sized, resized]
  refine (length_loads o.val.length).bind ?_
  intro a n rest hat
  simp only [hn, hresize]
  by_cases h0 : o.val.length > 0
  · have hsp := spanDeserialize_loads hr h o.val (resized init o.val.length d.val)
      (length_resized _ _ _).symm
    obtain ⟨a', hc, hat'⟩ := hsp hat
    refine ⟨a', ?_, hat'⟩
    show (if _ then _ else _) = _
    rw [if_pos h0]
    simp only at hc
    simp only [hc]
    rfl
  · have hnil : o.val = [] := List.eq_nil_of_length_eq_zero (by omega)
    refine ⟨a, ?_, by simpa [hnil] using hat⟩
    show (if _ then _ else _) = _
    rw [if_neg h0]
    congr 2
    exact Sized.ext (by simp [Sized.zipWith, hnil, resized])

/-- Inserting nodes into a map puts them before what it held. -/
theorem foldl_insert_union {K V : Type} [DecidableEq K] (nodes : List (K × V)) (m d : MapOf K V) :
    nodes.foldl (fun m e => m.insert e.1 e.2) (m ∪ d) =
      nodes.foldl (fun m e => m.insert e.1 e.2) m ∪ d := by
  induction nodes generalizing m with
  | nil => rfl
  | cons e nodes ih => rw [List.foldl_cons, List.foldl_cons, Finmap.insert_union, ih]

theorem foldl_insert {K V : Type} [DecidableEq K] (nodes : List (K × V)) (d : MapOf K V) :
    nodes.foldl (fun m e => m.insert e.1 e.2) d = mapOfNodes nodes ∪ d := by
  have h := foldl_insert_union nodes ∅ d
  rwa [Finmap.empty_union] at h

/-- Reading the nodes of a map, each into a fresh key and value. -/
theorem loadNodes_loads {K V K' V' : Type} [DecidableEq K'] {loadKey : B → K' → Except Exception (K' × B)}
    {loadValue : B → V' → Except Exception (V' × B)} {key : K'} {value : V'}
    {keyBytes : K → List UInt8} {valueBytes : V → List UInt8} {keyOf : K → K'} {valueOf : V → V'}
    (hk : ∀ x, Loads (loadKey · key) (keyBytes x) (keyOf x))
    (hv : ∀ x, Loads (loadValue · value) (valueBytes x) (valueOf x)) :
    ∀ (nodes : List (K × V)) (map : MapOf K' V'),
      Loads (fun a : B => loadNodes loadKey loadValue key value nodes.length a map)
        (nodes.flatMap fun kv => keyBytes kv.1 ++ valueBytes kv.2)
        ((nodes.map fun e => (keyOf e.1, valueOf e.2)).foldl (fun m e => m.insert e.1 e.2) map)
  | [], map => Loads.ok map
  | e :: nodes, map => by
    rw [List.flatMap_cons, List.append_assoc]
    exact (hk e.1).bind ((hv e.2).bind (loadNodes_loads hk hv nodes _))

/-- What the map held stays, behind what is read. -/
theorem loadNodes_union {K V K' V' : Type} [DecidableEq K'] {loadKey : B → K' → Except Exception (K' × B)}
    {loadValue : B → V' → Except Exception (V' × B)} {key : K'} {value : V'}
    {keyBytes : K → List UInt8} {valueBytes : V → List UInt8} {keyOf : K → K'} {valueOf : V → V'}
    (hk : ∀ x, Loads (loadKey · key) (keyBytes x) (keyOf x))
    (hv : ∀ x, Loads (loadValue · value) (valueBytes x) (valueOf x)) (nodes : List (K × V))
    (map : MapOf K' V') :
    Loads (fun a : B => loadNodes loadKey loadValue key value nodes.length a map)
      (nodes.flatMap fun kv => keyBytes kv.1 ++ valueBytes kv.2)
      (mapOfNodes (nodes.map fun e => (keyOf e.1, valueOf e.2)) ∪ map) := by
  rw [← foldl_insert]
  exact loadNodes_loads hk hv nodes map

end Overloads

/-! ## The types -/

section Types
variable {views : Prop} {A B : Type} [SaveArchive A] [LawfulSaveArchive A] [LoadArchive B]
  [LawfulLoadArchive B]

theorem flatMap_charRep (s : List UInt8) : s.flatMap charRep.toBytes = s :=
  List.flatMap_singleton' s

theorem Ty.rep_bytes : ∀ (t : Ty views) (r : Rep t.Obj), t.rep Nodes = some r → t.bytes = r.toBytes
  | .trivial _, _, rfl => rfl

mutual
/-- **Saving** appends the bytes of the object, in any lawful archive. -/
theorem Ty.saves : ∀ (t : Ty views) (o : t.Obj), Saves (fun a : A => t.save a o) (t.bytes o)
  | .trivial n, o => serialize_saves (trivialRep n) o
  | .array t _, o => spanSerialize_saves t.rep_bytes t.saves (Sized.val o)
  | .string, o => by
    have h := serializeSpan_saves (A := A) (fun _ hr => congrArg Rep.toBytes (Option.some.inj hr))
      (serialize_saves charRep) (Sized.val o)
    rwa [flatMap_charRep] at h
  | .vector t, o => serializeSpan_saves t.rep_bytes t.saves (Sized.val o)
  | .unorderedMap k v, o =>
    (length_saves _).bind (Saves.foldlM (fun e => (k.saves e.1).bind (v.saves e.2)) (Sized.val o))
  | .struct _ ms, o => Ty.saves_members ms o
  | .span _ t, o => serializeSpan_saves t.rep_bytes t.saves (Sized.val o)
  | .staticSpan _ t _, o => spanSerialize_saves t.rep_bytes t.saves (Sized.val o)

theorem Ty.saves_members : ∀ (ms : List (Ty views)) (o : Objs ms),
    Saves (fun a : A => Ty.saveMembers ms a o) (Ty.bytesMembers ms o)
  | [], _ => Saves.ok
  | t :: ms, o => (t.saves o.1).bind (Ty.saves_members ms o.2)
end

/-- What a fresh `StringSaveArchive` builds. -/
theorem Ty.save_build (t : Ty views) (o : t.Obj) :
    (t.save StringSaveArchive.new o).map StringSaveArchive.build = .ok (t.bytes o) := by
  obtain ⟨a, hsave, hdone, -⟩ := t.saves o (StringSaveArchive.at_new ((t.bytes o).length + 0))
  simp only [hsave]
  exact congrArg Except.ok hdone

mutual
/-- What reading the bytes of an object leaves in an object that held something. Elements are read into
those that are there, map entries are added to those that are there. -/
def Ty.loaded : (t : Ty False) → t.Obj → t.Val → t.Val
  | .trivial _, x, _ => x
  | .array t n, x, d =>
    (Sized.zipWith t.loaded x (Sized.val d) (Nat.le_of_eq ((Sized.sized x).trans (Sized.sized d).symm)) :
      Sized (· = n) t.Val)
  | .string, s, _ => s
  | .vector t, x, d =>
    (Sized.zipWith t.loaded x (resized t.init (Sized.val x).length (Sized.val d)) (by simp) :
      Sized (· ≤ maxSize t.sizeof) t.Val)
  | .unorderedMap k v, m, d => ((Ty.unorderedMap k v).value m ∪ d : MapOf k.Val v.Val)
  | .struct _ ms, x, d => Ty.loadedMembers ms x d
  | .span h _, _, _ => h.elim
  | .staticSpan h _ _, _, _ => h.elim

def Ty.loadedMembers : (ms : List (Ty False)) → Objs ms → Vals ms → Vals ms
  | [], _, _ => ()
  | t :: ms, x, d => (t.loaded x.1 d.1, Ty.loadedMembers ms x.2 d.2)
end

/-- What is copied as it lies in memory does not look at what was there. -/
theorem Ty.rep_loaded : ∀ (t : Ty False) (r : Rep t.Val), t.rep MapOf = some r →
    ∀ (o : t.Obj) (d : t.Val), t.bytes o = r.toBytes (t.loaded o d)
  | .trivial _, _, rfl => fun _ _ => rfl

theorem zipWith_eq_map {α β γ : Type} {f : α → β → γ} {g : α → γ} :
    ∀ {l : List α} {l' : List β}, l.length = l'.length → (∀ x, ∀ d ∈ l', f x d = g x) →
      List.zipWith f l l' = l.map g
  | [], [], _, _ => rfl
  | x :: l, d :: l', hlen, h => by
    rw [List.zipWith_cons_cons, List.map_cons, h x d List.mem_cons_self,
      zipWith_eq_map (Nat.succ.inj hlen) fun x d hd => h x d (List.mem_cons_of_mem _ hd)]

mutual
/-- In a freshly constructed object nothing is left over. -/
theorem Ty.loaded_fresh : ∀ (t : Ty False) (o : t.Obj) (d : t.Val), t.Fresh d → t.loaded o d = t.value o
  | .trivial _, _, _, _ => rfl
  | .array t _, o, d, hd => by
    have hlen : (Sized.val o).length = (Sized.val d).length := (Sized.sized o).trans (Sized.sized d).symm
    exact Sized.ext (zipWith_eq_map hlen fun x e he => t.loaded_fresh x e (hd e he))
  | .string, _, _, _ => rfl
  | .vector t, o, d, hd => by
    have hnil : Sized.val d = [] := hd
    refine Sized.ext (zipWith_eq_map (by simp) fun x e he => t.loaded_fresh x e ?_)
    rw [hnil, resized, List.take_nil, List.nil_append] at he
    exact List.eq_of_mem_replicate he ▸ t.fresh_init
  | .unorderedMap k v, o, d, hd => by
    have hempty : d = (∅ : MapOf k.Val v.Val) := hd
    subst hempty
    exact Finmap.union_empty
  | .struct _ ms, o, d, hd => Ty.loadedMembers_fresh ms o d hd
  | .span h _, _, _, _ => h.elim
  | .staticSpan h _ _, _, _, _ => h.elim

theorem Ty.loadedMembers_fresh : ∀ (ms : List (Ty False)) (o : Objs ms) (d : Vals ms), Ty.Freshes ms d →
    Ty.loadedMembers ms o d = Ty.values ms o
  | [], _, _, _ => rfl
  | t :: ms, o, d, hd =>
    Prod.ext (t.loaded_fresh o.1 d.1 hd.1) (Ty.loadedMembers_fresh ms o.2 d.2 hd.2)
end

mutual
/-- **Loading** the bytes of an object into any object consumes them. -/
theorem Ty.loads_loaded : ∀ (t : Ty False) (o : t.Obj) (d : t.Val),
    Loads (fun a : B => t.load a d) (t.bytes o) (t.loaded o d)
  | .trivial n, o, _ => deserialize_loads (trivialRep n) o
  | .array t n, o, d =>
    (spanDeserialize_loads t.rep_loaded t.loads_loaded (Sized.val o) (Sized.val d)
      ((Sized.sized o).trans (Sized.sized d).symm)).map fun _ => rfl
  | .string, o, d => by
    have hload : Loads (fun a : B => Ty.string.load a d)
        (lengthBytes (Sized.val o).length ++ (Sized.val o).flatMap charRep.toBytes)
        (Sized.zipWith (fun x _ => x) o (resized 0 (Sized.val o).length (Sized.val d)) (by simp)) :=
      deserializeResizeable_loads (fun _ hr x _ => congrArg (Rep.toBytes · x) (Option.some.inj hr))
        (fun x _ => deserialize_loads charRep x) o d
    have hlen : (Sized.val o).length = (resized 0 (Sized.val o).length (Sized.val d)).length := by simp
    have hval : Sized.zipWith (fun x _ => x) o (resized 0 (Sized.val o).length (Sized.val d)) (by simp) = o :=
      Sized.ext ((zipWith_eq_map (g := id) hlen fun _ _ _ => rfl).trans (List.map_id _))
    rwa [flatMap_charRep, hval] at hload
  | .vector t, o, d => deserializeResizeable_loads t.rep_loaded t.loads_loaded o d
  | .unorderedMap k v, o, d => by
    have hn : (BitVec.ofNat 64 (Sized.val o).length).toNat = (Sized.val o).length := by
      rw [BitVec.toNat_ofNat, Nat.mod_eq_of_lt (Sized.sized o)]
    -- every key and every value is read into a fresh one
    have hkey (x : k.Obj) : Loads (fun a : B => k.load a k.init) (k.bytes x) (k.value x) :=
      k.loaded_fresh x k.init k.fresh_init ▸ k.loads_loaded x k.init
    have hvalue (x : v.Obj) : Loads (fun a : B => v.load a v.init) (v.bytes x) (v.value x) :=
      v.loaded_fresh x v.init v.fresh_init ▸ v.loads_loaded x v.init
    have hnodes := loadNodes_union (B := B) hkey hvalue (Sized.val o) d
    refine (length_loads (Sized.val o).length).bind ?_
    simp only [hn]
    exact hnodes
  | .struct _ ms, o, d => Ty.loads_loadedMembers ms o d
  | .span h _, _, _ => h.elim
  | .staticSpan h _ _, _, _ => h.elim

theorem Ty.loads_loadedMembers : ∀ (ms : List (Ty False)) (o : Objs ms) (d : Vals ms),
    Loads (fun a : B => Ty.loadMembers ms a d) (Ty.bytesMembers ms o) (Ty.loadedMembers ms o d)
  | [], _, _ => Loads.ok ()
  | t :: ms, o, d =>
    (t.loads_loaded o.1 d.1).bind ((Ty.loads_loadedMembers ms o.2 d.2).map fun _ => rfl)
end

/-- Into a fresh object, loading gives the value. -/
theorem Ty.loads (t : Ty False) (o : t.Obj) (d : t.Val) (hd : t.Fresh d) :
    Loads (fun a : B => t.load a d) (t.bytes o) (t.value o) :=
  t.loaded_fresh o d hd ▸ t.loads_loaded o d

end Types

end Thallium.Serializer
