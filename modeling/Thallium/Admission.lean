import Thallium.Coordinator
import Thallium.Serialize.Untrusted

/-!
# Who is admitted (src/coordinator.cpp:76-128, runtime_protocol.hpp:51-66)

Whoever can reach the port of the coordinator can send it anything, on any number of connections. The bytes
that present a cookie are those `from_buffer` reads as an introduction; all others are as good as not sent.
Of the bytes behind the cookie nothing is read.

| here | there |
| --- | --- |
| `presented`        | the cookie `from_buffer<Firsconnection>` finds in the bytes |
| `Incoming`         | a call of `receive` (network/behavior.cpp:15) |
| `hear`             | `logic`, which may throw |
| `Admitted`         | not in the source: whom the coordinator may talk to |

* `fromBuffer_presented` — `from_buffer` on any bytes.
* `hear_eq` — a run of the coordinator on any bytes is a run on the introductions among them.
* `onlyAdmitted` — who is entered, answered and told of the others.
* `completes` — bytes that present no cookie keep nobody from registering, as long as the loop that calls
  `receive` goes on: it ends with an exception, and those that present nothing throw.
-/
namespace Thallium
open Message Serializer EventRun

/-! ## Introductions -/

/-- The cookie an introduction presents: the 16 bytes after the type. -/
def presented : List UInt8 → Option FirstConCookie
  | [] => none
  | b :: bs =>
    if b = 0 ∧ 16 ≤ bs.length then some (reinterpret (trivialRep 1) 16 (bs.take 16), ()) else none

/-- A buffer where a program's memory is. -/
def Low (buf : ReadOnlyBuffer) : Prop := buf.buf + buf.bytes.length ≤ 2 ^ 63

/-- What cannot be read. -/
theorem castArgs_error {t : Ty False} {ts : List (Ty False)} {ar : FixSizeBufferLoadingArchive}
    {args : Vals (t :: ts)} {e : Exception} (h : t.load ar args.1 = .error e) :
    castArgs (t :: ts) ar args = .error e := by
  rw [castArgs, h]
  rfl

section Read
variable {ar : FixSizeBufferLoadingArchive} {n : Nat} {rest : List UInt8}

/-- The type is one byte. -/
theorem load_runtimeHeader (h : ExactLoadArchive.InFront ar n rest) (d : runtimeHeader.Val) :
    (∀ b bs, rest = b :: bs → ∃ ar', runtimeHeader.load ar d = .ok ((BitVec.ofNat 8 b.toNat, ()), ar') ∧
      ExactLoadArchive.InFront ar' (n + 1) bs) ∧
    (rest = [] → ∃ e, runtimeHeader.load ar d = .error e) := by
  constructor
  · rintro b bs rfl
    have hle : (trivialRep 1).size ≤ (b :: bs).length := Nat.le_add_left ..
    obtain ⟨ar', hget, hfront, -⟩ := ExactLoadArchive.load h hle
    refine ⟨ar', ?_, hfront⟩
    show (deserialize (trivialRep 1) ar >>= _) = _
    rw [deserialize, hget]
    rfl
  · rintro rfl
    have hlt : ([] : List UInt8).length < (trivialRep 1).size := Nat.one_pos
    obtain ⟨e, hget⟩ := ExactLoadArchive.short h (by decide) hlt
    refine ⟨e, ?_⟩
    show (deserialize (trivialRep 1) ar >>= _) = _
    rw [deserialize, hget]
    rfl

/-- The array of a cookie is copied as a block. -/
theorem load_data {r : Except Exception (List UInt8 × FixSizeBufferLoadingArchive)}
    (hget : LoadArchive.getLoadCursor ar 16 = r) (d : (Ty.array (.trivial 1) 16 : Ty False).Val) :
    (Ty.array (.trivial 1) 16 : Ty False).load ar d =
      r.map fun x => (reinterpret (trivialRep 1) 16 x.1, x.2) := by
  obtain ⟨data, hdata⟩ := d
  have hlen : data.length * (trivialRep 1).size = 16 := by rw [hdata]; rfl
  show ((LoadArchive.getLoadCursor ar (data.length * (trivialRep 1).size) >>= _) >>= _) = _
  rw [hlen, hget]
  cases r with
  | error e => rfl
  | ok x =>
    refine congrArg (fun v => Except.ok (v, x.2)) ?_
    apply Sized.ext
    show (reinterpret (trivialRep 1) data.length x.1).val = _
    rw [hdata]

/-- A cookie is 16 bytes, and nothing after it is read. -/
theorem load_firsconnection (h : ExactLoadArchive.InFront ar n rest)
    (d : MsgClass.firsconnection.shape.Val) :
    (16 ≤ rest.length → ∃ ar', MsgClass.firsconnection.shape.load ar d =
      .ok (((reinterpret (trivialRep 1) 16 (rest.take 16), ()), ()), ar')) ∧
    (rest.length < 16 → ∃ e, MsgClass.firsconnection.shape.load ar d = .error e) := by
  have hload : MsgClass.firsconnection.shape.load ar d =
      ((Ty.array (.trivial 1) 16 : Ty False).load ar d.1.1).map fun x => (((x.1, ()), ()), x.2) := by
    show (((Ty.array (.trivial 1) 16 : Ty False).load ar d.1.1 >>= _) >>= _) = _
    cases (Ty.array (.trivial 1) 16 : Ty False).load ar d.1.1 <;> rfl
  rw [hload]
  constructor
  · intro hle
    obtain ⟨ar', hget, -⟩ := ExactLoadArchive.load h hle
    exact ⟨ar', by rw [load_data hget]; rfl⟩
  · intro hlt
    obtain ⟨e, hget⟩ := ExactLoadArchive.short h (by decide) hlt
    exact ⟨e, by rw [load_data hget]; rfl⟩

end Read

variable {buf : ReadOnlyBuffer}

theorem inFront_new (hlow : Low buf) :
    ExactLoadArchive.InFront (FixSizeBufferLoadingArchive.new buf) 0 buf.bytes :=
  ⟨rfl, Nat.zero_le _, rfl, hlow⟩

theorem ofNat_toNat_eq_zero {b : UInt8} : BitVec.ofNat 8 b.toNat = 0 ↔ b = 0 := by
  constructor
  · intro h
    have hnat := congrArg BitVec.toNat h
    rw [BitVec.toNat_ofNat, Nat.mod_eq_of_lt b.toNat_lt] at hnat
    exact UInt8.toNat_inj.mp hnat
  · rintro rfl
    rfl

/-- The type is the first byte. -/
theorem readHeaderMessagetype_bytes (hlow : Low buf) :
    (∀ b, buf.bytes.head? = some b → readHeaderMessagetype buf = .ok (BitVec.ofNat 8 b.toNat)) ∧
    (buf.bytes = [] → ∃ e, readHeaderMessagetype buf = .error e) := by
  obtain ⟨hsome, hnone⟩ := load_runtimeHeader (inFront_new hlow) (Ty.inits [runtimeHeader]).1
  constructor
  · intro b hb
    obtain ⟨bs, hbs⟩ := List.head?_eq_some_iff.mp hb
    obtain ⟨ar', hload, -⟩ := hsome b bs hbs
    rw [readHeaderMessagetype, Message.cast, castArgs_cons hload]
    rfl
  · intro hempty
    obtain ⟨e, hload⟩ := hnone hempty
    refine ⟨e, ?_⟩
    rw [readHeaderMessagetype, Message.cast, castArgs_error hload]
    rfl

/-- **`from_buffer` on any bytes**: it reads the cookie they present, or throws. -/
theorem fromBuffer_presented (hlow : Low buf) (d : MsgClass.firsconnection.Val) :
    (∀ c, presented buf.bytes = some c → fromBuffer .firsconnection buf d = .ok (c, d.2)) ∧
    (presented buf.bytes = none → ∃ e, fromBuffer .firsconnection buf d = .error e) := by
  obtain ⟨hsome, hnone⟩ := load_runtimeHeader (inFront_new hlow) ((0 : BitVec 8), ())
  cases hbytes : buf.bytes with
  | nil =>
    obtain ⟨e, hload⟩ := hnone hbytes
    have hcast : Message.cast [runtimeHeader, MsgClass.firsconnection.shape] buf
        (((0 : BitVec 8), ()), MsgClass.firsconnection.listed d, ()) = .error e := castArgs_error hload
    refine ⟨fun c hc => (by cases hc), fun _ => ⟨e, ?_⟩⟩
    rw [fromBuffer, hcast]
    rfl
  | cons b bs =>
    obtain ⟨ar', hload, hfront⟩ := hsome b bs hbytes
    obtain ⟨hlong, hshort⟩ := load_firsconnection hfront (MsgClass.firsconnection.listed d)
    have hcast : Message.cast [runtimeHeader, MsgClass.firsconnection.shape] buf
        (((0 : BitVec 8), ()), MsgClass.firsconnection.listed d, ()) = _ := castArgs_cons hload
    rw [fromBuffer, hcast, presented]
    by_cases hlen : 16 ≤ bs.length
    · obtain ⟨ar'', hcookie⟩ := hlong hlen
      have hargs : castArgs [MsgClass.firsconnection.shape] ar' (MsgClass.firsconnection.listed d, ()) = _ :=
        castArgs_cons hcookie
      rw [hargs]
      by_cases hb : b = 0
      · rw [if_pos ⟨hb, hlen⟩]
        refine ⟨fun c hc => ?_, fun h => by cases h⟩
        cases hc
        subst hb
        rfl
      · rw [if_neg fun h => hb h.1]
        refine ⟨fun c hc => (by cases hc), fun _ => ⟨.logicError "Message type unmatch!", ?_⟩⟩
        exact if_pos fun h => hb (ofNat_toNat_eq_zero.mp h)
    · obtain ⟨e, hcookie⟩ := hshort (Nat.lt_of_not_le hlen)
      have hargs : castArgs [MsgClass.firsconnection.shape] ar' (MsgClass.firsconnection.listed d, ()) = _ :=
        castArgs_error hcookie
      rw [hargs, if_neg fun h => hlen h.2]
      exact ⟨fun c hc => (by cases hc), fun _ => ⟨e, rfl⟩⟩

/-! ## What the coordinator makes of any bytes -/

theorem raising_bind_error {σ α β : Type} {r : Except Exception β} {e : Exception} (hr : r = .error e)
    (f : β → EStateM Exception σ α) (s : σ) : (raising r >>= f) s = .error e s := by
  rw [hr]
  rfl

theorem assertMessageType_type {σ : Type} {b : UInt8} {bs : List UInt8} (hlow : Low buf)
    (hbytes : buf.bytes = b :: bs) :
    (b = 0 → (assertMessageType buf .firstconnection : EStateM Exception σ Unit) = pure ()) ∧
    (b ≠ 0 → ∀ s, ∃ e, (assertMessageType buf .firstconnection : EStateM Exception σ Unit) s = .error e s) := by
  have hread := (readHeaderMessagetype_bytes hlow).1 b (by rw [hbytes]; rfl)
  constructor
  · rintro rfl
    funext s
    rw [assertMessageType, raising_bind_apply hread]
    exact congrFun (if_pos rfl) s
  · intro hb s
    have hne : ¬ BitVec.ofNat 8 b.toNat = MessageType.firstconnection.value :=
      fun h => hb (ofNat_toNat_eq_zero.mp h)
    have htext : format "Unexpected Message: expected \x7b\x7d but received \x7b\x7d"
        [messageTypeText MessageType.firstconnection.value, messageTypeText (BitVec.ofNat 8 b.toNat)] = .ok _ :=
      format_two_positions "Unexpected Message: expected " " but received " _ _ rfl (by decide) (by decide)
    rw [assertMessageType, raising_bind_apply hread, if_neg hne]
    exact ⟨_, raising_bind_apply htext _ s⟩

namespace CoordinatorServer
variable {h : Rehash} {s : CoordinatorServer} {connId : ConnId}

/-- Of the buffer only the type and the message are looked at. -/
theorem firstconnection_congr {buf buf' : ReadOnlyBuffer} {d : MsgClass.firsconnection.Val}
    (hassert : (assertMessageType buf .firstconnection : Handler) = assertMessageType buf' .firstconnection)
    (hfrom : fromBuffer .firsconnection buf d = fromBuffer .firsconnection buf' d) :
    firstconnection h connId buf d = firstconnection h connId buf' d := by
  unfold firstconnection
  rw [hassert, hfrom]

/-- **Bytes that present nothing** are refused, and change nothing. -/
theorem firstconnection_refuses (hlow : Low buf) (d : MsgClass.firsconnection.Val)
    (hnone : presented buf.bytes = none) (s : CoordinatorServer) :
    ∃ e, firstconnection h connId buf d s = .error e s := by
  rw [firstconnection]
  cases hbytes : buf.bytes with
  | nil =>
    obtain ⟨e, hread⟩ := (readHeaderMessagetype_bytes hlow).2 hbytes
    refine ⟨e, bind_error_apply ?_ _⟩
    rw [assertMessageType]
    exact raising_bind_error hread _ s
  | cons b bs =>
    by_cases hb : b = 0
    · obtain ⟨e, hfrom⟩ := (fromBuffer_presented hlow d).2 hnone
      rw [(assertMessageType_type hlow hbytes).1 hb, pure_bind_apply]
      exact ⟨e, raising_bind_error hfrom _ s⟩
    · obtain ⟨e, hassert⟩ := (assertMessageType_type hlow hbytes).2 hb s
      exact ⟨e, bind_error_apply hassert _⟩

/-- **Bytes that present a cookie** are an introduction, whatever follows the cookie. -/
theorem firstconnection_presented (hlow : Low buf) (d : MsgClass.firsconnection.Val)
    (hd : MsgClass.firsconnection.Fresh d) {c : FirstConCookie} (hc : presented buf.bytes = some c) :
    firstconnection h connId buf d = firstconnection h connId (Arrival.introduction connId c).buf d := by
  have hassert : (assertMessageType buf .firstconnection : Handler) = pure () := by
    cases hbytes : buf.bytes with
    | nil => rw [hbytes] at hc; cases hc
    | cons b bs =>
      rw [hbytes, presented] at hc
      split at hc
      · rename_i hb
        exact (assertMessageType_type hlow hbytes).1 hb.1
      · cases hc
  have hassert' : (assertMessageType (Arrival.introduction connId c).buf .firstconnection : Handler) = pure () :=
    assertMessageType_eq .firsconnection _ _ (Arrival.introduction connId c).isMessage
  have hfrom := (fromBuffer_presented hlow d).1 c hc
  have hfrom' := fromBuffer_firsconnection (Arrival.introduction connId c).message d hd _
    (Arrival.introduction connId c).isMessage
  rw [firstConCookie_value] at hfrom'
  exact firstconnection_congr (hassert.trans hassert'.symm) (hfrom.trans hfrom'.symm)

end CoordinatorServer

/-- A call of `receive`: any bytes on any connection. The message is the one `from_buffer`
default-constructs. -/
structure Incoming where
  connId : ConnId
  buf : ReadOnlyBuffer
  low : Low buf
  msg : MsgClass.firsconnection.Val
  fresh : MsgClass.firsconnection.Fresh msg

/-- The introduction the bytes are as good as. -/
def Incoming.introduction? (d : Incoming) : Option Arrival :=
  (presented d.buf.bytes).map fun c =>
    { Arrival.introduction d.connId c with msg := d.msg, fresh := d.fresh }

namespace CoordinatorServer

/-- The coordinator after a call of `receive`, whether the handler has thrown or not. -/
def hear (h : Rehash) (s : CoordinatorServer) (d : Incoming) : CoordinatorServer :=
  match logic h d.connId d.buf d.msg s with
  | .ok _ s' => s'
  | .error _ s' => s'

/-- **Any bytes** are as good as an introduction, or as nothing. -/
theorem hear_eq (h : Rehash) (s : CoordinatorServer) (d : Incoming) :
    s.hear h d = run (arrive h) s d.introduction?.toList := by
  have hreg (hs : s.currentState = .firstconnection) :
      logic h d.connId d.buf d.msg s = firstconnection h d.connId d.buf d.msg s := by
    rw [logic, get_bind_apply, hs]
  have hidle (hs : s.currentState = .peersinfo) : logic h d.connId d.buf d.msg s = .ok () s := by
    rw [logic, get_bind_apply, hs]
    rfl
  rw [hear, Incoming.introduction?]
  cases hp : presented d.buf.bytes with
  | none =>
    show _ = s
    cases hs : s.currentState with
    | peersinfo => rw [hidle hs]
    | firstconnection =>
      obtain ⟨e, hrefuses⟩ : ∃ e, firstconnection h d.connId d.buf d.msg s = .error e s :=
        firstconnection_refuses d.low d.msg hp s
      rw [hreg hs, hrefuses]
  | some c =>
    have hsame : logic h d.connId d.buf d.msg = logic h d.connId (Arrival.introduction d.connId c).buf d.msg := by
      rw [logic, firstconnection_presented d.low d.msg d.fresh hp, ← logic]
    rw [hsame]
    rfl

theorem hear_unaddressed (h : Rehash) {s : CoordinatorServer} (d : Incoming) (hs : s.workerInfo.Unaddressed) :
    (s.hear h d).workerInfo.Unaddressed := by
  rw [hear_eq, Incoming.introduction?]
  cases presented d.buf.bytes with
  | none => exact hs
  | some c => exact arrive_unaddressed h _ hs

end CoordinatorServer

/-! ## Who is let in -/

/-- The connection `k` is the first to present some cookie that was issued. -/
def Admitted (issued : Finset FirstConCookie) (ds : List Incoming) (k : ConnId) : Prop :=
  ∃ before d after c, ds = before ++ d :: after ∧ d.connId = k ∧ presented d.buf.bytes = some c ∧ c ∈ issued ∧
    ∀ d' ∈ before, presented d'.buf.bytes ≠ some c

namespace CoordinatorServer

/-- What should have been broadcast. -/
def announced (s : CoordinatorServer) : List (List UInt8) :=
  match s.currentState with
  | .firstconnection => []
  | .peersinfo => [MsgClass.workerInfoMap.bytes (peerMap s.workerInfo)]

theorem announced_firstconnection {s : CoordinatorServer} (hs : s.currentState = .firstconnection) :
    s.announced = [] := by
  rw [announced, hs]

/-- What the coordinator has done after the calls `ds`. -/
structure Guarded (issued : Finset FirstConCookie) (ds : List Incoming) (s : CoordinatorServer) : Prop where
  /-- As long as it registers, the cookies that are out are the issued ones that nobody has presented. -/
  out : s.currentState = .firstconnection →
    ∀ c, c ∈ s.cookies ↔ c ∈ issued ∧ ∀ d ∈ ds, presented d.buf.bytes ≠ some c
  /-- Each issued cookie is out or redeemed, and no other. -/
  split : ∀ c, c ∈ issued ↔ c ∈ s.cookies ∨ c ∈ s.redeemed
  /-- No cookie is redeemed twice. -/
  once : s.redeemed.Nodup ∧ ∀ c ∈ s.redeemed, c ∉ s.cookies
  redeemed : ∀ c ∈ s.redeemed, ∃ d ∈ ds, presented d.buf.bytes = some c
  /-- Only first presenters are entered. -/
  admitted : ∀ k ∈ s.workers.keys, Admitted issued ds k
  /-- Each entry has cost a cookie. -/
  paid : s.workers.size ≤ s.redeemed.length
  sameKeys : ∀ k, k ∈ s.workerInfo.keys ↔ k ∈ s.workers.keys
  /-- Nothing is sent to a connection that is not entered. -/
  sent : ∀ k, sentTo k s.requests ≠ [] → k ∈ s.workers.keys
  /-- The peers are broadcast once, at the end. -/
  told : s.broadcasts = s.announced

end CoordinatorServer

theorem Admitted.append {issued : Finset FirstConCookie} {ds : List Incoming} {k : ConnId}
    (h : Admitted issued ds k) (d : Incoming) : Admitted issued (ds ++ [d]) k := by
  obtain ⟨before, d', after, c, rfl, hk, hc, hissued, hfirst⟩ := h
  exact ⟨before, d', after ++ [d], c, by rw [List.append_assoc, List.cons_append], hk, hc, hissued, hfirst⟩

theorem UnorderedMap.mem_keys_set {V : Type} {h : Rehash} {k k' : ConnId} {v : V} {m : UnorderedMap V} :
    k ∈ (m.set h k' v).keys ↔ k = k' ∨ k ∈ m.keys := by
  by_cases hk : k' ∈ m.keys
  · rw [keys_set_of_mem h v hk]
    refine (or_iff_right_of_imp ?_).symm
    rintro rfl
    exact hk
  · rw [(keys_set_of_not_mem h v hk).mem_iff, List.mem_append, List.mem_singleton]
    exact or_comm

namespace CoordinatorServer
variable {h : Rehash} {s : CoordinatorServer} {issued : Finset FirstConCookie} {ds : List Incoming}
  {d : Incoming} {c : FirstConCookie}

/-! ### One call -/

/-- Before the last worker is entered a call can only add to the past. -/
theorem Guarded.ignored (hg : s.Guarded issued ds)
    (hd : s.currentState = .firstconnection → ∀ c ∈ s.cookies, presented d.buf.bytes ≠ some c) :
    s.Guarded issued (ds ++ [d]) where
  out hs c := by
    rw [hg.out hs]
    constructor
    · rintro ⟨hc, hall⟩
      refine ⟨hc, ?_⟩
      rw [List.forall_mem_append, List.forall_mem_singleton]
      exact ⟨hall, hd hs c ((hg.out hs c).mpr ⟨hc, hall⟩)⟩
    · rintro ⟨hc, hall⟩
      exact ⟨hc, (List.forall_mem_append.mp hall).1⟩
  split := hg.split
  once := hg.once
  redeemed c hc := by
    obtain ⟨d', hd', hp⟩ := hg.redeemed c hc
    exact ⟨d', List.mem_append_left _ hd', hp⟩
  admitted k hk := (hg.admitted k hk).append d
  paid := hg.paid
  sameKeys := hg.sameKeys
  sent := hg.sent
  told := hg.told

/-- A disconnect is no message. -/
theorem Guarded.disconnect (hg : s.Guarded issued ds) (k : ConnId) : (s.ask (.disconnect k)).Guarded issued ds where
  out := hg.out
  split := hg.split
  once := hg.once
  redeemed := hg.redeemed
  admitted := hg.admitted
  paid := hg.paid
  sameKeys := hg.sameKeys
  sent k' hk' := by
    refine hg.sent k' fun hnone => hk' ?_
    rw [ask, sentTo_append, hnone]
    rfl
  told := hg.told

/-- **A cookie that is out** lets its presenter in. -/
theorem Guarded.register (hg : s.Guarded issued ds) (hs : s.currentState = .firstconnection)
    (hp : presented d.buf.bytes = some c) (hc : c ∈ s.cookies) (info : WorkerInfo) :
    (s.register h d.connId c info).Guarded issued (ds ++ [d]) where
  out hs' c' := by
    show c' ∈ s.cookies.erase c ↔ _
    rw [Finset.mem_erase, hg.out hs, List.forall_mem_append, List.forall_mem_singleton, hp, ne_eq, ne_eq,
      Option.some.injEq, eq_comm (a := c)]
    tauto
  split c' := by
    show _ ↔ c' ∈ s.cookies.erase c ∨ c' ∈ s.redeemed ++ [c]
    rw [hg.split, Finset.mem_erase, List.mem_append, List.mem_singleton]
    constructor
    · rintro (hin | hin)
      · by_cases heq : c' = c
        · exact .inr (.inr heq)
        · exact .inl ⟨heq, hin⟩
      · exact .inr (.inl hin)
    · rintro (⟨-, hin⟩ | hin | rfl)
      · exact .inl hin
      · exact .inr hin
      · exact .inl hc
  once := by
    obtain ⟨hnodup, hout⟩ := hg.once
    have hnew : c ∉ s.redeemed := fun hin => hout c hin hc
    refine ⟨?_, fun c' hc' => ?_⟩
    · show (s.redeemed ++ [c]).Nodup
      rw [← List.concat_eq_append]
      exact hnodup.concat hnew
    · show c' ∉ s.cookies.erase c
      rcases List.mem_append.mp hc' with hc' | hc'
      · exact fun hin => hout c' hc' (Finset.mem_of_mem_erase hin)
      · rw [List.mem_singleton.mp hc']
        exact Finset.notMem_erase c s.cookies
  redeemed c' hc' := by
    rcases List.mem_append.mp hc' with hc' | hc'
    · obtain ⟨d', hd', hp'⟩ := hg.redeemed c' hc'
      exact ⟨d', List.mem_append_left _ hd', hp'⟩
    · rw [List.mem_singleton.mp hc']
      exact ⟨d, List.mem_append_right _ (List.mem_singleton_self d), hp⟩
  admitted k hk := by
    rcases UnorderedMap.mem_keys_set.mp hk with rfl | hk
    · obtain ⟨hissued, hfirst⟩ := (hg.out hs c).mp hc
      exact ⟨ds, d, [], c, rfl, rfl, hp, hissued, hfirst⟩
    · exact (hg.admitted k hk).append d
  paid := by
    show (s.workers.set h d.connId _).size ≤ (s.redeemed ++ [c]).length
    have hpaid := hg.paid
    rw [List.length_append, List.length_singleton]
    by_cases hk : d.connId ∈ s.workers.keys
    · rw [UnorderedMap.size_set_of_mem h _ hk]
      omega
    · rw [UnorderedMap.size_set_of_not_mem h _ hk]
      omega
  sameKeys k := by
    show k ∈ (s.workerInfo.set h d.connId info).keys ↔ k ∈ (s.workers.set h d.connId _).keys
    rw [UnorderedMap.mem_keys_set, UnorderedMap.mem_keys_set, hg.sameKeys]
  sent k hk := by
    refine UnorderedMap.mem_keys_set.mpr ?_
    by_contra hnot
    obtain ⟨hne, hout⟩ := not_or.mp hnot
    refine hk ?_
    show sentTo k (s.requests ++ [.send d.connId _]) = []
    rw [sentTo_append, sentTo_send, if_neg (Ne.symm hne), List.append_nil]
    by_contra hsent
    exact hout (hg.sent k hsent)
  told := by
    have htold := hg.told
    have hs' : (s.register h d.connId c info).currentState = .firstconnection := hs
    rw [announced_firstconnection hs] at htold
    rw [announced_firstconnection hs']
    exact htold

/-- **The last worker** is entered. -/
theorem Guarded.announce (hg : s.Guarded issued ds) (hs : s.currentState = .firstconnection) :
    s.announce.Guarded issued ds where
  out hs' := by cases hs'
  split := hg.split
  once := hg.once
  redeemed := hg.redeemed
  admitted := hg.admitted
  paid := hg.paid
  sameKeys := hg.sameKeys
  sent k hk := by
    show k ∈ s.workers.keys
    by_contra hout
    refine hk ?_
    show sentTo k (s.requests ++ s.workers.keys.map _ ++ [.stop]) = []
    rw [sentTo_append, sentTo_append, sentTo_broadcast k _ s.workers.nodup_keys, if_neg hout]
    have hnone : sentTo k s.requests = [] := by
      by_contra hsent
      exact hout (hg.sent k hsent)
    rw [hnone]
    rfl
  told := by
    have htold := hg.told
    rw [announced_firstconnection hs] at htold
    show s.broadcasts ++ [_] = [_]
    rw [htold]
    rfl

/-- **One call of `receive`**, with any bytes on any connection. -/
theorem hear_guarded (hg : s.Guarded issued ds) (haddr : s.workerInfo.Unaddressed) (d : Incoming) :
    (s.hear h d).Guarded issued (ds ++ [d]) := by
  rw [hear_eq, Incoming.introduction?]
  cases hp : presented d.buf.bytes with
  | none => exact hg.ignored fun _ c _ => by rw [hp]; exact fun h => by cases h
  | some c =>
    show (s.arrive h _).Guarded _ _
    rw [arrive_eq h _ haddr]
    cases hs : s.currentState with
    | peersinfo =>
      rw [onMessage_peersinfo hs]
      exact hg.ignored fun hs' => absurd (hs.symm.trans hs') (by decide)
    | firstconnection =>
      rw [onMessage_firstconnection hs]
      by_cases hc : c ∈ s.cookies
      · have hreg := hg.register (h := h) hs hp hc d.msg.workerInfo
        have hlegal : s.received h d.connId c d.msg.workerInfo = _ := received_legal hc
        show (s.received h d.connId c d.msg.workerInfo).Guarded _ _
        rw [hlegal]
        split
        · exact hreg.announce hs
        · exact hreg
      · have hdis := (hg.ignored (d := d) fun _ c' hc' heq =>
          hc (Option.some.inj (hp.symm.trans heq) ▸ hc')).disconnect d.connId
        show (s.received h d.connId c d.msg.workerInfo).Guarded _ _
        rw [received, if_neg hc]
        split
        · exact hdis.announce hs
        · exact hdis

theorem new_guarded (workerSize : Nat) (draw : Nat → FirstConCookie) :
    (new workerSize draw).Guarded ((Finset.range workerSize).image draw) [] where
  out _ c := by
    rw [new_cookies]
    exact ⟨fun hc => ⟨hc, fun d hd => absurd hd List.not_mem_nil⟩, fun hc => hc.1⟩
  split c := by
    rw [new_cookies]
    exact ⟨.inl, fun hc => hc.resolve_right List.not_mem_nil⟩
  once := ⟨List.nodup_nil, fun c hc => absurd hc List.not_mem_nil⟩
  redeemed c hc := absurd hc List.not_mem_nil
  admitted k hk := absurd hk List.not_mem_nil
  paid := Nat.le_refl 0
  sameKeys k := Iff.rfl
  sent k hk := absurd rfl hk
  told := rfl

theorem run_guarded (h : Rehash) (workerSize : Nat) (draw : Nat → FirstConCookie) (ds : List Incoming) :
    (run (hear h) (new workerSize draw) ds).Guarded ((Finset.range workerSize).image draw) ds ∧
      (run (hear h) (new workerSize draw) ds).workerInfo.Unaddressed :=
  run_history (J := fun ds (s : CoordinatorServer) => s.Guarded _ ds ∧ s.workerInfo.Unaddressed)
    ⟨new_guarded workerSize draw, nofun⟩
    (fun _ _ d ⟨hg, haddr⟩ => ⟨hear_guarded hg haddr d, hear_unaddressed h d haddr⟩) ds

/-- **Nobody gets in without a cookie.** Whatever bytes come in, on whatever connections, in whatever order:
the cookies redeemed are different cookies that were issued, and with those that are out they are all of them;
a connection is entered, answered and told of the others only if it was the first to present some cookie that
was issued; each entry has cost a cookie; and the peers are broadcast at most once. -/
theorem onlyAdmitted (h : Rehash) (workerSize : Nat) (draw : Nat → FirstConCookie) (ds : List Incoming) :
    (run (hear h) (new workerSize draw) ds).Guarded ((Finset.range workerSize).image draw) ds :=
  (run_guarded h workerSize draw ds).1

end CoordinatorServer

/-! ## Registering among strangers -/

/-- No connection presents two of the issued cookies. -/
def OneCookieEach (issued : Finset FirstConCookie) (ds : List Incoming) : Prop :=
  ∀ d ∈ ds, ∀ d' ∈ ds, d.connId = d'.connId → ∀ c ∈ issued, ∀ c' ∈ issued,
    presented d.buf.bytes = some c → presented d'.buf.bytes = some c' → c = c'

namespace CoordinatorServer

/-- The answer, and what is broadcast. -/
def reply : List UInt8 := MsgClass.firsconnectionOK.bytes ()

/-- What the coordinator has done after calls in which no connection presents two cookies. -/
structure Fair (issued : Finset FirstConCookie) (ds : List Incoming) (s : CoordinatorServer) : Prop where
  guarded : s.Guarded issued ds
  filling : s.Filling
  full : s.currentState = .peersinfo → s.cookies = ∅
  letIn : ∀ k, Admitted issued ds k → k ∈ s.workers.keys
  answered : ∀ k, sentTo k s.requests = if k ∈ s.workers.keys then reply :: s.broadcasts else []

variable {h : Rehash} {s : CoordinatorServer} {issued : Finset FirstConCookie} {ds : List Incoming}
  {d : Incoming} {c : FirstConCookie}

/-- A connection with a cookie that is out has not redeemed one. -/
theorem Guarded.firstCookie (hg : s.Guarded issued ds) (hone : OneCookieEach issued (ds ++ [d]))
    (hs : s.currentState = .firstconnection) (hp : presented d.buf.bytes = some c) (hc : c ∈ s.cookies) :
    d.connId ∉ s.workers.keys := by
  intro hkey
  obtain ⟨hissued, hfirst⟩ := (hg.out hs c).mp hc
  obtain ⟨before, d', after, c', rfl, hk, hp', hissued', -⟩ := hg.admitted _ hkey
  have hd' : d' ∈ before ++ d' :: after := List.mem_append_right _ List.mem_cons_self
  have heq := hone d (List.mem_append_right _ (List.mem_singleton_self d)) d' (List.mem_append_left _ hd') hk.symm
    c hissued c' hissued' hp hp'
  exact hfirst d' hd' (heq ▸ hp')

/-- Whoever is admitted now presents a cookie that is out. -/
theorem Fair.admitted_concat (hf : s.Fair issued ds) {k : ConnId} (hk : Admitted issued (ds ++ [d]) k) :
    k ∈ s.workers.keys ∨ s.currentState = .firstconnection ∧ k = d.connId ∧
      ∃ c ∈ s.cookies, presented d.buf.bytes = some c := by
  obtain ⟨before, d', after, c, hds, rfl, hp, hissued, hfirst⟩ := hk
  rcases concat_eq_append_cons.mp hds with ⟨rfl, rfl, -⟩ | ⟨rest, -, hds⟩
  · cases hs : s.currentState with
    | firstconnection => exact .inr ⟨rfl, rfl, c, (hf.guarded.out hs c).mpr ⟨hissued, hfirst⟩, hp⟩
    | peersinfo =>
      have hredeemed : c ∈ s.redeemed := by
        refine ((hf.guarded.split c).mp hissued).resolve_left fun hc => ?_
        rw [hf.full hs] at hc
        exact absurd hc (Finset.notMem_empty c)
      obtain ⟨d'', hd'', hp''⟩ := hf.guarded.redeemed c hredeemed
      exact absurd hp'' (hfirst d'' hd'')
  · exact .inl (hf.letIn _ ⟨before, d', rest, c, hds, rfl, hp, hissued, hfirst⟩)

/-- A call that lets nobody in. -/
theorem Fair.same (hf : s.Fair issued ds) {s' : CoordinatorServer} (hg : s'.Guarded issued (ds ++ [d]))
    (hnone : s.currentState = .firstconnection → ∀ c ∈ s.cookies, presented d.buf.bytes ≠ some c)
    (hfill : s'.Filling) (hstate : s'.currentState = s.currentState) (hcookies : s'.cookies = s.cookies)
    (hworkers : s'.workers = s.workers) (hbroadcasts : s'.broadcasts = s.broadcasts)
    (hrequests : ∀ k, sentTo k s'.requests = sentTo k s.requests) : s'.Fair issued (ds ++ [d]) where
  guarded := hg
  filling := hfill
  full hs := by rw [hcookies]; exact hf.full (hstate ▸ hs)
  letIn k hk := by
    rw [hworkers]
    refine (hf.admitted_concat hk).resolve_right ?_
    rintro ⟨hs, -, c, hc, hp⟩
    exact hnone hs c hc hp
  answered k := by rw [hrequests, hworkers, hbroadcasts, hf.answered]

/-- One more worker. -/
theorem Fair.registered (hf : s.Fair issued ds) (hs : s.currentState = .firstconnection)
    (hkey : d.connId ∉ s.workers.keys) (info : WorkerInfo) :
    (∀ k, Admitted issued (ds ++ [d]) k → k ∈ (s.register h d.connId c info).workers.keys) ∧
      ∀ k, sentTo k (s.register h d.connId c info).requests =
        if k ∈ (s.register h d.connId c info).workers.keys then [reply] else [] := by
  refine ⟨fun k hk => UnorderedMap.mem_keys_set.mpr ?_, fun k => ?_⟩
  · rcases hf.admitted_concat hk with hk | ⟨-, hk, -⟩
    · exact .inr hk
    · exact .inl hk
  · have hnone : s.broadcasts = [] := hf.guarded.told.trans (announced_firstconnection hs)
    have hsent := hf.answered k
    have hmem : k ∈ (s.register h d.connId c info).workers.keys ↔ k = d.connId ∨ k ∈ s.workers.keys :=
      UnorderedMap.mem_keys_set
    rw [hnone] at hsent
    show sentTo k (s.requests ++ [.send d.connId reply]) = _
    rw [sentTo_append, hsent, sentTo_send]
    by_cases hk : d.connId = k
    · subst hk
      rw [if_neg hkey, if_pos rfl, if_pos (hmem.mpr (.inl rfl))]
      rfl
    · by_cases hin : k ∈ s.workers.keys
      · rw [if_pos hin, if_neg hk, if_pos (hmem.mpr (.inr hin))]
        rfl
      · rw [if_neg hin, if_neg hk, if_neg fun hin' => (hmem.mp hin').elim (fun heq => hk heq.symm) hin]
        rfl

/-- **One call of `receive`**, by somebody who presents no second cookie. -/
theorem hear_fair (hf : s.Fair issued ds) (hone : OneCookieEach issued (ds ++ [d])) :
    (s.hear h d).Fair issued (ds ++ [d]) := by
  have hg := hear_guarded (h := h) hf.guarded hf.filling.unaddressed d
  rw [hear_eq, Incoming.introduction?] at hg ⊢
  cases hp : presented d.buf.bytes with
  | none =>
    rw [hp] at hg
    exact hf.same hg (fun _ c _ => by rw [hp]; exact fun h => (by cases h)) hf.filling rfl rfl rfl rfl fun _ => rfl
  | some c =>
    rw [hp] at hg
    have hfill : (s.arrive h { Arrival.introduction d.connId c with msg := d.msg, fresh := d.fresh }).Filling :=
      arrive_filling s _ hf.filling fun hs hc => hf.guarded.firstCookie hone hs hp hc
    have hnew : s.currentState = .firstconnection → c ∉ s.cookies →
        ∀ c' ∈ s.cookies, presented d.buf.bytes ≠ some c' :=
      fun _ hc c' hc' heq => hc (Option.some.inj (hp.symm.trans heq) ▸ hc')
    have harrive : s.arrive h { Arrival.introduction d.connId c with msg := d.msg, fresh := d.fresh } =
        s.onMessage h d.connId c d.msg.workerInfo := arrive_eq h _ hf.filling.unaddressed
    change (s.arrive h _).Guarded _ _ at hg
    show (s.arrive h _).Fair _ _
    rw [harrive] at hg hfill ⊢
    cases hs : s.currentState with
    | peersinfo =>
      rw [onMessage_peersinfo hs] at hg hfill ⊢
      exact hf.same hg (fun hs' => absurd (hs.symm.trans hs') (by decide)) hfill rfl rfl rfl rfl fun _ => rfl
    | firstconnection =>
      obtain ⟨hsum, hlt, -⟩ := hf.filling.filling hs
      rw [onMessage_firstconnection hs] at hg hfill ⊢
      by_cases hc : c ∈ s.cookies
      · have hkey := hf.guarded.firstCookie hone hs hp hc
        have hsize : (s.workers.set h d.connId ⟨d.connId, false⟩).size = s.workers.size + 1 :=
          UnorderedMap.size_set_of_not_mem h _ hkey
        have hcard : (s.cookies.erase c).card + 1 = s.cookies.card := Finset.card_erase_add_one hc
        have hnone : s.broadcasts = [] := hf.guarded.told.trans (announced_firstconnection hs)
        obtain ⟨hin, hanswer⟩ := hf.registered (h := h) (c := c) hs hkey d.msg.workerInfo
        rw [received_legal hc] at hg hfill ⊢
        split at hg
        · rename_i hall
          rw [if_pos hall] at hfill ⊢
          refine ⟨hg, hfill, fun _ => ?_, hin, fun k => ?_⟩
          · apply Finset.card_eq_zero.mp
            show (s.cookies.erase c).card = 0
            omega
          · show sentTo k ((s.register h d.connId c d.msg.workerInfo).requests ++
              (s.register h d.connId c d.msg.workerInfo).workers.keys.map _ ++ [.stop]) =
              if k ∈ (s.register h d.connId c d.msg.workerInfo).workers.keys then reply :: (s.broadcasts ++ _) else []
            rw [sentTo_append, sentTo_append, hanswer,
              sentTo_broadcast k _ (s.register h d.connId c d.msg.workerInfo).workers.nodup_keys, hnone]
            by_cases hk : k ∈ (s.register h d.connId c d.msg.workerInfo).workers.keys
            · rw [if_pos hk, if_pos hk, if_pos hk]
              rfl
            · rw [if_neg hk, if_neg hk, if_neg hk]
              rfl
        · rename_i hmore
          rw [if_neg hmore] at hfill ⊢
          refine ⟨hg, hfill, fun hs' => absurd (hs.symm.trans hs') (by decide), hin, fun k => ?_⟩
          show _ = if _ then reply :: s.broadcasts else []
          rw [hnone, hanswer]
      · rw [received_illegal hc (Nat.ne_of_lt hlt)] at hg hfill ⊢
        refine hf.same hg (fun hs => hnew hs hc) hfill rfl rfl rfl rfl fun k => ?_
        show sentTo k (s.requests ++ [.disconnect d.connId]) = _
        rw [sentTo_append]
        exact List.append_nil _

theorem new_fair {workerSize : Nat} {draw : Nat → FirstConCookie} (hpos : 0 < workerSize)
    (hdistinct : ∀ i < workerSize, ∀ j < workerSize, draw i = draw j → i = j) :
    (new workerSize draw).Fair ((Finset.range workerSize).image draw) [] where
  guarded := new_guarded workerSize draw
  filling := new_filling hpos hdistinct
  full hs := by cases hs
  letIn k := by
    rintro ⟨before, d, after, c, hds, -⟩
    exact absurd hds.symm (List.append_ne_nil_of_right_ne_nil before (List.cons_ne_nil d after))
  answered k := rfl

theorem OneCookieEach.before {issued : Finset FirstConCookie} {ds : List Incoming} {d : Incoming}
    (hone : OneCookieEach issued (ds ++ [d])) : OneCookieEach issued ds :=
  fun d₁ h₁ d₂ h₂ => hone d₁ (List.mem_append_left _ h₁) d₂ (List.mem_append_left _ h₂)

/-- The peers are broadcast once all cookies have been presented. -/
theorem Fair.peersinfo_iff {workerSize : Nat} {draw : Nat → FirstConCookie}
    (hf : s.Fair ((Finset.range workerSize).image draw) ds) :
    s.currentState = .peersinfo ↔ ∀ i < workerSize, ∃ d ∈ ds, presented d.buf.bytes = some (draw i) := by
  constructor
  · intro hs i hi
    have hissued : draw i ∈ (Finset.range workerSize).image draw :=
      Finset.mem_image_of_mem draw (Finset.mem_range.mpr hi)
    refine hf.guarded.redeemed _ (((hf.guarded.split _).mp hissued).resolve_left fun hc => ?_)
    rw [hf.full hs] at hc
    exact Finset.notMem_empty _ hc
  · intro hall
    cases hs : s.currentState with
    | peersinfo => rfl
    | firstconnection =>
      obtain ⟨hsum, hlt, -⟩ := hf.filling.filling hs
      have hnone : s.cookies = ∅ := by
        apply Finset.eq_empty_of_forall_notMem
        intro c hc
        obtain ⟨hissued, hfirst⟩ := (hf.guarded.out hs c).mp hc
        obtain ⟨i, hi, rfl⟩ := Finset.mem_image.mp hissued
        obtain ⟨d, hd, hp⟩ := hall i (Finset.mem_range.mp hi)
        exact hfirst d hd hp
      rw [hnone, Finset.card_empty] at hsum
      omega

theorem run_fair (h : Rehash) {workerSize : Nat} {draw : Nat → FirstConCookie} (hpos : 0 < workerSize)
    (hdistinct : ∀ i < workerSize, ∀ j < workerSize, draw i = draw j → i = j) {ds : List Incoming}
    (hone : OneCookieEach ((Finset.range workerSize).image draw) ds) :
    (run (hear h) (new workerSize draw) ds).Fair ((Finset.range workerSize).image draw) ds :=
  run_history (J := fun ds (s : CoordinatorServer) =>
      OneCookieEach ((Finset.range workerSize).image draw) ds → s.Fair ((Finset.range workerSize).image draw) ds)
    (fun _ => new_fair hpos hdistinct) (fun _ _ _ hf hone => hear_fair (hf (OneCookieEach.before hone)) hone) ds hone

/-- **A registration among strangers.** At least one worker is waited for, and no connection presents two of the
cookies. However many other connections there are and whatever bytes come in, after any sequence of calls of
`receive`, those that throw included: the coordinator has broadcast the peers **iff** every cookie it issued has
been presented; the connections entered are those that were the first to present one; each of these has been
answered once and then been sent what was broadcast, and no other has been sent anything. -/
theorem completes (h : Rehash) {workerSize : Nat} {draw : Nat → FirstConCookie} (hpos : 0 < workerSize)
    (hdistinct : ∀ i < workerSize, ∀ j < workerSize, draw i = draw j → i = j) {ds : List Incoming}
    (hone : OneCookieEach ((Finset.range workerSize).image draw) ds) :
    let s := run (hear h) (new workerSize draw) ds
    (s.currentState = .peersinfo ↔ ∀ i < workerSize, ∃ d ∈ ds, presented d.buf.bytes = some (draw i)) ∧
      (∀ k, k ∈ s.workers.keys ↔ Admitted ((Finset.range workerSize).image draw) ds k) ∧
      (∀ k, sentTo k s.requests = if k ∈ s.workers.keys then reply :: s.broadcasts else []) ∧
      s.broadcasts = s.announced := by
  intro s
  have hfair : s.Fair ((Finset.range workerSize).image draw) ds := run_fair h hpos hdistinct hone
  exact ⟨hfair.peersinfo_iff, fun k => ⟨hfair.guarded.admitted k, hfair.letIn k⟩, hfair.answered, hfair.guarded.told⟩

section Example
variable {bytes : List UInt8}

theorem fits_zero (hlength : bytes.length < 2 ^ 63) : 0 + bytes.length < 2 ^ 64 := by
  omega

theorem low_zero (hlength : bytes.length < 2 ^ 63) : Low ⟨0, bytes, fits_zero hlength⟩ := by
  unfold Low
  simp only
  omega

theorem fresh_firsconnection : MsgClass.firsconnection.Fresh (Ty.inits _) :=
  Ty.freshes_inits _

/-- A message at address 0. -/
def incoming (connId : ConnId) (bytes : List UInt8) (hlength : bytes.length < 2 ^ 63) : Incoming where
  connId
  buf := ⟨0, bytes, fits_zero hlength⟩
  low := low_zero hlength
  msg := Ty.inits _
  fresh := fresh_firsconnection

/-- A stranger says something, and a worker introduces itself. -/
def strangerAndWorker : List Incoming :=
  [incoming 5 [0, 1, 2] (by decide), incoming 0 (List.replicate 17 0) (by decide)]

/-- The worker is registered. -/
theorem completes_stranger :
    (run (hear inOrder) (new 1 uniformCookie) strangerAndWorker).currentState = .peersinfo := by
  refine (completes inOrder (by decide) (by omega) ?_).1.mpr ?_
  · unfold OneCookieEach
    decide
  · decide

end Example

end CoordinatorServer
end Thallium
