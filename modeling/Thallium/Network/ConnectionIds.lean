import Thallium.Network.ConnectionManager

/-!
# The ids of connections, given and assigned (connection.hpp:148-167)

Any sequence of `new_connection` calls, some with an id and some without. A negative id is none: the next id
after that of the last call is assigned, whether that one was given, assigned or refused.

| here | there |
| --- | --- |
| `NewConnection`          | one call, with what its connection finds |
| `requestedId`            | `conn_id`, from the calls alone |

* `connectionIds_step` — what the manager holds and which id is next, after calls that went well.
* `keptIds_iff` — one call after such calls.
* `throughout_keptIds_iff` — the sequences of calls in which ids are kept apart.
-/
namespace Thallium.Network
open EventRun

structure NewConnection where
  address : String × Int32
  peer : Except Exception Peer
  givenId : Int32

/-- The id after that of the last call. -/
def following (ids : List Int32) : Int32 :=
  match ids.getLast? with
  | some id => id + 1
  | none => 0

/-- The id of a call after calls for the ids `ids`. -/
def requestedId (ids : List Int32) (givenId : Int32) : Int32 :=
  if 0 ≤ givenId then givenId else following ids

/-- The ids the calls are for, given and counted on. -/
def requestedIds (calls : List NewConnection) : List Int32 :=
  calls.foldl (fun ids c => ids ++ [requestedId ids c.givenId]) []

/-- An id that an earlier call was for is given again by the very next call, and the peer of a new one is
still there. -/
def Apart (before : List NewConnection) (c : NewConnection) : Prop :=
  if requestedId (requestedIds before) c.givenId ∈ requestedIds before then
    (requestedIds before).getLast? = some (requestedId (requestedIds before) c.givenId)
  else c.peer.isOk = true

namespace RealConnectionManager

def exec (c : NewConnection) : EStateM Fault RealConnectionManager Unit :=
  newConnection c.address c.peer c.givenId

/-- A call that raises leaves what it has done so far. -/
def step (m : RealConnectionManager) (c : NewConnection) : RealConnectionManager :=
  match exec c m with
  | .ok _ m' => m'
  | .error _ m' => m'

/-- What a call should do with the ids. -/
structure KeptIds (m : RealConnectionManager) (c : NewConnection) : Prop where
  /-- An assigned id is not held. -/
  assigned : c.givenId < 0 → m.connId c.givenId ∉ m.holdings
  /-- Only a given id that is held is refused. -/
  refused : ∀ e m', exec c m = .error e m' → 0 ≤ c.givenId ∧ c.givenId ∈ m.holdings
  /-- A call that raises changes nothing. -/
  unchanged : ∀ e m', exec c m = .error e m' → m'.holdings = m.holdings ∧ m'.nextId = m.nextId

/-- After calls that went well: an id is held if a call was for it, and the one after the last is next. -/
structure ConnectionIds (before : List NewConnection) (m : RealConnectionManager) : Prop where
  held : ∀ id, id ∈ m.holdings ↔ id ∈ requestedIds before
  next : m.nextId = following (requestedIds before)

/-! ## One call -/

section Calls
variable {before : List NewConnection} {m : RealConnectionManager} {c : NewConnection}

theorem requestedIds_concat (before : List NewConnection) (c : NewConnection) :
    requestedIds (before ++ [c]) = requestedIds before ++ [requestedId (requestedIds before) c.givenId] := by
  rw [requestedIds, List.foldl_append, ← requestedIds]
  rfl

theorem following_concat (ids : List Int32) (id : Int32) : following (ids ++ [id]) = id + 1 := by
  rw [following, List.getLast?_concat]

theorem connectionIds_new (kind : ConnKind) : ConnectionIds [] (new kind) := by
  refine ⟨?_, rfl⟩
  intro id
  exact iff_of_false Finmap.notMem_empty List.not_mem_nil

theorem ConnectionIds.connId_eq (h : ConnectionIds before m) (givenId : Int32) :
    m.connId givenId = requestedId (requestedIds before) givenId := by
  rw [connId, requestedId, h.next]

/-- The id is held, so the call raises. It leaves what was there only if the id is that of the last call. -/
theorem keptIds_held (h : ConnectionIds before m)
    (hheld : requestedId (requestedIds before) c.givenId ∈ requestedIds before) :
    KeptIds m c ↔
      (requestedIds before).getLast? = some (requestedId (requestedIds before) c.givenId) := by
  have hid := h.connId_eq c.givenId
  have hmem : m.connId c.givenId ∈ m.holdings := (h.held _).mpr (hid ▸ hheld)
  have hexec : exec c m = .error _ { m with nextId := m.connId c.givenId + 1 } :=
    newConnection_raises c.address c.peer hmem
  obtain ⟨init, last, hlast⟩ := (List.eq_nil_or_concat' (requestedIds before)).resolve_left
    (List.ne_nil_of_mem hheld)
  have hnext : m.nextId = last + 1 := by rw [h.next, hlast, following_concat]
  rw [← hid, hlast, List.getLast?_concat, Option.some.injEq]
  constructor
  · intro hkept
    have hsame : m.connId c.givenId + 1 = m.nextId := (hkept.unchanged _ _ hexec).2
    rw [hnext] at hsame
    exact (Int32.add_left_inj 1).mp hsame.symm
  · intro hsame
    have hgiven : 0 ≤ c.givenId := by
      by_contra hneg
      have hassigned : m.connId c.givenId = last + 1 := by rw [connId, if_neg hneg, hnext]
      rw [← hsame] at hassigned
      exact absurd (Int32.left_eq_add.mp hassigned) (by decide)
    refine ⟨fun hneg => absurd hgiven (Int32.not_le.mpr hneg), ?_, ?_⟩
    · intro e m' _
      have hself : m.connId c.givenId = c.givenId := if_pos hgiven
      exact ⟨hgiven, hself ▸ hmem⟩
    · intro e m' hm'
      rw [hexec] at hm'
      cases hm'
      exact ⟨rfl, by rw [← hsame, hnext]⟩

/-- The id is new, so it is the peer that decides. -/
theorem keptIds_new (h : ConnectionIds before m)
    (hnew : requestedId (requestedIds before) c.givenId ∉ requestedIds before) :
    KeptIds m c ↔ c.peer.isOk = true := by
  have hid := h.connId_eq c.givenId
  have hfree : m.connId c.givenId ∉ m.holdings := fun hin => hnew (hid ▸ (h.held _).mp hin)
  cases hpeer : c.peer with
  | error e =>
    have hexec : exec c m = .error (.raised e) { m with nextId := m.connId c.givenId + 1 } := by
      rw [exec, hpeer]
      exact newConnection_throws c.address e hfree
    refine iff_of_false ?_ Bool.false_ne_true
    intro hkept
    obtain ⟨hgiven, hin⟩ := hkept.refused _ _ hexec
    have hself : m.connId c.givenId = c.givenId := if_pos hgiven
    exact hfree (hself.symm ▸ hin)
  | ok peer =>
    obtain ⟨m₁, hexec⟩ : ∃ m₁, exec c m = .ok () m₁ := by
      rw [exec, hpeer]
      exact ⟨_, newConnection_ok c.address peer hfree⟩
    refine iff_of_true ⟨fun _ => hfree, ?_, ?_⟩ rfl
    all_goals
      intro e m' hm'
      rw [hexec] at hm'
      cases hm'

/-- **One call**, after calls that went well. -/
theorem keptIds_iff (h : ConnectionIds before m) (c : NewConnection) : KeptIds m c ↔ Apart before c := by
  rw [Apart]
  split
  · rename_i hheld
    exact keptIds_held h hheld
  · rename_i hnew
    exact keptIds_new h hnew

theorem connectionIds_step (h : ConnectionIds before m) (hc : Apart before c) :
    ConnectionIds (before ++ [c]) (step m c) := by
  have hid := h.connId_eq c.givenId
  rw [Apart] at hc
  split at hc
  · rename_i hheld
    have hmem : m.connId c.givenId ∈ m.holdings := (h.held _).mpr (hid ▸ hheld)
    have hstep : step m c = { m with nextId := m.connId c.givenId + 1 } := by
      rw [step, exec, newConnection_raises c.address c.peer hmem]
    rw [hstep]
    refine ⟨?_, ?_⟩
    · intro id
      rw [requestedIds_concat, List.mem_append, List.mem_singleton, h.held]
      exact ⟨.inl, fun hin => hin.elim (fun hin => hin) fun heq => heq ▸ hheld⟩
    · rw [requestedIds_concat, following_concat, ← hid]
  · rename_i hnew
    have hfree : m.connId c.givenId ∉ m.holdings := fun hin => hnew (hid ▸ (h.held _).mp hin)
    cases hpeer : c.peer with
    | error e =>
      rw [hpeer] at hc
      cases hc
    | ok peer =>
      rw [step, exec, hpeer, newConnection_ok c.address peer hfree]
      refine ⟨?_, ?_⟩
      · intro id
        rw [requestedIds_concat, List.mem_append, List.mem_singleton, Finmap.mem_insert, h.held, hid]
        exact or_comm
      · rw [requestedIds_concat, following_concat, ← hid]

end Calls

/-! ## Runs -/

/-- The manager after the calls `calls`. -/
def after (kind : ConnKind) (calls : List NewConnection) : RealConnectionManager :=
  run step (new kind) calls

/-- **Exact condition of ids kept apart.** In a sequence of `new_connection` calls with ids given and
assigned, no assigned id is one that is held, only a given one that is held is refused, and a refused call
changes nothing, **iff** no call is for an id that an earlier one was for, except that the very next call
gives it again, and the peer of each new id is still there. -/
theorem throughout_keptIds_iff (kind : ConnKind) (calls : List NewConnection) :
    Throughout (fun before c => KeptIds (after kind before) c) calls ↔ Throughout Apart calls := by
  apply throughout_iff (J := fun before => ConnectionIds before (after kind before))
  · exact connectionIds_new kind
  · intro before c h hc
    have hafter : after kind (before ++ [c]) = step (after kind before) c := by
      rw [after, run_append]
      rfl
    rw [hafter]
    exact connectionIds_step h hc
  · intro before c h
    exact keptIds_iff h c

section Example

def localPeer : Except Exception Peer := .ok MultiClient.peer

/-- The ids 5 and 4 are given: the id assigned next is 5 again. -/
theorem not_throughout_keptIds_backwards :
    ¬ Throughout (fun before c => KeptIds (after .client before) c)
      [⟨("127.0.0.1", 4000), localPeer, 5⟩, ⟨("127.0.0.1", 4000), localPeer, 4⟩,
        ⟨("127.0.0.1", 4000), localPeer, -1⟩] := by
  intro h
  have hkept := h [⟨("127.0.0.1", 4000), localPeer, 5⟩, ⟨("127.0.0.1", 4000), localPeer, 4⟩] _ [] rfl
  exact hkept.assigned (by decide) (by decide)

end Example

end RealConnectionManager
end Thallium.Network
