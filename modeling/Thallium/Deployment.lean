import Thallium.Admission
import Thallium.Network.RunServer

/-!
# The coordinator on the network (src/coordinator.cpp:76-130 over network/server.cpp:17-77)

A coordinator is started with `RunServer`; its port is open to everybody. What holds of the coordinator
(`Thallium.Admission`) and of a model on a server (`Thallium.Network.RunServer`) gives what whoever connects
can observe of a registration.

| here | there |
| --- | --- |
| `coordinatorModel` | `CoordinatorServer` as `ServerModel`: `receive` is `hear` |
| `FirstToPresent`   | not in the source: whose cookie it is, as far as the coordinator can see |

* `told_hasCookie` — who has been told anything has sent a cookie, and no two the same.
* `registered_atRest` — a registration among strangers, seen from the clients.
-/
namespace Thallium
open Message Serializer EventRun Network

/-! ## The coordinator as a model -/

theorem Admitted.heard {issued : Finset FirstConCookie} {ds : List Incoming} {k : ConnId}
    (hk : Admitted issued ds k) : ∃ d ∈ ds, d.connId = k := by
  obtain ⟨before, d, after, c, rfl, hk, -⟩ := hk
  exact ⟨d, List.mem_append_right _ List.mem_cons_self, hk⟩

namespace CoordinatorServer
variable {h : Rehash} {s : CoordinatorServer} {connId : ConnId} {cookie : FirstConCookie} {info : WorkerInfo}

/-- All that are entered are told, and the server is stopped. -/
theorem announce_requests (s : CoordinatorServer) :
    ∃ ext, s.announce.requests = s.requests ++ ext ∧ ∀ r ∈ ext, ∀ p, callOf r = some p → p.1 ∈ s.workers.keys := by
  set buf := MsgClass.workerInfoMap.bytes (peerMap s.workerInfo)
  have hrequests : s.announce.requests = s.requests ++ s.workers.keys.map (fun dest => .send dest buf) ++ [.stop] := rfl
  refine ⟨_, hrequests.trans (List.append_assoc ..), ?_⟩
  intro r hr p hp
  rcases List.mem_append.mp hr with hr | hr
  · obtain ⟨dest, hdest, rfl⟩ := List.mem_map.mp hr
    cases hp
    exact hdest
  · rw [List.mem_singleton.mp hr] at hp
    cases hp

/-- What is asked in a call goes to the connection it came from, or to those that are entered then. -/
theorem received_requests (h : Rehash) (s : CoordinatorServer) (connId : ConnId) (cookie : FirstConCookie)
    (info : WorkerInfo) :
    ∃ ext, (s.received h connId cookie info).requests = s.requests ++ ext ∧
      ∀ r ∈ ext, ∀ p, callOf r = some p →
        p.1 = connId ∨ p.1 ∈ (s.received h connId cookie info).workers.keys := by
  have hfirst : ∃ r, (if cookie ∈ s.cookies then s.register h connId cookie info
      else s.ask (.disconnect connId)).requests = s.requests ++ [r] ∧ ∀ p, callOf r = some p → p.1 = connId := by
    split
    · refine ⟨_, rfl, ?_⟩
      rintro p hp
      cases hp
      rfl
    · refine ⟨_, rfl, ?_⟩
      rintro p hp
      cases hp
      rfl
  obtain ⟨r, hr, haddr⟩ := hfirst
  unfold received
  generalize (if cookie ∈ s.cookies then s.register h connId cookie info
    else s.ask (.disconnect connId)) = t at hr
  simp only
  split
  · obtain ⟨ext, hext, hdest⟩ := t.announce_requests
    refine ⟨r :: ext, by rw [hext, hr, List.append_assoc]; rfl, ?_⟩
    intro r' hr' p hp
    rcases List.mem_cons.mp hr' with rfl | hr'
    · exact .inl (haddr p hp)
    · exact .inr (hdest r' hr' p hp)
  · refine ⟨[r], hr, ?_⟩
    intro r' hr' p hp
    rw [List.mem_singleton.mp hr'] at hp
    exact .inl (haddr p hp)

/-- **One call of `receive`**, with any bytes. -/
theorem hear_requests (h : Rehash) (haddr : s.workerInfo.Unaddressed) (d : Incoming) :
    ∃ ext, (s.hear h d).requests = s.requests ++ ext ∧
      ∀ r ∈ ext, ∀ p, callOf r = some p → p.1 = d.connId ∨ p.1 ∈ (s.hear h d).workers.keys := by
  have hnothing : ∃ ext, s.requests = s.requests ++ ext ∧
      ∀ r ∈ ext, ∀ p, callOf r = some p → p.1 = d.connId ∨ p.1 ∈ s.workers.keys :=
    ⟨[], (List.append_nil _).symm, fun r hr => absurd hr List.not_mem_nil⟩
  rw [hear_eq, Incoming.introduction?]
  cases presented d.buf.bytes with
  | none => exact hnothing
  | some c =>
    simp only [Option.map_some, Option.toList_some, run, arrive_eq h _ haddr]
    cases hs : s.currentState with
    | peersinfo =>
      rw [onMessage_peersinfo hs]
      exact hnothing
    | firstconnection =>
      rw [onMessage_firstconnection hs]
      exact received_requests ..

/-- What has been asked for stays asked for. -/
theorem run_requests_prefix (h : Rehash) (workerSize : Nat) (draw : Nat → FirstConCookie) (ds : List Incoming)
    (d : Incoming) :
    (run (hear h) (new workerSize draw) ds).requests <+:
      ((run (hear h) (new workerSize draw) ds).hear h d).requests := by
  obtain ⟨ext, hext, -⟩ := hear_requests h (run_guarded h workerSize draw ds).2 d
  exact ⟨ext, hext.symm⟩

/-- It asks something of connections only that it has heard of. -/
theorem run_addressed (h : Rehash) (workerSize : Nat) (draw : Nat → FirstConCookie) (ds : List Incoming) :
    ∀ r ∈ (run (hear h) (new workerSize draw) ds).requests, ∀ p, callOf r = some p → ∃ d ∈ ds, d.connId = p.1 := by
  refine (run_history (J := fun ds (s : CoordinatorServer) =>
    (s.Guarded ((Finset.range workerSize).image draw) ds ∧ s.workerInfo.Unaddressed) ∧
      ∀ r ∈ s.requests, ∀ p, callOf r = some p → ∃ d ∈ ds, d.connId = p.1) ?_ ?_ ds).2
  · exact ⟨run_guarded h workerSize draw [], fun r hr => absurd hr List.not_mem_nil⟩
  · rintro ds s d ⟨⟨hg, hun⟩, haddr⟩
    have hg' := hear_guarded (h := h) hg hun d
    refine ⟨⟨hg', hear_unaddressed h d hun⟩, fun r hr p hp => ?_⟩
    obtain ⟨ext, hext, hdest⟩ := hear_requests h hun d
    rw [hext] at hr
    rcases List.mem_append.mp hr with hr | hr
    · obtain ⟨d', hd', hk⟩ := haddr r hr p hp
      exact ⟨d', List.mem_append_left _ hd', hk⟩
    · rcases hdest r hr p hp with hk | hk
      · exact ⟨d, List.mem_append_right _ (List.mem_singleton_self d), hk.symm⟩
      · exact (hg'.admitted _ hk).heard

end CoordinatorServer

/-- `CoordinatorServer` on top of a server. -/
def coordinatorModel (h : Rehash) (workerSize : Nat) (draw : Nat → FirstConCookie) :
    ServerModel CoordinatorServer where
  Call := Incoming
  connId := Incoming.connId
  bytes d := d.buf.bytes
  init := .new workerSize draw
  receive := .hear h
  requests := CoordinatorServer.requests
  requests_prefix := CoordinatorServer.run_requests_prefix h workerSize draw
  addressed := CoordinatorServer.run_addressed h workerSize draw

/-! ## Whose cookie it is -/

/-- `d` is the first message that presents the cookie `c`. -/
def FirstToPresent (ds : List Incoming) (c : FirstConCookie) (d : Incoming) : Prop :=
  ds.find? (fun d => presented d.buf.bytes = some c) = some d

section FirstToPresent
variable {ds : List Incoming} {c : FirstConCookie} {d : Incoming} {k : ConnId} {issued : Finset FirstConCookie}

theorem FirstToPresent.presents (h : FirstToPresent ds c d) : d ∈ ds ∧ presented d.buf.bytes = some c :=
  ⟨List.mem_of_find?_eq_some h, by simpa using List.find?_some h⟩

theorem exists_firstToPresent (hd : d ∈ ds) (hp : presented d.buf.bytes = some c) : ∃ d', FirstToPresent ds c d' := by
  have hsome : (ds.find? fun d => presented d.buf.bytes = some c).isSome = true :=
    List.find?_isSome.mpr ⟨d, hd, by simpa using hp⟩
  exact Option.isSome_iff_exists.mp hsome

/-- Whom the coordinator may talk to. -/
theorem admitted_iff : Admitted issued ds k ↔ ∃ c ∈ issued, ∃ d, FirstToPresent ds c d ∧ d.connId = k := by
  constructor
  · rintro ⟨before, d, after, c, rfl, hk, hp, hissued, hfirst⟩
    refine ⟨c, hissued, d, ?_, hk⟩
    rw [FirstToPresent, List.find?_eq_some_iff_append]
    exact ⟨by simpa using hp, before, after, rfl, fun d' hd' => by simpa using hfirst d' hd'⟩
  · rintro ⟨c, hissued, d, hfirst, hk⟩
    obtain ⟨hp, before, after, hds, hbefore⟩ := List.find?_eq_some_iff_append.mp hfirst
    exact ⟨before, d, after, c, hds, hk, by simpa using hp, hissued, fun d' hd' => by simpa using hbefore d' hd'⟩

end FirstToPresent

/-! ## Registering over the network -/

namespace Network.Served
variable {C : Type} {h : Rehash} {workerSize : Nat} {draw : Nat → FirstConCookie}
  {d : Served C (coordinatorModel h workerSize draw)} {kinds : C → Side → ConnKind} {c : C}

/-- A client has handed a message to `async_write` that presents a cookie. -/
def Presents (d : Served C (coordinatorModel h workerSize draw)) (c : C) (cookie : FirstConCookie) : Prop :=
  ∃ msg ∈ messages (d.sessions.clients c).conn.send.written, presented msg = some cookie

/-- Nothing is too long to be sent. -/
structure Short (d : Served C (coordinatorModel h workerSize draw)) : Prop where
  clients : ∀ c, ∀ msg ∈ messages (d.sessions.clients c).conn.send.written, msg.length < 2 ^ 32
  coordinator : ∀ c, ∀ msg ∈ d.saidTo c, msg.length < 2 ^ 32

/-- What the coordinator has heard, some client has written. -/
theorem Inv.heard_written (hi : d.Inv kinds) (hshort : d.Short) {call : Incoming} (hcall : call ∈ d.heard) :
    ∃ c id, d.sessions.session c = some id ∧ id.toBitVec = call.connId ∧
      call.buf.bytes ∈ messages (d.sessions.clients c).conn.send.written := by
  obtain ⟨c, hc⟩ := hi.known call hcall
  obtain ⟨id, hid, hk⟩ := (hi.clientOf _ c).mp hc
  refine ⟨c, id, hid, hk, (hi.heardFrom_prefix (hshort.clients c)).subset ?_⟩
  rw [heardFrom, hid]
  exact List.mem_map.mpr ⟨call, List.mem_filter.mpr ⟨hcall, by simpa using hk.symm⟩, rfl⟩

theorem Inv.guarded (hi : d.Inv kinds) : d.model.Guarded ((Finset.range workerSize).image draw) d.heard := by
  rw [hi.model]
  exact (CoordinatorServer.run_guarded h workerSize draw d.heard).1

/-- The coordinator has a client in its map of the peers. -/
def Entered (d : Served C (coordinatorModel h workerSize draw)) (c : C) : Prop :=
  ∃ id, d.sessions.session c = some id ∧ id.toBitVec ∈ d.model.workerInfo.keys

/-- **Whoever is entered** has been the first to present some cookie that was issued. -/
theorem Inv.key_first (hi : d.Inv kinds) (hshort : d.Short) {k : ConnId} (hkey : k ∈ d.model.workerInfo.keys) :
    ∃ c id, d.sessions.session c = some id ∧ id.toBitVec = k ∧
      ∃ cookie ∈ (Finset.range workerSize).image draw, d.Presents c cookie ∧
        ∃ call, FirstToPresent d.heard cookie call ∧ call.connId = k := by
  have hadmitted := hi.guarded.admitted k ((hi.guarded.sameKeys k).mp hkey)
  obtain ⟨cookie, hissued, call, hfirst, rfl⟩ := admitted_iff.mp hadmitted
  obtain ⟨hcall, hp⟩ := hfirst.presents
  obtain ⟨c, id, hid, hk, hwritten⟩ := hi.heard_written hshort hcall
  exact ⟨c, id, hid, hk, cookie, hissued, ⟨_, hwritten, hp⟩, call, hfirst, rfl⟩

theorem Inv.entered_first (hi : d.Inv kinds) (hshort : d.Short) (hentered : d.Entered c) :
    ∃ cookie ∈ (Finset.range workerSize).image draw, d.Presents c cookie ∧
      ∃ call id, FirstToPresent d.heard cookie call ∧ d.sessions.session c = some id ∧
        id.toBitVec = call.connId := by
  obtain ⟨id, hid, hkey⟩ := hentered
  obtain ⟨c', id', hid', hk, cookie, hissued, hp, call, hfirst, hcall⟩ := hi.key_first hshort hkey
  have hc : c' = c := hi.sessions.apart c' c id (Int32.toBitVec_inj.mp hk ▸ hid') hid
  subst hc
  exact ⟨cookie, hissued, hp, call, id, hfirst, hid, hcall.symm⟩

/-- Whoever is told anything is entered. -/
theorem Inv.told_entered (hi : d.Inv kinds) (hshort : d.Short)
    (htold : (d.sessions.clients c).conn.recv.delivered ≠ []) : d.Entered c := by
  obtain ⟨msg, hmsg⟩ := List.exists_mem_of_ne_nil _ htold
  have hsaid := hi.told (hshort.coordinator c) hmsg
  rw [saidTo] at hsaid
  cases hs : d.sessions.session c with
  | none =>
    rw [hs] at hsaid
    cases hsaid
  | some id =>
    rw [hs] at hsaid
    have hkey := hi.guarded.sent id.toBitVec (List.ne_nil_of_mem hsaid)
    exact ⟨id, hs, (hi.guarded.sameKeys _).mpr hkey⟩

/-- No client presents two of the issued cookies. -/
def OneCookie (d : Served C (coordinatorModel h workerSize draw)) : Prop :=
  ∀ c, ∀ cookie ∈ (Finset.range workerSize).image draw, ∀ cookie' ∈ (Finset.range workerSize).image draw,
    d.Presents c cookie → d.Presents c cookie' → cookie = cookie'

theorem Inv.oneCookieEach (hi : d.Inv kinds) (hshort : d.Short) (hone : d.OneCookie) :
    OneCookieEach ((Finset.range workerSize).image draw) d.heard := by
  intro call hcall call' hcall' heq cookie hissued cookie' hissued' hp hp'
  obtain ⟨c, id, hid, hk, hwritten⟩ := hi.heard_written hshort hcall
  obtain ⟨c', id', hid', hk', hwritten'⟩ := hi.heard_written hshort hcall'
  have hids : id' = id := Int32.toBitVec_inj.mp (hk'.trans (heq.symm.trans hk.symm))
  have hc : c' = c := hi.sessions.apart c' c id (hids ▸ hid') hid
  subst hc
  exact hone c' cookie hissued cookie' hissued' ⟨_, hwritten, hp⟩ ⟨_, hwritten', hp'⟩

theorem Inv.fair (hi : d.Inv kinds) (hshort : d.Short) (hone : d.OneCookie) (hpos : 0 < workerSize)
    (hdistinct : ∀ i < workerSize, ∀ j < workerSize, draw i = draw j → i = j) :
    d.model.Fair ((Finset.range workerSize).image draw) d.heard := by
  have hfair := CoordinatorServer.run_fair h hpos hdistinct (hi.oneCookieEach hshort hone)
  rw [hi.model]
  exact hfair

/-- What the coordinator says to a client: the answer and the map of the peers, or nothing. -/
theorem saidTo_fair (hf : d.model.Fair ((Finset.range workerSize).image draw) d.heard) (c : C) :
    d.saidTo c <+: CoordinatorServer.reply :: d.model.announced ∧ (d.saidTo c).length ≤ 2 ∧
      ∀ id, d.sessions.session c = some id → id.toBitVec ∈ d.model.workers.keys →
        d.saidTo c = CoordinatorServer.reply :: d.model.announced := by
  have hanswer : ∀ k, sentTo k ((coordinatorModel h workerSize draw).requests d.model) =
      if k ∈ d.model.workers.keys then CoordinatorServer.reply :: d.model.announced else [] := by
    intro k
    rw [← hf.guarded.told]
    exact hf.answered k
  have hlen : (CoordinatorServer.reply :: d.model.announced).length ≤ 2 := by
    rw [CoordinatorServer.announced]
    cases d.model.currentState with
    | firstconnection => exact Nat.le_succ 1
    | peersinfo => exact Nat.le_refl 2
  have hpre : d.saidTo c <+: CoordinatorServer.reply :: d.model.announced := by
    rw [saidTo]
    cases d.sessions.session c with
    | none => exact List.nil_prefix
    | some id =>
      rw [Option.elim_some, hanswer]
      split
      · exact List.prefix_rfl
      · exact List.nil_prefix
  refine ⟨hpre, hpre.length_le.trans hlen, fun id hid hkey => ?_⟩
  rw [saidTo, hid, Option.elim_some, hanswer, if_pos hkey]

/-- What a client has presented the coordinator has heard, once nothing is under way. -/
theorem Inv.presents_heard (hi : d.Inv kinds) (hshort : d.Short)
    (hcompat : kinds c .near = .clientWithHeartbeat → kinds c .far = .serverWithHeartbeat)
    (hrest : (d.sessions.link c).AtRest .far) {cookie : FirstConCookie} (hp : d.Presents c cookie) :
    ∃ call ∈ d.heard, presented call.buf.bytes = some cookie := by
  obtain ⟨msg, hmsg, hcookie⟩ := hp
  rw [← hi.heardFrom_atRest hcompat (hshort.clients c) hrest, heardFrom] at hmsg
  cases hs : d.sessions.session c with
  | none =>
    rw [hs] at hmsg
    cases hmsg
  | some id =>
    rw [hs] at hmsg
    obtain ⟨call, hcall, rfl⟩ := List.mem_map.mp hmsg
    exact ⟨call, (List.mem_filter.mp hcall).1, hcookie⟩

/-- The only client that presents some cookie is entered, and told so. -/
theorem Inv.saidTo_entered (hi : d.Inv kinds) (hshort : d.Short)
    (hf : d.model.Fair ((Finset.range workerSize).image draw) d.heard) {cookie : FirstConCookie}
    (hissued : cookie ∈ (Finset.range workerSize).image draw) {call : Incoming} (hcall : call ∈ d.heard)
    (hp : presented call.buf.bytes = some cookie) (honly : ∀ c', d.Presents c' cookie → c' = c) :
    d.saidTo c = CoordinatorServer.reply :: d.model.announced := by
  obtain ⟨first, hfirst⟩ := exists_firstToPresent hcall hp
  obtain ⟨hfirst', hpresents⟩ := hfirst.presents
  obtain ⟨c', id, hid, hk, hwritten⟩ := hi.heard_written hshort hfirst'
  have hc : c' = c := honly c' ⟨_, hwritten, hpresents⟩
  subst hc
  exact (saidTo_fair hf c').2.2 id hid (hf.letIn _ (admitted_iff.mpr ⟨cookie, hissued, first, hfirst, hk.symm⟩))

end Network.Served

namespace Network.Served
variable {C : Type} [DecidableEq C] {h : Rehash} {workerSize : Nat} {draw : Nat → FirstConCookie}
  {server : AsyncServer} {kind : C → ConnKind} {clients peer : C → Peer}
  {es : List (ServedEvent C (coordinatorModel h workerSize draw))} {opened : Except Exception Unit}
  {listening : Except Exception UInt16} {port : UInt16} {heartbeat : Bool}

/-- **Who is told anything has sent a cookie of its own.** A coordinator is started on a server, and any number
of clients of the library connect and send any messages, all of them shorter than 2³² bytes, as those of the
coordinator, over any legal run of all of them and the network, with connections that fail at any time: whoever is
given anything is in the map of the peers, all in the map are clients, and each of these has itself sent a message
that presents a cookie that was issued, no two of them the same. -/
theorem told_hasCookie (hs : AsyncServer.start opened listening (.new port heartbeat) = .ok () server)
    (hl : EachStep step Legal (start (coordinatorModel h workerSize draw) server kind clients peer) es)
    (hshort : (run step (start (coordinatorModel h workerSize draw) server kind clients peer) es).Short) :
    let d := run step (start (coordinatorModel h workerSize draw) server kind clients peer) es
    (∀ c, (d.sessions.clients c).conn.recv.delivered ≠ [] → d.Entered c) ∧
      (∀ k ∈ d.model.workerInfo.keys, ∃ c id, d.sessions.session c = some id ∧ id.toBitVec = k) ∧
      ∃ cookieOf : C → FirstConCookie,
        (∀ c, d.Entered c → cookieOf c ∈ (Finset.range workerSize).image draw ∧ d.Presents c (cookieOf c)) ∧
        Set.InjOn cookieOf {c | d.Entered c} := by
  intro d
  have hi : d.Inv (Sessions.kinds server kind) := run_inv (kind_of_start hs) hl
  have hall : ∀ c, ∃ cookie, d.Entered c →
      cookie ∈ (Finset.range workerSize).image draw ∧ d.Presents c cookie ∧
        ∃ call id, FirstToPresent d.heard cookie call ∧ d.sessions.session c = some id ∧
          id.toBitVec = call.connId := by
    intro c
    by_cases hentered : d.Entered c
    · obtain ⟨cookie, hissued, hp, hfirst⟩ := hi.entered_first hshort hentered
      exact ⟨cookie, fun _ => ⟨hissued, hp, hfirst⟩⟩
    · exact ⟨CoordinatorServer.uniformCookie 0, fun hin => absurd hin hentered⟩
  choose cookieOf hcookie using hall
  refine ⟨fun c => hi.told_entered hshort, fun k hkey => ?_, cookieOf, fun c hc => ?_, fun c hc c' hc' heq => ?_⟩
  · obtain ⟨c, id, hid, hk, -⟩ := hi.key_first hshort hkey
    exact ⟨c, id, hid, hk⟩
  · exact ⟨(hcookie c hc).1, (hcookie c hc).2.1⟩
  · obtain ⟨-, -, call, id, hfirst, hid, hk⟩ := hcookie c hc
    obtain ⟨-, -, call', id', hfirst', hid', hk'⟩ := hcookie c' hc'
    rw [← heq] at hfirst'
    have hcall : call = call' := Option.some.inj (hfirst.symm.trans hfirst')
    rw [← hcall, ← hk] at hk'
    rw [Int32.toBitVec_inj.mp hk'] at hid'
    exact hi.sessions.apart c c' id hid hid'

/-- **A registration among strangers**, of at least one worker, with all messages shorter than 2³² bytes, and
clients with heartbeats only on a server that has been started with a heartbeat. If no client presents two of the
cookies, then over any legal run each client is given a prefix of the answer and the map of the peers. Once all
cookies have been presented, by clients whose connections are at rest, the map has been made; and a client that
presents a cookie that nobody else presents has been given the answer, and then the map if it has been made, when
its connection is at rest. -/
theorem registered_atRest (hs : AsyncServer.start opened listening (.new port heartbeat) = .ok () server)
    (hpos : 0 < workerSize) (hdistinct : ∀ i < workerSize, ∀ j < workerSize, draw i = draw j → i = j)
    (hbeat : ∀ c, kind c = .clientWithHeartbeat → heartbeat = true)
    (hl : EachStep step Legal (start (coordinatorModel h workerSize draw) server kind clients peer) es)
    (hshort : (run step (start (coordinatorModel h workerSize draw) server kind clients peer) es).Short)
    (hone : (run step (start (coordinatorModel h workerSize draw) server kind clients peer) es).OneCookie) :
    let d := run step (start (coordinatorModel h workerSize draw) server kind clients peer) es
    (∀ c, (d.sessions.clients c).conn.recv.delivered <+: CoordinatorServer.reply :: d.model.announced) ∧
      ((∀ i < workerSize, ∃ c, d.Presents c (draw i) ∧ (d.sessions.link c).AtRest .far) →
        d.model.currentState = .peersinfo) ∧
      ∀ c, ∀ cookie ∈ (Finset.range workerSize).image draw, d.Presents c cookie →
        (∀ c', d.Presents c' cookie → c' = c) →
        (d.sessions.link c).AtRest .far → (d.sessions.link c).AtRest .near →
        (d.sessions.clients c).conn.recv.delivered = CoordinatorServer.reply :: d.model.announced := by
  intro d
  have hkind := kind_of_start hs
  have hi : d.Inv (Sessions.kinds server kind) := run_inv hkind hl
  have hf := hi.fair hshort hone hpos hdistinct
  refine ⟨fun c => ?_, fun hall => ?_, fun c cookie hissued hp honly hfar hnear => ?_⟩
  · obtain ⟨hpre, hlen, -⟩ := saidTo_fair hf c
    exact (hi.told_inOrder hkind (hshort.coordinator c) hlen).1.trans hpre
  · refine hf.peersinfo_iff.mpr fun i hlt => ?_
    obtain ⟨c, hp, hrest⟩ := hall i hlt
    exact hi.presents_heard hshort (compat_of_start hs (hbeat c)) hrest hp
  · obtain ⟨call, hcall, hcookie⟩ := hi.presents_heard hshort (compat_of_start hs (hbeat c)) hfar hp
    rw [← hi.saidTo_entered hshort hf hissued hcall hcookie honly]
    exact (hi.told_inOrder hkind (hshort.coordinator c) (saidTo_fair hf c).2.1).2 hnear

section Example

def oneCoordinator : ServerModel CoordinatorServer :=
  coordinatorModel CoordinatorServer.inOrder 1 CoordinatorServer.uniformCookie

theorem hello_length : hello.length < 2 ^ 63 := by decide

/-- The message presents the only cookie. -/
def introduced : List (ServedEvent Unit oneCoordinator) :=
  helloHeard oneCoordinator (CoordinatorServer.incoming 0 hello hello_length)

theorem introduced_short : (run step (oneClient oneCoordinator) introduced).Short := by
  have hwritten : ∀ msg ∈ messages ((run step (oneClient oneCoordinator) introduced).sessions.clients ()).conn.send.written,
      msg.length < 2 ^ 32 := by decide
  have hsaid : ∀ msg ∈ (run step (oneClient oneCoordinator) introduced).saidTo (), msg.length < 2 ^ 32 := by decide
  exact ⟨fun _ => hwritten, fun _ => hsaid⟩

theorem introduced_presents :
    (run step (oneClient oneCoordinator) introduced).Presents () (CoordinatorServer.uniformCookie 0) :=
  ⟨hello, List.mem_singleton_self hello, by decide⟩

/-- The client is in the map of the peers. -/
theorem told_hasCookie_introduced :
    ∃ cookieOf : Unit → FirstConCookie, cookieOf () ∈ (Finset.range 1).image CoordinatorServer.uniformCookie ∧
      (run step (oneClient oneCoordinator) introduced).Presents () (cookieOf ()) := by
  have hs : AsyncServer.start (.ok ()) (.ok 4000) (.new 4000 false) = .ok () AsyncServer.oneListening := rfl
  obtain ⟨-, -, cookieOf, hpresents, -⟩ := told_hasCookie hs (helloHeard_legal oneCoordinator rfl rfl) introduced_short
  exact ⟨cookieOf, hpresents () ⟨0, rfl, by decide⟩⟩

/-- The registration is complete. -/
theorem registered_atRest_introduced : (run step (oneClient oneCoordinator) introduced).model.currentState = .peersinfo := by
  have hs : AsyncServer.start (.ok ()) (.ok 4000) (.new 4000 false) = .ok () AsyncServer.oneListening := rfl
  have hone : (run step (oneClient oneCoordinator) introduced).OneCookie := by
    intro c cookie hc cookie' hc' _ _
    rw [Finset.range_one, Finset.image_singleton, Finset.mem_singleton] at hc hc'
    rw [hc, hc']
  obtain ⟨map, hmap⟩ : ∃ map, (oneCoordinator.asked oneCoordinator.init
      (CoordinatorServer.incoming 0 hello hello_length)).filterMap (callOn 0) =
      [CoordinatorServer.reply, map].map Conn.UpperCall.send := ⟨_, rfl⟩
  have hready := ((Conn.start_ready .server "127.0.0.1:4000" (fun _ => Link.zeros) 0).readDone_frame
    Link.zeros (show hello.length ≤ bufferSize by decide) [CoordinatorServer.reply, map]).1
  rw [← hmap] at hready
  refine (registered_atRest hs (by decide) (by omega) (fun _ h => by cases h) (helloHeard_legal oneCoordinator rfl rfl)
    introduced_short hone).2.1 ?_
  intro i hi
  obtain rfl : i = 0 := by omega
  refine ⟨(), introduced_presents, fun j => ?_, rfl, ?_⟩
  · cases j with
    | near => rfl
    | far => exact hready.isOpen
  · intro op hop
    have hop : op ∈ [(⟨.header, headerSize, false⟩ : ReadOp)] := hready.reads ▸ hop
    rw [List.mem_singleton.mp hop]
    decide

end Example

end Network.Served

end Thallium
