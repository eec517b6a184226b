import Mathlib.Data.Fintype.Card
import Thallium.Coordinator

/-!
# Registration over a network (src/coordinator.cpp:87-162, network/behavior.hpp:63-88)

A coordinator, `N` workers each with an issued cookie and a connection of its own, and any number of
other connections that send cookies nobody has issued. Messages of one connection arrive in the order
they were sent; in all other respects any step may come next.

| here | there |
| --- | --- |
| `Setup`              | the cookies, connections and data servers of the workers |
| `System`, `Event`    | the two sides and the messages on their way; what may happen next |
| `System.step`        | `logic` of the receiver, and `send` of what it asks for |
| `System.raised`      | the exceptions that have left a handler, and undefined steps in one |
| `Inv`                | not in the source: who is entered, and what follows from it for all parts |

* `step_inv` — each kind of step keeps the invariant; `init_inv` — it holds at the start.
* `registration_safe` — in every state of every run at most one broadcast, to the workers and about the
  workers, each answered once, and nobody raises.
-/
namespace Thallium.Registration
open Message Serializer EventRun

/-! ## The system -/

/-- The workers: different cookies of those the coordinator draws, different connections. -/
structure Setup (N : Nat) where
  draw : Nat → FirstConCookie
  conn : Fin N → ConnId
  info : Fin N → WorkerInfo
  draw_injective : ∀ i < N, ∀ j < N, draw i = draw j → i = j
  conn_injective : Function.Injective conn

namespace Setup
variable {N : Nat} (S : Setup N)

/-- A connection of a worker. -/
def Genuine (c : ConnId) : Prop := ∃ i, S.conn i = c

/-- A cookie of the coordinator. -/
def Issued (cookie : FirstConCookie) : Prop := ∃ i : Fin N, S.draw i = cookie

/-- What the `i`-th worker says first, as bytes. -/
def introduction (i : Fin N) : List UInt8 :=
  MsgClass.firsconnection.bytes (WorkerDeamon.introduction (S.draw i) (S.info i))

end Setup

/-- Both sides, and on each connection the messages on their way, the oldest first. -/
structure System (N : Nat) where
  coordinator : CoordinatorServer
  worker : Fin N → WorkerDeamon
  started : Fin N → Bool
  toCoordinator : ConnId → List (List UInt8)
  toWorker : Fin N → List (List UInt8)
  raised : List Fault

/-- What happens next: a worker starts, another connection sends a `Firsconnection`, or the oldest
message of a connection arrives, in a buffer at `addr` and with `msg` default-constructed. -/
inductive Event (N : Nat) where
  | start (i : Fin N)
  | otherSends (c : ConnId) (cookie : FirstConCookie) (info : WorkerInfo)
  | toCoordinator (c : ConnId) (addr : Nat) (msg : MsgClass.firsconnection.Val)
  | toWorker (i : Fin N) (addr : Nat) (msg : MsgClass.workerInfoMap.Val)

/-- A handler run on a party: what becomes of it, and what leaves the handler. -/
def runHandler {ε σ : Type} (handler : EStateM ε σ Unit) (s : σ) : σ × List ε :=
  match handler s with
  | .ok _ s' => (s', [])
  | .error e s' => (s', [e])

namespace System
variable {N : Nat} (S : Setup N) (h : Rehash)

/-- `start` of a client (behavior.cpp:23). -/
def startWorker (i : Fin N) (s : System N) : System N :=
  let (worker, thrown) := runHandler WorkerDeamon.initLogic (s.worker i)
  let sent := sentTo 0 (worker.requests.drop (s.worker i).requests.length)
  { s with
    worker := Function.update s.worker i worker
    started := Function.update s.started i true
    toCoordinator := Function.update s.toCoordinator (S.conn i) (s.toCoordinator (S.conn i) ++ sent)
    raised := s.raised ++ thrown }

def otherSends (c : ConnId) (cookie : FirstConCookie) (info : WorkerInfo) (s : System N) : System N :=
  let msg := MsgClass.firsconnection.bytes (WorkerDeamon.introduction cookie info)
  { s with toCoordinator := Function.update s.toCoordinator c (s.toCoordinator c ++ [msg]) }

/-- The oldest message of connection `c` reaches the coordinator. -/
def deliverToCoordinator (c : ConnId) (addr : Nat) (msg : MsgClass.firsconnection.Val)
    (s : System N) : System N :=
  match s.toCoordinator c with
  | [] => s
  | bytes :: rest =>
    if fits : addr + bytes.length < 2 ^ 64 then
      let (coordinator, thrown) :=
        runHandler (CoordinatorServer.logic h c ⟨addr, bytes, fits⟩ msg) s.coordinator
      let asked := coordinator.requests.drop s.coordinator.requests.length
      { s with
        coordinator
        toCoordinator := Function.update s.toCoordinator c rest
        toWorker := fun i => s.toWorker i ++ sentTo (S.conn i) asked
        raised := s.raised ++ thrown.map .thrown }
    else s

/-- The oldest message for the `i`-th worker reaches it. -/
def deliverToWorker (i : Fin N) (addr : Nat) (msg : MsgClass.workerInfoMap.Val) (s : System N) :
    System N :=
  match s.toWorker i with
  | [] => s
  | bytes :: rest =>
    if fits : addr + bytes.length < 2 ^ 64 then
      let (worker, thrown) := runHandler (WorkerDeamon.logic 0 ⟨addr, bytes, fits⟩ msg) (s.worker i)
      { s with
        worker := Function.update s.worker i worker
        toWorker := Function.update s.toWorker i rest
        raised := s.raised ++ thrown }
    else s

def step (s : System N) : Event N → System N
  | .start i => s.startWorker S i
  | .otherSends c cookie info => s.otherSends c cookie info
  | .toCoordinator c addr msg => s.deliverToCoordinator S h c addr msg
  | .toWorker i addr msg => s.deliverToWorker i addr msg

/-- A worker starts once; the other connections are not those of workers and hold no issued cookie. -/
def Legal (s : System N) : Event N → Prop
  | .start i => s.started i = false
  | .otherSends c cookie _ => ¬ S.Genuine c ∧ ¬ S.Issued cookie
  | .toCoordinator _ _ msg => MsgClass.firsconnection.Fresh msg
  | .toWorker _ _ msg => MsgClass.workerInfoMap.Fresh msg

/-- Before anything has happened. -/
def init : System N where
  coordinator := .new N S.draw
  worker i := .holding (S.draw i) (S.info i)
  started _ := false
  toCoordinator _ := []
  toWorker _ := []
  raised := []

end System

/-! ## The invariant -/

/-- The answer to an introduction, as bytes. -/
def okMessage : List UInt8 := MsgClass.firsconnectionOK.bytes ()

variable {N : Nat} {S : Setup N} {h : Rehash} {s : System N} {entered : List (Fin N)}

/-- Some workers are missing: those entered have been answered. -/
structure Collecting (S : Setup N) (s : System N) (entered : List (Fin N)) : Prop where
  missing : entered.length < N
  state : s.coordinator.currentState = .firstconnection
  broadcasts : s.coordinator.broadcasts = []
  sent : ∀ i, sentTo (S.conn i) s.coordinator.requests = if i ∈ entered then [okMessage] else []

/-- All are entered: they have been answered and told of each other. -/
structure Announced (S : Setup N) (s : System N) (entered : List (Fin N)) : Prop where
  complete : entered.length = N
  state : s.coordinator.currentState = .peersinfo
  broadcasts : s.coordinator.broadcasts =
    [MsgClass.workerInfoMap.bytes (peerMap s.coordinator.workerInfo)]
  sent : ∀ i, sentTo (S.conn i) s.coordinator.requests =
    [okMessage, MsgClass.workerInfoMap.bytes (peerMap s.coordinator.workerInfo)]

/-- The messages on their way to a worker are those it has not taken yet, and its state says how many
it has taken. -/
structure WorkerAt (S : Setup N) (s : System N) (i : Fin N) (taken : Nat) : Prop where
  cookie : (s.worker i).fcCookie = S.draw i
  info : (s.worker i).workerInfo = S.info i
  coming : s.toWorker i = (sentTo (S.conn i) s.coordinator.requests).drop taken
  taken_le : taken ≤ (sentTo (S.conn i) s.coordinator.requests).length
  state : (s.worker i).currentState = if taken = 0 then .firstconnectionOk else .recvWorkerInfo

/-- `entered` lists the workers the coordinator has entered, in that order. -/
structure Inv (S : Setup N) (s : System N) (entered : List (Fin N)) : Prop where
  nodup : entered.Nodup
  redeemed : s.coordinator.redeemed = entered.map fun i : Fin N => S.draw i
  cookies : ∀ cookie, cookie ∈ s.coordinator.cookies ↔ ∃ i, i ∉ entered ∧ S.draw i = cookie
  workers : s.coordinator.workers.keys.Perm (entered.map S.conn)
  workerInfo : s.coordinator.workerInfo.keys.Perm (entered.map S.conn)
  workerNum : s.coordinator.workerNum = N
  phase : Collecting S s entered ∨ Announced S s entered
  started : ∀ i ∈ entered, s.started i = true
  coming : ∀ i, s.toCoordinator (S.conn i) =
    if s.started i = true ∧ i ∉ entered then [S.introduction i] else []
  unsent : ∀ c, ¬ S.Genuine c → sentTo c s.coordinator.requests = []
  illegal : ∀ c, ¬ S.Genuine c → ∀ bytes ∈ s.toCoordinator c, ∃ m : MsgClass.firsconnection.Obj,
    bytes = MsgClass.firsconnection.bytes m ∧ ¬ S.Issued m.firstcookie
  worker : ∀ i, ∃ taken, WorkerAt S s i taken
  /-- The introductions have brought no addresses. -/
  unaddressed : s.coordinator.workerInfo.Unaddressed
  raised : s.raised = []

theorem init_inv (hpos : 0 < N) : Inv S (System.init S) [] where
  nodup := List.nodup_nil
  redeemed := rfl
  cookies cookie := by
    show cookie ∈ (CoordinatorServer.new N S.draw).cookies ↔ _
    rw [CoordinatorServer.new_cookies, Finset.mem_image]
    constructor
    · rintro ⟨i, hi, rfl⟩
      exact ⟨⟨i, Finset.mem_range.mp hi⟩, List.not_mem_nil, rfl⟩
    · rintro ⟨i, -, rfl⟩
      exact ⟨i, Finset.mem_range.mpr i.isLt, rfl⟩
  workers := List.Perm.refl []
  workerInfo := List.Perm.refl []
  workerNum := rfl
  phase := .inl ⟨hpos, rfl, rfl, fun _ => rfl⟩
  started _ hi := absurd hi List.not_mem_nil
  coming _ := rfl
  unsent _ _ := rfl
  illegal _ _ _ hbytes := absurd hbytes List.not_mem_nil
  worker i := ⟨0, rfl, rfl, rfl, Nat.le_refl 0, rfl⟩
  unaddressed := nofun
  raised := rfl

/-- Workers that differ from one another, as many as there are, are all of them. -/
theorem mem_of_complete (hnodup : entered.Nodup) (hlen : entered.length = N) (i : Fin N) :
    i ∈ entered := by
  have hcard : entered.toFinset.card = Fintype.card (Fin N) := by
    rw [List.toFinset_card_of_nodup hnodup, hlen, Fintype.card_fin]
  have huniv := Finset.eq_univ_of_card entered.toFinset hcard
  rw [← List.mem_toFinset, huniv]
  exact Finset.mem_univ i

theorem Setup.draw_eq_iff (S : Setup N) {i j : Fin N} : S.draw i = S.draw j ↔ i = j := by
  constructor
  · intro h
    exact Fin.ext (S.draw_injective i i.isLt j j.isLt h)
  · rintro rfl
    rfl

namespace Inv

/-- A worker that is missing keeps the coordinator waiting. -/
theorem collecting (hi : Inv S s entered) {i : Fin N} (hnot : i ∉ entered) : Collecting S s entered := by
  rcases hi.phase with hc | ha
  · exact hc
  · exact absurd (mem_of_complete hi.nodup ha.complete i) hnot

theorem mem_workers (hi : Inv S s entered) {i : Fin N} :
    S.conn i ∈ s.coordinator.workers.keys ↔ i ∈ entered := by
  rw [hi.workers.mem_iff, List.mem_map_of_injective S.conn_injective]

theorem mem_workerInfo (hi : Inv S s entered) {c : ConnId} :
    c ∈ s.coordinator.workerInfo.keys ↔ ∃ i ∈ entered, S.conn i = c := by
  rw [hi.workerInfo.mem_iff, List.mem_map]

theorem size_workers (hi : Inv S s entered) : s.coordinator.workers.size = entered.length := by
  rw [← UnorderedMap.length_keys, hi.workers.length_eq, List.length_map]

/-- No cookie that is out is illegal. -/
theorem not_mem_cookies (hi : Inv S s entered) {cookie : FirstConCookie} (hc : ¬ S.Issued cookie) :
    cookie ∉ s.coordinator.cookies := by
  intro hmem
  obtain ⟨i, -, rfl⟩ := (hi.cookies cookie).mp hmem
  exact hc ⟨i, rfl⟩

end Inv

/-! ## A worker starts, another connection sends -/

theorem startWorker_eq (i : Fin N) (s : System N) :
    s.startWorker S i =
      { s with
        worker := Function.update s.worker i ((s.worker i).ask (.send 0
          (MsgClass.firsconnection.bytes
            (WorkerDeamon.introduction (s.worker i).fcCookie (s.worker i).workerInfo))))
        started := Function.update s.started i true
        toCoordinator := Function.update s.toCoordinator (S.conn i) (s.toCoordinator (S.conn i) ++
          [MsgClass.firsconnection.bytes
            (WorkerDeamon.introduction (s.worker i).fcCookie (s.worker i).workerInfo)]) } := by
  unfold System.startWorker runHandler
  rw [WorkerDeamon.initLogic_eq]
  simp only [WorkerDeamon.ask, List.drop_left, sentTo_send, if_true, List.append_nil]

/-- **A worker starts**: its introduction is on its way. -/
theorem startWorker_inv {i : Fin N} (hi : Inv S s entered) (hl : s.started i = false) :
    Inv S (s.startWorker S i) entered := by
  obtain ⟨taken, hw⟩ := hi.worker i
  have hnot : i ∉ entered := by
    intro hmem
    exact absurd (hl.symm.trans (hi.started i hmem)) (by decide)
  have hempty : s.toCoordinator (S.conn i) = [] := by
    rw [hi.coming i, if_neg]
    rintro ⟨hs, -⟩
    exact absurd (hl.symm.trans hs) (by decide)
  rw [startWorker_eq, hw.cookie, hw.info, hempty, List.nil_append]
  refine { hi with phase := ?_, started := ?_, coming := ?_, illegal := ?_, worker := ?_ }
  · rcases hi.phase with hc | ha
    · exact .inl ⟨hc.missing, hc.state, hc.broadcasts, hc.sent⟩
    · exact .inr ⟨ha.complete, ha.state, ha.broadcasts, ha.sent⟩
  · intro j hj
    by_cases hji : j = i
    · exact absurd (hji ▸ hj) hnot
    · simp only [Function.update_of_ne hji]
      exact hi.started j hj
  · intro j
    by_cases hji : j = i
    · subst hji
      simp only [Function.update_self, hnot, not_false_eq_true, and_self, if_true]
      rfl
    · have hconn : S.conn j ≠ S.conn i := fun h => hji (S.conn_injective h)
      simp only [Function.update_of_ne hji, Function.update_of_ne hconn]
      exact hi.coming j
  · intro c hc
    have hne : c ≠ S.conn i := fun h => hc ⟨i, h.symm⟩
    simp only [Function.update_of_ne hne]
    exact hi.illegal c hc
  · intro j
    by_cases hji : j = i
    · subst hji
      exact ⟨taken, by simpa using hw.cookie, by simpa using hw.info, hw.coming, hw.taken_le,
        by simpa using hw.state⟩
    · obtain ⟨taken', hw'⟩ := hi.worker j
      exact ⟨taken', by simpa [hji] using hw'.cookie, by simpa [hji] using hw'.info, hw'.coming,
        hw'.taken_le, by simpa [hji] using hw'.state⟩

/-- **Another connection sends** a cookie nobody has issued. -/
theorem otherSends_inv {c : ConnId} {cookie : FirstConCookie} (info : WorkerInfo)
    (hi : Inv S s entered) (hc : ¬ S.Genuine c) (hcookie : ¬ S.Issued cookie) :
    Inv S (s.otherSends c cookie info) entered := by
  unfold System.otherSends
  refine { hi with phase := ?_, coming := ?_, illegal := ?_, worker := ?_ }
  · rcases hi.phase with hc | ha
    · exact .inl ⟨hc.missing, hc.state, hc.broadcasts, hc.sent⟩
    · exact .inr ⟨ha.complete, ha.state, ha.broadcasts, ha.sent⟩
  · intro i
    have hne : S.conn i ≠ c := fun h => hc ⟨i, h⟩
    simp only [Function.update_of_ne hne]
    exact hi.coming i
  · intro c' hc' bytes hbytes
    by_cases hcc : c' = c
    · subst hcc
      simp only [Function.update_self, List.mem_append, List.mem_singleton] at hbytes
      rcases hbytes with hold | hnew
      · exact hi.illegal c' hc' bytes hold
      · exact ⟨_, hnew, hcookie⟩
    · simp only [Function.update_of_ne hcc] at hbytes
      exact hi.illegal c' hc' bytes hbytes
  · intro i
    obtain ⟨taken, hw⟩ := hi.worker i
    exact ⟨taken, hw.cookie, hw.info, hw.coming, hw.taken_le, hw.state⟩

/-! ## A message reaches the coordinator -/

/-- The system after a message of `c` has been handled; `rest` is still on its way. -/
def System.handled (S : Setup N) (s : System N) (c : ConnId) (rest : List (List UInt8))
    (coordinator : CoordinatorServer) : System N :=
  { s with
    coordinator
    toCoordinator := Function.update s.toCoordinator c rest
    toWorker := fun i => s.toWorker i ++
      sentTo (S.conn i) (coordinator.requests.drop s.coordinator.requests.length) }

/-- Delivery of a `Firsconnection`. -/
theorem deliverToCoordinator_eq {c : ConnId} {addr : Nat} {msg : MsgClass.firsconnection.Val}
    (m : MsgClass.firsconnection.Obj) {rest : List (List UInt8)}
    (hqueue : s.toCoordinator c = MsgClass.firsconnection.bytes m :: rest)
    (fits : addr + (MsgClass.firsconnection.bytes m).length < 2 ^ 64)
    (hd : MsgClass.firsconnection.Fresh msg) (hs : s.coordinator.workerInfo.Unaddressed) :
    s.deliverToCoordinator S h c addr msg =
      s.handled S c rest (s.coordinator.onMessage h c m.firstcookie msg.workerInfo) := by
  unfold System.deliverToCoordinator System.handled runHandler
  simp only [hqueue, dif_pos fits]
  rw [CoordinatorServer.logic_eq hs m ⟨addr, _, fits⟩ rfl msg hd]
  simp only [List.map_nil, List.append_nil]

/-- What is asked of the layer below goes out behind what is on its way. -/
theorem WorkerAt.more {i : Fin N} {taken : Nat} (hw : WorkerAt S s i taken) {c : ConnId}
    {rest : List (List UInt8)} {coordinator : CoordinatorServer} {ext : List Request}
    (hext : coordinator.requests = s.coordinator.requests ++ ext) :
    WorkerAt S (s.handled S c rest coordinator) i taken := by
  have hsent : sentTo (S.conn i) coordinator.requests =
      sentTo (S.conn i) s.coordinator.requests ++ sentTo (S.conn i) ext := by
    rw [hext, sentTo_append]
  have hle := hw.taken_le
  refine ⟨hw.cookie, hw.info, ?_, ?_, hw.state⟩
  · simp only [System.handled, hsent]
    rw [List.drop_append_of_le_length hle, ← hw.coming, hext, List.drop_left]
  · simp only [System.handled, hsent, List.length_append]
    omega

/-- The coordinator enters a worker, whose introduction is then no longer on its way. -/
theorem handled_entered (hi : Inv S s entered) {i : Fin N} (hnot : i ∉ entered)
    (hstarted : s.started i = true) {coordinator : CoordinatorServer} {ext : List Request}
    (hredeemed : coordinator.redeemed = s.coordinator.redeemed ++ [S.draw i])
    (hcookies : coordinator.cookies = s.coordinator.cookies.erase (S.draw i))
    (hworkers : coordinator.workers.keys.Perm (s.coordinator.workers.keys ++ [S.conn i]))
    (hinfo : coordinator.workerInfo.keys.Perm (s.coordinator.workerInfo.keys ++ [S.conn i]))
    (haddr : coordinator.workerInfo.Unaddressed)
    (hnum : coordinator.workerNum = s.coordinator.workerNum)
    (hext : coordinator.requests = s.coordinator.requests ++ ext)
    (hunsent : ∀ c, ¬ S.Genuine c → sentTo c ext = [])
    (hphase : Collecting S (s.handled S (S.conn i) [] coordinator) (entered ++ [i]) ∨
      Announced S (s.handled S (S.conn i) [] coordinator) (entered ++ [i])) :
    Inv S (s.handled S (S.conn i) [] coordinator) (entered ++ [i]) where
  nodup := by
    rw [← List.concat_eq_append]
    exact List.Nodup.concat hnot hi.nodup
  redeemed := by
    show coordinator.redeemed = _
    rw [hredeemed, hi.redeemed, List.map_append]
    rfl
  cookies cookie := by
    show cookie ∈ coordinator.cookies ↔ _
    rw [hcookies, Finset.mem_erase, hi.cookies]
    constructor
    · rintro ⟨hne, j, hj, rfl⟩
      refine ⟨j, fun hmem => ?_, rfl⟩
      rcases List.mem_append.mp hmem with hmem | hmem
      · exact hj hmem
      · exact hne (by rw [List.mem_singleton.mp hmem])
    · rintro ⟨j, hj, rfl⟩
      rw [List.mem_append, not_or, List.mem_singleton] at hj
      exact ⟨fun h => hj.2 (S.draw_eq_iff.mp h), j, hj.1, rfl⟩
  workers := by
    rw [List.map_append]
    exact hworkers.trans (hi.workers.append_right _)
  workerInfo := by
    rw [List.map_append]
    exact hinfo.trans (hi.workerInfo.append_right _)
  workerNum := hnum.trans hi.workerNum
  phase := hphase
  started j hj := by
    rcases List.mem_append.mp hj with hj | hj
    · exact hi.started j hj
    · rw [List.mem_singleton.mp hj]
      exact hstarted
  coming j := by
    by_cases hji : j = i
    · subst hji
      simp [System.handled]
    · have hconn : S.conn j ≠ S.conn i := fun h => hji (S.conn_injective h)
      simp only [System.handled, Function.update_of_ne hconn, hi.coming j, List.mem_append,
        List.mem_singleton, hji, or_false]
  unsent c hc := by
    show sentTo c coordinator.requests = []
    rw [hext, sentTo_append, hi.unsent c hc, hunsent c hc]
    rfl
  illegal c hc := by
    have hne : c ≠ S.conn i := fun h => hc ⟨i, h.symm⟩
    simp only [System.handled, Function.update_of_ne hne]
    exact hi.illegal c hc
  worker j := by
    obtain ⟨taken, hw⟩ := hi.worker j
    exact ⟨taken, hw.more hext⟩
  unaddressed := haddr
  raised := hi.raised

/-- Who has been answered when one more worker is. -/
theorem Collecting.sent_register (hc : Collecting S s entered) {i : Fin N} (hnot : i ∉ entered)
    (j : Fin N) :
    sentTo (S.conn j) (s.coordinator.requests ++ [.send (S.conn i) okMessage]) =
      if j ∈ entered ++ [i] then [okMessage] else [] := by
  rw [sentTo_append, hc.sent j, sentTo_send]
  by_cases hji : j = i
  · subst hji
    simp [hnot]
  · have hconn : ¬ S.conn i = S.conn j := fun h => hji (S.conn_injective h).symm
    simp [hconn, hji]

/-- **An introduction arrives**: the worker is entered, and if it is the last all are told. -/
theorem received_inv (hi : Inv S s entered) {i : Fin N} (hnot : i ∉ entered)
    (hstarted : s.started i = true) {info : WorkerInfo} (hnone : info.addr.val = []) :
    Inv S (s.handled S (S.conn i) [] (s.coordinator.received h (S.conn i) (S.draw i) info))
      (entered ++ [i]) := by
  have hc := hi.collecting hnot
  have hcookie : S.draw i ∈ s.coordinator.cookies := (hi.cookies _).mpr ⟨i, hnot, rfl⟩
  have hkey : S.conn i ∉ s.coordinator.workers.keys := fun hmem => hnot (hi.mem_workers.mp hmem)
  have hkey' : S.conn i ∉ s.coordinator.workerInfo.keys := by
    intro hmem
    obtain ⟨j, hj, hji⟩ := hi.mem_workerInfo.mp hmem
    exact hnot (S.conn_injective hji ▸ hj)
  have hworkers := UnorderedMap.keys_set_of_not_mem h (⟨S.conn i, false⟩ : PlaceObj) hkey
  have hinfo := UnorderedMap.keys_set_of_not_mem h info hkey'
  have haddr := hi.unaddressed.set h (S.conn i) hnone
  have hsize : (s.coordinator.workers.set h (S.conn i) ⟨S.conn i, false⟩).size =
      entered.length + 1 := by
    rw [UnorderedMap.size_set_of_not_mem h _ hkey, hi.size_workers]
  have hlen : (entered ++ [i]).length = entered.length + 1 := List.length_append
  have hmissing := hc.missing
  have hunsent : ∀ c, ¬ S.Genuine c → sentTo c [.send (S.conn i) okMessage] = [] := by
    intro c hgen
    rw [sentTo_send, if_neg fun h => hgen ⟨i, h⟩]
  rw [CoordinatorServer.received_legal hcookie, hsize, hi.workerNum]
  by_cases hall : entered.length + 1 = N
  · -- the last worker
    rw [if_pos hall]
    have hnodup : (entered ++ [i]).Nodup := by
      rw [← List.concat_eq_append]
      exact List.Nodup.concat hnot hi.nodup
    set registered := s.coordinator.register h (S.conn i) (S.draw i) info with hreg
    set buf := MsgClass.workerInfoMap.bytes (peerMap registered.workerInfo) with hbuf
    have hreq : registered.announce.requests = s.coordinator.requests ++
        ([.send (S.conn i) okMessage] ++
          (registered.workers.keys.map fun dest => .send dest buf) ++ [.stop]) := by
      rw [← List.append_assoc, ← List.append_assoc]
      rfl
    have hdests : registered.workers.keys.Perm ((entered ++ [i]).map S.conn) := by
      rw [List.map_append]
      exact hworkers.trans (hi.workers.append_right _)
    have htold : ∀ c, sentTo c ([.send (S.conn i) okMessage] ++
        (registered.workers.keys.map fun dest => .send dest buf) ++ [.stop]) =
        sentTo c [.send (S.conn i) okMessage] ++
          if c ∈ registered.workers.keys then [buf] else [] := by
      intro c
      rw [sentTo_append, sentTo_append, sentTo_broadcast c buf registered.workers.nodup_keys]
      exact List.append_nil _
    refine handled_entered hi hnot hstarted rfl rfl hworkers hinfo haddr rfl hreq ?_ (.inr ?_)
    · intro c hgen
      have hnone : c ∉ registered.workers.keys := by
        rw [hdests.mem_iff, List.mem_map]
        rintro ⟨j, -, hj⟩
        exact hgen ⟨j, hj⟩
      rw [htold, hunsent c hgen, if_neg hnone]
      rfl
    · refine ⟨hlen.trans hall, rfl, ?_, fun j => ?_⟩
      · show s.coordinator.broadcasts ++ _ = _
        rw [hc.broadcasts]
        rfl
      · have hj : j ∈ entered ++ [i] := mem_of_complete hnodup (hlen.trans hall) j
        have hdest : S.conn j ∈ registered.workers.keys := by
          rw [hdests.mem_iff]
          exact List.mem_map_of_mem hj
        show sentTo (S.conn j) registered.announce.requests = _
        rw [hreq, sentTo_append, htold, if_pos hdest, ← List.append_assoc, ← sentTo_append,
          hc.sent_register hnot, if_pos hj]
        rfl
  · rw [if_neg hall]
    refine handled_entered hi hnot hstarted rfl rfl hworkers hinfo haddr rfl rfl hunsent (.inl ?_)
    exact ⟨by omega, hc.state, hc.broadcasts, hc.sent_register hnot⟩

/-- **An illegal cookie arrives**: the connection is cut off. So is nothing else. -/
theorem handled_illegal (hi : Inv S s entered) {c : ConnId} (hgen : ¬ S.Genuine c)
    {bytes : List UInt8} {rest : List (List UInt8)} (hqueue : s.toCoordinator c = bytes :: rest)
    {ext : List Request} (hext : ∀ c, sentTo c ext = []) :
    Inv S (s.handled S c rest { s.coordinator with requests := s.coordinator.requests ++ ext })
      entered := by
  have hsent : ∀ c, sentTo c (s.coordinator.requests ++ ext) = sentTo c s.coordinator.requests := by
    intro c
    rw [sentTo_append, hext, List.append_nil]
  refine { hi with phase := ?_, coming := ?_, unsent := ?_, illegal := ?_, worker := ?_ }
  · rcases hi.phase with hc | ha
    · exact .inl ⟨hc.missing, hc.state, hc.broadcasts, fun i => (hsent _).trans (hc.sent i)⟩
    · exact .inr ⟨ha.complete, ha.state, ha.broadcasts, fun i => (hsent _).trans (ha.sent i)⟩
  · intro i
    have hne : S.conn i ≠ c := fun h => hgen ⟨i, h⟩
    simp only [System.handled, Function.update_of_ne hne]
    exact hi.coming i
  · intro c' hgen'
    exact (hsent c').trans (hi.unsent c' hgen')
  · intro c' hgen' bytes' hbytes'
    by_cases hcc : c' = c
    · subst hcc
      simp only [System.handled, Function.update_self] at hbytes'
      apply hi.illegal c' hgen' bytes'
      rw [hqueue]
      exact List.mem_cons_of_mem _ hbytes'
    · simp only [System.handled, Function.update_of_ne hcc] at hbytes'
      exact hi.illegal c' hgen' bytes' hbytes'
  · intro i
    obtain ⟨taken, hw⟩ := hi.worker i
    exact ⟨taken, hw.more rfl⟩

/-- **A message reaches the coordinator**: nothing changes for the workers, or one more is entered. -/
theorem deliverToCoordinator_inv (hi : Inv S s entered) (c : ConnId) (addr : Nat)
    {msg : MsgClass.firsconnection.Val} (hd : MsgClass.firsconnection.Fresh msg) :
    (Inv S (s.deliverToCoordinator S h c addr msg) entered ∧
      (s.deliverToCoordinator S h c addr msg).coordinator.broadcasts = s.coordinator.broadcasts) ∨
    ∃ i, i ∉ entered ∧ Inv S (s.deliverToCoordinator S h c addr msg) (entered ++ [i]) := by
  cases hqueue : s.toCoordinator c with
  | nil =>
    have hsame : s.deliverToCoordinator S h c addr msg = s := by
      simp only [System.deliverToCoordinator, hqueue]
    rw [hsame]
    exact .inl ⟨hi, rfl⟩
  | cons bytes rest =>
    by_cases fits : addr + bytes.length < 2 ^ 64
    · by_cases hgen : S.Genuine c
      · obtain ⟨i, rfl⟩ := hgen
        -- the only message a worker sends is its introduction
        have hcoming := hi.coming i
        rw [hqueue] at hcoming
        split at hcoming
        · next hw =>
          obtain ⟨rfl, rfl⟩ := List.cons.inj hcoming
          have hc := hi.collecting hw.2
          rw [deliverToCoordinator_eq _ hqueue fits hd hi.unaddressed,
            CoordinatorServer.onMessage_firstconnection hc.state]
          exact .inr ⟨i, hw.2, received_inv hi hw.2 hw.1 (addr_of_fresh hd)⟩
        · exact absurd hcoming (List.cons_ne_nil _ _)
      · have hmem : bytes ∈ s.toCoordinator c := by
          rw [hqueue]
          exact List.mem_cons_self
        obtain ⟨m, rfl, hillegal⟩ := hi.illegal c hgen bytes hmem
        rw [deliverToCoordinator_eq m hqueue fits hd hi.unaddressed]
        rcases hi.phase with hc | ha
        · have hmore : s.coordinator.workers.size ≠ s.coordinator.workerNum := by
            rw [hi.size_workers, hi.workerNum]
            exact Nat.ne_of_lt hc.missing
          rw [CoordinatorServer.onMessage_firstconnection hc.state,
            CoordinatorServer.received_illegal (hi.not_mem_cookies hillegal) hmore]
          exact .inl ⟨handled_illegal hi hgen hqueue fun _ => rfl, rfl⟩
        · have hlate := handled_illegal hi hgen hqueue fun c => (rfl : sentTo c [] = [])
          rw [List.append_nil] at hlate
          rw [CoordinatorServer.onMessage_peersinfo ha.state]
          exact .inl ⟨hlate, rfl⟩
    · have hsame : s.deliverToCoordinator S h c addr msg = s := by
        simp only [System.deliverToCoordinator, hqueue, dif_neg fits]
      rw [hsame]
      exact .inl ⟨hi, rfl⟩

/-! ## A message reaches a worker -/

/-- What a worker is sent, so far. -/
theorem Inv.sent_cases (hi : Inv S s entered) (i : Fin N) :
    sentTo (S.conn i) s.coordinator.requests = [] ∨
      sentTo (S.conn i) s.coordinator.requests = [okMessage] ∨
      sentTo (S.conn i) s.coordinator.requests =
        [okMessage, MsgClass.workerInfoMap.bytes (peerMap s.coordinator.workerInfo)] := by
  rcases hi.phase with hc | ha
  · by_cases hmem : i ∈ entered
    · exact .inr (.inl ((hc.sent i).trans (if_pos hmem)))
    · exact .inl ((hc.sent i).trans (if_neg hmem))
  · exact .inr (.inr (ha.sent i))

/-- The worker after a message, when it is ready for it. -/
theorem WorkerAt.logic (hi : Inv S s entered) {i : Fin N} {taken : Nat} (hw : WorkerAt S s i taken)
    {bytes : List UInt8} {rest : List (List UInt8)} (hqueue : s.toWorker i = bytes :: rest)
    {addr : Nat} (fits : addr + bytes.length < 2 ^ 64) {msg : MsgClass.workerInfoMap.Val}
    (hd : MsgClass.workerInfoMap.Fresh msg) :
    taken < (sentTo (S.conn i) s.coordinator.requests).length ∧
      ∃ worker, WorkerDeamon.logic 0 ⟨addr, bytes, fits⟩ msg (s.worker i) = .ok () worker ∧
        worker.fcCookie = S.draw i ∧ worker.workerInfo = S.info i ∧
        worker.currentState = .recvWorkerInfo := by
  have hcoming := hw.coming
  rw [hqueue] at hcoming
  have hlt : taken < (sentTo (S.conn i) s.coordinator.requests).length := by
    by_contra hge
    rw [List.drop_eq_nil_of_le (by omega)] at hcoming
    exact absurd hcoming (List.cons_ne_nil _ _)
  have hbytes : (sentTo (S.conn i) s.coordinator.requests)[taken]? = some bytes := by
    rw [← List.head?_drop, ← hcoming]
    rfl
  refine ⟨hlt, ?_⟩
  unfold WorkerDeamon.logic
  simp only [get_bind_apply, hw.state]
  by_cases h0 : taken = 0
  · -- the answer comes first
    subst h0
    have hok : bytes = okMessage := by
      rcases hi.sent_cases i with hs | hs | hs <;> rw [hs] at hbytes
      · exact absurd hbytes nofun
      · exact (Option.some.inj hbytes).symm
      · exact (Option.some.inj hbytes).symm
    simp only [if_true]
    exact ⟨_, WorkerDeamon.firstconnectionOk_eq _ _ hok, hw.cookie, hw.info, rfl⟩
  · -- then the peer map
    have hmap : bytes = MsgClass.workerInfoMap.bytes (peerMap s.coordinator.workerInfo) := by
      rcases hi.sent_cases i with hs | hs | hs <;> rw [hs] at hbytes hlt
      · exact absurd hlt (Nat.not_lt_zero _)
      · exact absurd (Nat.lt_one_iff.mp hlt) h0
      · have h1 : taken = 1 := by
          have h2 : taken < 2 := hlt
          omega
        subst h1
        exact (Option.some.inj hbytes).symm
    simp only [if_neg h0]
    have hshort : ∀ e ∈ s.coordinator.workerInfo.nodes, e.2.addr.val.length ≤ 2 ^ 30 := by
      intro e he
      rw [hi.unaddressed e he]
      exact Nat.zero_le _
    refine ⟨_, WorkerDeamon.recvWorkerInfo_eq _ 0 hshort _ hmap msg hd, hw.cookie, hw.info, ?_⟩
    simp only [WorkerDeamon.ask_currentState, hw.state, if_neg h0]

/-- **A message reaches a worker**, which is ready for it. -/
theorem deliverToWorker_inv (hi : Inv S s entered) (i : Fin N) (addr : Nat)
    {msg : MsgClass.workerInfoMap.Val} (hd : MsgClass.workerInfoMap.Fresh msg) :
    Inv S (s.deliverToWorker i addr msg) entered := by
  unfold System.deliverToWorker
  cases hqueue : s.toWorker i with
  | nil => exact hi
  | cons bytes rest =>
    simp only
    split
    · next fits =>
      obtain ⟨taken, hw⟩ := hi.worker i
      obtain ⟨hlt, worker, hrun, hcookie, hinfo, hstate⟩ := hw.logic hi hqueue fits hd
      have hcoming := hw.coming
      rw [hqueue] at hcoming
      have hrest : rest = (sentTo (S.conn i) s.coordinator.requests).drop (taken + 1) := by
        rw [← List.tail_drop, ← hcoming]
        rfl
      simp only [runHandler, hrun, List.append_nil]
      refine { hi with phase := ?_, worker := fun j => ?_ }
      · rcases hi.phase with hc | ha
        · exact .inl ⟨hc.missing, hc.state, hc.broadcasts, hc.sent⟩
        · exact .inr ⟨ha.complete, ha.state, ha.broadcasts, ha.sent⟩
      · by_cases hji : j = i
        · subst hji
          refine ⟨taken + 1, ?_, ?_, ?_, hlt, ?_⟩
          · simp only [Function.update_self, hcookie]
          · simp only [Function.update_self, hinfo]
          · simp only [Function.update_self, hrest]
          · simp only [Function.update_self, hstate]
            rfl
        · obtain ⟨taken', hw'⟩ := hi.worker j
          refine ⟨taken', ?_, ?_, ?_, hw'.taken_le, ?_⟩
          · simp only [Function.update_of_ne hji, hw'.cookie]
          · simp only [Function.update_of_ne hji, hw'.info]
          · simp only [Function.update_of_ne hji, hw'.coming]
          · simp only [Function.update_of_ne hji, hw'.state]
    · exact hi

/-! ## The steps and the run -/

/-- **Each step** keeps the invariant, and enters at most one worker. Without a new one nothing is
broadcast. -/
theorem step_inv (e : Event N) (hi : Inv S s entered) (hl : s.Legal S e) :
    (Inv S (s.step S h e) entered ∧
      (s.step S h e).coordinator.broadcasts = s.coordinator.broadcasts) ∨
    ∃ i, i ∉ entered ∧ Inv S (s.step S h e) (entered ++ [i]) := by
  cases e with
  | start i =>
    refine .inl ⟨startWorker_inv hi hl, ?_⟩
    show (s.startWorker S i).coordinator.broadcasts = _
    rw [startWorker_eq]
  | otherSends c cookie info => exact .inl ⟨otherSends_inv info hi hl.1 hl.2, rfl⟩
  | toCoordinator c addr msg => exact deliverToCoordinator_inv hi c addr hl
  | toWorker i addr msg =>
    refine .inl ⟨deliverToWorker_inv hi i addr hl, ?_⟩
    show (s.deliverToWorker i addr msg).coordinator.broadcasts = _
    unfold System.deliverToWorker
    split
    · rfl
    · split
      · rfl
      · rfl

/-- What the coordinator and its workers should keep. -/
structure Safe (S : Setup N) (s : System N) : Prop where
  /-- An issued cookie is redeemed at most once, and no other cookie is. -/
  redeemed : s.coordinator.redeemed.Nodup ∧ ∀ cookie ∈ s.coordinator.redeemed, S.Issued cookie
  broadcast_once : s.coordinator.broadcasts.length ≤ 1
  broadcast_state : s.coordinator.broadcasts ≠ [] ↔ s.coordinator.currentState = .peersinfo
  /-- What is broadcast is read back as a map with the connections of the workers as its keys. -/
  broadcast_peers : ∀ bytes ∈ s.coordinator.broadcasts, ∀ buf : ReadOnlyBuffer, buf.bytes = bytes →
    ∀ d, MsgClass.workerInfoMap.Fresh d → ∃ m : MapOf ConnId WorkerInfo,
      fromBuffer .workerInfoMap buf d = .ok (m, ()) ∧ ∀ c, c ∈ m ↔ S.Genuine c
  /-- A worker is sent the answer and then the map. -/
  sent : ∀ i,
    (s.coordinator.broadcasts = [] ∧ (sentTo (S.conn i) s.coordinator.requests = [] ∨
      sentTo (S.conn i) s.coordinator.requests = [okMessage])) ∨
    ∃ bytes, s.coordinator.broadcasts = [bytes] ∧
      sentTo (S.conn i) s.coordinator.requests = [okMessage, bytes]
  /-- Once all introductions have arrived the map is out. -/
  arrived : (∀ i, s.started i = true ∧ s.toCoordinator (S.conn i) = []) →
    ∃ bytes, s.coordinator.broadcasts = [bytes]
  unsent : ∀ c, ¬ S.Genuine c → sentTo c s.coordinator.requests = []
  raised : s.raised = []

/-- A broadcast happens in the step that enters the last worker, and `peersinfo` is never left. -/
def BroadcastStep (S : Setup N) (h : Rehash) (s : System N) (e : Event N) : Prop :=
  ((s.step S h e).coordinator.broadcasts = s.coordinator.broadcasts ∨
    s.coordinator.currentState = .firstconnection ∧ s.coordinator.workers.size + 1 = N ∧
      (s.step S h e).coordinator.workers.size = N) ∧
  (s.coordinator.currentState = .peersinfo → (s.step S h e).coordinator.currentState = .peersinfo)

theorem Inv.safe (hi : Inv S s entered) : Safe S s where
  redeemed := by
    rw [hi.redeemed]
    refine ⟨hi.nodup.map fun i j hij => S.draw_eq_iff.mp hij, fun cookie hcookie => ?_⟩
    obtain ⟨i, -, rfl⟩ := List.mem_map.mp hcookie
    exact ⟨i, rfl⟩
  broadcast_once := by
    rcases hi.phase with hc | ha
    · rw [hc.broadcasts]
      exact Nat.zero_le 1
    · rw [ha.broadcasts]
      exact Nat.le_refl 1
  broadcast_state := by
    rcases hi.phase with hc | ha
    · simp [hc.broadcasts, hc.state]
    · simp [ha.broadcasts, ha.state]
  broadcast_peers bytes hbytes buf hbuf d hd := by
    rcases hi.phase with hc | ha
    · rw [hc.broadcasts] at hbytes
      exact absurd hbytes List.not_mem_nil
    · rw [ha.broadcasts, List.mem_singleton] at hbytes
      obtain ⟨m, hm, hkeys⟩ := fromBuffer_peerMap s.coordinator.workerInfo buf (hbuf.trans hbytes) d hd
      refine ⟨m, hm, fun c => ?_⟩
      rw [hkeys, hi.mem_workerInfo]
      constructor
      · rintro ⟨i, -, hc⟩
        exact ⟨i, hc⟩
      · rintro ⟨i, hc⟩
        exact ⟨i, mem_of_complete hi.nodup ha.complete i, hc⟩
  sent i := by
    rcases hi.phase with hc | ha
    · refine .inl ⟨hc.broadcasts, ?_⟩
      by_cases hmem : i ∈ entered
      · exact .inr ((hc.sent i).trans (if_pos hmem))
      · exact .inl ((hc.sent i).trans (if_neg hmem))
    · exact .inr ⟨_, ha.broadcasts, ha.sent i⟩
  arrived harrived := by
    rcases hi.phase with hc | ha
    · -- a worker that is missing has its introduction on its way
      have hall : ∀ i, i ∈ entered := by
        intro i
        by_contra hnot
        obtain ⟨hs, hnone⟩ := harrived i
        rw [hi.coming i, if_pos ⟨hs, hnot⟩] at hnone
        exact absurd hnone (List.cons_ne_nil _ _)
      have hlen : entered.length = N := by
        have huniv : entered.toFinset = Finset.univ := by
          ext i
          simp [hall i]
        rw [← List.toFinset_card_of_nodup hi.nodup, huniv, Finset.card_univ, Fintype.card_fin]
      exact absurd hlen (Nat.ne_of_lt hc.missing)
    · exact ⟨_, ha.broadcasts⟩
  unsent := hi.unsent
  raised := hi.raised

theorem Inv.broadcastStep (e : Event N) (hi : Inv S s entered) (hl : s.Legal S e) :
    BroadcastStep S h s e := by
  rcases step_inv (h := h) e hi hl with ⟨hi', hsame⟩ | ⟨i, hnot, hi'⟩
  · refine ⟨.inl hsame, fun hs => ?_⟩
    rw [← hi.safe.broadcast_state] at hs
    rwa [← hi'.safe.broadcast_state, hsame]
  · have hc := hi.collecting hnot
    have hlen : (entered ++ [i]).length = entered.length + 1 := List.length_append
    refine ⟨?_, fun hs => absurd (hc.state.symm.trans hs) (by decide)⟩
    rcases hi'.phase with hc' | ha'
    · exact .inl (hc'.broadcasts.trans hc.broadcasts.symm)
    · have hcomplete := ha'.complete
      refine .inr ⟨hc.state, ?_, ?_⟩
      · rw [hi.size_workers, ← hlen, hcomplete]
      · rw [hi'.size_workers, hcomplete]

/-- **Safety of registration.** With at least one worker, in every state of every run, whatever the
order of the steps: an issued cookie has been redeemed at most once; at most one message has been
broadcast, and its keys are the connections of the workers; each worker has been sent the answer and
then that message and nothing else, and all have once their introductions have arrived; no other
connection has been sent anything; nobody has raised. The broadcast happens in the step that enters the
last worker, and the coordinator stays in `peersinfo` from then on. -/
theorem registration_safe (S : Setup N) (h : Rehash) (hpos : 0 < N) (es : List (Event N))
    (hl : EachStep (System.step S h) (System.Legal S) (System.init S) es) :
    Always (System.step S h) (Safe S) (System.init S) es ∧
      EachStep (System.step S h) (BroadcastStep S h) (System.init S) es := by
  have hinit : ∃ entered, Inv S (System.init S) entered := ⟨[], init_inv hpos⟩
  have hstep : ∀ (s : System N) (e : Event N), (∃ entered, Inv S s entered) → s.Legal S e →
      ∃ entered, Inv S (s.step S h e) entered := by
    rintro s e ⟨entered, hi⟩ hl
    rcases step_inv (h := h) e hi hl with ⟨hi', -⟩ | ⟨i, -, hi'⟩
    · exact ⟨entered, hi'⟩
    · exact ⟨entered ++ [i], hi'⟩
  constructor
  · exact always_of_invariant (fun s ⟨_, hi⟩ => hi.safe) hstep hinit hl
  · exact eachStep_of_invariant hstep (fun s e ⟨_, hi⟩ hl => hi.broadcastStep e hl) hinit hl

/-- One worker on connection 0. -/
def oneWorker : Setup 1 where
  draw := CoordinatorServer.uniformCookie
  conn _ := 0
  info _ := workerInfo.init
  draw_injective := by omega
  conn_injective i j _ := Subsingleton.elim i j

/-- The worker registers and is told of itself; connection 7 tries another cookie in between. -/
theorem registration_safe_one :
    let es : List (Event 1) :=
      [.start 0, .otherSends 7 (CoordinatorServer.uniformCookie 9) workerInfo.init,
        .toCoordinator 7 0 (Ty.inits _), .toCoordinator 0 0 (Ty.inits _), .toWorker 0 0 (Ty.inits _),
        .toWorker 0 0 (Ty.inits _)]
    let step := System.step oneWorker CoordinatorServer.inOrder
    Always step (Safe oneWorker) (System.init oneWorker) es ∧
      EachStep step (BroadcastStep oneWorker CoordinatorServer.inOrder) (System.init oneWorker) es := by
  have hother : ¬ oneWorker.Genuine 7 := by
    rintro ⟨i, hi⟩
    exact absurd (show (0 : ConnId) = 7 from hi) (by decide)
  have hillegal : ¬ oneWorker.Issued (CoordinatorServer.uniformCookie 9) := by
    rintro ⟨i, hi⟩
    rw [Subsingleton.elim i 0] at hi
    exact absurd hi (by decide)
  refine registration_safe oneWorker CoordinatorServer.inOrder (by decide) _ ?_
  exact ⟨rfl, ⟨hother, hillegal⟩, Ty.freshes_inits _, Ty.freshes_inits _, Ty.freshes_inits _,
    Ty.freshes_inits _, trivial⟩

end Thallium.Registration
