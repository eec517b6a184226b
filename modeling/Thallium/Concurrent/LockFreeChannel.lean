import Mathlib.Data.Nat.ModEq
import Mathlib.Logic.Function.Basic
import Thallium.Common
import Thallium.Lib.EventRun

/-!
# The lock-free channel (concurrent.hpp:92-144)

A ring of `buffer_size` slots with two indices: the one sender moves `head`, the one receiver moves
`tail`, and each reads the other's. A step below is one load, one access to a slot or one store, in a
sequentially consistent order.

| here | there |
| --- | --- |
| `next`                       | `next` (concurrent.hpp:98) |
| `Channel`                    | `ring_buffer`, `head`, `tail`, and where each side stands; `full`, `sendResults`, `recvResults` are not fields there: the slots that hold a value no `try_receive` has taken, and what each `try_send` and `try_receive` returned |
| `producerStep`               | `try_send`, and the loop of `send` around it |
| `consumerStep`               | `try_receive`, and the loop of `receive` around it |
| `BoundedQueue`               | not in the source: what the channel is for |

* `inv_step` — the values between the two counts are in their slots, whatever stale index a side holds.
* `inv_slotSafe`, `inv_failsOnlyFull`, `inv_failsOnlyEmpty` — what one step may touch and when it fails.
* `step_refines` — the channel is a queue of at most `buffer_size - 1` values.
-/
namespace Thallium.Concurrent
open EventRun

/-! ## Slots -/

/-- concurrent.hpp:98 -/
def next {N : Nat} (pos : Fin N) : Fin N := ⟨(pos.val + 1) % N, Nat.mod_lt _ pos.pos⟩

/-- The slot of the `k`-th value. -/
def slot (N : Nat) [NeZero N] (k : Nat) : Fin N := ⟨k % N, Nat.mod_lt _ (Nat.pos_of_neZero N)⟩

section Slot
variable {N : Nat} [NeZero N] {i j : Nat}

theorem next_slot (k : Nat) : next (slot N k) = slot N (k + 1) := by
  apply Fin.ext
  simp [next, slot]

/-- Two values less than a ring apart have different slots. -/
theorem slot_inj (hij : i ≤ j) (hj : j < i + N) (h : slot N i = slot N j) : i = j := by
  have hmod : i % N = j % N := congrArg Fin.val h
  have hdvd : N ∣ j - i := (Nat.modEq_iff_dvd' hij).mp hmod
  have hzero := Nat.eq_zero_of_dvd_of_lt hdvd (by omega)
  omega

theorem slot_ne (hij : i < j) (hj : j < i + N) : slot N j ≠ slot N i := by
  intro h
  have := slot_inj (Nat.le_of_lt hij) hj h.symm
  omega

/-- The slot behind the last of less than a ring of values is the first one's only if all others are
taken. -/
theorem next_slot_eq (hij : i ≤ j) (hj : j < i + N) (h : next (slot N j) = slot N i) :
    j + 1 = i + N := by
  rw [next_slot] at h
  by_contra hne
  have := slot_inj (by omega) (by omega) h.symm
  omega

theorem next_slot_ne (hj : j < i + N) (h : next (slot N j) ≠ slot N i) :
    j + 1 < i + N := by
  rcases Nat.lt_or_ge (j + 1) (i + N) with hlt | hge
  · exact hlt
  · refine absurd ?_ h
    rw [next_slot, show j + 1 = i + N by omega]
    apply Fin.ext
    simp [slot]

end Slot

/-! ## The channel and its two sides -/

/-- `try_send` and `try_receive` return `false`, `send` and `receive` try again. -/
inductive Patience where
  | once
  | forever
  deriving DecidableEq

/-- Where the sender stands; `headV` is its copy of `head`. -/
inductive Producer (T : Type) (N : Nat) where
  | idle
  | loadHead (p : Patience) (t : T)
  | loadTail (p : Patience) (t : T) (headV : Fin N)
  | write (p : Patience) (t : T) (headV : Fin N)
  | storeHead (p : Patience) (t : T) (headV : Fin N)

/-- Where the receiver stands; `waiting` is how many values the channel held when it loaded `head`. -/
inductive Consumer (T : Type) (N : Nat) where
  | idle
  | loadHead (p : Patience)
  | loadTail (p : Patience) (headV : Fin N) (waiting : Nat)
  | read (p : Patience) (tailV : Fin N)
  | storeTail (p : Patience) (t : T) (tailV : Fin N)

variable {T : Type} {N : Nat}

/-- The slot the sender has written and not published. -/
def Producer.written : Producer T N → Option (Fin N)
  | .storeHead _ _ headV => some headV
  | _ => none

/-- How many of the values not yet received are already moved out of their slots. -/
def Consumer.taken : Consumer T N → Nat
  | .storeTail _ _ _ => 1
  | _ => 0

structure Channel (T : Type) (N : Nat) where
  ringBuffer : Fin N → T
  head : Fin N
  tail : Fin N
  producer : Producer T N
  consumer : Consumer T N
  full : Fin N → Bool
  sendResults : List (T × Bool)
  recvResults : List (Option T)

/-- `trySend` and `tryReceive` start a call, `producer` and `consumer` are the next step of a side. -/
inductive ChannelEvent (T : Type) where
  | trySend (p : Patience) (t : T)
  | tryReceive (p : Patience)
  | producer
  | consumer

/-- The value of an accepted send. -/
def accepted : T × Bool → Option T
  | (t, true) => some t
  | (_, false) => none

namespace Channel

/-- The values whose send succeeded, in order. -/
def sent (s : Channel T N) : List T := s.sendResults.filterMap accepted

/-- The values a receive returned, in order. -/
def received (s : Channel T N) : List T := s.recvResults.filterMap id

def unconsumed (s : Channel T N) : Nat := s.sent.length - s.received.length

/-- The slots start with whatever `T`'s default constructor leaves there. -/
def start [NeZero N] (ringBuffer : Fin N → T) : Channel T N :=
  ⟨ringBuffer, slot N 0, slot N 0, .idle, .idle, fun _ => false, [], []⟩

/-- concurrent.hpp:107-116, 131-136 -/
def producerStep (s : Channel T N) : Channel T N :=
  match s.producer with
  | .idle => s
  | .loadHead p t => { s with producer := .loadTail p t s.head }
  | .loadTail p t headV =>
    if next headV = s.tail then
      { s with
        producer := if p = .once then .idle else .loadHead p t
        sendResults := s.sendResults ++ [(t, false)] }
    else { s with producer := .write p t headV }
  | .write p t headV =>
    { s with
      ringBuffer := Function.update s.ringBuffer headV t
      full := Function.update s.full headV true
      producer := .storeHead p t headV }
  | .storeHead _ t headV =>
    { s with
      head := next headV
      producer := .idle
      sendResults := s.sendResults ++ [(t, true)] }

/-- concurrent.hpp:118-127, 138-143. `move_or_copy` leaves `movedFrom` of the value in its slot. -/
def consumerStep (movedFrom : T → T) (s : Channel T N) : Channel T N :=
  match s.consumer with
  | .idle => s
  | .loadHead p => { s with consumer := .loadTail p s.head s.unconsumed }
  | .loadTail p headV _ =>
    if headV = s.tail then
      { s with
        consumer := if p = .once then .idle else .loadHead p
        recvResults := s.recvResults ++ [none] }
    else { s with consumer := .read p s.tail }
  | .read p tailV =>
    { s with
      ringBuffer := Function.update s.ringBuffer tailV (movedFrom (s.ringBuffer tailV))
      consumer := .storeTail p (s.ringBuffer tailV) tailV }
  | .storeTail _ t tailV =>
    { s with
      tail := next tailV
      full := Function.update s.full tailV false
      consumer := .idle
      recvResults := s.recvResults ++ [some t] }

/-- A side starts a call only when it has finished the one before. -/
def step (movedFrom : T → T) (s : Channel T N) : ChannelEvent T → Channel T N
  | .trySend p t =>
    match s.producer with
    | .idle => { s with producer := .loadHead p t }
    | _ => s
  | .tryReceive p =>
    match s.consumer with
    | .idle => { s with consumer := .loadHead p }
    | _ => s
  | .producer => s.producerStep
  | .consumer => s.consumerStep movedFrom

/-! ## The invariant -/

/-- What the sender knows: its copy of `head` is exact, and past the test there is room for one more
value. -/
def ProducerAt (s : Channel T N) : Producer T N → Prop
  | .idle | .loadHead _ _ => True
  | .loadTail _ _ headV => headV = s.head
  | .write _ _ headV => headV = s.head ∧ s.sent.length + 1 < s.received.length + N
  | .storeHead _ t headV =>
    headV = s.head ∧ s.sent.length + 1 < s.received.length + N ∧ s.ringBuffer headV = t

/-- What the receiver knows: its copy of `head` is `waiting` values past `tail`, all of them sent; past
the test there is a value to take. -/
def ConsumerAt [NeZero N] (s : Channel T N) : Consumer T N → Prop
  | .idle | .loadHead _ => True
  | .loadTail _ headV waiting =>
    headV = slot N (s.received.length + waiting) ∧ s.received.length + waiting ≤ s.sent.length
  | .read _ tailV => tailV = s.tail ∧ s.received.length < s.sent.length
  | .storeTail _ t tailV => tailV = s.tail ∧ s.sent[s.received.length]? = some t

structure Inv [NeZero N] (s : Channel T N) : Prop where
  head : s.head = slot N s.sent.length
  tail : s.tail = slot N s.received.length
  order : s.received <+: s.sent
  room : s.sent.length < s.received.length + N
  slots : ∀ i t, s.received.length + s.consumer.taken ≤ i → s.sent[i]? = some t →
    s.ringBuffer (slot N i) = t
  full : ∀ j, s.full j = true ↔
    (∃ i, s.received.length ≤ i ∧ i < s.sent.length ∧ j = slot N i) ∨ s.producer.written = some j
  sender : s.ProducerAt s.producer
  receiver : s.ConsumerAt s.consumer

theorem prefix_concat {l m : List T} {t : T} (h : l <+: m) (ht : m[l.length]? = some t) :
    l ++ [t] <+: m := by
  obtain ⟨rest, rfl⟩ := h
  rw [List.getElem?_append_right (Nat.le_refl _), Nat.sub_self] at ht
  cases rest with
  | nil => cases ht
  | cons t' rest =>
    rw [List.getElem?_cons_zero, Option.some.injEq] at ht
    rw [ht]
    exact ⟨rest, by simp⟩

section Invariant
variable [NeZero N] {s : Channel T N}

theorem inv_start (ringBuffer : Fin N → T) : (start ringBuffer).Inv := by
  refine ⟨rfl, rfl, List.prefix_refl _, ?_, ?_, ?_, trivial, trivial⟩
  · simpa [start, sent, received] using Nat.pos_of_neZero N
  · intro i t _ ht
    cases ht
  · intro j
    constructor
    · intro h
      cases h
    · rintro (⟨i, -, hi, -⟩ | h)
      · exact absurd hi (Nat.not_lt_zero i)
      · cases h

omit [NeZero N] in
/-- What the sender knows stays true while the other side takes values. -/
theorem ProducerAt.mono {s' : Channel T N} {p : Producer T N} (h : s.ProducerAt p)
    (hhead : s'.head = s.head) (hring : ∀ j, p.written = some j → s'.ringBuffer j = s.ringBuffer j)
    (hsent : s'.sent = s.sent) (hrecv : s.received.length ≤ s'.received.length) : s'.ProducerAt p := by
  cases p with
  | idle | loadHead p t => trivial
  | loadTail p t headV => exact h.trans hhead.symm
  | write p t headV =>
    obtain ⟨hv, hroom⟩ := h
    exact ⟨hv.trans hhead.symm, by rw [hsent]; omega⟩
  | storeHead p t headV =>
    obtain ⟨hv, hroom, ht⟩ := h
    exact ⟨hv.trans hhead.symm, by rw [hsent]; omega, (hring headV rfl).trans ht⟩

/-- What the receiver knows stays true while the other side sends values. -/
theorem ConsumerAt.mono {s' : Channel T N} {c : Consumer T N} (h : s.ConsumerAt c)
    (htail : s'.tail = s.tail) (hsent : s.sent <+: s'.sent) (hrecv : s'.received = s.received) :
    s'.ConsumerAt c := by
  have hle := hsent.length_le
  cases c with
  | idle | loadHead p => trivial
  | loadTail p headV waiting =>
    obtain ⟨hv, hw⟩ := h
    exact ⟨by rw [hrecv]; exact hv, by rw [hrecv]; omega⟩
  | read p tailV =>
    obtain ⟨hv, hlt⟩ := h
    exact ⟨hv.trans htail.symm, by rw [hrecv]; omega⟩
  | storeTail p t tailV =>
    obtain ⟨hv, ht⟩ := h
    obtain ⟨rest, hrest⟩ := hsent
    refine ⟨hv.trans htail.symm, ?_⟩
    rw [hrecv, ← hrest, List.getElem?_append_left (List.getElem?_eq_some_iff.mp ht).1]
    exact ht

/-- A slot being written holds none of the values not yet received. -/
theorem Inv.written_ne (h : s.Inv) {j : Fin N} (hw : s.producer.written = some j) {i : Nat}
    (hb : s.received.length ≤ i) (hi : i < s.sent.length) : j ≠ slot N i := by
  have hs := h.sender
  have hroom := h.room
  revert hs hw
  cases s.producer with
  | idle | loadHead p t | loadTail p t headV | write p t headV =>
    intro hw
    cases hw
  | storeHead p t headV =>
    rintro hw ⟨hv, -⟩
    obtain rfl : headV = j := Option.some.inj hw
    rw [hv, h.head]
    exact slot_ne hi (by omega)

/-- A side may move on, and log a call that changed nothing. -/
theorem Inv.move (h : s.Inv) {p : Producer T N} {c : Consumer T N} {rs : List (T × Bool)}
    {ro : List (Option T)} (hs : rs.filterMap accepted = s.sent) (hr : ro.filterMap id = s.received)
    (hw : p.written = s.producer.written) (ht : c.taken = s.consumer.taken)
    (hp : s.ProducerAt p) (hc : s.ConsumerAt c) :
    ({ s with producer := p, consumer := c, sendResults := rs, recvResults := ro } : Channel T N).Inv := by
  have hsent : (⟨s.ringBuffer, s.head, s.tail, p, c, s.full, rs, ro⟩ : Channel T N).sent = s.sent := hs
  have hrecv : (⟨s.ringBuffer, s.head, s.tail, p, c, s.full, rs, ro⟩ : Channel T N).received =
    s.received := hr
  refine ⟨?_, ?_, ?_, ?_, ?_, ?_, ?_, ?_⟩
  · rw [hsent]
    exact h.head
  · rw [hrecv]
    exact h.tail
  · rw [hsent, hrecv]
    exact h.order
  · rw [hsent, hrecv]
    exact h.room
  · rw [hsent, hrecv, ht]
    exact h.slots
  · rw [hsent, hrecv, hw]
    exact h.full
  · exact hp.mono rfl (fun _ _ => rfl) hsent (Nat.le_of_eq (congrArg List.length hrecv.symm))
  · exact hc.mono rfl (hsent ▸ List.prefix_refl _) hrecv

/-- **Writing a slot** touches none of the values not yet received. -/
theorem inv_write (h : s.Inv) {p : Patience} {t : T} {headV : Fin N}
    (hp : s.producer = .write p t headV) : s.producerStep.Inv := by
  have hat := h.sender
  rw [hp] at hat
  obtain ⟨hhead, hroom⟩ := hat
  have hslot : headV = slot N s.sent.length := hhead.trans h.head
  have hwritten : s.producer.written = none := by rw [hp]; rfl
  simp only [producerStep, hp]
  refine ⟨h.head, h.tail, h.order, h.room, ?_, ?_, ⟨hhead, hroom, Function.update_self ..⟩, ?_⟩
  · intro i t' hi ht'
    have hlt : i < s.sent.length := (List.getElem?_eq_some_iff.mp ht').1
    have hb : s.received.length ≤ i := Nat.le_trans (Nat.le_add_right _ _) hi
    have hne : slot N i ≠ headV := by
      rw [hslot]
      exact (slot_ne hlt (by omega)).symm
    exact (Function.update_of_ne hne _ _).trans (h.slots i t' hi ht')
  · intro j
    have hold := h.full j
    rw [hwritten] at hold
    by_cases hj : j = headV
    · simp [hj, Producer.written]
    · have hj' : headV ≠ j := fun e => hj e.symm
      simp only [reduceCtorEq, or_false] at hold
      simp only [Function.update_of_ne hj, Producer.written, Option.some.injEq, hj', or_false]
      exact hold
  · exact h.receiver.mono rfl (List.prefix_refl _) rfl

/-- **Storing `head`** adds the value written to those sent. -/
theorem inv_storeHead (h : s.Inv) {p : Patience} {t : T} {headV : Fin N}
    (hp : s.producer = .storeHead p t headV) : s.producerStep.Inv := by
  have hat := h.sender
  rw [hp] at hat
  obtain ⟨hhead, hroom, hring⟩ := hat
  have hslot : headV = slot N s.sent.length := hhead.trans h.head
  have hsent : s.producerStep.sent = s.sent ++ [t] := by simp [producerStep, hp, sent, accepted]
  have hrecv : s.producerStep.received = s.received := by simp [producerStep, hp, received]
  have hle := h.order.length_le
  refine ⟨?_, ?_, ?_, ?_, ?_, ?_, ?_, ?_⟩
  · rw [hsent, List.length_append, List.length_singleton, ← next_slot, ← hslot]
    simp [producerStep, hp]
  · rw [hrecv, ← h.tail]
    simp [producerStep, hp]
  · rw [hsent, hrecv]
    exact h.order.trans (List.prefix_append _ _)
  · rw [hsent, hrecv, List.length_append, List.length_singleton]
    exact hroom
  · intro i t' hi ht'
    rw [hsent] at ht'
    have hc : s.producerStep.consumer = s.consumer := by simp [producerStep, hp]
    have hi' : s.received.length + s.consumer.taken ≤ i := by
      rw [← hrecv, ← hc]
      exact hi
    have hrb : s.producerStep.ringBuffer = s.ringBuffer := by simp [producerStep, hp]
    rw [hrb]
    rcases getElem?_concat_eq_some.mp ht' with ht' | ⟨rfl, rfl⟩
    · exact h.slots i t' hi' ht'
    · rw [← hslot]
      exact hring
  · intro j
    have hold := h.full j
    rw [hp] at hold
    have hfull : s.producerStep.full = s.full := by simp [producerStep, hp]
    have hnone : s.producerStep.producer.written = none := by simp [producerStep, hp, Producer.written]
    rw [hfull, hold, hsent, hrecv, hnone, List.length_append, List.length_singleton]
    simp only [Producer.written, Option.some.injEq, reduceCtorEq, or_false]
    constructor
    · rintro (⟨i, hb, hi, hj⟩ | hj)
      · exact ⟨i, hb, Nat.lt_succ_of_lt hi, hj⟩
      · exact ⟨s.sent.length, hle, Nat.lt_succ_self _, by rw [← hj, hslot]⟩
    · rintro ⟨i, hb, hi, hj⟩
      rcases Nat.lt_succ_iff_lt_or_eq.mp hi with hi | rfl
      · exact .inl ⟨i, hb, hi, hj⟩
      · exact .inr (by rw [hj, hslot])
  · simp [producerStep, hp, ProducerAt]
  · have hc : s.producerStep.consumer = s.consumer := by simp [producerStep, hp]
    rw [hc]
    exact h.receiver.mono (by simp [producerStep, hp]) (by rw [hsent]; exact List.prefix_append _ _) hrecv

theorem inv_producerStep (h : s.Inv) : s.producerStep.Inv := by
  cases hp : s.producer with
  | idle =>
    simp only [producerStep, hp]
    exact h
  | loadHead p t =>
    simp only [producerStep, hp]
    exact h.move rfl rfl (by rw [hp]; rfl) rfl rfl h.receiver
  | loadTail p t headV =>
    have hat := h.sender
    rw [hp] at hat
    simp only [producerStep, hp]
    split
    · refine h.move (by simp [sent, accepted]) rfl ?_ rfl ?_ h.receiver
      · rw [hp]
        split <;> rfl
      · split <;> trivial
    · rename_i hne
      refine h.move rfl rfl (by rw [hp]; rfl) rfl ⟨hat, ?_⟩ h.receiver
      rw [show headV = s.head from hat, h.head, h.tail] at hne
      exact next_slot_ne h.room hne
  | write p t headV => exact inv_write h hp
  | storeHead p t headV => exact inv_storeHead h hp

/-- **Taking a value** out of its slot. -/
theorem inv_read (h : s.Inv) (movedFrom : T → T) {p : Patience} {tailV : Fin N}
    (hc : s.consumer = .read p tailV) : (s.consumerStep movedFrom).Inv := by
  have hat := h.receiver
  rw [hc] at hat
  obtain ⟨htail, hlt⟩ := hat
  have hslot : tailV = slot N s.received.length := htail.trans h.tail
  have hroom := h.room
  simp only [consumerStep, hc]
  refine ⟨h.head, h.tail, h.order, h.room, ?_, h.full, ?_, htail, ?_⟩
  · intro i t hi ht
    have hia : i < s.sent.length := (List.getElem?_eq_some_iff.mp ht).1
    have hne : slot N i ≠ tailV := by
      rw [hslot]
      exact slot_ne hi (by omega)
    refine (Function.update_of_ne hne _ _).trans (h.slots i t ?_ ht)
    rw [hc]
    exact Nat.le_of_succ_le hi
  · refine h.sender.mono rfl ?_ rfl (Nat.le_refl _)
    intro j hj
    refine Function.update_of_ne ?_ _ _
    rw [hslot]
    exact h.written_ne hj (Nat.le_refl _) hlt
  · have ht := List.getElem?_eq_getElem hlt
    have hval := h.slots s.received.length _ (by rw [hc]; exact Nat.le_refl _) ht
    rw [← hslot] at hval
    rw [hval]
    exact ht

/-- **Storing `tail`** gives the slot of the value taken back. -/
theorem inv_storeTail (h : s.Inv) (movedFrom : T → T) {p : Patience} {t : T} {tailV : Fin N}
    (hc : s.consumer = .storeTail p t tailV) : (s.consumerStep movedFrom).Inv := by
  have hat := h.receiver
  rw [hc] at hat
  obtain ⟨htail, ht⟩ := hat
  have hlt : s.received.length < s.sent.length := (List.getElem?_eq_some_iff.mp ht).1
  have hslot : tailV = slot N s.received.length := htail.trans h.tail
  have hroom := h.room
  have hsent : (s.consumerStep movedFrom).sent = s.sent := by simp [consumerStep, hc, sent]
  have hrecv : (s.consumerStep movedFrom).received = s.received ++ [t] := by
    simp [consumerStep, hc, received]
  have hp : (s.consumerStep movedFrom).producer = s.producer := by simp [consumerStep, hc]
  have hidle : (s.consumerStep movedFrom).consumer = .idle := by simp [consumerStep, hc]
  have hrb : (s.consumerStep movedFrom).ringBuffer = s.ringBuffer := by simp [consumerStep, hc]
  refine ⟨?_, ?_, ?_, ?_, ?_, ?_, ?_, ?_⟩
  · rw [hsent, ← h.head]
    simp [consumerStep, hc]
  · rw [hrecv, List.length_append, List.length_singleton, ← next_slot, ← hslot]
    simp [consumerStep, hc]
  · rw [hsent, hrecv]
    exact prefix_concat h.order ht
  · rw [hsent, hrecv, List.length_append]
    omega
  · intro i t' hi ht'
    rw [hsent] at ht'
    rw [hrb]
    refine h.slots i t' ?_ ht'
    rw [hrecv, hidle, List.length_append] at hi
    rw [hc]
    exact hi
  · intro j
    have hold := h.full j
    have hfull : (s.consumerStep movedFrom).full = Function.update s.full tailV false := by
      simp [consumerStep, hc]
    have hwritten : s.producer.written ≠ some tailV :=
      fun hw => h.written_ne hw (Nat.le_refl _) hlt hslot
    rw [hfull, hsent, hrecv, hp, List.length_append, List.length_singleton]
    by_cases hj : j = tailV
    · -- the slot is free again: no other value is in it
      simp only [hj, Function.update_self, Bool.false_eq_true, false_iff, not_or]
      refine ⟨?_, hwritten⟩
      rintro ⟨i, hb, hi, heq⟩
      exact slot_ne hb (by omega) (heq.symm.trans hslot)
    · rw [Function.update_of_ne hj, hold]
      constructor
      · rintro (⟨i, hb, hi, heq⟩ | hw)
        · rcases Nat.lt_or_ge s.received.length i with hb' | hb'
          · exact .inl ⟨i, hb', hi, heq⟩
          · rw [heq, hslot, Nat.le_antisymm hb' hb] at hj
            exact absurd rfl hj
        · exact .inr hw
      · rintro (⟨i, hb, hi, heq⟩ | hw)
        · exact .inl ⟨i, Nat.le_of_succ_le hb, hi, heq⟩
        · exact .inr hw
  · rw [hp]
    refine h.sender.mono (by simp [consumerStep, hc]) (fun _ _ => by rw [hrb]) hsent ?_
    rw [hrecv, List.length_append]
    omega
  · rw [hidle]
    trivial

theorem inv_consumerStep (h : s.Inv) (movedFrom : T → T) : (s.consumerStep movedFrom).Inv := by
  cases hc : s.consumer with
  | idle =>
    simp only [consumerStep, hc]
    exact h
  | loadHead p =>
    have hle := h.order.length_le
    have hcount : s.received.length + s.unconsumed = s.sent.length := by
      simp only [unconsumed]
      omega
    simp only [consumerStep, hc]
    refine h.move rfl rfl rfl (by rw [hc]; rfl) h.sender ⟨?_, ?_⟩
    · rw [hcount]
      exact h.head
    · exact Nat.le_of_eq hcount
  | loadTail p headV waiting =>
    have hat := h.receiver
    rw [hc] at hat
    obtain ⟨hv, hw⟩ := hat
    simp only [consumerStep, hc]
    split
    · refine h.move rfl (by simp [received]) rfl ?_ h.sender ?_
      · rw [hc]
        split <;> rfl
      · split <;> trivial
    · rename_i hne
      refine h.move rfl rfl rfl (by rw [hc]; rfl) h.sender ⟨rfl, ?_⟩
      rcases Nat.eq_zero_or_pos waiting with hz | hpos
      · rw [hv, hz, Nat.add_zero, ← h.tail] at hne
        exact absurd rfl hne
      · omega
  | read p tailV => exact inv_read h movedFrom hc
  | storeTail p t tailV => exact inv_storeTail h movedFrom hc

theorem inv_step (movedFrom : T → T) (h : s.Inv) (e : ChannelEvent T) : (s.step movedFrom e).Inv := by
  cases e with
  | producer => exact inv_producerStep h
  | consumer => exact inv_consumerStep h movedFrom
  | trySend p t =>
    simp only [step]
    split
    · rename_i hp
      exact h.move rfl rfl (by rw [hp]; rfl) rfl trivial h.receiver
    · exact h
  | tryReceive p =>
    simp only [step]
    split
    · rename_i hc
      exact h.move rfl rfl rfl (by rw [hc]; rfl) h.sender trivial
    · exact h

/-! ## What a step may touch, and when a call fails -/

/-- A slot is written only while it holds no value, and read only while it holds one. -/
def SlotSafe (s : Channel T N) : ChannelEvent T → Prop
  | .producer => ∀ p t headV, s.producer = .write p t headV → s.full headV = false
  | .consumer => ∀ p tailV, s.consumer = .read p tailV → s.full tailV = true
  | _ => True

/-- A `try_send` fails at its load of `tail`, with `buffer_size - 1` values not yet received. -/
def FailsOnlyFull (movedFrom : T → T) (s : Channel T N) (e : ChannelEvent T) : Prop :=
  ∀ t, (s.step movedFrom e).sendResults = s.sendResults ++ [(t, false)] →
    (∃ p headV, s.producer = .loadTail p t headV) ∧ s.unconsumed = N - 1

/-- A `try_receive` fails at its load of `tail`, and then the channel was empty at its load of `head`. -/
def FailsOnlyEmpty (movedFrom : T → T) (s : Channel T N) (e : ChannelEvent T) : Prop :=
  (s.step movedFrom e).recvResults = s.recvResults ++ [none] →
    ∃ p headV, s.consumer = .loadTail p headV 0

theorem inv_slotSafe (h : s.Inv) (e : ChannelEvent T) : s.SlotSafe e := by
  cases e with
  | producer =>
    intro p t headV hp
    have hs := h.sender
    rw [hp] at hs
    obtain ⟨hv, hroom⟩ := hs
    have hslot : headV = slot N s.sent.length := hv.trans h.head
    have hfull := h.full headV
    rw [hp] at hfull
    by_contra hne
    rcases hfull.mp (by simpa using hne) with ⟨i, hb, hi, heq⟩ | hw
    · have := slot_inj (Nat.le_of_lt hi) (by omega) (heq.symm.trans hslot)
      omega
    · cases hw
  | consumer =>
    intro p tailV hc
    have hr := h.receiver
    rw [hc] at hr
    obtain ⟨hv, hlt⟩ := hr
    exact (h.full tailV).mpr (.inl ⟨s.received.length, Nat.le_refl _, hlt, hv.trans h.tail⟩)
  | trySend p t => trivial
  | tryReceive p => trivial

theorem inv_failsOnlyFull (movedFrom : T → T) (h : s.Inv) (e : ChannelEvent T) :
    s.FailsOnlyFull movedFrom e := by
  intro t hr
  cases e with
  | trySend p t' =>
    simp only [step] at hr
    split at hr <;> exact absurd hr ne_concat
  | tryReceive p =>
    simp only [step] at hr
    split at hr <;> exact absurd hr ne_concat
  | consumer =>
    simp only [step, consumerStep] at hr
    split at hr
    case h_3 => split at hr <;> exact absurd hr ne_concat
    all_goals exact absurd hr ne_concat
  | producer =>
    simp only [step] at hr
    cases hp : s.producer with
    | idle | loadHead p t' | write p t' headV =>
      simp only [producerStep, hp] at hr
      exact absurd hr ne_concat
    | storeHead p t' headV =>
      simp [producerStep, hp] at hr
    | loadTail p t' headV =>
      have hat := h.sender
      rw [hp] at hat
      simp only [producerStep, hp] at hr
      split at hr
      · rename_i hfull
        simp only [List.append_cancel_left_eq, List.cons.injEq, Prod.mk.injEq, and_true] at hr
        refine ⟨⟨p, headV, by rw [hr]⟩, ?_⟩
        rw [show headV = s.head from hat, h.head, h.tail] at hfull
        have := next_slot_eq h.order.length_le h.room hfull
        simp only [unconsumed]
        omega
      · exact absurd hr ne_concat

theorem inv_failsOnlyEmpty (movedFrom : T → T) (h : s.Inv) (e : ChannelEvent T) :
    s.FailsOnlyEmpty movedFrom e := by
  intro hr
  cases e with
  | trySend p t' =>
    simp only [step] at hr
    split at hr <;> exact absurd hr ne_concat
  | tryReceive p =>
    simp only [step] at hr
    split at hr <;> exact absurd hr ne_concat
  | producer =>
    simp only [step, producerStep] at hr
    split at hr
    case h_3 => split at hr <;> exact absurd hr ne_concat
    all_goals exact absurd hr ne_concat
  | consumer =>
    simp only [step] at hr
    cases hc : s.consumer with
    | idle | loadHead p | read p tailV =>
      simp only [consumerStep, hc] at hr
      exact absurd hr ne_concat
    | storeTail p t tailV =>
      simp [consumerStep, hc] at hr
    | loadTail p headV waiting =>
      have hat := h.receiver
      rw [hc] at hat
      obtain ⟨hv, hw⟩ := hat
      have hroom := h.room
      simp only [consumerStep, hc] at hr
      split at hr
      · rename_i hempty
        rw [hv, h.tail] at hempty
        have := slot_inj (Nat.le_add_right _ _) (by omega) hempty.symm
        obtain rfl : waiting = 0 := by omega
        exact ⟨p, headV, rfl⟩
      · exact absurd hr ne_concat

end Invariant
end Channel

/-! ## The bounded queue -/

/-- A queue of at most `capacity` values whose calls happen at once. -/
structure BoundedQueue (T : Type) where
  capacity : Nat
  content : List T
  sendResults : List (T × Bool)
  recvResults : List (Option T)

inductive BoundedEvent (T : Type) where
  | trySend (t : T)
  | tryReceive

namespace BoundedQueue

def empty (capacity : Nat) : BoundedQueue T := ⟨capacity, [], [], []⟩

def trySend (q : BoundedQueue T) (t : T) : BoundedQueue T :=
  if q.content.length < q.capacity then
    { q with content := q.content ++ [t], sendResults := q.sendResults ++ [(t, true)] }
  else { q with sendResults := q.sendResults ++ [(t, false)] }

def tryReceive (q : BoundedQueue T) : BoundedQueue T :=
  match q.content with
  | [] => { q with recvResults := q.recvResults ++ [none] }
  | t :: rest => { q with content := rest, recvResults := q.recvResults ++ [some t] }

def step (q : BoundedQueue T) : BoundedEvent T → BoundedQueue T
  | .trySend t => q.trySend t
  | .tryReceive => q.tryReceive

theorem content_length_le {capacity : Nat} (es : List (BoundedEvent T)) :
    (run step (empty capacity) es).content.length ≤ capacity := by
  have hstep : ∀ (_ : List (BoundedEvent T)) (q : BoundedQueue T) (e : BoundedEvent T),
      q.content.length ≤ q.capacity ∧ q.capacity = capacity →
        (q.step e).content.length ≤ (q.step e).capacity ∧ (q.step e).capacity = capacity := by
    rintro _ q e ⟨hle, hcap⟩
    cases e with
    | trySend t =>
      simp only [step, trySend]
      split
      · rename_i hlt
        refine ⟨?_, hcap⟩
        rw [List.length_append, List.length_singleton]
        exact hlt
      · exact ⟨hle, hcap⟩
    | tryReceive =>
      simp only [step, tryReceive]
      split
      · exact ⟨hle, hcap⟩
      · rename_i t rest hcons
        rw [hcons, List.length_cons] at hle
        exact ⟨Nat.le_of_succ_le hle, hcap⟩
  have hstart : (empty capacity : BoundedQueue T).content.length ≤ (empty capacity : BoundedQueue T).capacity ∧
      (empty capacity : BoundedQueue T).capacity = capacity := ⟨Nat.zero_le _, rfl⟩
  have h := run_history (J := fun _ (q : BoundedQueue T) =>
    q.content.length ≤ q.capacity ∧ q.capacity = capacity) hstart hstep es
  exact Nat.le_trans h.1 (Nat.le_of_eq h.2)

end BoundedQueue

namespace Channel

/-- Where each call takes effect: a refused send at its load of `tail`, an accepted one at its store of
`head`; an empty-handed receive at its load of `head`, the others at their store of `tail`. -/
def boundedAnswer (s : Channel T N) : ChannelEvent T → List (BoundedEvent T)
  | .producer =>
    match s.producer with
    | .loadTail _ t headV => if next headV = s.tail then [.trySend t] else []
    | .storeHead _ t _ => [.trySend t]
    | _ => []
  | .consumer =>
    match s.consumer with
    | .loadHead _ => if s.head = s.tail then [.tryReceive] else []
    | .storeTail _ _ _ => [.tryReceive]
    | _ => []
  | _ => []

/-- The run of the bounded queue beside a run of the channel. -/
def boundedRun (movedFrom : T → T) (s : Channel T N) (es : List (ChannelEvent T)) :
    List (BoundedEvent T) :=
  answers (step movedFrom) boundedAnswer s es

/-- The answer of a receive that has seen the channel empty and not yet returned. -/
def dueResults (s : Channel T N) : List (Option T) :=
  match s.consumer with
  | .loadTail _ headV _ => if headV = s.tail then [none] else []
  | _ => []

structure Refines [NeZero N] (s : Channel T N) (q : BoundedQueue T) : Prop where
  inv : s.Inv
  capacity : q.capacity = N - 1
  content : q.content = s.sent.drop s.received.length
  sendResults : q.sendResults = s.sendResults
  recvResults : q.recvResults = s.recvResults ++ s.dueResults

section Refinement
variable [NeZero N] {s : Channel T N} {q : BoundedQueue T}

theorem Refines.content_length (h : s.Refines q) : q.content.length = s.unconsumed := by
  rw [h.content, List.length_drop]
  rfl

theorem Refines.content_nil (h : s.Refines q) (heq : s.head = s.tail) : q.content = [] := by
  have hroom := h.inv.room
  rw [h.inv.head, h.inv.tail] at heq
  have := slot_inj h.inv.order.length_le hroom heq.symm
  rw [h.content, this]
  exact List.drop_length

/-- The sender's side: a call of `try_send` is refused or accepted where the queue's is. -/
theorem producerStep_refines (h : s.Refines q) :
    s.producerStep.Refines (run BoundedQueue.step q (s.boundedAnswer .producer)) := by
  have hinv := inv_producerStep h.inv
  revert hinv
  cases hp : s.producer with
  | idle | loadHead p t | write p t headV =>
    simp only [producerStep, boundedAnswer, hp]
    intro hinv
    exact ⟨hinv, h.capacity, h.content, h.sendResults, h.recvResults⟩
  | loadTail p t headV =>
    have hat := h.inv.sender
    rw [hp] at hat
    by_cases hfull : next headV = s.tail
    · -- refused: all other slots are taken
      have hlen : ¬ q.content.length < q.capacity := by
        rw [show headV = s.head from hat, h.inv.head, h.inv.tail] at hfull
        have := next_slot_eq h.inv.order.length_le h.inv.room hfull
        rw [h.content_length, h.capacity, unconsumed]
        omega
      simp only [producerStep, boundedAnswer, hp, hfull, if_true, run, BoundedQueue.step,
        BoundedQueue.trySend, hlen, if_false]
      intro hinv
      refine ⟨hinv, h.capacity, ?_, by rw [h.sendResults], h.recvResults⟩
      simpa [sent, received, List.filterMap_cons, accepted] using h.content
    · simp only [producerStep, boundedAnswer, hp, hfull, if_false]
      intro hinv
      exact ⟨hinv, h.capacity, h.content, h.sendResults, h.recvResults⟩
  | storeHead p t headV =>
    have hat := h.inv.sender
    rw [hp] at hat
    obtain ⟨-, hroom, -⟩ := hat
    have hle := h.inv.order.length_le
    have hlen : q.content.length < q.capacity := by
      rw [h.content_length, h.capacity, unconsumed]
      omega
    simp only [producerStep, boundedAnswer, hp, run, BoundedQueue.step, BoundedQueue.trySend, hlen,
      if_true]
    intro hinv
    refine ⟨hinv, h.capacity, ?_, by rw [h.sendResults], h.recvResults⟩
    have hdrop : (s.sent ++ [t]).drop s.received.length = s.sent.drop s.received.length ++ [t] :=
      List.drop_append_of_le_length hle
    rw [← h.content] at hdrop
    simpa [sent, received, accepted] using hdrop.symm

/-- The receiver's side: an empty-handed `try_receive` takes effect at its load of `head`. -/
theorem consumerStep_refines (movedFrom : T → T) (h : s.Refines q) :
    (s.consumerStep movedFrom).Refines (run BoundedQueue.step q (s.boundedAnswer .consumer)) := by
  have hinv := inv_consumerStep h.inv movedFrom
  have hrecv := h.recvResults
  revert hinv
  cases hc : s.consumer with
  | idle =>
    simp only [consumerStep, boundedAnswer, hc]
    intro hinv
    exact ⟨hinv, h.capacity, h.content, h.sendResults, hrecv⟩
  | loadHead p =>
    simp only [dueResults, hc, List.append_nil] at hrecv
    by_cases hempty : s.head = s.tail
    · simp only [consumerStep, boundedAnswer, hc, hempty, if_true, run, BoundedQueue.step,
        BoundedQueue.tryReceive, h.content_nil hempty]
      intro hinv
      refine ⟨hinv, h.capacity, ?_, h.sendResults, ?_⟩
      · exact (h.content_nil hempty).symm.trans h.content
      · simp only [dueResults, if_true, hrecv]
    · simp only [consumerStep, boundedAnswer, hc, hempty, if_false]
      intro hinv
      exact ⟨hinv, h.capacity, h.content, h.sendResults, by simp [run, dueResults, hempty, hrecv]⟩
  | loadTail p headV waiting =>
    simp only [dueResults, hc] at hrecv
    simp only [consumerStep, boundedAnswer, hc]
    split
    · rename_i hempty
      rw [if_pos hempty] at hrecv
      intro hinv
      refine ⟨hinv, h.capacity, ?_, h.sendResults, ?_⟩
      · simpa [run, sent, received] using h.content
      · simp only [run, hrecv]
        by_cases hp : p = .once <;> simp [dueResults, hp]
    · rename_i hne
      rw [if_neg hne, List.append_nil] at hrecv
      intro hinv
      exact ⟨hinv, h.capacity, h.content, h.sendResults, by simp [run, dueResults, hrecv]⟩
  | read p tailV =>
    simp only [dueResults, hc, List.append_nil] at hrecv
    simp only [consumerStep, boundedAnswer, hc]
    intro hinv
    exact ⟨hinv, h.capacity, h.content, h.sendResults, by simp [run, dueResults, hrecv]⟩
  | storeTail p t tailV =>
    simp only [dueResults, hc, List.append_nil] at hrecv
    have hat := h.inv.receiver
    rw [hc] at hat
    obtain ⟨-, ht⟩ := hat
    have hcons : q.content = t :: s.sent.drop (s.received.length + 1) := by
      obtain ⟨hlt, hget⟩ := List.getElem?_eq_some_iff.mp ht
      rw [h.content, List.drop_eq_getElem_cons hlt, hget]
    simp only [consumerStep, boundedAnswer, hc, run, BoundedQueue.step, BoundedQueue.tryReceive, hcons]
    intro hinv
    refine ⟨hinv, h.capacity, ?_, h.sendResults, by simp [dueResults, hrecv]⟩
    simp [sent, received]

theorem step_refines (movedFrom : T → T) (s : Channel T N) (q : BoundedQueue T) (e : ChannelEvent T)
    (h : s.Refines q) :
    (s.step movedFrom e).Refines (run BoundedQueue.step q (s.boundedAnswer e)) := by
  have hinv := inv_step movedFrom h.inv e
  cases e with
  | producer => exact producerStep_refines h
  | consumer => exact consumerStep_refines movedFrom h
  | trySend p t =>
    refine ⟨hinv, h.capacity, ?_, ?_, ?_⟩
    all_goals
      simp only [step, boundedAnswer]
      split
    exacts [h.content, h.content, h.sendResults, h.sendResults, h.recvResults, h.recvResults]
  | tryReceive p =>
    have hrecv := h.recvResults
    refine ⟨hinv, h.capacity, ?_, ?_, ?_⟩
    all_goals
      simp only [step, boundedAnswer]
      split
    exacts [h.content, h.content, h.sendResults, h.sendResults,
      by simp [dueResults, *], hrecv]

theorem refines_start (ringBuffer : Fin N → T) :
    (start ringBuffer).Refines (BoundedQueue.empty (N - 1)) :=
  ⟨inv_start ringBuffer, rfl, rfl, rfl, rfl⟩

/-- **A bounded FIFO queue.** In every run of one sender and one receiver, whatever the steps of the
two: the values received are a prefix of those whose send succeeded; no slot is written while it holds
a value that has not been taken, none is read while it holds none; `try_send` fails only with
`buffer_size - 1` values not received when it loads `tail`, `try_receive` only if there was none when
it loaded `head`; and a queue of at most `buffer_size - 1` values, whose calls happen at once, has
returned the same, but for the `false` of a receive that has not returned yet. -/
theorem lockFreeChannel_fifo (movedFrom : T → T) (ringBuffer : Fin N → T) (es : List (ChannelEvent T)) :
    (run (step movedFrom) (start ringBuffer) es).received <+:
      (run (step movedFrom) (start ringBuffer) es).sent ∧
    EachStep (step movedFrom) SlotSafe (start ringBuffer) es ∧
    EachStep (step movedFrom) (FailsOnlyFull movedFrom) (start ringBuffer) es ∧
    EachStep (step movedFrom) (FailsOnlyEmpty movedFrom) (start ringBuffer) es ∧
    (let s := run (step movedFrom) (start ringBuffer) es
     let q := run BoundedQueue.step (BoundedQueue.empty (N - 1))
       (boundedRun movedFrom (start ringBuffer) es)
     q.content = s.sent.drop s.received.length ∧ q.content.length ≤ N - 1 ∧
       q.sendResults = s.sendResults ∧ q.recvResults = s.recvResults ++ s.dueResults) := by
  have hsim := run_simulation (step_refines movedFrom) (refines_start ringBuffer) es
  have each : ∀ {Q : Channel T N → ChannelEvent T → Prop}, (∀ s e, s.Inv → Q s e) →
      EachStep (step movedFrom) Q (start ringBuffer) es := by
    intro Q hq
    exact eachStep_of_invariant (I := Inv) (L := fun _ _ => True) (fun _ e h _ => inv_step movedFrom h e)
      (fun s e h _ => hq s e h) (inv_start ringBuffer) (EachStep.of_forall (fun _ _ => trivial) _ _)
  exact ⟨hsim.inv.order, each fun _ e h => inv_slotSafe h e,
    each fun _ e h => inv_failsOnlyFull movedFrom h e, each fun _ e h => inv_failsOnlyEmpty movedFrom h e,
    hsim.content, BoundedQueue.content_length_le _, hsim.sendResults, hsim.recvResults⟩

/-- A ring of two slots holds one value: the second send is refused until the first is received. -/
theorem lockFreeChannel_fifo_two :
    let es : List (ChannelEvent Nat) :=
      [.trySend .once 7, .producer, .producer, .producer, .producer,
        .trySend .once 8, .producer, .producer, .tryReceive .once, .consumer, .consumer, .consumer]
    let s := run (step id) (start (fun _ : Fin 2 => 0)) es
    s.sendResults = [(7, true), (8, false)] ∧ s.received <+: s.sent :=
  ⟨by decide, (lockFreeChannel_fifo id _ _).1⟩

end Refinement
end Channel
end Thallium.Concurrent
