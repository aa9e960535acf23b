import Mathlib.Algebra.Order.Group.Multiset
import Mathlib.Tactic.Abel
import MrubyMqtt.Delivery

/-!
# What a session keeps

`Tracked` is the invariant of a session. The queue and the inbound list **own** their buffers: all
addresses differ, every block is live and still holds the bytes of the packet it was made from. And
nothing is lost: what has been delivered, followed by what is queued, is what has arrived, in
order, less what a clean session has thrown away.

`Moves` says once what a step can do to the queue and the trace; `step_moves` proves it, and every
result about messages is read off from it.
-/

open Bytes

namespace Session

/-! ### Buffers and the packets behind them -/

/-- The topic of the packet behind a publication. -/
def topicOf (received : ℕ → Option Publish) (a : ℕ) : Bytes :=
  ((received a).map Publish.topic).getD []

/-- The payload of the packet behind a publication. -/
def payloadOf (received : ℕ → Option Publish) (a : ℕ) : Bytes :=
  ((received a).map Publish.payload).getD []

/-- The buffers of a message and its topic, in the order in which the wrapper frees them. -/
def messageCells (received : ℕ → Option Publish) (topic payload addr : ℕ) : List (ℕ × Bytes) :=
  [(payload, payloadOf received topic), (addr, []), (topic, topicOf received topic ++ [0])]

theorem messageCells_eq {received : ℕ → Option Publish} {topic : ℕ} {publish : Publish}
    (h : received topic = some publish) (payload addr : ℕ) :
    messageCells received topic payload addr =
      [(payload, publish.payload), (addr, []), (topic, publish.topic ++ [0])] := by
  simp [messageCells, payloadOf, topicOf, h]

/-- The buffers of a queue entry. -/
def qEntryCells (received : ℕ → Option Publish) (qe : QEntry) : List (ℕ × Bytes) :=
  messageCells received qe.topicName qe.msg.payload qe.msg.addr

/-- The buffers of an inbound message. -/
def inboundCells (received : ℕ → Option Publish) (m : Messages) : List (ℕ × Bytes) :=
  [(m.publish.payload, payloadOf received m.publish.topic),
    (m.publish.topic, topicOf received m.publish.topic ++ [0])]

/-- All buffers a session holds. -/
def cells (s : Session) : List (ℕ × Bytes) :=
  s.messageQueue.flatMap (qEntryCells s.received) ++ s.inboundMsgs.flatMap (inboundCells s.received)

/-- The lengths recorded for a publication are those of its packet. -/
def Known (received : ℕ → Option Publish) (topic topiclen payloadlen : ℕ) : Prop :=
  ∃ publish, received topic = some publish ∧ publish.topic.length = topiclen ∧
    publish.payload.length = payloadlen

/-- The invariant, at a point inside a step: the session also owns `extra`, and the publications
`pending` have arrived but are neither delivered nor queued yet. -/
structure TrackedWith (extra : List (ℕ × Bytes)) (pending : List ℕ) (s : Session) : Prop where
  /-- The buffers are live, distinct, and hold what was received. -/
  owns : s.heap.Owns (extra ++ s.cells)
  /-- The queue knows its lengths. -/
  queueKnown : ∀ qe ∈ s.messageQueue, Known s.received qe.topicName qe.topicLen qe.msg.payloadlen
  /-- So does the inbound list. -/
  inboundKnown : ∀ m ∈ s.inboundMsgs,
    Known s.received m.publish.topic m.publish.topiclen m.publish.payloadlen
  /-- No publication has an address that has not been handed out. -/
  receivedNext : ∀ a, s.heap.next ≤ a → s.received a = none
  /-- Nor has one that has arrived. -/
  arrivedNext : ∀ a ∈ s.arrived, a < s.heap.next
  /-- No publication is processed twice. -/
  arrivedNodup : s.arrived.Nodup
  /-- A stored message has not been processed. -/
  inboundNew : ∀ m ∈ s.inboundMsgs, m.publish.topic ∉ s.arrived
  /-- Only what has arrived is thrown away. -/
  discardedArrived : ∀ a ∈ s.discarded, a ∈ s.arrived
  /-- **Nothing is lost.** -/
  account : s.calls.map Call.publication ++ s.messageQueue.map QEntry.topicName ++ pending =
    s.arrived.filter (· ∉ s.discarded)
  /-- Nothing has been freed that was not live. -/
  noFailedFree : s.heap.failedFrees = []

/-- The invariant between two steps. -/
abbrev Tracked (s : Session) : Prop := TrackedWith [] [] s

theorem tracked_create (garbage : ℕ → ℕ → UInt8) (cleansession : Bool) (wrapper : Wrapper) :
    Tracked (create garbage cleansession wrapper) where
  owns := .nil _
  queueKnown := by simp [create]
  inboundKnown := by simp [create]
  receivedNext _ _ := rfl
  arrivedNext := by simp [create]
  arrivedNodup := List.nodup_nil
  inboundNew := by simp [create]
  discardedArrived := by simp [create]
  account := rfl
  noFailedFree := rfl

namespace TrackedWith

variable {s : Session} {extra : List (ℕ × Bytes)} {pending : List ℕ}

/-- A change of the heap that keeps what is owned. -/
theorem setHeap (ht : TrackedWith extra pending s) {extra' : List (ℕ × Bytes)} {heap : Heap}
    (howns : heap.Owns (extra' ++ s.cells)) (hnext : s.heap.next ≤ heap.next)
    (hfailed : heap.failedFrees = s.heap.failedFrees) :
    TrackedWith extra' pending { s with heap := heap } where
  owns := howns
  queueKnown := ht.queueKnown
  inboundKnown := ht.inboundKnown
  receivedNext a ha := ht.receivedNext a (hnext.trans ha)
  arrivedNext a ha := (ht.arrivedNext a ha).trans_le hnext
  arrivedNodup := ht.arrivedNodup
  inboundNew := ht.inboundNew
  discardedArrived := ht.discardedArrived
  account := ht.account
  noFailedFree := hfailed.trans ht.noFailedFree

/-- A known publication has an address that has been handed out. -/
theorem lt_next_of_known (ht : TrackedWith extra pending s) {a topiclen payloadlen : ℕ}
    (hknown : Known s.received a topiclen payloadlen) : a < s.heap.next := by
  obtain ⟨publish, hreceived, -⟩ := hknown
  by_contra hge
  rw [ht.receivedNext a (by omega)] at hreceived
  cases hreceived

end TrackedWith

/-- A packet recorded elsewhere does not change what is known of a publication. -/
theorem Known.update {received : ℕ → Option Publish} {a b topiclen payloadlen : ℕ}
    (hknown : Known received a topiclen payloadlen) (hne : a ≠ b) (publish : Publish) :
    Known (Function.update received b (some publish)) a topiclen payloadlen := by
  obtain ⟨publish', hreceived, hlens⟩ := hknown
  exact ⟨publish', by rw [Function.update_of_ne hne]; exact hreceived, hlens⟩

/-- The buffers of a session do not depend on the packets behind other addresses. -/
theorem cells_update (s : Session) (heap : Heap) {b : ℕ} (publish : Publish)
    (hqueue : ∀ qe ∈ s.messageQueue, qe.topicName ≠ b)
    (hinbound : ∀ m ∈ s.inboundMsgs, m.publish.topic ≠ b) :
    { s with
      heap := heap
      received := Function.update s.received b (some publish) }.cells = s.cells := by
  have hq : ∀ qe ∈ s.messageQueue, qEntryCells (Function.update s.received b (some publish)) qe =
      qEntryCells s.received qe := by
    intro qe hqe
    simp only [qEntryCells, messageCells, payloadOf, topicOf, Function.update_of_ne (hqueue qe hqe)]
  have hi : ∀ m ∈ s.inboundMsgs, inboundCells (Function.update s.received b (some publish)) m =
      inboundCells s.received m := by
    intro m hm
    simp only [inboundCells, payloadOf, topicOf, Function.update_of_ne (hinbound m hm)]
  rw [cells, cells, List.flatMap_congr hq, List.flatMap_congr hi]

/-! ### What a step does -/

/-- Where a message is handed on directly: nothing is queued, the client is connected, and the
wrapper has a state. -/
def Direct (s : Session) : Prop :=
  s.messageQueue = [] ∧ s.client.connected = true ∧ ∃ m, s.wrapper.loadDataPtr = some (some m)

/-- Where a message goes into the queue: something is queued, or the client is not connected, or the
slot is NULL. -/
def Withheld (s : Session) : Prop :=
  s.messageQueue = [] → s.client.connected = true → s.wrapper.loadDataPtr = some none

theorem Withheld.not_direct {s : Session} (hwithheld : s.Withheld) : ¬ s.Direct := by
  rintro ⟨hqueue, hconn, m, hslot⟩
  rw [hwithheld hqueue hconn] at hslot
  cases hslot

/-- The call of the handler for a publication, terminated at `topicLen`. -/
def callFor (publication topicLen : ℕ) (publish : Publish) : Call :=
  ⟨publication, cString (publish.topic.take topicLen), cString publish.payload⟩

/-- `mqtt_msgarrvd` takes a message whose buffers hold the packet behind it, and frees them, once
each. -/
def Handed (s s' : Session) (topicName : ℕ) (message : Message) : Prop :=
  s'.heap.freed = s.heap.freed ++ [message.payload, message.addr, topicName] ∧
    ∃ (t u : Session) (topicLen : ℕ), t.heap.freed = s.heap.freed ∧
      t.heap.Owns (messageCells s'.received topicName message.payload message.addr) ∧
      t.mqttMsgarrvd topicName topicLen message = some (true, u) ∧ u.heap = s'.heap ∧
      u.calls = s'.calls

/-- What a step can do to the queue and the trace. -/
inductive Moves (s : Session) : Incoming → Session → Prop
  /-- Nothing. -/
  | quiet {e s'} (hidle : e = .redeliver → s.messageQueue = [] ∨ s.client.hasSocket = false)
      (hcalls : s'.calls = s.calls)
      (hqueue : s'.messageQueue = s.messageQueue) (harrived : s'.arrived = s.arrived)
      (hdiscarded : s'.discarded = s.discarded) : Moves s e s'
  /-- A publication is processed and handed on. -/
  | delivered {e s'} (topic : ℕ) (message : Message) (publish : Publish) (hdirect : s.Direct)
      (he : e ≠ .redeliver) (hreceived : s'.received topic = some publish)
      (hcalls : s'.calls = s.calls ++ [callFor topic publish.topic.length publish])
      (hqueue : s'.messageQueue = s.messageQueue) (harrived : s'.arrived = s.arrived ++ [topic])
      (hdiscarded : s'.discarded = s.discarded) (hhanded : s.Handed s' topic message) :
      Moves s e s'
  /-- A publication is processed and queued. -/
  | queued {e s'} (qe : QEntry) (hwithheld : s.Withheld) (he : e ≠ .redeliver)
      (hcalls : s'.calls = s.calls) (hqueue : s'.messageQueue = s.messageQueue ++ [qe])
      (harrived : s'.arrived = s.arrived ++ [qe.topicName])
      (hdiscarded : s'.discarded = s.discarded) (hfreed : s'.heap.freed = s.heap.freed) :
      Moves s e s'
  /-- The head of the queue is taken. -/
  | redelivered {s'} (qe : QEntry) (rest : List QEntry) (publish : Publish)
      (hsocket : s.client.hasSocket = true)
      (hslot : ∃ m, s.wrapper.loadDataPtr = some (some m)) (hhead : s.messageQueue = qe :: rest)
      (hreceived : s'.received qe.topicName = some publish)
      (hcalls : s'.calls = s.calls ++ [callFor qe.topicName
        (if NulFree publish.topic then 0 else publish.topic.length) publish])
      (hqueue : s'.messageQueue = rest) (harrived : s'.arrived = s.arrived)
      (hdiscarded : s'.discarded = s.discarded) (hhanded : s.Handed s' qe.topicName qe.msg) :
      Moves s .redeliver s'
  /-- The head of the queue is refused and stays. -/
  | refused {s'} (hslot : s.wrapper.loadDataPtr = some none) (hcalls : s'.calls = s.calls)
      (hqueue : s'.messageQueue = s.messageQueue) (harrived : s'.arrived = s.arrived)
      (hdiscarded : s'.discarded = s.discarded) (hfreed : s'.heap.freed = s.heap.freed) :
      Moves s .redeliver s'
  /-- A clean session empties the queue. -/
  | cleaned {s'} (hclean : s.client.cleansession = true) (hcalls : s'.calls = s.calls)
      (hqueue : s'.messageQueue = []) (harrived : s'.arrived = s.arrived)
      (hdiscarded : s'.discarded = s.discarded ++ s.messageQueue.map QEntry.topicName) :
      Moves s .connack s'

/-! ### The callback on an owned message -/

/-- The two terminators: what the strings read as, and what is still owned. -/
theorem terminate_owned {heap : Heap} {topic payload addr topicLen payloadlen : ℕ} {t p : Bytes}
    {rest : List (ℕ × Bytes)}
    (howns : heap.Owns ([(payload, p), (addr, []), (topic, t ++ [0])] ++ rest))
    (htopic : topicLen ≤ t.length) (hpayload : payloadlen = p.length) :
    let heap' := (heap.write topic topicLen 0).write payload payloadlen 0
    heap'.cstr topic = cString (t.take topicLen) ∧ heap'.cstr payload = cString p ∧
      heap'.Owns ([(payload, []), (addr, []), (topic, [])] ++ rest) := by
  have hfront : heap.Owns ((topic, t ++ [0]) :: (payload, p) :: (addr, []) :: rest) :=
    howns.perm (by
      refine List.Perm.trans ?_ (List.Perm.swap _ _ _)
      exact List.Perm.cons _ (List.Perm.swap _ _ _))
  -- The two buffers differ, so the second terminator does not touch the topic.
  have hne : topic ≠ payload := fun heq ↦
    hfront.ne_head (c := (payload, p)) (by simp) heq.symm
  have hwrite : (heap.write topic topicLen 0).Owns
      ((payload, p) :: (topic, []) :: (addr, []) :: rest) :=
    (hfront.write topicLen 0).perm (List.Perm.swap _ _ _)
  subst hpayload
  refine ⟨?_, ?_, ?_⟩
  · rw [Heap.cstr_write_of_ne _ hne, hfront.head.cstr_write (by simp; omega),
      List.take_append_of_le_length htopic]
  · rw [hwrite.head.cstr_write (Nat.le_refl _), List.take_length]
  · refine (hwrite.write _ 0).perm ?_
    exact List.Perm.cons _ (List.Perm.swap _ _ _)

/-- **`mqtt_msgarrvd`.** On a message whose buffers are owned it reads through `_self`, and then
either does nothing at all, or calls the handler once with the C strings of what was received and
frees message and topic. -/
theorem mqttMsgarrvd_owned {s : Session} {topic topicLen : ℕ} {mm : Message} {publish : Publish}
    {rest : List (ℕ × Bytes)} (hreceived : s.received topic = some publish)
    (howns : s.heap.Owns (messageCells s.received topic mm.payload mm.addr ++ rest))
    (htopic : topicLen ≤ publish.topic.length) (hpayload : mm.payloadlen = publish.payload.length)
    {rc : Bool} {s' : Session} (h : s.mqttMsgarrvd topic topicLen mm = some (rc, s')) :
    (rc = false ∧ s.wrapper.loadDataPtr = some none ∧ s' = s) ∨
    (rc = true ∧ (∃ m, s.wrapper.loadDataPtr = some (some m)) ∧ ∃ heap,
      s' = { s with heap := heap, calls := s.calls ++ [callFor topic topicLen publish] } ∧
      heap.Owns rest ∧ heap.freed = s.heap.freed ++ [mm.payload, mm.addr, topic] ∧
      heap.failedFrees = s.heap.failedFrees ∧ heap.next = s.heap.next) := by
  rw [mqttMsgarrvd] at h
  rw [messageCells_eq hreceived] at howns
  rcases hload : s.wrapper.loadDataPtr with - | - | m
  · simp [hload] at h
  · simp only [hload, Option.some.injEq, Prod.mk.injEq] at h
    exact .inl ⟨h.1.symm, rfl, h.2.symm⟩
  · obtain ⟨htopicStr, hpayloadStr, hfree⟩ := terminate_owned howns htopic hpayload
    simp only [hload, Option.some.injEq, Prod.mk.injEq] at h
    rw [htopicStr, hpayloadStr] at h
    exact .inr ⟨h.1.symm, ⟨m, rfl⟩, _, h.2.symm, hfree.freeAll⟩

/-! ### The stages of a publication -/

namespace TrackedWith

variable {s : Session} {extra : List (ℕ × Bytes)} {pending : List ℕ}

/-- The topic string of a packet is allocated, and the packet is on record. -/
theorem receive (ht : Tracked s) (publish : Publish) :
    TrackedWith [(s.heap.next, publish.topic ++ [0])] []
      { s with
        heap := (allocString s.heap publish.topic).2
        received := Function.update s.received s.heap.next (some publish) } := by
  have hqueue : ∀ qe ∈ s.messageQueue, qe.topicName ≠ s.heap.next := fun qe hqe ↦
    (ht.lt_next_of_known (ht.queueKnown qe hqe)).ne
  have hinbound : ∀ m ∈ s.inboundMsgs, m.publish.topic ≠ s.heap.next := fun m hm ↦
    (ht.lt_next_of_known (ht.inboundKnown m hm)).ne
  have hnext : (allocString s.heap publish.topic).2.next = s.heap.next + 1 := rfl
  constructor
  · rw [cells_update s _ publish hqueue hinbound]
    exact ht.owns.mymalloc_string publish.topic
  · exact fun qe hqe ↦ (ht.queueKnown qe hqe).update (hqueue qe hqe) publish
  · exact fun m hm ↦ (ht.inboundKnown m hm).update (hinbound m hm) publish
  · intro a ha
    have hlt : s.heap.next < a := ha
    exact (Function.update_of_ne hlt.ne' _ _).trans (ht.receivedNext a hlt.le)
  · exact fun a ha ↦ (ht.arrivedNext a ha).trans (hnext ▸ Nat.lt_succ_self _)
  · exact ht.arrivedNodup
  · exact ht.inboundNew
  · exact ht.discardedArrived
  · exact ht.account
  · exact ht.noFailedFree

/-- What is owned besides is not the topic of an inbound message. -/
theorem inbound_topic_ne (ht : TrackedWith extra pending s) {topic : ℕ}
    (htopic : topic ∈ extra.map Prod.fst) {m : Messages} (hm : m ∈ s.inboundMsgs) :
    m.publish.topic ≠ topic := by
  have hnodup : (extra.map Prod.fst ++ s.cells.map Prod.fst).Nodup := by
    rw [← List.map_append]
    exact ht.owns.nodup
  have hmem : m.publish.topic ∈ s.cells.map Prod.fst := by
    refine List.mem_map.2 ⟨(m.publish.topic, topicOf s.received m.publish.topic ++ [0]), ?_, rfl⟩
    refine List.mem_append_right _ (List.mem_flatMap.2 ⟨m, hm, ?_⟩)
    simp [inboundCells]
  exact ((List.nodup_append.1 hnodup).2.2 topic htopic _ hmem).symm

/-- A publication arrives. -/
theorem arrive (ht : TrackedWith extra [] s) {topic : ℕ} (htopic : topic ∈ extra.map Prod.fst)
    (hnew : topic ∉ s.arrived) :
    TrackedWith extra [topic] { s with arrived := s.arrived ++ [topic] } where
  owns := ht.owns
  queueKnown := ht.queueKnown
  inboundKnown := ht.inboundKnown
  receivedNext := ht.receivedNext
  arrivedNext a ha := by
    rcases List.mem_append.1 ha with ha | ha
    · exact ht.arrivedNext a ha
    · obtain rfl := List.mem_singleton.1 ha
      refine ht.owns.fst_lt_next ?_
      rw [List.map_append]
      exact List.mem_append_left _ htopic
  arrivedNodup := by
    refine List.nodup_append.2 ⟨ht.arrivedNodup, List.nodup_singleton _, ?_⟩
    rintro a ha b hb rfl
    exact hnew (List.mem_singleton.1 hb ▸ ha)
  inboundNew m hm ha := by
    rcases List.mem_append.1 ha with ha | ha
    · exact ht.inboundNew m hm ha
    · exact ht.inbound_topic_ne htopic hm (List.mem_singleton.1 ha)
  discardedArrived a ha := List.mem_append_left _ (ht.discardedArrived a ha)
  account := by
    have hkept : topic ∉ s.discarded := fun h ↦ hnew (ht.discardedArrived topic h)
    have haccount := ht.account
    rw [List.append_nil] at haccount
    simp [List.filter_append, hkept, haccount]
  noFailedFree := ht.noFailedFree

/-- The buffers a publication brings with it: its topic, and its payload if that is stored. -/
def payloadCells (topic : ℕ) (publish : Publish) : Payload → List (ℕ × Bytes)
  | .inPacket _ => [(topic, publish.topic ++ [0])]
  | .stored a _ => [(a, publish.payload), (topic, publish.topic ++ [0])]

/-- The payload is that of the packet. -/
def payloadMatches (publish : Publish) : Payload → Prop
  | .inPacket bytes => bytes = publish.payload
  | .stored _ payloadlen => payloadlen = publish.payload.length

/-- The message structure is built, and the payload is copied or taken over. -/
theorem build {topic : ℕ} {publish : Publish} {payload : Payload} (header : Header) (msgId : ℕ)
    (ht : TrackedWith (payloadCells topic publish payload) pending s)
    (hreceived : s.received topic = some publish) (hmatch : payloadMatches publish payload) :
    ∃ mm heap, s.buildMessage payload header msgId = (mm, { s with heap := heap }) ∧
      mm.payloadlen = publish.payload.length ∧ heap.freed = s.heap.freed ∧
      TrackedWith (messageCells s.received topic mm.payload mm.addr) pending
        { s with heap := heap } := by
  rcases payload with bytes | ⟨a, payloadlen⟩
  · obtain rfl : bytes = publish.payload := hmatch
    refine ⟨_, _, rfl, rfl, rfl, ht.setHeap ?_ ?_ rfl⟩
    · rw [messageCells_eq hreceived]
      exact (ht.owns.mymalloc sizeofMessage).mymalloc_memcpy (Nat.le_refl _)
    · exact (Nat.le_succ _).trans (Nat.le_succ _)
  · obtain rfl : payloadlen = publish.payload.length := hmatch
    refine ⟨_, _, rfl, rfl, rfl, ht.setHeap ?_ (Nat.le_succ _) rfl⟩
    rw [messageCells_eq hreceived]
    exact (ht.owns.mymalloc sizeofMessage).perm (List.Perm.swap _ _ _)

/-- **Delivered or queued.** A message that is built ends up in exactly one of the two places. -/
theorem deliverOrQueue {topic : ℕ} {publish : Publish} {mm : Message}
    (ht : TrackedWith (messageCells s.received topic mm.payload mm.addr) [topic] s)
    (hreceived : s.received topic = some publish) (hlen : mm.payloadlen = publish.payload.length)
    {s' : Session} (h : s.deliverOrQueue topic publish.topic.length mm = some s') :
    (s.Direct ∧ Tracked s' ∧ ∃ heap,
      s' = { s with
        heap := heap
        calls := s.calls ++ [callFor topic publish.topic.length publish] } ∧
      heap.freed = s.heap.freed ++ [mm.payload, mm.addr, topic] ∧
      s.mqttMsgarrvd topic publish.topic.length mm = some (true, s')) ∨
    (s.Withheld ∧ Tracked s' ∧
      s' = { s with messageQueue := s.messageQueue ++ [⟨mm, topic, publish.topic.length⟩] }) := by
  -- The queue takes over the buffers of the message.
  have hqueued : Tracked
      { s with messageQueue := s.messageQueue ++ [⟨mm, topic, publish.topic.length⟩] } := by
    refine ⟨?_, ?_, ht.inboundKnown, ht.receivedNext, ht.arrivedNext, ht.arrivedNodup,
      ht.inboundNew, ht.discardedArrived, ?_, ht.noFailedFree⟩
    · refine ht.owns.perm ?_
      simp only [cells, List.flatMap_append, List.flatMap_singleton, qEntryCells, List.nil_append]
      rw [← List.append_assoc]
      exact List.Perm.append_right _ List.perm_append_comm
    · intro qe hqe
      rcases List.mem_append.1 hqe with hqe | hqe
      · exact ht.queueKnown qe hqe
      · obtain rfl := List.mem_singleton.1 hqe
        exact ⟨publish, hreceived, rfl, hlen.symm⟩
    · rw [List.map_append, List.append_nil, ← List.append_assoc]
      exact ht.account
  rw [Session.deliverOrQueue] at h
  by_cases hready : s.messageQueue = [] ∧ s.client.connected = true
  · obtain ⟨hempty, hconn⟩ := hready
    rw [if_pos (by simp [hempty, hconn]), Option.map_eq_some_iff] at h
    obtain ⟨⟨rc, s₁⟩, hcall, hs'⟩ := h
    obtain ⟨rfl, hslot, hsame⟩ | ⟨rfl, hslot, heap, rfl, howns, hfreed, hfailed, hnext⟩ :=
      mqttMsgarrvd_owned hreceived ht.owns (Nat.le_refl _) hlen hcall
    · -- Refused: nothing has changed.
      obtain rfl : s = s₁ := hsame.symm
      obtain rfl : _ = s' := hs'
      exact .inr ⟨fun _ _ ↦ hslot, hqueued, rfl⟩
    · -- Taken: the buffers of the message are no longer owned.
      obtain rfl : { s with
          heap := heap
          calls := s.calls ++ [callFor topic publish.topic.length publish] } = s' := hs'
      refine .inl ⟨⟨hempty, hconn, hslot⟩, ?_, heap, rfl, hfreed, hcall⟩
      refine ⟨howns, ht.queueKnown, ht.inboundKnown, fun a ha ↦ ht.receivedNext a (hnext ▸ ha),
        fun a ha ↦ hnext ▸ ht.arrivedNext a ha, ht.arrivedNodup, ht.inboundNew,
        ht.discardedArrived, ?_, hfailed.trans ht.noFailedFree⟩
      have haccount := ht.account
      simp only [hempty, List.map_nil, List.append_nil] at haccount ⊢
      rw [List.map_append]
      exact haccount
  · rw [if_neg (by simpa using hready)] at h
    obtain rfl : _ = s' := Option.some.inj h
    exact .inr ⟨fun hempty hconn ↦ absurd ⟨hempty, hconn⟩ hready, hqueued, rfl⟩

end TrackedWith

/-- Two sessions that differ in nothing a move speaks about. -/
structure SameTrace (s₀ s : Session) : Prop where
  /-- The same queue. -/
  queue : s.messageQueue = s₀.messageQueue
  /-- The same connection. -/
  client : s.client = s₀.client
  /-- The same statics. -/
  wrapper : s.wrapper = s₀.wrapper
  /-- The same calls. -/
  calls : s.calls = s₀.calls
  /-- The same arrivals. -/
  arrived : s.arrived = s₀.arrived
  /-- The same losses. -/
  discarded : s.discarded = s₀.discarded
  /-- The same addresses released. -/
  freed : s.heap.freed = s₀.heap.freed

theorem SameTrace.direct_iff {s₀ s : Session} (hsame : SameTrace s₀ s) : s.Direct ↔ s₀.Direct := by
  rw [Direct, Direct, hsame.queue, hsame.client, hsame.wrapper]

theorem SameTrace.withheld_iff {s₀ s : Session} (hsame : SameTrace s₀ s) :
    s.Withheld ↔ s₀.Withheld := by
  rw [Withheld, Withheld, hsame.queue, hsame.client, hsame.wrapper]

/-- **`Protocol_processPublication`** keeps the invariant and makes one of two moves. -/
theorem TrackedWith.process {s₀ s : Session} {topic : ℕ} {publish : Publish} (payload : Payload)
    {header : Header} {msgId : ℕ} {e : Incoming}
    (ht : TrackedWith (payloadCells topic publish payload) [] s) (hsame : SameTrace s₀ s)
    (he : e ≠ .redeliver) (hreceived : s.received topic = some publish)
    (hmatch : payloadMatches publish payload) (hnew : topic ∉ s.arrived) {s' : Session}
    (h : s.protocolProcessPublication topic publish.topic.length payload header msgId = some s') :
    Tracked s' ∧ Moves s₀ e s' := by
  have htopic : topic ∈ (payloadCells topic publish payload).map Prod.fst := by
    cases payload <;> simp [payloadCells]
  obtain ⟨mm, heap, hbuild, hlen, hfreed, ht'⟩ :=
    (ht.arrive htopic hnew).build header msgId hreceived hmatch
  have hdeliver : { s with heap := heap, arrived := s.arrived ++ [topic] }.deliverOrQueue topic
      publish.topic.length mm = some s' := by
    rw [protocolProcessPublication, hbuild] at h
    exact h
  obtain ⟨hdirect, htracked, heap', rfl, hfreed', hcall⟩ | ⟨hwithheld, htracked, rfl⟩ :=
    TrackedWith.deliverOrQueue (s := { s with heap := heap, arrived := s.arrived ++ [topic] }) ht'
      hreceived hlen hdeliver
  · refine ⟨htracked, .delivered topic mm publish (hsame.direct_iff.1 hdirect) he
      hreceived ?_ hsame.queue ?_ hsame.discarded ⟨?_, _, _, _, hfreed.trans hsame.freed,
        ht'.owns.left, hcall, rfl, rfl⟩⟩
    · simp only [hsame.calls]
    · simp only [hsame.arrived]
    · simp only [hfreed', hfreed, hsame.freed]
  · refine ⟨htracked, .queued ⟨mm, topic, publish.topic.length⟩ (hsame.withheld_iff.1 hwithheld) he
      hsame.calls ?_ ?_ hsame.discarded (hfreed.trans hsame.freed)⟩
    · simp only [hsame.queue]
    · simp only [hsame.arrived]

/-- Processing a publication does not look at the inbound list. -/
theorem process_setInbound (s : Session) (f : List Messages → List Messages) (topic topiclen : ℕ)
    (payload : Payload) (header : Header) (msgId : ℕ) :
    ((s.protocolProcessPublication topic topiclen payload header msgId).map fun s' ↦
      { s' with inboundMsgs := f s'.inboundMsgs }) =
    { s with inboundMsgs := f s.inboundMsgs }.protocolProcessPublication topic topiclen payload
      header msgId := by
  have hdeliver : ∀ (t : Session) (mm : Message),
      ((t.deliverOrQueue topic topiclen mm).map fun s' ↦
        { s' with inboundMsgs := f s'.inboundMsgs }) =
      { t with inboundMsgs := f t.inboundMsgs }.deliverOrQueue topic topiclen mm := by
    intro t mm
    rw [deliverOrQueue, deliverOrQueue]
    split_ifs
    · rw [mqttMsgarrvd, mqttMsgarrvd]
      rcases t.wrapper.loadDataPtr with - | - | m <;> rfl
    · rfl
  cases payload <;> exact hdeliver _ _

/-! ### Storing, redelivering, cleaning -/

/-- A stored message is appended, or takes the place of one with its message id. -/
theorem storeInbound_cases (m : Messages) (inboundMsgs : List Messages) (heap : Heap) :
    storeInbound m inboundMsgs heap = (inboundMsgs ++ [m], heap) ∨
    ∃ before old after, inboundMsgs = before ++ old :: after ∧
      storeInbound m inboundMsgs heap =
        (before ++ m :: after, mqttProtocolRemovePublication heap old.publish) := by
  induction inboundMsgs with
  | nil => exact .inl rfl
  | cons msg rest ih =>
    rw [storeInbound]
    by_cases hid : msg.msgid = m.msgid
    · exact .inr ⟨[], msg, rest, rfl, by rw [if_pos hid]; rfl⟩
    · rw [if_neg hid]
      obtain happend | ⟨before, old, after, rfl, hreplace⟩ := ih
      · exact .inl (by rw [happend]; rfl)
      · exact .inr ⟨msg :: before, old, after, rfl, by rw [hreplace]; rfl⟩

/-- Releasing a stored publication. -/
theorem removePublication_owned {heap : Heap} {received : ℕ → Option Publish} {m : Messages}
    {rest : List (ℕ × Bytes)} (howns : heap.Owns (inboundCells received m ++ rest)) :
    (mqttProtocolRemovePublication heap m.publish).Owns rest ∧
      (mqttProtocolRemovePublication heap m.publish).failedFrees = heap.failedFrees ∧
      (mqttProtocolRemovePublication heap m.publish).next = heap.next :=
  ⟨howns.freeAll.1, howns.freeAll.2.2.1, howns.freeAll.2.2.2⟩

/-- **A QoS 2 PUBLISH is stored.** -/
theorem TrackedWith.store {s : Session} {topic : ℕ} {publish : Publish}
    (ht : TrackedWith [(topic, publish.topic ++ [0])] [] s)
    (hreceived : s.received topic = some publish) (hnew : topic ∉ s.arrived) :
    ∃ p heap, mqttProtocolStorePublication s.heap topic publish.topic.length publish.payload =
        (p, heap) ∧
      ∀ msgid retain,
        Tracked { s with
          heap := (storeInbound ⟨msgid, retain, p⟩ s.inboundMsgs heap).2
          inboundMsgs := (storeInbound ⟨msgid, retain, p⟩ s.inboundMsgs heap).1 } := by
  have hfind : s.heap.heapFindItem topic = true := ht.owns.head.isLive
  set p : Publications := ⟨topic, publish.topic.length, s.heap.next, publish.payload.length⟩
    with hp
  set heap := (s.heap.mymalloc publish.payload.length).2.memcpy s.heap.next publish.payload
  refine ⟨p, heap, by rw [mqttProtocolStorePublication, if_pos hfind]; rfl, fun msgid retain ↦ ?_⟩
  set m : Messages := ⟨msgid, retain, p⟩ with hm
  have hcells : inboundCells s.received m =
      [(s.heap.next, publish.payload), (topic, publish.topic ++ [0])] := by
    simp [inboundCells, payloadOf, topicOf, hm, hp, hreceived]
  have howns : heap.Owns (inboundCells s.received m ++ s.cells) := by
    rw [hcells]
    exact ht.owns.mymalloc_memcpy (Nat.le_refl _)
  -- Both outcomes of `storeInbound` own the inbound list, and add no other message to it.
  have hdone : ∀ (heap' : Heap) (inboundMsgs : List Messages),
      heap'.Owns (s.messageQueue.flatMap (qEntryCells s.received) ++
        inboundMsgs.flatMap (inboundCells s.received)) →
      heap'.next = heap.next → heap'.failedFrees = heap.failedFrees →
      (∀ m' ∈ inboundMsgs, m' = m ∨ m' ∈ s.inboundMsgs) →
      Tracked { s with heap := heap', inboundMsgs := inboundMsgs } := by
    intro heap' inboundMsgs howns' hnext hfailed hmem
    have hgrow : s.heap.next ≤ heap'.next := hnext ▸ Nat.le_succ _
    refine ⟨howns', ht.queueKnown, fun m' hm' ↦ ?_, fun a ha ↦ ht.receivedNext a (hgrow.trans ha),
      fun a ha ↦ (ht.arrivedNext a ha).trans_le hgrow, ht.arrivedNodup, fun m' hm' ↦ ?_,
      ht.discardedArrived, ht.account, hfailed.trans ht.noFailedFree⟩
    · rcases hmem m' hm' with rfl | hm'
      · exact ⟨publish, hreceived, rfl, rfl⟩
      · exact ht.inboundKnown m' hm'
    · rcases hmem m' hm' with rfl | hm'
      · exact hnew
      · exact ht.inboundNew m' hm'
  obtain happend | ⟨before, old, after, hinbound, hreplace⟩ :=
    storeInbound_cases m s.inboundMsgs heap
  · -- A new message id.
    rw [happend]
    refine hdone _ _ (howns.perm ?_) rfl rfl fun m' hm' ↦ ?_
    · rw [List.flatMap_append, List.flatMap_singleton, cells, ← Multiset.coe_eq_coe]
      simp only [← Multiset.coe_add]
      abel
    · exact (List.mem_append.1 hm').symm.imp_left List.mem_singleton.1
  · -- A message id that is in use: the publication stored under it is released.
    rw [hreplace]
    have hperm : heap.Owns (inboundCells s.received old ++
        (s.messageQueue.flatMap (qEntryCells s.received) ++
          (before ++ m :: after).flatMap (inboundCells s.received))) := by
      refine howns.perm ?_
      rw [cells, hinbound, ← Multiset.coe_eq_coe]
      simp only [List.flatMap_append, List.flatMap_cons, ← Multiset.coe_add]
      abel
    obtain ⟨hrest, hfailed, hnext⟩ := removePublication_owned hperm
    refine hdone _ _ hrest hnext hfailed fun m' hm' ↦ ?_
    rw [hinbound]
    simp only [List.mem_append, List.mem_cons] at hm' ⊢
    tauto

/-- The head of the queue: the packet behind it, and its buffers. -/
theorem TrackedWith.queueHead {s : Session} {qe : QEntry} {rest : List QEntry} (ht : Tracked s)
    (hqueue : s.messageQueue = qe :: rest) :
    ∃ publish, s.received qe.topicName = some publish ∧ publish.topic.length = qe.topicLen ∧
      publish.payload.length = qe.msg.payloadlen ∧
      s.heap.Owns (messageCells s.received qe.topicName qe.msg.payload qe.msg.addr ++
        (rest.flatMap (qEntryCells s.received) ++
          s.inboundMsgs.flatMap (inboundCells s.received))) := by
  obtain ⟨publish, hreceived, htopicLen, hpayloadLen⟩ :=
    ht.queueKnown qe (by rw [hqueue]; exact List.mem_cons_self)
  refine ⟨publish, hreceived, htopicLen, hpayloadLen, ?_⟩
  have hall := ht.owns
  rw [List.nil_append, cells, hqueue, List.flatMap_cons, List.append_assoc] at hall
  exact hall

/-- **The head of the queue is offered again.** -/
theorem TrackedWith.redeliver {s s' : Session} (ht : Tracked s)
    (hsocket : s.client.hasSocket = true) (h : s.redeliver = some s') :
    Tracked s' ∧ Moves s .redeliver s' := by
  rw [Session.redeliver] at h
  rcases hqueue : s.messageQueue with - | ⟨qe, rest⟩
  · simp only [hqueue, Option.some.injEq] at h
    exact ⟨h ▸ ht, h ▸ .quiet (fun _ ↦ .inl hqueue) rfl rfl rfl rfl⟩
  · obtain ⟨publish, hreceived, htopicLen, hpayloadLen, howns⟩ := ht.queueHead hqueue
    -- The buffer still holds the topic, so length 0 is passed exactly if the topic is NUL-free.
    have hcstr : s.heap.cstr qe.topicName = cString publish.topic := by
      refine (howns.holds (qe.topicName, publish.topic ++ [0]) ?_).cstr_eq
      simp [messageCells_eq hreceived]
    have hlen : (if (s.heap.cstr qe.topicName).length = qe.topicLen then 0 else qe.topicLen) =
        if NulFree publish.topic then 0 else publish.topic.length := by
      simp only [hcstr, ← htopicLen, length_cString_eq_iff]
    have hle : (if NulFree publish.topic then 0 else publish.topic.length) ≤
        publish.topic.length := by
      split_ifs <;> omega
    simp only [hqueue, hlen, Option.map_eq_some_iff] at h
    obtain ⟨⟨rc, s₁⟩, hcall, hs'⟩ := h
    obtain ⟨rfl, hslot, hsame⟩ | ⟨rfl, hslot, heap, rfl, howns', hfreed, hfailed, hnext⟩ :=
      mqttMsgarrvd_owned hreceived howns hle hpayloadLen.symm hcall
    · obtain rfl : s₁ = s' := hs'
      subst hsame
      exact ⟨ht, .refused hslot rfl rfl rfl rfl rfl⟩
    · obtain rfl : { s with
          heap := heap
          calls := s.calls ++ [callFor qe.topicName
            (if NulFree publish.topic then 0 else publish.topic.length) publish]
          messageQueue := rest } = s' := hs'
      refine ⟨⟨howns', fun qe' hqe' ↦ ht.queueKnown qe' ?_, ht.inboundKnown,
        fun a ha ↦ ht.receivedNext a (hnext ▸ ha), fun a ha ↦ hnext ▸ ht.arrivedNext a ha,
        ht.arrivedNodup, ht.inboundNew, ht.discardedArrived, ?_, hfailed.trans ht.noFailedFree⟩,
        .redelivered qe rest publish hsocket hslot hqueue hreceived rfl rfl rfl rfl
          ⟨hfreed, s, _, _, rfl, howns.left, hcall, rfl, rfl⟩⟩
      · rw [hqueue]
        exact List.mem_cons_of_mem _ hqe'
      · have haccount := ht.account
        rw [hqueue] at haccount
        simpa [callFor] using haccount

/-- What has been delivered stays accounted for when the queue is thrown away. -/
theorem account_cleaned {calls queue arrived discarded : List ℕ} (hnodup : arrived.Nodup)
    (haccount : calls ++ queue = arrived.filter (· ∉ discarded)) :
    calls = arrived.filter (· ∉ discarded ++ queue) := by
  -- No publication is in both lists, so the second filter takes away just the queue.
  have hdisjoint : ∀ a ∈ calls, a ∉ queue := by
    have hparts : (calls ++ queue).Nodup := haccount ▸ hnodup.filter _
    exact fun a ha hq ↦ (List.nodup_append.1 hparts).2.2 a ha a hq rfl
  have hboth : arrived.filter (· ∉ discarded ++ queue) =
      (arrived.filter (· ∉ discarded)).filter (· ∉ queue) := by
    rw [List.filter_filter]
    congr 1
    funext a
    simp [and_comm]
  have hcalls : calls.filter (· ∉ queue) = calls :=
    List.filter_eq_self.2 fun a ha ↦ by simpa using hdisjoint a ha
  have hqueue : queue.filter (· ∉ queue) = [] :=
    List.filter_eq_nil_iff.2 fun a ha ↦ by simpa using ha
  rw [hboth, ← haccount, List.filter_append, hcalls, hqueue, List.append_nil]

/-- **A clean session frees what it throws away**, and loses only what is queued. -/
theorem TrackedWith.cleanSession {s : Session} (ht : Tracked s) :
    Tracked s.mqttAsyncCleanSession := by
  have hinbound : s.heap.Owns (s.inboundMsgs.flatMap (inboundCells s.received) ++
      s.messageQueue.flatMap (qEntryCells s.received)) := by
    have hall := ht.owns
    rw [List.nil_append, cells] at hall
    exact hall.perm List.perm_append_comm
  have hfirst : (s.inboundMsgs.flatMap (inboundCells s.received)).map Prod.fst =
      s.inboundMsgs.flatMap fun m ↦ [m.publish.payload, m.publish.topic] := by
    rw [List.map_flatMap]
    rfl
  obtain ⟨howns, -, hfailed, hnext⟩ := hinbound.freeAll
  rw [hfirst] at howns hfailed hnext
  -- The queue is freed in another order than the one its buffers are listed in.
  have hqueue : (s.messageQueue.flatMap (qEntryCells s.received)).Perm
      ((s.messageQueue.flatMap fun qe ↦
        [(qe.topicName, topicOf s.received qe.topicName ++ [0]),
          (qe.msg.payload, payloadOf s.received qe.topicName), (qe.msg.addr, [])]) ++ []) := by
    rw [List.append_nil]
    refine List.Perm.flatMap_left _ fun qe _ ↦ ?_
    exact (List.Perm.cons _ (List.Perm.swap _ _ _)).trans (List.Perm.swap _ _ _)
  have hsecond : (s.messageQueue.flatMap fun qe ↦
      [(qe.topicName, topicOf s.received qe.topicName ++ [0]),
        (qe.msg.payload, payloadOf s.received qe.topicName), (qe.msg.addr, [])]).map Prod.fst =
      s.messageQueue.flatMap fun qe ↦ [qe.topicName, qe.msg.payload, qe.msg.addr] := by
    rw [List.map_flatMap]
    rfl
  obtain ⟨hnil, -, hfailed', hnext'⟩ := (howns.perm hqueue).freeAll
  rw [hsecond] at hnil hfailed' hnext'
  have hsame : s.mqttAsyncCleanSession.heap.next = s.heap.next := hnext'.trans hnext
  refine ⟨hnil, by simp [mqttAsyncCleanSession, mqttAsyncEmptyMessageQueue],
    by simp [mqttAsyncCleanSession, mqttAsyncEmptyMessageQueue, mqttProtocolEmptyMessageList],
    fun a ha ↦ ht.receivedNext a (hsame ▸ ha), fun a ha ↦ hsame ▸ ht.arrivedNext a ha,
    ht.arrivedNodup,
    by simp [mqttAsyncCleanSession, mqttAsyncEmptyMessageQueue, mqttProtocolEmptyMessageList],
    fun a ha ↦ ?_, ?_, (hfailed'.trans hfailed).trans ht.noFailedFree⟩
  · rcases List.mem_append.1 ha with ha | ha
    · exact ht.discardedArrived a ha
    · have hmem : a ∈ s.arrived.filter (· ∉ s.discarded) := by
        rw [← ht.account, List.append_nil]
        exact List.mem_append_right _ ha
      exact (List.mem_filter.1 hmem).1
  · have haccount := ht.account
    rw [List.append_nil] at haccount
    show s.calls.map Call.publication ++ [] ++ [] =
      s.arrived.filter (· ∉ s.discarded ++ s.messageQueue.map QEntry.topicName)
    rw [List.append_nil, List.append_nil]
    exact account_cleaned ht.arrivedNodup haccount

/-! ### Reading packets -/

/-- **A PUBLISH is read.** Its topic is allocated, and the packet is handled. -/
theorem TrackedWith.handlePublishes {s s' : Session} {publish : Publish} {e : Incoming}
    (ht : Tracked s) (he : e ≠ .redeliver)
    (h : { s with
      heap := (allocString s.heap publish.topic).2
      received := Function.update s.received s.heap.next (some publish) }.mqttProtocolHandlePublishes
        s.heap.next publish = some s') :
    Tracked s' ∧ Moves s e s' := by
  have ht' := ht.receive publish
  set s₁ : Session := { s with
    heap := (allocString s.heap publish.topic).2
    received := Function.update s.received s.heap.next (some publish) } with hs₁
  have hsame : SameTrace s s₁ := ⟨rfl, rfl, rfl, rfl, rfl, rfl, rfl⟩
  have hreceived : s₁.received s.heap.next = some publish := Function.update_self ..
  have hnew : s.heap.next ∉ s₁.arrived := fun hmem ↦
    (ht.arrivedNext s.heap.next hmem).ne rfl
  rw [mqttProtocolHandlePublishes] at h
  split_ifs at h with hlow htwo
  · -- QoS 0 and 1.
    exact TrackedWith.process (.inPacket publish.payload) ht' hsame he hreceived rfl hnew h
  · -- QoS 2.
    obtain ⟨p, heap, hstore, hdone⟩ := ht'.store hreceived hnew
    simp only [hstore, Option.some.injEq] at h
    subst h
    exact ⟨hdone _ _, .quiet (fun h ↦ absurd h he) rfl rfl rfl rfl⟩
  · -- QoS 3, which no case of the code handles: the topic is freed with the packet.
    obtain rfl : { s₁ with heap := s₁.heap.myfree s.heap.next } = s' := Option.some.inj h
    obtain ⟨howns, -, hfailed, hnext⟩ := ht'.owns.myfree
    exact ⟨ht'.setHeap howns hnext.ge hfailed, .quiet (fun h ↦ absurd h he) rfl rfl rfl rfl⟩

/-- A session that differs in its connection, the wrapper or the turn only. -/
theorem TrackedWith.setConnection {s : Session} (ht : Tracked s) (client : Clients)
    (wrapper : Wrapper) (turn : Turn) :
    Tracked { s with client := client, wrapper := wrapper, turn := turn } :=
  ⟨ht.owns, ht.queueKnown, ht.inboundKnown, ht.receivedNext, ht.arrivedNext, ht.arrivedNodup,
    ht.inboundNew, ht.discardedArrived, ht.account, ht.noFailedFree⟩

/-- A stored publication leaves the inbound list with its buffers. -/
theorem TrackedWith.takeInbound {s : Session} {msgId : ℕ} {m : Messages} (ht : Tracked s)
    (hfind : s.inboundMsgs.find? (fun m ↦ m.msgid == msgId) = some m) :
    ∃ publish, s.received m.publish.topic = some publish ∧
      publish.topic.length = m.publish.topiclen ∧ publish.payload.length = m.publish.payloadlen ∧
      TrackedWith
        (payloadCells m.publish.topic publish (.stored m.publish.payload m.publish.payloadlen)) []
        { s with inboundMsgs := s.inboundMsgs.eraseP fun m ↦ m.msgid == msgId } := by
  have hmem : m ∈ s.inboundMsgs := List.mem_of_find?_eq_some hfind
  obtain ⟨publish, hreceived, htopiclen, hpayloadlen⟩ := ht.inboundKnown m hmem
  refine ⟨publish, hreceived, htopiclen, hpayloadlen, ?_⟩
  -- The message that has been found is the one that is erased.
  obtain ⟨before, after, hsplit, herase⟩ :
      ∃ before after, s.inboundMsgs = before ++ m :: after ∧
        s.inboundMsgs.eraseP (fun m ↦ m.msgid == msgId) = before ++ after := by
    obtain ⟨hm, before, after, hsplit, hbefore⟩ := List.find?_eq_some_iff_append.1 hfind
    refine ⟨before, after, hsplit, ?_⟩
    rw [hsplit, List.eraseP_append_right _ (fun b hb ↦ by simpa using hbefore b hb)]
    simp [hm]
  rw [herase]
  have hsub : ∀ m' ∈ before ++ after, m' ∈ s.inboundMsgs := by
    intro m' hm'
    rw [hsplit]
    simp only [List.mem_append, List.mem_cons] at hm' ⊢
    tauto
  refine ⟨ht.owns.perm ?_, ht.queueKnown, fun m' hm' ↦ ht.inboundKnown m' (hsub m' hm'),
    ht.receivedNext, ht.arrivedNext, ht.arrivedNodup, fun m' hm' ↦ ht.inboundNew m' (hsub m' hm'),
    ht.discardedArrived, ht.account, ht.noFailedFree⟩
  have hcells : inboundCells s.received m =
      payloadCells m.publish.topic publish (.stored m.publish.payload m.publish.payloadlen) := by
    simp [inboundCells, payloadCells, payloadOf, topicOf, hreceived]
  rw [← hcells, cells, cells, hsplit, ← Multiset.coe_eq_coe]
  simp only [List.flatMap_append, List.flatMap_cons, ← Multiset.coe_add, List.nil_append]
  abel

/-- **A PUBREL is read.** The stored publication leaves the inbound list and is processed. -/
theorem TrackedWith.handlePubrels {s s' : Session} {msgId : ℕ} (ht : Tracked s)
    (h : s.mqttProtocolHandlePubrels msgId = some s') :
    Tracked s' ∧ Moves s (.pubrel msgId) s' := by
  rw [mqttProtocolHandlePubrels] at h
  rcases hfind : s.inboundMsgs.find? fun m ↦ m.msgid == msgId with - | m
  · simp only [hfind, Option.some.injEq] at h
    exact ⟨h ▸ ht, h ▸ .quiet nofun rfl rfl rfl rfl⟩
  simp only [hfind] at h
  have hmem : m ∈ s.inboundMsgs := List.mem_of_find?_eq_some hfind
  obtain ⟨publish, hreceived, htopiclen, hpayloadlen, ht'⟩ := ht.takeInbound hfind
  rw [process_setInbound, ← htopiclen] at h
  have hsame : SameTrace s
      { s with inboundMsgs := s.inboundMsgs.eraseP fun m ↦ m.msgid == msgId } :=
    ⟨rfl, rfl, rfl, rfl, rfl, rfl, rfl⟩
  exact TrackedWith.process (e := .pubrel msgId)
    (.stored m.publish.payload m.publish.payloadlen) ht'
    hsame (by simp) hreceived hpayloadlen.symm (ht.inboundNew m hmem) h

/-- **A CONNACK is handled.** -/
theorem TrackedWith.completeConnection {s : Session} (ht : Tracked s) :
    Tracked s.completeConnection ∧ Moves s .connack s.completeConnection := by
  rw [Session.completeConnection]
  split_ifs with hclean
  · exact ⟨(ht.setConnection _ _ _).cleanSession, .cleaned hclean rfl rfl rfl rfl⟩
  · exact ⟨ht.setConnection _ _ _, .quiet nofun rfl rfl rfl rfl⟩

/-! ### Every step -/

/-- Neither the invariant nor a move speaks about the receive thread's turn. -/
theorem setTurn_moves {s s' : Session} {e : Incoming} (turn : Turn)
    (h : Tracked s' ∧ Moves s e s') : Tracked (s'.setTurn turn) ∧ Moves s e (s'.setTurn turn) := by
  obtain ⟨ht, hmoves⟩ := h
  refine ⟨ht.setConnection _ _ _, ?_⟩
  cases hmoves with
  | quiet hidle hcalls hqueue harrived hdiscarded =>
    exact .quiet hidle hcalls hqueue harrived hdiscarded
  | delivered topic message publish hdirect he hreceived hcalls hqueue harrived hdiscarded
      hhanded =>
    exact .delivered topic message publish hdirect he hreceived hcalls hqueue harrived
      hdiscarded hhanded
  | queued qe hwithheld he hcalls hqueue harrived hdiscarded hfreed =>
    exact .queued qe hwithheld he hcalls hqueue harrived hdiscarded hfreed
  | redelivered qe rest publish hsocket hslot hhead hreceived hcalls hqueue harrived hdiscarded
      hhanded =>
    exact .redelivered qe rest publish hsocket hslot hhead hreceived hcalls hqueue harrived
      hdiscarded hhanded
  | refused hslot hcalls hqueue harrived hdiscarded hfreed =>
    exact .refused hslot hcalls hqueue harrived hdiscarded hfreed
  | cleaned hclean hcalls hqueue harrived hdiscarded =>
    exact .cleaned hclean hcalls hqueue harrived hdiscarded

/-- **Every step** keeps the invariant and makes one of the moves. -/
theorem step_moves {s s' : Session} {e : Incoming} (ht : Tracked s)
    (h : machine.step s e = some s') :
    Tracked s' ∧ Moves s e s' := by
  cases step_cases h with
  | quiet he client wrapper turn =>
    refine ⟨ht.setConnection client wrapper turn, .quiet (fun hredeliver ↦ ?_) rfl rfl rfl rfl⟩
    rw [hredeliver] at he
    cases he
  | publish aHeader data publish t hparse hhandle =>
    exact setTurn_moves _ (ht.handlePublishes nofun hhandle)
  | pubrel msgId t hhandle => exact setTurn_moves _ (ht.handlePubrels hhandle)
  | redeliver t turn hsocket hcall => exact setTurn_moves turn (ht.redeliver hsocket hcall)
  | notFound hsocket =>
    exact setTurn_moves _ ⟨ht, .quiet (fun _ ↦ .inr hsocket) rfl rfl rfl rfl⟩
  | connack => exact setTurn_moves _ ht.completeConnection

/-- The invariant holds along every run. -/
theorem always_tracked (garbage : ℕ → ℕ → UInt8) (cleansession : Bool) (wrapper : Wrapper)
    (es : List Incoming) :
    machine.Always Tracked (create garbage cleansession wrapper) es :=
  machine.always_of_inductive (fun _ _ _ ht h ↦ (step_moves ht h).1) (tracked_create ..) es

end Session
