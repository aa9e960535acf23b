import MrubyMqtt.DeliveryInvariant
import MrubyMqtt.Eyecatchers

/-!
# The terminators of a message

`mqtt_msgarrvd` writes a NUL behind the topic and one behind the payload, in the buffers Paho has
allocated, before it reads them as C strings and releases them. For the topic `readUTFlen` has
requested one byte more than it has characters; for the payload exactly its length is requested, on
every path. So the terminator of a payload is always written behind what was requested, and where
the length is a multiple of sixteen (zero among them) it destroys the eyecatcher, which `myfree`
then reports (`terminators_iff`).

`Session.taken` names the call of `mqtt_msgarrvd` that a step makes; `Sized` is the invariant that
every buffer of a session was built for its request and has its eyecatcher.
-/

open Bytes

/-- What `readUTFlen` requests for a topic: room for the characters and a terminator. -/
def topicRequest (publish : Publish) : ℕ := publish.topic.length + 1

/-- What is requested for a payload, by `Protocol_processPublication` for QoS 0 and 1 and by
`MQTTProtocol_storePublication` for QoS 2. -/
def payloadRequest (publish : Publish) : ℕ := publish.payload.length

/-- A call of `mqtt_msgarrvd`, and the heap it finds. -/
structure Arrival where
  /-- The heap. -/
  heap : Heap
  /-- `topicName`. -/
  topicName : ℕ
  /-- `topicLen`. -/
  topicLen : ℕ
  /-- `message`. -/
  message : Message

/-- The heap the call leaves when it takes the message: both terminators are written, and the
buffers released. -/
def Arrival.release (call : Arrival) : Heap :=
  Session.freeArrived
    ((call.heap.write call.topicName call.topicLen 0).write call.message.payload
      call.message.payloadlen 0)
    call.topicName call.message

namespace Session

/-! ### The calls a step makes -/

/-- The call `Protocol_processPublication` makes, where it does not queue the message at once. -/
def processArrival (s : Session) (topic topiclen : ℕ) (payload : Payload) (header : Header)
    (msgId : ℕ) : Option Arrival :=
  let (mm, s') := { s with arrived := s.arrived ++ [topic] }.buildMessage payload header msgId
  if s'.messageQueue.length = 0 && s'.client.connected then some ⟨s'.heap, topic, topiclen, mm⟩
  else none

/-- The call of `mqtt_msgarrvd` a step makes: at a PUBLISH of QoS 0 or 1, at the PUBREL of a stored
one, or for the head of the queue. -/
def arrival (s : Session) : Incoming → Option Arrival
  | .publish aHeader data =>
    match mqttPacketPublish aHeader data with
    | .error _ => none
    | .ok publish =>
      let (topic, heap) := allocString s.heap publish.topic
      if publish.header.qos = 0 ∨ publish.header.qos = 1 then
        { s with heap := heap }.processArrival topic publish.topic.length
          (.inPacket publish.payload) publish.header publish.msgId
      else none
  | .pubrel msgId =>
    match s.inboundMsgs.find? fun m ↦ m.msgid == msgId with
    | none => none
    | some m =>
      s.processArrival m.publish.topic m.publish.topiclen
        (.stored m.publish.payload m.publish.payloadlen) ⟨PUBLISH, 0, 2, m.retain⟩ m.msgid
  | .redeliver =>
    match s.messageQueue with
    | [] => none
    | qe :: _ =>
      if s.client.hasSocket then
        some ⟨s.heap, qe.topicName,
          if (s.heap.cstr qe.topicName).length = qe.topicLen then 0 else qe.topicLen, qe.msg⟩
      else none
  | _ => none

/-- The same, if the call gets past its NULL check. -/
def taken (s : Session) (e : Incoming) : Option Arrival :=
  if s.wrapper.loadDataPtr.join.isSome then s.arrival e else none

/-- What a step does about a call it makes, for the packet `publish`. -/
structure Terminates (s : Session) (call : Arrival) (s' : Session) (publish : Publish) : Prop where
  /-- The packet is the one the topic came from. -/
  received : s'.received call.topicName = some publish
  /-- The step leaves the heap that the call leaves. -/
  heap : s'.heap = call.release
  /-- The topic's buffer is the one requested for it. -/
  topicRequested : call.heap.Requested call.topicName (topicRequest publish)
  /-- So is the payload's. -/
  payloadRequested : call.heap.Requested call.message.payload (payloadRequest publish)
  /-- Where the terminator of the topic is written. -/
  topicLen : call.topicLen < topicRequest publish
  /-- Where that of the payload is written. -/
  payloadlen : call.message.payloadlen = payloadRequest publish
  /-- What is reported when the buffers are released. -/
  damaged : s'.heap.damaged = s.heap.damaged ++
    if payloadRequest publish % 16 = 0 then [call.message.payload] else []

/-- A step whose call of `mqtt_msgarrvd`, if one is taken, is `call`. -/
def Accounts (s s' : Session) : Option Arrival → Prop
  | some call => ∃ publish, Terminates s call s' publish
  | none => s'.heap.damaged = s.heap.damaged ∧ s'.calls = s.calls

/-! ### Buffers and requests -/

/-- The requests behind the strings of a queue entry. -/
def qEntryRequests (qe : QEntry) : List (ℕ × ℕ) :=
  [(qe.topicName, qe.topicLen + 1), (qe.msg.payload, qe.msg.payloadlen)]

/-- The requests behind an inbound message. -/
def inboundRequests (m : Messages) : List (ℕ × ℕ) :=
  [(m.publish.topic, m.publish.topiclen + 1), (m.publish.payload, m.publish.payloadlen)]

/-- The requests behind the strings a session holds. -/
def requests (s : Session) : List (ℕ × ℕ) :=
  s.messageQueue.flatMap qEntryRequests ++ s.inboundMsgs.flatMap inboundRequests

theorem mem_requests {s : Session} {r : ℕ × ℕ} :
    r ∈ s.requests ↔ (∃ qe ∈ s.messageQueue, r ∈ qEntryRequests qe) ∨
      ∃ m ∈ s.inboundMsgs, r ∈ inboundRequests m := by
  rw [requests, List.mem_append, List.mem_flatMap, List.mem_flatMap]

/-- A session with fewer entries has fewer requests. -/
theorem requests_subset {s s' : Session} (hqueue : s'.messageQueue ⊆ s.messageQueue)
    (hinbound : s'.inboundMsgs ⊆ s.inboundMsgs) : s'.requests ⊆ s.requests := by
  intro r hr
  rw [mem_requests] at hr ⊢
  exact hr.imp (fun ⟨qe, hqe, h⟩ ↦ ⟨qe, hqueue hqe, h⟩) fun ⟨m, hm, h⟩ ↦ ⟨m, hinbound hm, h⟩

/-- The invariant, inside a step where there are also buffers for the requests `extra`. -/
structure SizedWith (extra : List (ℕ × ℕ)) (s : Session) : Prop where
  /-- No eyecatcher is damaged. -/
  intact : s.heap.Intact
  /-- Every buffer was built for its request. -/
  fits : ∀ r ∈ extra ++ s.requests, s.heap.Fits r

/-- The invariant between two steps. -/
abbrev Sized (s : Session) : Prop := SizedWith [] s

theorem sized_create (garbage : ℕ → ℕ → UInt8) (cleansession : Bool) (wrapper : Wrapper) :
    Sized (create garbage cleansession wrapper) where
  intact _ _ hblk := by cases hblk
  fits _ hr := by cases hr

/-- A step of the heap that touches no eyecatcher, with no other requests but new ones. -/
theorem SizedWith.benign {s s' : Session} {extra extra' : List (ℕ × ℕ)} (hz : SizedWith extra s)
    (hb : s.heap.Benign s'.heap)
    (hreq : ∀ r ∈ extra' ++ s'.requests, r ∈ extra ++ s.requests ∨ s'.heap.Fits r) :
    SizedWith extra' s' where
  intact := hb.intact hz.intact
  fits r hr := (hreq r hr).elim (fun hold ↦ (hz.fits r hold).grows hb.toGrows) id

/-! ### The call itself -/

/-- **The two terminators.** The topic's falls into its buffer; the payload's, behind the request,
destroys the eyecatcher where the request was a multiple of sixteen, and `myfree` reports it. -/
theorem release_spec (call : Arrival) {publish : Publish}
    (htopic : call.heap.Holds call.topicName (publish.topic ++ [0]))
    (hpayload : call.heap.Requested call.message.payload call.message.payloadlen)
    (hintact : call.heap.Intact) (hlen : call.topicLen ≤ publish.topic.length)
    (hne : call.message.payload ≠ call.topicName) :
    call.release.Intact ∧ call.heap.Grows call.release ∧
      call.release.damaged = call.heap.damaged ++
        if call.message.payloadlen % 16 = 0 then [call.message.payload] else [] := by
  obtain ⟨heap, topic, topicLen, mm⟩ := call
  dsimp only at *
  set h₁ := heap.write topic topicLen 0 with h₁_def
  have hfirst : heap.Benign h₁ := by
    refine Heap.benign_write (fun blk hblk ↦ ?_) 0
    obtain ⟨blk', hblk', hroom, -⟩ := htopic
    obtain rfl : blk' = blk := Option.some.inj (hblk'.symm.trans hblk)
    rw [List.length_append, List.length_singleton] at hroom
    omega
  set h₂ := h₁.write mm.payload mm.payloadlen 0 with h₂_def
  have hrelease : (⟨heap, topic, topicLen, mm⟩ : Arrival).release =
      (h₂.myfree mm.payload).freeAll [mm.addr, topic] := rfl
  obtain ⟨blk, hblk, hsize⟩ := hpayload
  have hlive₁ : h₁.blocks mm.payload = some blk :=
    (Heap.modify_blocks_of_ne heap _ hne).trans hblk
  have hlive₂ : h₂.blocks mm.payload = some (blk.write mm.payloadlen 0) := by
    rw [h₂_def, Heap.write, Heap.modify_blocks_self, hlive₁, Option.map_some]
  have hothers : (h₂.myfree mm.payload).Intact := by
    intro b blk' hblk'
    obtain ⟨hb, hlive⟩ := Heap.blocks_of_myfree hblk'
    rw [h₂_def, Heap.write, Heap.modify_blocks_of_ne h₁ _ hb] at hlive
    exact hfirst.intact hintact b blk' hlive
  have hrest := (h₂.myfree mm.payload).benign_freeAll [mm.addr, topic]
  rw [hrelease]
  refine ⟨hrest.intact hothers, ?_, ?_⟩
  · exact ((hfirst.toGrows.trans (h₁.grows_write _ _ _)).trans
      (h₂.benign_myfree mm.payload).toGrows).trans hrest.toGrows
  · have hend := Heap.endIntact_write_request hsize (hintact _ blk hblk)
    rw [hrest.damaged hothers, Heap.myfree_damaged hlive₂]
    show (if _ then h₁.damaged else h₁.damaged ++ [mm.payload]) = _
    rw [hfirst.damaged hintact]
    by_cases hdiv : mm.payloadlen % 16 = 0
    · rw [if_pos hdiv, if_neg fun h ↦ hend.1 h hdiv]
    · rw [if_neg hdiv, if_pos (hend.2 hdiv), List.append_nil]

/-- **`mqtt_msgarrvd`** on a message whose buffers are owned and were built for their requests. -/
theorem mqttMsgarrvd_sized {s s' : Session} {topic topicLen : ℕ} {mm : Message} {publish : Publish}
    {rest : List (ℕ × Bytes)} {rc : Bool} (hintact : s.heap.Intact)
    (htopic : s.heap.Fits (topic, topicRequest publish))
    (hpayload : s.heap.Fits (mm.payload, payloadRequest publish))
    (howns : s.heap.Owns (messageCells s.received topic mm.payload mm.addr ++ rest))
    (hreceived : s.received topic = some publish) (hlen : topicLen ≤ publish.topic.length)
    (hpayloadlen : mm.payloadlen = payloadRequest publish)
    (h : s.mqttMsgarrvd topic topicLen mm = some (rc, s')) :
    (rc = false ∧ s.wrapper.loadDataPtr.join.isSome = false ∧ s' = s) ∨
    (rc = true ∧ s.wrapper.loadDataPtr.join.isSome = true ∧
      s'.messageQueue = s.messageQueue ∧ s'.inboundMsgs = s.inboundMsgs ∧ s'.heap.Intact ∧
      s.heap.Grows s'.heap ∧ Terminates s ⟨s.heap, topic, topicLen, mm⟩ s' publish) := by
  rw [messageCells_eq hreceived] at howns
  have htopicHolds : s.heap.Holds topic (publish.topic ++ [0]) :=
    howns.holds (topic, publish.topic ++ [0]) (by simp)
  have hpayloadHolds : s.heap.Holds mm.payload publish.payload :=
    howns.holds (mm.payload, publish.payload) (by simp)
  have hne : mm.payload ≠ topic := by
    have hnodup := howns.nodup
    simp only [List.cons_append, List.map_cons, List.nodup_cons, List.mem_cons, not_or] at hnodup
    exact hnodup.1.2.1
  have hpayloadRequested := hpayload.requested hpayloadHolds
  obtain ⟨hintact', hgrows, hdamaged⟩ :=
    release_spec ⟨s.heap, topic, topicLen, mm⟩ htopicHolds
      (hpayloadlen ▸ hpayloadRequested) hintact hlen hne
  rw [mqttMsgarrvd] at h
  rcases hslot : s.wrapper.loadDataPtr with - | - | m <;>
    simp only [hslot, Option.some.injEq, Prod.mk.injEq, reduceCtorEq] at h
  · exact .inl ⟨h.1.symm, rfl, h.2.symm⟩
  · obtain ⟨rfl, rfl⟩ := h
    refine .inr ⟨rfl, rfl, rfl, rfl, hintact', hgrows, hreceived, rfl,
      htopic.requested htopicHolds, hpayloadRequested, Nat.lt_succ_of_le hlen, hpayloadlen, ?_⟩
    rw [← hpayloadlen]
    exact hdamaged

/-! ### The stages of a publication -/

/-- What happens before a call and leaves the report and the trace alone, and what happens after it
and leaves the heap and the trace alone, does not matter. -/
theorem Accounts.congr {s₀ s₀' s s' : Session} {call : Option Arrival} (h : Accounts s s' call)
    (hdamaged : s.heap.damaged = s₀.heap.damaged) (hcalls : s.calls = s₀.calls)
    (hheap : s₀'.heap = s'.heap) (hcalls' : s₀'.calls = s'.calls)
    (hreceived : s₀'.received = s'.received) : Accounts s₀ s₀' call := by
  cases call with
  | none => exact ⟨hheap ▸ h.1.trans hdamaged, hcalls'.trans (h.2.trans hcalls)⟩
  | some call =>
    obtain ⟨publish, ht⟩ := h
    exact ⟨publish, hreceived ▸ ht.received, hheap.trans ht.heap, ht.topicRequested,
      ht.payloadRequested, ht.topicLen, ht.payloadlen, hheap ▸ hdamaged ▸ ht.damaged⟩

/-- The message is built, in a buffer of its own request. -/
theorem SizedWith.build {s s' : Session} {extra : List (ℕ × ℕ)} {payload : Payload}
    {header : Header} {msgId : ℕ} {mm : Message} (hz : SizedWith extra s)
    (hstored : ∀ a n, payload = .stored a n → (a, n) ∈ extra)
    (h : s.buildMessage payload header msgId = (mm, s')) :
    SizedWith ((mm.payload, mm.payloadlen) :: extra) s' ∧
      s'.heap.damaged = s.heap.damaged := by
  cases payload with
  | stored a n =>
    obtain ⟨rfl, rfl⟩ := Prod.mk.inj h
    have hb := s.heap.benign_mymalloc sizeofMessage
    refine ⟨hz.benign hb fun r hr ↦ ?_, hb.damaged hz.intact⟩
    obtain rfl | hr := List.mem_cons.1 hr
    · exact .inl (List.mem_append_left _ (hstored a n rfl))
    · exact .inl hr
  | inPacket bytes =>
    obtain ⟨rfl, rfl⟩ := Prod.mk.inj h
    have hb := (s.heap.benign_mymalloc sizeofMessage).trans
      ((s.heap.mymalloc sizeofMessage).2.benign_mymalloc_memcpy (Nat.le_refl bytes.length))
    refine ⟨hz.benign hb fun r hr ↦ ?_, hb.damaged hz.intact⟩
    obtain rfl | hr := List.mem_cons.1 hr
    · exact .inr (Heap.fits_mymalloc_memcpy _ _ _)
    · exact .inl hr

/-- **Delivered or queued.** -/
theorem deliverOrQueue_sized {s s' : Session} {topic : ℕ} {mm : Message} {publish : Publish}
    {rest : List (ℕ × Bytes)} {extra : List (ℕ × ℕ)}
    (hz : SizedWith ((mm.payload, mm.payloadlen) :: extra) s)
    (htopic : (topic, topicRequest publish) ∈ extra)
    (howns : s.heap.Owns (messageCells s.received topic mm.payload mm.addr ++ rest))
    (hreceived : s.received topic = some publish) (hlen : mm.payloadlen = payloadRequest publish)
    (h : s.deliverOrQueue topic publish.topic.length mm = some s') :
    Sized s' ∧ Accounts s s'
      (if s.wrapper.loadDataPtr.join.isSome then
        if s.messageQueue.length = 0 && s.client.connected then
          some ⟨s.heap, topic, publish.topic.length, mm⟩
        else none
      else none) := by
  have htopicFits : s.heap.Fits (topic, topicRequest publish) :=
    hz.fits _ (List.mem_cons_of_mem _ (List.mem_append_left _ htopic))
  have hpayloadFits : s.heap.Fits (mm.payload, payloadRequest publish) :=
    hlen ▸ hz.fits _ List.mem_cons_self
  -- The queue takes the two requests over.
  have hqueued : Sized
      { s with messageQueue := s.messageQueue ++ [⟨mm, topic, publish.topic.length⟩] } := by
    refine hz.benign (.refl _) fun r hr ↦ .inl ?_
    obtain ⟨qe, hqe, hr⟩ | ⟨m, hm, hr⟩ := mem_requests.1 hr
    · obtain hqe | rfl := (List.mem_append.1 hqe).imp_right List.mem_singleton.1
      · exact List.mem_append_right _ (mem_requests.2 (.inl ⟨qe, hqe, hr⟩))
      · obtain rfl | rfl : r = (topic, topicRequest publish) ∨ r = (mm.payload, mm.payloadlen) :=
          List.mem_pair.1 hr
        · exact List.mem_cons_of_mem _ (List.mem_append_left _ htopic)
        · exact List.mem_cons_self
    · exact List.mem_append_right _ (mem_requests.2 (.inr ⟨m, hm, hr⟩))
  rw [deliverOrQueue] at h
  by_cases hready : (s.messageQueue.length = 0 && s.client.connected) = true
  · rw [if_pos hready, Option.map_eq_some_iff] at h
    obtain ⟨⟨rc, s₁⟩, hcall, hs'⟩ := h
    obtain ⟨rfl, hslot, rfl⟩ | ⟨rfl, hslot, hqueue, hinbound, hintact, hgrows, hterminates⟩ :=
      mqttMsgarrvd_sized hz.intact htopicFits hpayloadFits howns hreceived le_rfl hlen hcall
    · obtain rfl : _ = s' := hs'
      simp only [hslot, Bool.false_eq_true, if_false]
      exact ⟨hqueued, rfl, rfl⟩
    · obtain rfl : s₁ = s' := hs'
      rw [if_pos hslot, if_pos hready]
      refine ⟨⟨hintact, fun r hr ↦ ?_⟩, publish, hterminates⟩
      have hold := requests_subset (fun _ h ↦ hqueue ▸ h) (fun _ h ↦ hinbound ▸ h) hr
      exact (hz.fits r (List.mem_append_right _ hold)).grows hgrows
  · rw [if_neg hready] at h
    obtain rfl : _ = s' := Option.some.inj h
    rw [if_neg hready, ite_self]
    exact ⟨hqueued, rfl, rfl⟩

/-- **`Protocol_processPublication`**, for a publication whose buffers were built for its packet. -/
theorem process_sized {s s' : Session} {topic : ℕ} {publish : Publish} (payload : Payload)
    {header : Header} {msgId : ℕ} {extra : List (ℕ × ℕ)}
    (ht : TrackedWith (TrackedWith.payloadCells topic publish payload) [] s)
    (hz : SizedWith extra s) (htopic : (topic, topicRequest publish) ∈ extra)
    (hstored : ∀ a n, payload = .stored a n → (a, n) ∈ extra)
    (hreceived : s.received topic = some publish)
    (hmatch : TrackedWith.payloadMatches publish payload) (hnew : topic ∉ s.arrived)
    (h : s.protocolProcessPublication topic publish.topic.length payload header msgId = some s') :
    Sized s' ∧ Accounts s s'
      (if s.wrapper.loadDataPtr.join.isSome then
        s.processArrival topic publish.topic.length payload header msgId
      else none) := by
  have htopicMem : topic ∈ (TrackedWith.payloadCells topic publish payload).map Prod.fst := by
    cases payload <;> simp [TrackedWith.payloadCells]
  set s₁ : Session := { s with arrived := s.arrived ++ [topic] } with hs₁
  have hz₁ : SizedWith extra s₁ := ⟨hz.intact, hz.fits⟩
  obtain ⟨mm, heap, hbuild, hlen, -, ht'⟩ :=
    (ht.arrive htopicMem hnew).build header msgId hreceived hmatch
  obtain ⟨hz', hdamaged⟩ := hz₁.build hstored hbuild
  have hdeliver :
      { s₁ with heap := heap }.deliverOrQueue topic publish.topic.length mm = some s' := by
    rw [protocolProcessPublication, hbuild] at h
    exact h
  have hcall : s.processArrival topic publish.topic.length payload header msgId =
      if s.messageQueue.length = 0 && s.client.connected then
        some ⟨heap, topic, publish.topic.length, mm⟩
      else none := by
    rw [processArrival, hbuild]
  obtain ⟨hsized, haccounts⟩ := deliverOrQueue_sized hz' htopic ht'.owns hreceived hlen hdeliver
  rw [hcall]
  exact ⟨hsized, haccounts.congr hdamaged rfl rfl rfl rfl⟩

/-- Neither the arrival nor what becomes of it depends on the inbound list. -/
theorem processArrival_setInbound (s : Session) (inboundMsgs : List Messages) (topic topiclen : ℕ)
    (payload : Payload) (header : Header) (msgId : ℕ) :
    { s with inboundMsgs := inboundMsgs }.processArrival topic topiclen payload header msgId =
      s.processArrival topic topiclen payload header msgId := by
  cases payload <;> rfl

/-! ### Reading packets -/

/-- A QoS 2 PUBLISH is stored, in a buffer of its own request. -/
theorem SizedWith.store {s : Session} {topic : ℕ} {publish : Publish} {extra : List (ℕ × ℕ)}
    (hz : SizedWith extra s) (htopic : (topic, topicRequest publish) ∈ extra)
    (hlive : s.heap.heapFindItem topic = true) {p : Publications} {heap : Heap}
    (h : mqttProtocolStorePublication s.heap topic publish.topic.length publish.payload = (p, heap))
    (msgid retain : ℕ) :
    Sized { s with
      heap := (storeInbound ⟨msgid, retain, p⟩ s.inboundMsgs heap).2
      inboundMsgs := (storeInbound ⟨msgid, retain, p⟩ s.inboundMsgs heap).1 } ∧
    (storeInbound ⟨msgid, retain, p⟩ s.inboundMsgs heap).2.damaged = s.heap.damaged := by
  rw [mqttProtocolStorePublication, if_pos hlive] at h
  obtain ⟨rfl, hheap⟩ := Prod.mk.inj h
  have hb : s.heap.Benign heap := hheap ▸ s.heap.benign_mymalloc_memcpy le_rfl
  have hnew : heap.Fits (s.heap.next, publish.payload.length) :=
    hheap ▸ s.heap.fits_mymalloc_memcpy _ _
  set m : Messages :=
    ⟨msgid, retain, topic, publish.topic.length, s.heap.next, publish.payload.length⟩
  -- Both outcomes of `storeInbound` add no other message to the inbound list.
  have hdone : ∀ (heap' : Heap) (inboundMsgs : List Messages), heap.Benign heap' →
      (∀ m' ∈ inboundMsgs, m' = m ∨ m' ∈ s.inboundMsgs) →
      Sized { s with heap := heap', inboundMsgs := inboundMsgs } ∧
        heap'.damaged = s.heap.damaged := by
    intro heap' inboundMsgs hb' hmem
    have hall := hb.trans hb'
    refine ⟨hz.benign hall fun r hr ↦ ?_, hall.damaged hz.intact⟩
    obtain ⟨qe, hqe, hr⟩ | ⟨m', hm', hr⟩ := mem_requests.1 hr
    · exact .inl (List.mem_append_right _ (mem_requests.2 (.inl ⟨qe, hqe, hr⟩)))
    · obtain rfl | hm' := hmem m' hm'
      · obtain rfl | rfl : r = (topic, topicRequest publish) ∨
            r = (s.heap.next, publish.payload.length) := List.mem_pair.1 hr
        · exact .inl (List.mem_append_left _ htopic)
        · exact .inr (hnew.grows hb'.toGrows)
      · exact .inl (List.mem_append_right _ (mem_requests.2 (.inr ⟨m', hm', hr⟩)))
  obtain happend | ⟨before, old, after, hinbound, hreplace⟩ :=
    storeInbound_cases m s.inboundMsgs heap
  · rw [show storeInbound _ s.inboundMsgs heap = _ from happend]
    exact hdone _ _ (.refl heap) fun m' hm' ↦
      (List.mem_append.1 hm').symm.imp_left List.mem_singleton.1
  · rw [show storeInbound _ s.inboundMsgs heap = _ from hreplace]
    refine hdone _ _ (heap.benign_freeAll _) fun m' hm' ↦ ?_
    rw [hinbound]
    simp only [List.mem_append, List.mem_cons] at hm' ⊢
    tauto

/-- **A PUBLISH is read.** -/
theorem handlePublishes_sized {s s' : Session} {publish : Publish} (ht : Tracked s) (hz : Sized s)
    (h : { s with
      heap := (allocString s.heap publish.topic).2
      received := Function.update s.received s.heap.next (some publish) }.mqttProtocolHandlePublishes
        s.heap.next publish = some s') :
    Sized s' ∧ Accounts s s'
      (if s.wrapper.loadDataPtr.join.isSome then
        if publish.header.qos = 0 ∨ publish.header.qos = 1 then
          { s with heap := (allocString s.heap publish.topic).2 }.processArrival s.heap.next
            publish.topic.length (.inPacket publish.payload) publish.header publish.msgId
        else none
      else none) := by
  have ht' := ht.receive publish
  set s₁ : Session := { s with
    heap := (allocString s.heap publish.topic).2
    received := Function.update s.received s.heap.next (some publish) } with hs₁
  have hb : s.heap.Benign s₁.heap := s.heap.benign_string publish.topic
  have hdamaged : s₁.heap.damaged = s.heap.damaged := hb.damaged hz.intact
  have hz' : SizedWith [(s.heap.next, topicRequest publish)] s₁ := by
    refine hz.benign hb fun r hr ↦ ?_
    obtain rfl | hr := List.mem_cons.1 hr
    · exact .inr (s.heap.fits_string publish.topic)
    · exact .inl hr
  have hreceived : s₁.received s.heap.next = some publish := Function.update_self ..
  have hnew : s.heap.next ∉ s₁.arrived := fun hmem ↦ (ht.arrivedNext s.heap.next hmem).ne rfl
  rw [mqttProtocolHandlePublishes] at h
  split_ifs at h with hlow htwo
  · rw [if_pos hlow]
    obtain ⟨hsized, haccounts⟩ := process_sized (.inPacket publish.payload) ht' hz'
      List.mem_cons_self (fun _ _ heq ↦ by cases heq) hreceived rfl hnew h
    exact ⟨hsized, haccounts.congr hdamaged rfl rfl rfl rfl⟩
  · rw [if_neg hlow, ite_self]
    rcases hstore : mqttProtocolStorePublication s₁.heap s.heap.next publish.topic.length
      publish.payload with ⟨p, heap⟩
    simp only [hstore, Option.some.injEq] at h
    subst h
    obtain ⟨hsized, hsame⟩ := hz'.store List.mem_cons_self ht'.owns.head.isLive hstore
      publish.msgId publish.header.retain
    exact ⟨hsized, hsame.trans hdamaged, rfl⟩
  · rw [if_neg hlow, ite_self]
    obtain rfl : { s₁ with heap := s₁.heap.myfree s.heap.next } = s' := Option.some.inj h
    have hfree := s₁.heap.benign_myfree s.heap.next
    refine ⟨hz'.benign hfree fun r hr ↦ .inl (List.mem_cons_of_mem _ hr), ?_, rfl⟩
    exact (hfree.damaged hz'.intact).trans hdamaged

/-- **A PUBREL is read.** -/
theorem handlePubrels_sized {s s' : Session} {msgId : ℕ} (ht : Tracked s) (hz : Sized s)
    (h : s.mqttProtocolHandlePubrels msgId = some s') :
    Sized s' ∧ Accounts s s' (s.taken (.pubrel msgId)) := by
  rw [mqttProtocolHandlePubrels] at h
  rw [taken, arrival]
  rcases hfind : s.inboundMsgs.find? fun m ↦ m.msgid == msgId with - | m <;>
    simp only [hfind] at h ⊢
  · rw [ite_self, ← Option.some.inj h]
    exact ⟨hz, rfl, rfl⟩
  have hmem : m ∈ s.inboundMsgs := List.mem_of_find?_eq_some hfind
  obtain ⟨publish, hreceived, htopiclen, hpayloadlen, ht'⟩ := ht.takeInbound hfind
  rw [process_setInbound, ← htopiclen] at h
  -- The requests of the message become those of the publication.
  have hz' : SizedWith (inboundRequests m)
      { s with inboundMsgs := s.inboundMsgs.eraseP fun m ↦ m.msgid == msgId } := by
    refine hz.benign (.refl _) fun r hr ↦ .inl ?_
    obtain hr | hr := List.mem_append.1 hr
    · exact mem_requests.2 (.inr ⟨m, hmem, hr⟩)
    · refine requests_subset ?_ ?_ hr
      · exact List.Subset.refl _
      · exact List.eraseP_subset
  have htopic : (m.publish.topic, topicRequest publish) ∈ inboundRequests m := by
    rw [topicRequest, htopiclen]
    exact List.mem_cons_self
  have hstored : ∀ a n, Payload.stored m.publish.payload m.publish.payloadlen = .stored a n →
      (a, n) ∈ inboundRequests m := by
    rintro a n ⟨⟩
    exact List.mem_cons_of_mem _ List.mem_cons_self
  obtain ⟨hsized, haccounts⟩ := process_sized (.stored _ _) ht' hz' htopic hstored
    hreceived hpayloadlen.symm (ht.inboundNew m hmem) h
  rw [processArrival_setInbound, htopiclen] at haccounts
  exact ⟨hsized, haccounts.congr rfl rfl rfl rfl rfl⟩

/-- **The head of the queue is offered again.** -/
theorem redeliver_sized {s s' : Session} (ht : Tracked s) (hz : Sized s)
    (hsocket : s.client.hasSocket = true) (h : s.redeliver = some s') :
    Sized s' ∧ Accounts s s' (s.taken .redeliver) := by
  rw [Session.redeliver] at h
  rw [taken, arrival]
  rcases hqueue : s.messageQueue with - | ⟨qe, rest⟩ <;> simp only [hqueue] at h ⊢
  · rw [ite_self, ← Option.some.inj h]
    exact ⟨hz, rfl, rfl⟩
  have hmem : qe ∈ s.messageQueue := by
    rw [hqueue]
    exact List.mem_cons_self
  obtain ⟨publish, hreceived, htopicLen, hpayloadLen, howns⟩ := ht.queueHead hqueue
  have hfits : ∀ r ∈ qEntryRequests qe, s.heap.Fits r := fun r hr ↦
    hz.fits r (mem_requests.2 (.inl ⟨qe, hmem, hr⟩))
  have htopic : s.heap.Fits (qe.topicName, topicRequest publish) := by
    rw [topicRequest, htopicLen]
    exact hfits _ List.mem_cons_self
  have hpayload : s.heap.Fits (qe.msg.payload, payloadRequest publish) := by
    rw [payloadRequest, hpayloadLen]
    exact hfits _ (List.mem_cons_of_mem _ List.mem_cons_self)
  have hle : (if (s.heap.cstr qe.topicName).length = qe.topicLen then 0 else qe.topicLen) ≤
      publish.topic.length := by
    split_ifs <;> omega
  obtain ⟨⟨rc, s₁⟩, hcall, hs'⟩ := Option.map_eq_some_iff.1 h
  rw [if_pos hsocket]
  obtain ⟨rfl, hslot, rfl⟩ | ⟨rfl, hslot, -, hinbound, hintact, hgrows, hterminates⟩ :=
    mqttMsgarrvd_sized hz.intact htopic hpayload howns hreceived hle hpayloadLen.symm hcall
  · obtain rfl : _ = s' := hs'
    simp only [hslot, Bool.false_eq_true, if_false]
    exact ⟨hz, rfl, rfl⟩
  · obtain rfl : { s₁ with messageQueue := rest } = s' := hs'
    rw [if_pos hslot]
    have haccounts : Accounts s s₁ (some _) := ⟨publish, hterminates⟩
    refine ⟨⟨hintact, fun r hr ↦ ?_⟩, haccounts.congr rfl rfl rfl rfl rfl⟩
    have hrest : rest ⊆ s.messageQueue := by
      rw [hqueue]
      exact List.subset_cons_self _ _
    have hold : r ∈ s.requests := requests_subset hrest (fun _ h ↦ hinbound ▸ h) hr
    exact (hz.fits r hold).grows hgrows

/-- A step that only makes the session smaller, and makes no call. -/
theorem Sized.quiet {s s' : Session} (hz : Sized s) (hb : s.heap.Benign s'.heap)
    (hrequests : s'.requests ⊆ s.requests) (hcalls : s'.calls = s.calls) :
    Sized s' ∧ Accounts s s' none :=
  ⟨hz.benign hb fun _ hr ↦ .inl (hrequests hr), hb.damaged hz.intact, hcalls⟩

/-- **A clean session** releases what it throws away, with every eyecatcher in place. -/
theorem completeConnection_sized {s : Session} (hz : Sized s) :
    Sized s.completeConnection ∧ Accounts s s.completeConnection none := by
  rw [completeConnection]
  split_ifs
  · refine hz.quiet ?_ (List.nil_subset _) rfl
    exact (s.heap.benign_freeAll _).trans (Heap.benign_freeAll _ _)
  · exact hz.quiet (.refl _) (List.Subset.refl _) rfl

/-! ### Every step -/

/-- Neither the invariant nor the account speaks about the receive thread's turn. -/
theorem setTurn_sized {s s' : Session} {call : Option Arrival} (turn : Turn)
    (h : Sized s' ∧ Accounts s s' call) :
    Sized (s'.setTurn turn) ∧ Accounts s (s'.setTurn turn) call := by
  obtain ⟨hz, haccounts⟩ := h
  exact ⟨⟨hz.intact, hz.fits⟩, haccounts.congr rfl rfl rfl rfl rfl⟩

/-- A step of which `arrival` names no call. -/
theorem taken_of_none {s : Session} {e : Incoming} (h : s.arrival e = none) : s.taken e = none := by
  rw [taken, h, ite_self]

/-- **Every step** keeps the invariant and accounts for its call of `mqtt_msgarrvd`. -/
theorem step_sized {s s' : Session} {e : Incoming} (ht : Tracked s) (hz : Sized s)
    (h : machine.step s e = some s') : Sized s' ∧ Accounts s s' (s.taken e) := by
  have hsame : Sized s ∧ Accounts s s none := hz.quiet (.refl _) (List.Subset.refl _) rfl
  cases step_cases h with
  | quiet he client wrapper turn =>
    have hnone : s.arrival e = none := by
      cases e with
      | connectSent | packet | receiveError | closeOnly | wrapper => rfl
      | publish | pubrel | redeliver | connack => cases he
    rw [taken_of_none hnone]
    exact hz.quiet (.refl _) (List.Subset.refl _) rfl
  | publish aHeader data publish t hparse hhandle =>
    rw [taken, arrival]
    simp only [hparse]
    exact setTurn_sized _ (handlePublishes_sized ht hz hhandle)
  | pubrel msgId t hhandle => exact setTurn_sized _ (handlePubrels_sized ht hz hhandle)
  | redeliver t turn hsocket hcall =>
    exact setTurn_sized turn (redeliver_sized ht hz hsocket hcall)
  | notFound hsocket =>
    have hnone : s.arrival .redeliver = none := by
      rw [arrival]
      split
      · rfl
      · exact if_neg (by simp [hsocket])
    rw [taken_of_none hnone]
    exact setTurn_sized _ hsame
  | connack =>
    rw [taken_of_none rfl]
    exact setTurn_sized _ (completeConnection_sized hz)

/-- The terminators of a call stay inside what was requested for the packet's buffers. -/
def StaysInside (call : Arrival) (publish : Publish) : Prop :=
  call.topicLen < topicRequest publish ∧ call.message.payloadlen < payloadRequest publish

/-- **Where the terminators go.** Along every run, every call of `mqtt_msgarrvd` that is taken
writes the terminator of its payload outside of what was requested for it; the heap reports a
damaged eyecatcher exactly if the length of the payload is a multiple of sixteen. No other step is
the cause of a report. -/
theorem terminators_iff (garbage : ℕ → ℕ → UInt8) (cleansession : Bool) (wrapper : Wrapper)
    (es : List Incoming) :
    machine.EachStep (fun s e s' ↦
        (∀ call, s.taken e = some call → ∃ publish, Terminates s call s' publish ∧
          ¬ StaysInside call publish ∧
          (s'.heap.damaged = s.heap.damaged ↔ publish.payload.length % 16 ≠ 0)) ∧
        (s.taken e = none → s'.heap.damaged = s.heap.damaged ∧ s'.calls = s.calls))
      (create garbage cleansession wrapper) es := by
  refine machine.eachStep_of_inductive (J := fun s ↦ Tracked s ∧ Sized s)
    (fun s e s' ⟨ht, hz⟩ hstep ↦ ?_) ⟨tracked_create .., sized_create ..⟩ es
  obtain ⟨hz', haccounts⟩ := step_sized ht hz hstep
  refine ⟨⟨fun call hcall ↦ ?_, fun hnone ↦ ?_⟩, (step_moves ht hstep).1, hz'⟩
  · rw [hcall] at haccounts
    obtain ⟨publish, hterminates⟩ := haccounts
    refine ⟨publish, hterminates, fun hinside ↦ ?_, ?_⟩
    · exact hinside.2.ne hterminates.payloadlen
    · rw [hterminates.damaged, payloadRequest]
      split_ifs with hdiv <;> simp [hdiv]
  · rw [hnone] at haccounts
    exact haccounts

/-- A PUBLISH of topic `t` without a payload, on a connected client, is reported. -/
theorem empty_payload_damages :
    ¬ machine.EachStep (fun s e s' ↦ ∀ call, s.taken e = some call →
        s'.heap.damaged = s.heap.damaged)
      (create (fun _ _ ↦ 0) true (mqttInit.mqttConnectStore 0))
      [.connectSent, .packet true, .redeliver, .connack, .publish 0x30 [0, 1, 0x74]] := by
  intro h
  obtain ⟨-, h⟩ := h _ rfl
  obtain ⟨-, h⟩ := h _ rfl
  obtain ⟨-, h⟩ := h _ rfl
  obtain ⟨-, h⟩ := h _ rfl
  obtain ⟨h, -⟩ := h _ rfl
  exact absurd (h _ rfl) (by decide)

end Session
