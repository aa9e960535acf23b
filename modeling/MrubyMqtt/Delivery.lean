import MrubyMqtt.Heap
import MrubyMqtt.Lib.Machine
import MrubyMqtt.Wrapper

/-!
# Incoming messages

The way of a message from the packet to the Ruby handler, for one client from its creation to the
closing of its session. A PUBLISH of QoS 0 or 1 is processed at once, one of QoS 2 is stored and
processed when its PUBREL comes. Processing hands the message to `mqtt_msgarrvd` if the client is
connected and nothing is queued, and queues it if the wrapper refuses it; the receive thread tries
the head of the queue again in every turn in which it has read a packet.

Buffers are addresses into the heap, so that termination in place, aliasing and release are the
code's own. Four components of a `Session` are not data of the program but its trace: `received`
records the packet behind every topic string that `MQTTPacket_publish` has allocated, `arrived` the
publications `Protocol_processPublication` has taken, `calls` the calls of `on_message_callback` and
`discarded` what a clean session has thrown away. Nothing reads them. A publication is named by the
address of its topic string, which it keeps on every path.

The network side of a session is reduced to what message delivery depends on; the transitions of
a connection are in `MrubyMqtt.Paho`. Whether `DATA_PTR(_self)` is NULL is up to the environment
(`Incoming.wrapper`), at every point between two steps.
-/

open Bytes

/-- `MQTTAsync_message`, without the fields nothing reads. -/
structure Message where
  /-- Where the structure is. -/
  addr : ℕ
  /-- The payload buffer. -/
  payload : ℕ
  /-- The payload length. -/
  payloadlen : ℕ
  /-- The quality of service. -/
  qos : ℕ
  /-- The retained flag. -/
  retained : ℕ
  /-- The duplicate flag. -/
  dup : ℕ
  /-- The message id. -/
  msgid : ℕ
deriving DecidableEq, Repr

/-- An entry of the message queue. -/
structure QEntry where
  /-- The message. -/
  msg : Message
  /-- The topic string. -/
  topicName : ℕ
  /-- The topic length. -/
  topicLen : ℕ
deriving DecidableEq, Repr

/-- A stored publication (`Publications`); no two messages share one. -/
structure Publications where
  /-- The topic string. -/
  topic : ℕ
  /-- The topic length. -/
  topiclen : ℕ
  /-- The payload buffer. -/
  payload : ℕ
  /-- The payload length. -/
  payloadlen : ℕ
deriving DecidableEq, Repr

/-- An inbound QoS 2 message that waits for its PUBREL (`Messages`). -/
structure Messages where
  /-- The message id. -/
  msgid : ℕ
  /-- The retained flag. -/
  retain : ℕ
  /-- The publication. -/
  publish : Publications
deriving DecidableEq, Repr

/-- A call of `on_message_callback`: the publication, and the strings Ruby sees. -/
structure Call where
  /-- The publication. -/
  publication : ℕ
  /-- `message.topic`. -/
  topic : Bytes
  /-- `message.payload`. -/
  payload : Bytes
deriving DecidableEq, Repr

/-- How far the receive thread has come in its turn. -/
inductive Turn where
  /-- It is in `MQTTAsync_cycle`. -/
  | idle
  /-- `MQTTAsync_cycle` has read a packet, which is a CONNACK or not. -/
  | packet (connack : Bool)
  /-- The queue has been offered, and the CONNACK is still to be handled. -/
  | offered
deriving DecidableEq, Repr

/-- One client's session, with the heap and the wrapper's statics. -/
structure Session where
  /-- The heap. -/
  heap : Heap
  /-- The protocol client. -/
  client : Clients
  /-- The receive thread's turn. -/
  turn : Turn
  /-- `inboundMsgs`. -/
  inboundMsgs : List Messages
  /-- `messageQueue`. -/
  messageQueue : List QEntry
  /-- The statics of the wrapper. -/
  wrapper : Wrapper
  /-- Trace: the packet each topic string came from. -/
  received : ℕ → Option Publish
  /-- Trace: the publications processed, in order. -/
  arrived : List ℕ
  /-- Trace: the calls of `on_message_callback`, in order. -/
  calls : List Call
  /-- Trace: the publications a clean session has thrown away. -/
  discarded : List ℕ

namespace Session

/-! ### The callback -/

/-- `MQTTAsync_freeMessage` and `MQTTAsync_free`, as `mqtt_msgarrvd` calls them. -/
def freeArrived (heap : Heap) (topicName : ℕ) (message : Message) : Heap :=
  heap.freeAll [message.payload, message.addr, topicName]

/-- `mqtt_msgarrvd`: 0 if the slot is NULL; otherwise both strings are terminated in place and
turned into Ruby strings, the handler is called, and message and topic are freed. -/
def mqttMsgarrvd (s : Session) (topicName topicLen : ℕ) (message : Message) :
    Option (Bool × Session) :=
  match s.wrapper.loadDataPtr with
  | none => none
  | some none => some (false, s)
  | some (some _) =>
    let heap := (s.heap.write topicName topicLen 0).write message.payload message.payloadlen 0
    some (true,
      { s with
        heap := freeArrived heap topicName message
        calls := s.calls ++ [⟨topicName, heap.cstr topicName, heap.cstr message.payload⟩] })

/-! ### Publications -/

/-- A publication on its way to `Protocol_processPublication`: the payload is still in the packet,
or is the stored one of a QoS 2 message. -/
inductive Payload where
  /-- Bytes in the packet. -/
  | inPacket (bytes : Bytes)
  /-- A stored payload. -/
  | stored (addr payloadlen : ℕ)
deriving DecidableEq, Repr

/-- `sizeof(MQTTAsync_message)`. -/
def sizeofMessage : ℕ := 40

/-- The first half of `Protocol_processPublication`: the message structure, and a copy of the
payload unless it is the stored one. -/
def buildMessage (s : Session) (payload : Payload) (header : Header) (msgId : ℕ) :
    Message × Session :=
  let (addr, heap) := s.heap.mymalloc sizeofMessage
  match payload with
  | .stored a payloadlen =>
    (⟨addr, a, payloadlen, header.qos, header.retain, 0, msgId⟩, { s with heap := heap })
  | .inPacket bytes =>
    let (a, heap) := heap.mymalloc bytes.length
    (⟨addr, a, bytes.length, header.qos, header.retain, header.dup, msgId⟩,
      { s with heap := heap.memcpy a bytes })

/-- The second half: straight to the application if nothing is queued and the client is connected,
and into the queue if it has not been delivered. -/
def deliverOrQueue (s : Session) (topic topiclen : ℕ) (mm : Message) : Option Session :=
  let queued (s : Session) : Session :=
    { s with messageQueue := s.messageQueue ++ [⟨mm, topic, topiclen⟩] }
  if s.messageQueue.length = 0 && s.client.connected then
    (s.mqttMsgarrvd topic topiclen mm).map fun (rc, s') ↦ if rc then s' else queued s'
  else some (queued s)

/-- `Protocol_processPublication`. -/
def protocolProcessPublication (s : Session) (topic topiclen : ℕ) (payload : Payload)
    (header : Header) (msgId : ℕ) : Option Session :=
  let (mm, s') := { s with arrived := s.arrived ++ [topic] }.buildMessage payload header msgId
  s'.deliverOrQueue topic topiclen mm

/-- The string `readUTFlen` allocates: the characters and a terminator. -/
def allocString (heap : Heap) (string : Bytes) : ℕ × Heap :=
  let (a, heap) := heap.mymalloc (string.length + 1)
  (a, (heap.memcpy a string).write a string.length 0)

/-- `MQTTProtocol_storePublication`: the topic is taken over if the heap knows it, the payload is
copied. -/
def mqttProtocolStorePublication (heap : Heap) (topic topiclen : ℕ) (payload : Bytes) :
    Publications × Heap :=
  let (topic, heap) :=
    if heap.heapFindItem topic then (topic, heap) else allocString heap (heap.cstr topic)
  let (a, heap) := heap.mymalloc payload.length
  (⟨topic, topiclen, a, payload.length⟩, heap.memcpy a payload)

/-- `MQTTProtocol_removePublication`; the reference count of an inbound publication is 1. -/
def mqttProtocolRemovePublication (heap : Heap) (p : Publications) : Heap :=
  heap.freeAll [p.payload, p.topic]

/-- A QoS 2 PUBLISH goes to the end of `inboundMsgs`, or in the place of one with the same message
id, whose publication is removed. -/
def storeInbound (m : Messages) : List Messages → Heap → List Messages × Heap
  | [], heap => ([m], heap)
  | msg :: rest, heap =>
    if msg.msgid = m.msgid then (m :: rest, mqttProtocolRemovePublication heap msg.publish)
    else
      let (rest', heap') := storeInbound m rest heap
      (msg :: rest', heap')

/-- `MQTTProtocol_handlePublishes`, for a packet whose topic string is at `topic`. -/
def mqttProtocolHandlePublishes (s : Session) (topic : ℕ) (publish : Publish) : Option Session :=
  if publish.header.qos = 0 ∨ publish.header.qos = 1 then
    s.protocolProcessPublication topic publish.topic.length (.inPacket publish.payload)
      publish.header publish.msgId
  else if publish.header.qos = 2 then
    let (p, heap) :=
      mqttProtocolStorePublication s.heap topic publish.topic.length publish.payload
    let (inboundMsgs, heap) :=
      storeInbound ⟨publish.msgId, publish.header.retain, p⟩ s.inboundMsgs heap
    some { s with heap := heap, inboundMsgs := inboundMsgs }
  else some { s with heap := s.heap.myfree topic }

/-- `MQTTProtocol_handlePubrels`: the stored message is processed and leaves `inboundMsgs`. -/
def mqttProtocolHandlePubrels (s : Session) (msgId : ℕ) : Option Session :=
  match s.inboundMsgs.find? fun m ↦ m.msgid == msgId with
  | none => some s
  | some m =>
    (s.protocolProcessPublication m.publish.topic m.publish.topiclen
      (.stored m.publish.payload m.publish.payloadlen) ⟨PUBLISH, 0, 2, m.retain⟩ m.msgid).map
        fun s' ↦ { s' with inboundMsgs := s'.inboundMsgs.eraseP fun m ↦ m.msgid == msgId }

/-- The queue part of one turn of `MQTTAsync_receiveThread`: the head is offered again, with length
0 if the topic is a C string of the recorded length, and leaves the queue if it is taken. -/
def redeliver (s : Session) : Option Session :=
  match s.messageQueue with
  | [] => some s
  | qe :: rest =>
    let topicLen := if (s.heap.cstr qe.topicName).length = qe.topicLen then 0 else qe.topicLen
    (s.mqttMsgarrvd qe.topicName topicLen qe.msg).map fun (rc, s') ↦
      if rc then { s' with messageQueue := rest } else s'

/-! ### Clean sessions -/

/-- `MQTTAsync_emptyMessageQueue`. -/
def mqttAsyncEmptyMessageQueue (s : Session) : Session :=
  { s with
    heap := s.heap.freeAll
      (s.messageQueue.flatMap fun qe ↦ [qe.topicName, qe.msg.payload, qe.msg.addr])
    messageQueue := []
    discarded := s.discarded ++ s.messageQueue.map QEntry.topicName }

/-- `MQTTProtocol_emptyMessageList`. -/
def mqttProtocolEmptyMessageList (s : Session) : Session :=
  { s with
    heap := s.heap.freeAll (s.inboundMsgs.flatMap fun m ↦ [m.publish.payload, m.publish.topic])
    inboundMsgs := [] }

/-- `MQTTAsync_cleanSession`, as far as incoming messages go. -/
def mqttAsyncCleanSession (s : Session) : Session :=
  let s := s.mqttProtocolEmptyMessageList.mqttAsyncEmptyMessageQueue
  { s with client := { s.client with msgID := 0 } }

/-- `MQTTAsync_completeConnection` on a CONNACK with return code 0. -/
def completeConnection (s : Session) : Session :=
  let s := { s with client := { s.client with connected := true, connectState := 0 } }
  if s.client.cleansession then s.mqttAsyncCleanSession else s

/-! ### The machine -/

/-- The session of a client just created and connected with this clean session flag. -/
def create (garbage : ℕ → ℕ → UInt8) (cleansession : Bool) (wrapper : Wrapper) : Session where
  heap := .heapInitialize garbage
  client := ⟨[], false, 0, cleansession, 0, 0⟩
  turn := .idle
  inboundMsgs := []
  messageQueue := []
  wrapper := wrapper
  received _ := none
  arrived := []
  calls := []
  discarded := []

end Session

/-- What can happen to a session before it is closed. -/
inductive Incoming where
  /-- The CONNECT packet is sent. -/
  | connectSent
  /-- `MQTTAsync_cycle` reads a PUBLISH: its header byte and the rest of the packet. -/
  | publish (aHeader : UInt8) (data : Bytes)
  /-- `MQTTAsync_cycle` reads a PUBREL. -/
  | pubrel (msgId : ℕ)
  /-- `MQTTAsync_cycle` reads anything else: a CONNACK or not. -/
  | packet (connack : Bool)
  /-- The receive thread comes to the message queue. -/
  | redeliver
  /-- The receive thread comes to a CONNACK with return code 0. -/
  | connack
  /-- The receive thread finds that reading, or answering what was read, has failed. -/
  | receiveError
  /-- The connection is given up without closing the session (`MQTTAsync_closeOnly`). -/
  | closeOnly
  /-- Anything else happens to the wrapper's statics. -/
  | wrapper (w : Wrapper)

namespace Session

/-- A packet is read, which takes a socket on which the TCP connect is complete. -/
def readsPackets (s : Session) : Bool :=
  s.turn = .idle && s.client.hasSocket && s.client.connectState ≠ 1

/-- The receive thread goes on. -/
def setTurn (turn : Turn) (s : Session) : Session := { s with turn := turn }

/-- `MQTTAsync_closeOnly`, as far as incoming messages go. -/
def mqttAsyncCloseOnly (s : Session) : Session :=
  { s with client := { s.client with connected := false, connectState := 0 } }

/-- One step of the session. `none` where the event cannot happen, where the packet is not accepted,
or where the wrapper reads through a null object. The mutex is free between `MQTTAsync_cycle` and
the rest of a turn, but not between the queue and the CONNACK. -/
def step (s : Session) : Incoming → Option Session
  | .connectSent =>
    if s.client.hasSocket || s.turn = .offered then none
    else some { s with client := { s.client with connectState := 3 } }
  | .publish aHeader data =>
    if s.readsPackets then
      match mqttPacketPublish aHeader data with
      | .error _ => none
      | .ok publish =>
        let (topic, heap) := allocString s.heap publish.topic
        ({ s with
          heap := heap
          received := Function.update s.received topic (some publish) }.mqttProtocolHandlePublishes
            topic publish).map (setTurn (.packet false))
    else none
  | .pubrel msgId =>
    if s.readsPackets then (s.mqttProtocolHandlePubrels msgId).map (setTurn (.packet false))
    else none
  | .packet connack => if s.readsPackets then some (s.setTurn (.packet connack)) else none
  | .redeliver =>
    match s.turn with
    | .packet connack =>
      -- A socket that has been closed since is not found among the handles.
      if s.client.hasSocket then
        s.redeliver.map (setTurn (if connack then .offered else .idle))
      else some (s.setTurn .idle)
    | _ => none
  | .connack =>
    if s.turn = .offered && s.client.connectState = 3 then some (s.completeConnection.setTurn .idle)
    else none
  | .receiveError =>
    match s.turn with
    | .packet _ => some ((if s.client.connected then s else s.mqttAsyncCloseOnly).setTurn .idle)
    | _ => none
  | .closeOnly => some (s.mqttAsyncCloseOnly.setTurn (if s.turn = .offered then .idle else s.turn))
  | .wrapper w => some { s with wrapper := w }

/-- The machine of one session. -/
def machine : Machine Session Incoming where
  step := step

end Session

/-- The events that read no message and deliver none. -/
def Incoming.isQuiet : Incoming → Bool
  | .connectSent | .packet _ | .receiveError | .closeOnly | .wrapper _ => true
  | _ => false

namespace Session

/-- What a step can be, with the function of Paho's that it runs. -/
inductive Steps (s : Session) : Incoming → Session → Prop
  /-- Nothing happens to messages. -/
  | quiet {e} (he : e.isQuiet = true) (client : Clients) (wrapper : Wrapper) (turn : Turn) :
      Steps s e { s with client := client, wrapper := wrapper, turn := turn }
  /-- A PUBLISH is accepted and handled. -/
  | publish (aHeader : UInt8) (data : Bytes) (publish : Publish) (t : Session)
      (hparse : mqttPacketPublish aHeader data = .ok publish)
      (hhandle : { s with
        heap := (allocString s.heap publish.topic).2
        received :=
          Function.update s.received s.heap.next (some publish) }.mqttProtocolHandlePublishes
            s.heap.next publish = some t) :
      Steps s (.publish aHeader data) (t.setTurn (.packet false))
  /-- A PUBREL is handled. -/
  | pubrel (msgId : ℕ) (t : Session) (hhandle : s.mqttProtocolHandlePubrels msgId = some t) :
      Steps s (.pubrel msgId) (t.setTurn (.packet false))
  /-- The head of the queue is offered. -/
  | redeliver (t : Session) (turn : Turn) (hsocket : s.client.hasSocket = true)
      (hcall : s.redeliver = some t) : Steps s .redeliver (t.setTurn turn)
  /-- The handle of the socket is not found any more. -/
  | notFound (hsocket : s.client.hasSocket = false) : Steps s .redeliver (s.setTurn .idle)
  /-- The connection is complete. -/
  | connack : Steps s .connack (s.completeConnection.setTurn .idle)

/-- **Every step** is one of these. -/
theorem step_cases {s s' : Session} {e : Incoming} (h : machine.step s e = some s') :
    Steps s e s' := by
  cases e with
  | connectSent =>
    simp only [machine, step] at h
    split_ifs at h
    obtain rfl := Option.some.inj h
    exact .quiet rfl _ _ _
  | publish aHeader data =>
    simp only [machine, step] at h
    split_ifs at h
    rcases hparse : mqttPacketPublish aHeader data with err | publish
    · simp [hparse] at h
    · simp only [hparse, Option.map_eq_some_iff] at h
      obtain ⟨t, hhandle, rfl⟩ := h
      exact .publish aHeader data publish t hparse hhandle
  | pubrel msgId =>
    simp only [machine, step] at h
    split_ifs at h
    obtain ⟨t, hhandle, rfl⟩ := Option.map_eq_some_iff.1 h
    exact .pubrel msgId t hhandle
  | packet connack =>
    simp only [machine, step] at h
    split_ifs at h
    obtain rfl := Option.some.inj h
    exact .quiet rfl _ _ _
  | redeliver =>
    simp only [machine, step] at h
    split at h
    · by_cases hsocket : s.client.hasSocket = true
      · rw [if_pos hsocket] at h
        obtain ⟨t, hcall, rfl⟩ := Option.map_eq_some_iff.1 h
        exact .redeliver t _ hsocket hcall
      · rw [if_neg hsocket] at h
        obtain rfl := Option.some.inj h
        exact .notFound (Bool.eq_false_iff.2 hsocket)
    · cases h
  | connack =>
    simp only [machine, step] at h
    split_ifs at h
    obtain rfl := Option.some.inj h
    exact .connack
  | receiveError =>
    simp only [machine, step] at h
    split at h
    · obtain rfl := Option.some.inj h
      split_ifs
      · exact .quiet rfl _ _ _
      · exact .quiet rfl _ _ _
    · cases h
  | closeOnly =>
    obtain rfl := Option.some.inj h
    exact .quiet rfl _ _ _
  | wrapper w =>
    obtain rfl := Option.some.inj h
    exact .quiet rfl _ _ _

end Session
