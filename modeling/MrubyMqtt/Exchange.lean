import MrubyMqtt.Lib.KeyedList
import MrubyMqtt.Lib.Machine

/-!
# The exchange behind QoS 1 and QoS 2

Both halves of the exchange are in MQTTProtocolClient.c: one for the messages a client sends
(`outboundMsgs`) and one for those it receives (`inboundMsgs`). Here the sending half is put
opposite the receiving half, with a channel in each direction. A channel keeps its order, but may
lose packets: what is written to a socket that is busy or broken is dropped, and what is under way
when a connection goes down does not arrive. After a reconnect the sender repeats what is still
outstanding (`MQTTProtocol_retry`), unless the session is a clean one.

A message of QoS 0 has no exchange and is left out. Three components of a `State` are its trace and
are read by nothing: `issued` lists the messages as they are sent, and the number of a message in it
names it everywhere else; `processed` are the calls of `Protocol_processPublication`; `completed`
are the messages whose exchange the sender has brought to its end.
-/

namespace Exchange

/-- `nextMessageType` of an outbound message. -/
inductive NextMessageType where
  /-- `PUBREC`. -/
  | pubrec
  /-- `PUBCOMP`. -/
  | pubcomp
deriving DecidableEq, Repr

/-- An outbound message (`Messages`). -/
structure OutMessage where
  /-- The message id. -/
  msgid : ℕ
  /-- The quality of service. -/
  qos : ℕ
  /-- What is to come next; not set, and not read, for QoS 1. -/
  nextMessageType : NextMessageType
  /-- The publication. -/
  publication : ℕ
deriving DecidableEq, Repr

/-- An inbound message of QoS 2 (`Messages`). -/
structure InMessage where
  /-- The message id. -/
  msgid : ℕ
  /-- The publication. -/
  publication : ℕ
deriving DecidableEq, Repr

/-- What goes from the sender to the receiver. -/
inductive Forward where
  /-- A PUBLISH. -/
  | publish (msgid qos : ℕ) (dup : Bool) (publication : ℕ)
  /-- A PUBREL. -/
  | pubrel (msgid : ℕ) (dup : Bool)
deriving DecidableEq, Repr

/-- What goes back. -/
inductive Backward where
  /-- A PUBACK. -/
  | puback (msgid : ℕ)
  /-- A PUBREC. -/
  | pubrec (msgid : ℕ)
  /-- A PUBCOMP. -/
  | pubcomp (msgid : ℕ)
deriving DecidableEq, Repr

/-- The message id of a packet. -/
def Forward.msgid : Forward → ℕ
  | .publish msgid _ _ _ => msgid
  | .pubrel msgid _ => msgid

/-- The message id of an answer. -/
def Backward.msgid : Backward → ℕ
  | .puback msgid => msgid
  | .pubrec msgid => msgid
  | .pubcomp msgid => msgid

section Msgid

variable (k qos n : ℕ) (dup : Bool)

@[simp] theorem Forward.msgid_publish : (Forward.publish k qos dup n).msgid = k := rfl

@[simp] theorem Forward.msgid_pubrel : (Forward.pubrel k dup).msgid = k := rfl

@[simp] theorem Backward.msgid_puback : (Backward.puback k).msgid = k := rfl

@[simp] theorem Backward.msgid_pubrec : (Backward.pubrec k).msgid = k := rfl

@[simp] theorem Backward.msgid_pubcomp : (Backward.pubcomp k).msgid = k := rfl

end Msgid

/-- The two ends, what is under way between them, and the traces. -/
structure State where
  /-- The sender's `outboundMsgs`. -/
  outboundMsgs : List OutMessage
  /-- The packets under way to the receiver. -/
  toReceiver : List Forward
  /-- The receiver's `inboundMsgs`. -/
  inboundMsgs : List InMessage
  /-- The packets under way to the sender. -/
  toSender : List Backward
  /-- Trace: message id and quality of service of every message, in order. -/
  issued : List (ℕ × ℕ)
  /-- Trace: the publications processed by the receiver, in order. -/
  processed : List ℕ
  /-- Trace: the publications taken off `outboundMsgs` by an acknowledgement, in order. -/
  completed : List ℕ
deriving DecidableEq, Repr

/-- A QoS 2 PUBLISH goes to the end of `inboundMsgs`, or in the place of one with the same message
id. -/
def storeInbound (m : InMessage) : List InMessage → List InMessage
  | [] => [m]
  | msg :: rest => if msg.msgid = m.msgid then m :: rest else msg :: storeInbound m rest

namespace State

/-- The message with this id, of those that are outstanding. -/
def outbound (s : State) (msgid : ℕ) : Option OutMessage :=
  KeyedList.lookup OutMessage.msgid msgid s.outboundMsgs

/-- The message with this id, of those that wait for their PUBREL. -/
def inbound (s : State) (msgid : ℕ) : Option InMessage :=
  KeyedList.lookup InMessage.msgid msgid s.inboundMsgs

/-! ### The sender -/

/-- `MQTTProtocol_startPublish`, for a message of QoS 1 or 2. -/
def startPublish (s : State) (msgid qos : ℕ) : State :=
  { s with
    outboundMsgs := s.outboundMsgs ++ [⟨msgid, qos, .pubrec, s.issued.length⟩]
    toReceiver := s.toReceiver ++ [.publish msgid qos false s.issued.length]
    issued := s.issued ++ [(msgid, qos)] }

/-- What `MQTTProtocol_retries` repeats for a message. -/
def retryPackets (m : OutMessage) : List Forward :=
  if m.qos = 1 ∨ m.qos = 2 ∧ m.nextMessageType = .pubrec then
    [.publish m.msgid m.qos true m.publication]
  else if m.qos ≠ 0 ∧ m.nextMessageType = .pubcomp then [.pubrel m.msgid false]
  else []

/-- The loop of `MQTTProtocol_retries`. It ends early where the socket does not take a packet as a
whole; `count` is the number of messages it comes to. -/
def retries (s : State) (count : ℕ) : State :=
  { s with toReceiver := s.toReceiver ++ (s.outboundMsgs.take count).flatMap retryPackets }

/-- `MQTTProtocol_handlePubacks`. -/
def handlePubacks (s : State) (msgid : ℕ) : State :=
  match s.outbound msgid with
  | none => s
  | some m =>
    if m.qos ≠ 1 then s
    else
      { s with
        outboundMsgs := KeyedList.remove OutMessage.msgid msgid s.outboundMsgs
        completed := s.completed ++ [m.publication] }

/-- `MQTTProtocol_handlePubrecs`. -/
def handlePubrecs (s : State) (msgid : ℕ) : State :=
  match s.outbound msgid with
  | none => s
  | some m =>
    if m.qos ≠ 2 then s
    else if m.nextMessageType ≠ .pubrec then s
    else
      { s with
        toReceiver := s.toReceiver ++ [.pubrel msgid false]
        outboundMsgs :=
          KeyedList.modify OutMessage.msgid msgid (fun m ↦ { m with nextMessageType := .pubcomp })
            s.outboundMsgs }

/-- `MQTTProtocol_handlePubcomps`. -/
def handlePubcomps (s : State) (msgid : ℕ) : State :=
  match s.outbound msgid with
  | none => s
  | some m =>
    if m.qos ≠ 2 then s
    else if m.nextMessageType ≠ .pubcomp then s
    else
      { s with
        outboundMsgs := KeyedList.remove OutMessage.msgid msgid s.outboundMsgs
        completed := s.completed ++ [m.publication] }

/-- The handler of a packet that comes back. -/
def handleBackward (s : State) : Backward → State
  | .puback msgid => s.handlePubacks msgid
  | .pubrec msgid => s.handlePubrecs msgid
  | .pubcomp msgid => s.handlePubcomps msgid

/-! ### The receiver -/

/-- `Protocol_processPublication`, as far as the exchange goes. -/
def processPublication (s : State) (publication : ℕ) : State :=
  { s with processed := s.processed ++ [publication] }

/-- `MQTTProtocol_handlePublishes`, for a message of QoS 1 or 2. -/
def handlePublishes (s : State) (msgid qos publication : ℕ) : State :=
  if qos = 1 then
    let s : State := { s with toSender := s.toSender ++ [.puback msgid] }
    s.processPublication publication
  else if qos = 2 then
    { s with
      inboundMsgs := storeInbound ⟨msgid, publication⟩ s.inboundMsgs
      toSender := s.toSender ++ [.pubrec msgid] }
  else s

/-- `MQTTProtocol_handlePubrels`. A PUBREL for a message that is not stored is answered only if it
is marked as a duplicate. -/
def handlePubrels (s : State) (msgid : ℕ) (dup : Bool) : State :=
  match s.inbound msgid with
  | none => if dup then { s with toSender := s.toSender ++ [.pubcomp msgid] } else s
  | some m =>
    let s : State := { s with toSender := s.toSender ++ [.pubcomp msgid] }
    let s := s.processPublication m.publication
    { s with inboundMsgs := KeyedList.remove InMessage.msgid msgid s.inboundMsgs }

/-- The handler of a packet that comes in. -/
def handleForward (s : State) : Forward → State
  | .publish msgid qos _ publication => s.handlePublishes msgid qos publication
  | .pubrel msgid dup => s.handlePubrels msgid dup

/-! ### Connections -/

/-- What is under way is lost with the connection. -/
def disconnect (s : State) : State := { s with toReceiver := [], toSender := [] }

/-- `MQTTAsync_cleanSession`, at both ends. -/
def cleanSession (s : State) : State := { s with outboundMsgs := [], inboundMsgs := [] }

end State

/-- What can happen. -/
inductive Event where
  /-- A message is sent. -/
  | publish (msgid qos : ℕ)
  /-- The sender repeats what is outstanding, up to some message. -/
  | retries (count : ℕ)
  /-- The receiver reads a packet. -/
  | receive
  /-- The sender reads an answer. -/
  | acknowledge
  /-- The next packet to the receiver is lost. -/
  | loseForward
  /-- The next answer is lost. -/
  | loseBackward
  /-- A new connection is made (`MQTTAsync_completeConnection`), which repeats what is outstanding
  or, if it is a clean session, forgets it. -/
  | reconnect (cleansession : Bool) (count : ℕ)
deriving DecidableEq, Repr

namespace State

/-- One step. -/
def step (s : State) : Event → Option State
  | .publish msgid qos => if qos = 1 ∨ qos = 2 then some (s.startPublish msgid qos) else none
  | .retries count => some (s.retries count)
  | .receive =>
    match s.toReceiver with
    | [] => none
    | p :: rest => some ({ s with toReceiver := rest }.handleForward p)
  | .acknowledge =>
    match s.toSender with
    | [] => none
    | p :: rest => some ({ s with toSender := rest }.handleBackward p)
  | .loseForward =>
    match s.toReceiver with
    | [] => none
    | _ :: rest => some { s with toReceiver := rest }
  | .loseBackward =>
    match s.toSender with
    | [] => none
    | _ :: rest => some { s with toSender := rest }
  | .reconnect cleansession count =>
    let s := s.disconnect
    some ((if cleansession then s.cleanSession else s).retries count)

end State

/-- The machine of one sender and one receiver. -/
def machine : Machine State Event where
  step := State.step

/-- Nothing has been sent. -/
def start : State := ⟨[], [], [], [], [], [], []⟩

end Exchange
