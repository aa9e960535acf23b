import Mathlib.Data.List.Basic
import Mathlib.Logic.Function.Basic
import MrubyMqtt.Packet
import MrubyMqtt.Utf8

/-!
# Paho's asynchronous client

The connection life cycle of the vendored library: the handles it has created, the command queue
they share, and what the send and receive threads do to them. Clients are numbered in the order
of their creation; none is ever destroyed, since the wrapper never asks for it.

One constructor of `PahoEvent` stands for one stretch of code that a Paho thread runs under its
mutex, with what the network decides as arguments. A step ends with at most one call into the
application, named by the `Callback` it goes to: the wrapper registers the same functions with
every client, so the function pointers are resolved here.

What the step does not keep: sockets (a client has one exactly while it is connecting or
connected, `Clients.hasSocket`), SSL, persistence and wills, none of which the wrapper asks for,
and the messages in flight, which `MrubyMqtt.Delivery` models. A disconnect command carries timeout
0, so `MQTTAsync_checkDisconnect` closes the session at once and the state `-2` is never at rest.
-/

open Bytes

/-- The functions of the wrapper that Paho calls. -/
inductive Callback where
  /-- `connectionLost` of `MQTTAsync_setCallbacks`. -/
  | mqttConnlost
  /-- `messageArrived` of `MQTTAsync_setCallbacks`. -/
  | mqttMsgarrvd
  /-- `onSuccess` of a CONNECT. -/
  | mqttOnConnect
  /-- `onFailure` of a CONNECT. -/
  | mqttOnConnectFailure
  /-- `onSuccess` of a DISCONNECT. -/
  | mqttOnDisconnect
  /-- `onSuccess` of a SUBSCRIBE. -/
  | mqttOnSubscribe
  /-- `onFailure` of a SUBSCRIBE. -/
  | mqttOnSubscribeFailure
  /-- `onSuccess` of a PUBLISH, which has no `onFailure`. -/
  | mqttOnPublish
deriving DecidableEq, Repr

/-- The `details` of a command, one form for each command type the wrapper uses. -/
inductive Details where
  /-- CONNECT, with the MQTT version tried last (0 before the first try). -/
  | connect (mqttVersion : ℕ)
  /-- DISCONNECT; `internal` ones end in `connectionLost`. -/
  | disconnect (internal : Bool)
  /-- PUBLISH. -/
  | publish (destinationName payload : Bytes) (qos retained : ℕ)
  /-- SUBSCRIBE to one topic. -/
  | subscribe (topic : Bytes) (qos : ℕ)
deriving DecidableEq, Repr

/-- A command in the queue. -/
structure Command where
  /-- The client it is for. -/
  client : ℕ
  /-- Its message id, 0 if it has none. -/
  token : ℕ
  /-- What is asked. -/
  details : Details
deriving DecidableEq, Repr

namespace Command

/-- The command is a CONNECT. -/
def isConnect (cmd : Command) : Bool :=
  match cmd.details with
  | .connect _ => true
  | _ => false

/-- The command is a DISCONNECT. -/
def isDisconnect (cmd : Command) : Bool :=
  match cmd.details with
  | .disconnect _ => true
  | _ => false

/-- The command goes to the head of the queue: a CONNECT, or a DISCONNECT that Paho made. -/
def goesFirst (cmd : Command) : Bool :=
  match cmd.details with
  | .connect _ => true
  | .disconnect internal => internal
  | _ => false

/-- Two commands have the same type, for the types that go to the head. -/
def sameType (cmd cmd' : Command) : Bool :=
  cmd.isConnect && cmd'.isConnect || cmd.isDisconnect && cmd'.isDisconnect

end Command

/-- The connection part of a `Clients` record. -/
structure Clients where
  /-- The MQTT client id. -/
  clientID : Bytes
  /-- Whether the client is connected. -/
  connected : Bool
  /-- 0: idle or connected, 1: TCP connect pending, 3: CONNECT sent. -/
  connectState : ℕ
  /-- The clean session flag of the CONNECT. -/
  cleansession : Bool
  /-- The keep-alive interval in seconds. -/
  keepAliveInterval : ℤ
  /-- The message id assigned last. -/
  msgID : ℕ
deriving DecidableEq, Repr

/-- The client has an open socket. -/
def Clients.hasSocket (c : Clients) : Bool := c.connected || c.connectState ≠ 0

/-- An `MQTTAsyncs` record. -/
structure MqttAsyncs where
  /-- Where to connect, without the `tcp://` prefix. -/
  serverURI : Bytes
  /-- The protocol client. -/
  c : Clients
  /-- `connect.details.conn.MQTTVersion`: the version of the last CONNECT on the network. -/
  connectVersion : ℕ
  /-- Whether a partial write is pending. -/
  pendingWrite : Bool
  /-- The commands waiting for a response. -/
  responses : List Command
deriving DecidableEq, Repr

/-- The library's state: its handles and its command queue. -/
structure Paho where
  /-- How many handles there are. -/
  count : ℕ
  /-- The handles, by number. -/
  handle : ℕ → MqttAsyncs
  /-- The command queue. -/
  commands : List Command

/-- The library before its first handle. -/
def Paho.init : Paho where
  count := 0
  handle _ := ⟨[], ⟨[], false, 0, false, 0, 0⟩, 0, false, []⟩
  commands := []

/-- `MAX_MSG_ID`. -/
def maxMsgId : ℕ := 65535

namespace Paho

/-- The protocol client of a handle. -/
def client (p : Paho) (h : ℕ) : Clients := (p.handle h).c

/-- Replaces the record of a handle. -/
def setHandle (p : Paho) (h : ℕ) (m : MqttAsyncs) : Paho :=
  { p with handle := Function.update p.handle h m }

/-- Replaces the protocol client of a handle. -/
def setClient (p : Paho) (h : ℕ) (c : Clients) : Paho :=
  p.setHandle h { p.handle h with c := c }

/-! ### Commands -/

/-- `MQTTAsync_addCommand`: a CONNECT or an internal DISCONNECT goes to the head of the queue,
unless the head already is one for that client; anything else to the end. -/
def mqttAsyncAddCommand (p : Paho) (command : Command) : Paho :=
  if command.goesFirst then
    match p.commands.head? with
    | some head =>
      if head.client = command.client && head.sameType command then p
      else { p with commands := command :: p.commands }
    | none => { p with commands := command :: p.commands }
  else { p with commands := p.commands ++ [command] }

/-- `MQTTAsync_disconnect1`: refused for a client that is not connected. -/
def mqttAsyncDisconnect1 (p : Paho) (h : ℕ) (internal : Bool) : Except ℤ Paho :=
  if (p.client h).connected then .ok (p.mqttAsyncAddCommand ⟨h, 0, .disconnect internal⟩)
  else .error (-3)

/-- `MQTTAsync_disconnect_internal`, whose return code no caller looks at. -/
def mqttAsyncDisconnectInternal (p : Paho) (h : ℕ) : Paho :=
  match p.mqttAsyncDisconnect1 h true with
  | .ok p' => p'
  | .error _ => p

/-- `MQTTAsync_removeResponsesAndCommands`. -/
def mqttAsyncRemoveResponsesAndCommands (p : Paho) (h : ℕ) : Paho :=
  { p.setHandle h { p.handle h with responses := [] } with
    commands := p.commands.filter fun cmd ↦ cmd.client ≠ h }

/-- `MQTTAsync_cleanSession`, as far as connections go. -/
def mqttAsyncCleanSession (p : Paho) (h : ℕ) : Paho :=
  (p.setClient h { p.client h with msgID := 0 }).mqttAsyncRemoveResponsesAndCommands h

/-- `MQTTAsync_closeOnly`. -/
def mqttAsyncCloseOnly (p : Paho) (h : ℕ) : Paho :=
  p.setClient h { p.client h with connected := false, connectState := 0 }

/-- `MQTTAsync_closeSession`. -/
def mqttAsyncCloseSession (p : Paho) (h : ℕ) : Paho :=
  if (p.client h).cleansession then (p.mqttAsyncCloseOnly h).mqttAsyncCleanSession h
  else p.mqttAsyncCloseOnly h

/-- `MQTTAsync_checkConn`: a connect that was tried with version 3.1.1 is tried again with 3.1. -/
def mqttAsyncCheckConn (mqttVersion : ℕ) : Bool := mqttVersion == 4

/-- What every place does where a CONNECT under way has failed: put it back in the queue if there is
more to try, else close the session and call `onFailure`. -/
def connectFailed (p : Paho) (h : ℕ) : Paho × Option Callback :=
  let version := (p.handle h).connectVersion
  if mqttAsyncCheckConn version then
    ((p.mqttAsyncCloseOnly h).mqttAsyncAddCommand ⟨h, 0, .connect version⟩, none)
  else (p.mqttAsyncCloseSession h, some .mqttOnConnectFailure)

/-! ### What the application asks -/

/-- `URI_TCP`, the prefix `tcp://`. -/
def uriTcp : Bytes := [0x74, 0x63, 0x70, 0x3A, 0x2F, 0x2F]

/-- `MQTTAsync_create` and `MQTTAsync_setCallbacks`, which take the mutex: a new handle. -/
def mqttAsyncCreate (p : Paho) (serverURI clientId : Bytes) : ℕ × Paho :=
  (p.count,
    { p.setHandle p.count
        { serverURI :=
            if uriTcp.isPrefixOf serverURI then serverURI.drop uriTcp.length else serverURI
          c := ⟨clientId, false, 0, false, 0, 0⟩
          connectVersion := 0
          pendingWrite := false
          responses := [] } with
      count := p.count + 1 })

/-- `MQTTAsync_connect`: the options are stored in the client and a CONNECT is queued. -/
def mqttAsyncConnect (p : Paho) (h : ℕ) (keepAliveInterval : ℤ) (cleansession : Bool) : Paho :=
  (p.setClient h
    { p.client h with
      keepAliveInterval := keepAliveInterval
      cleansession := cleansession }).mqttAsyncAddCommand ⟨h, 0, .connect 0⟩

/-- The message id is in use by a queued command or one that waits for its response. -/
def msgIdInUse (p : Paho) (h msgid : ℕ) : Bool :=
  p.commands.any (fun cmd ↦ cmd.token == msgid) ||
    (p.handle h).responses.any fun cmd ↦ cmd.token == msgid

/-- The message id after `msgid`. -/
def nextMsgId (msgid : ℕ) : ℕ := if msgid = maxMsgId then 1 else msgid + 1

/-- The loop of `MQTTAsync_assignMsgId`: 0 when it is back at `start` without having found a free
id, `none` when it never ends. -/
def assignMsgIdLoop (p : Paho) (h start : ℕ) : ℕ → ℕ → Option ℕ
  | 0, _ => none
  | fuel + 1, msgid =>
    if p.msgIdInUse h msgid then
      if nextMsgId msgid = start then some 0 else assignMsgIdLoop p h start fuel (nextMsgId msgid)
    else some msgid

/-- `MQTTAsync_assignMsgId`. Each id comes up once in `maxMsgId` turns, so after that many the loop
repeats itself; that happens when it starts from 0, which it never reaches again. -/
def mqttAsyncAssignMsgId (p : Paho) (h : ℕ) : Option (ℕ × Paho) :=
  let start := (p.client h).msgID
  (p.assignMsgIdLoop h start maxMsgId (nextMsgId start)).map fun msgid ↦
    (msgid, if msgid ≠ 0 then p.setClient h { p.client h with msgID := msgid } else p)

/-- An application call that comes back, with Paho's return code, or does not: the process is
stopped by a bad memory access, or the call never returns. -/
inductive Called where
  /-- Return code 0 and the state afterwards. -/
  | success (p : Paho)
  /-- Any other return code; nothing has been queued. -/
  | refused (rc : ℤ)
  /-- The call does not come back. -/
  | stuck

/-- `mymalloc` passes the size on through an `int`; beyond that nothing usable comes back. -/
def mallocable (size : ℤ) : Bool := 0 ≤ size && size + 16 ≤ 2 ^ 31

/-- `MQTTAsync_send`. -/
def mqttAsyncSend (p : Paho) (h : ℕ) (destinationName : Bytes) (payloadlen : ℤ) (payload : Bytes)
    (qos : ℤ) (retained : ℕ) : Called :=
  if !(p.client h).connected then .refused (-3)
  else if !utf8ValidateString destinationName then .refused (-5)
  else if qos < 0 || qos > 2 then .refused (-9)
  else
    match if qos > 0 then p.mqttAsyncAssignMsgId h else some (0, p) with
    | none => .stuck
    | some (msgid, p') =>
      if qos > 0 && msgid = 0 then .refused (-10)
      else if mallocable (destinationName.length + 1) && mallocable payloadlen then
        .success (p'.mqttAsyncAddCommand
          ⟨h, msgid, .publish destinationName (payload.take payloadlen.toNat) qos.toNat retained⟩)
      else .stuck

/-- `MQTTAsync_subscribe`. -/
def mqttAsyncSubscribe (p : Paho) (h : ℕ) (topic : Bytes) (qos : ℤ) : Called :=
  if !(p.client h).connected then .refused (-3)
  else if !utf8ValidateString topic then .refused (-5)
  else if qos < 0 || qos > 2 then .refused (-9)
  else
    match p.mqttAsyncAssignMsgId h with
    | none => .stuck
    | some (msgid, p') =>
      if msgid = 0 then .refused (-10)
      else if mallocable (topic.length + 1) then
        .success (p'.mqttAsyncAddCommand ⟨h, msgid, .subscribe topic qos.toNat⟩)
      else .stuck

/-! ### What the send thread does -/

/-- How `MQTTProtocol_connect` comes out. -/
inductive Tcp where
  /-- The TCP connect is pending. -/
  | inProgress
  /-- TCP connected at once and the CONNECT packet is written. -/
  | sent
  /-- No connection. -/
  | failed
deriving DecidableEq, Repr

/-- How writing a packet comes out. -/
inductive Write where
  /-- `TCPSOCKET_COMPLETE`. -/
  | complete
  /-- `TCPSOCKET_INTERRUPTED`: the socket took a part of it. -/
  | interrupted
  /-- `SOCKET_ERROR`. -/
  | error
deriving DecidableEq, Repr

/-- The search of `MQTTAsync_processCommand`: the first command that may run. Once a command of a
client is passed over, all later ones of that client are too. `canSend` says for which clients the
socket has no pending writes and message ids are left. -/
def nextCommand (p : Paho) (canSend : ℕ → Bool) : List ℕ → List Command → Option Command
  | _, [] => none
  | ignoredClients, cmd :: rest =>
    if cmd.client ∈ ignoredClients then nextCommand p canSend ignoredClients rest
    else if cmd.isConnect || cmd.isDisconnect || ((p.client cmd.client).connected &&
        (p.client cmd.client).connectState = 0 && canSend cmd.client) then some cmd
    else nextCommand p canSend (cmd.client :: ignoredClients) rest

/-- A CONNECT that has been taken from the queue. -/
def processConnect (p : Paho) (h version : ℕ) (tcp : Tcp) : Paho × Option Callback :=
  let m := p.handle h
  if m.c.connectState ≠ 0 || m.c.connected then
    (p.setHandle h { m with connectVersion := version }, none)
  else
    let version := if version = 0 then 4 else if version = 4 then 3 else version
    match tcp with
    | .inProgress =>
      (p.setHandle h { m with c := { m.c with connectState := 1 }, connectVersion := version },
        none)
    | .sent =>
      (p.setHandle h { m with c := { m.c with connectState := 3 }, connectVersion := version },
        none)
    | .failed =>
      if mqttAsyncCheckConn version then (p.mqttAsyncAddCommand ⟨h, 0, .connect version⟩, none)
      else (p, some .mqttOnConnectFailure)

/-- A DISCONNECT that has been taken from the queue, with `MQTTAsync_checkDisconnect`. -/
def processDisconnect (p : Paho) (h : ℕ) (internal : Bool) : Paho × Option Callback :=
  let c := p.client h
  if c.connectState ≠ 0 || c.connected then
    (p.mqttAsyncCloseSession h,
      if internal then if c.connected then some .mqttConnlost else none
      else some .mqttOnDisconnect)
  else (p, none)

/-- A PUBLISH or SUBSCRIBE that has been taken from the queue and written. -/
def processPacket (p : Paho) (command : Command) (write : Write) : Paho × Option Callback :=
  let h := command.client
  let m := p.handle h
  let waiting := p.setHandle h { m with responses := m.responses ++ [command] }
  match command.details, write with
  | .publish _ _ 0 _, .complete => (p, some .mqttOnPublish)
  | .publish _ _ 0 _, .interrupted =>
    (p.setHandle h { m with pendingWrite := true, responses := m.responses ++ [command] }, none)
  | .publish _ _ 0 _, .error => (p.setHandle h { m with pendingWrite := true }, none)
  | .publish _ _ _ _, .error => (p.mqttAsyncDisconnectInternal h, none)
  | .subscribe _ _, .error => (p.mqttAsyncDisconnectInternal h, some .mqttOnSubscribeFailure)
  | _, _ => (waiting, none)

/-- `MQTTAsync_processCommand`: the client the step is about and the call it ends with. -/
def mqttAsyncProcessCommand (p : Paho) (canSend : ℕ → Bool) (tcp : Tcp) (write : Write) :
    Option (Paho × ℕ × Option Callback) :=
  (p.nextCommand canSend [] p.commands).map fun command ↦
    let detached := { p with commands := p.commands.erase command }
    let h := command.client
    let done := match command.details with
      | .connect version => detached.processConnect h version tcp
      | .disconnect internal => detached.processDisconnect h internal
      | _ => detached.processPacket command write
    (done.1, h, done.2)

/-! ### What the receive thread does -/

/-- `MQTTAsync_completeConnection` and what `MQTTAsync_receiveThread` does with its result. Only a
client that waits for its CONNACK can complete; for any other the CONNACK counts as a failure. -/
def receiveConnack (p : Paho) (h rc : ℕ) : Paho × Option Callback :=
  let c := p.client h
  if c.connectState = 3 && rc = 0 then
    let p' := p.setClient h { c with connected := true, connectState := 0 }
    (if c.cleansession then p'.mqttAsyncCleanSession h else p', some .mqttOnConnect)
  else p.connectFailed h

/-- A response is taken off the list by its message id, and its callback is called. -/
def takeResponse (p : Paho) (h msgId : ℕ) (callback : Command → Option Callback) :
    Paho × Option Callback :=
  let m := p.handle h
  match m.responses.find? fun cmd ↦ cmd.token == msgId with
  | none => (p, none)
  | some command =>
    (p.setHandle h { m with responses := m.responses.erase command }, callback command)

/-- `onSuccess` of a command that waits for a response. -/
def onSuccess (command : Command) : Option Callback :=
  match command.details with
  | .publish _ _ _ _ => some .mqttOnPublish
  | .subscribe _ _ => some .mqttOnSubscribe
  | _ => none

/-- `onFailure` of a command that waits for a response. -/
def onFailure (command : Command) : Option Callback :=
  match command.details with
  | .subscribe _ _ => some .mqttOnSubscribeFailure
  | _ => none

end Paho

/-- What Paho's threads can do, with what the network decides. As long as the TCP connect of a client
is pending, no packet is read for it and its queue of messages is not looked at. -/
inductive PahoEvent where
  /-- One turn of `MQTTAsync_processCommand`. -/
  | processCommand (canSend : ℕ → Bool) (tcp : Paho.Tcp) (write : Paho.Write)
  /-- `MQTTAsync_checkTimeouts` finds a connect that has timed out. -/
  | connectTimeout (h : ℕ)
  /-- `MQTTAsync_connecting`: the pending TCP connect completes and CONNECT is written, or not. -/
  | connecting (h : ℕ) (ok : Bool)
  /-- `MQTTAsync_cycle` reads an error while it waits for the CONNACK. -/
  | cycleError (h : ℕ)
  /-- `MQTTAsync_receiveThread` handles an error that `MQTTAsync_cycle` reported. -/
  | receiveError (h : ℕ)
  /-- A CONNACK is read. -/
  | connack (h rc : ℕ)
  /-- A SUBACK is read; one granted quality of service, or a refusal. -/
  | suback (h msgId : ℕ) (granted : Bool)
  /-- A PUBACK or PUBCOMP is read. -/
  | puback (h msgId : ℕ)
  /-- A message is passed to the application, directly or from the queue. -/
  | messageArrived (h : ℕ)
  /-- `MQTTAsync_writeComplete`: a partial write has been completed. The response taken off the list
  is the first one, whichever command it belongs to. -/
  | writeComplete (h : ℕ)
  /-- `MQTTProtocol_closeSession`, for a missing ping response or a failed retry. -/
  | closeSession (h : ℕ)

namespace Paho

/-- One step of Paho's threads: the state afterwards, the client it is about, and the call into the
application that it ends with. `none` where the event cannot happen. -/
def step (p : Paho) : PahoEvent → Option (Paho × ℕ × Option Callback)
  | .processCommand canSend tcp write => p.mqttAsyncProcessCommand canSend tcp write
  | .connectTimeout h =>
    if (p.client h).connectState ≠ 0 then
      some ((p.connectFailed h).1, h, (p.connectFailed h).2)
    else none
  | .connecting h ok =>
    if (p.client h).connectState = 1 then
      if ok then some (p.setClient h { p.client h with connectState := 3 }, h, none)
      else some ((p.connectFailed h).1, h, (p.connectFailed h).2)
    else none
  | .cycleError h =>
    if (p.client h).connectState = 3 then
      some ((p.connectFailed h).1, h, (p.connectFailed h).2)
    else none
  | .receiveError h =>
    if (p.client h).hasSocket then
      some (if (p.client h).connected then p.mqttAsyncDisconnectInternal h
        else p.mqttAsyncCloseOnly h, h, none)
    else none
  | .connack h rc =>
    if (p.client h).hasSocket && (p.client h).connectState ≠ 1 then
      some ((p.receiveConnack h rc).1, h, (p.receiveConnack h rc).2)
    else none
  | .suback h msgId granted =>
    if (p.client h).hasSocket && (p.client h).connectState ≠ 1 then
      let done := p.takeResponse h msgId (if granted then onSuccess else onFailure)
      some (done.1, h, done.2)
    else none
  | .puback h msgId =>
    if (p.client h).hasSocket && (p.client h).connectState ≠ 1 then
      let done := p.takeResponse h msgId onSuccess
      some (done.1, h, done.2)
    else none
  | .messageArrived h =>
    if (p.client h).hasSocket && (p.client h).connectState ≠ 1 then some (p, h, some .mqttMsgarrvd)
    else none
  | .writeComplete h =>
    let m := p.handle h
    if m.c.hasSocket && m.pendingWrite then
      match m.responses with
      | [] => none
      | _ :: rest =>
        some (p.setHandle h { m with pendingWrite := false, responses := rest }, h,
          some .mqttOnPublish)
    else none
  | .closeSession h =>
    if (p.client h).connected then some (p.mqttAsyncDisconnectInternal h, h, none) else none

end Paho
