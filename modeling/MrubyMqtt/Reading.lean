import MrubyMqtt.Lib.Framing
import MrubyMqtt.Lib.KeyedList
import MrubyMqtt.Lib.Machine
import MrubyMqtt.Packet

/-!
# Reading packets off non-blocking sockets

`MQTTPacket_Factory` as it runs: byte by byte through `Socket_getch` for the fixed header, then
`Socket_getdata` for the rest, from a socket that may have less to give than is asked for. What was
read of a packet that is not complete is kept by `SocketBuffer`: in a queue of the socket's own if
an earlier call was interrupted, else in the one *default queue* that all sockets share. The next
call starts the packet again, and gets the kept header bytes first.

What `recv` gives is data of the model: a call of the factory comes with the list of the answers
that its calls of `recv` get, so nothing is assumed about how the peer's bytes are cut into pieces.
`mqttPacketFactory` of `MrubyMqtt.Packet` is the one-shot reader the machine is compared with.
-/

open Bytes

namespace Reading

/-! ### SocketBuffer -/

/-- A `socket_queue`: the header bytes and the data read of a packet that is not complete. -/
structure SocketQueue where
  /-- The socket, 0 for none. -/
  socket : ℕ
  /-- The next header byte to be given out. -/
  index : ℕ
  /-- The number of header bytes. -/
  headerlen : ℕ
  /-- Header plus up to 4 length bytes. -/
  fixedHeader : Vector UInt8 5
  /-- Total length of the buffer. -/
  buflen : ℕ
  /-- Current length of data in `buf`. -/
  datalen : ℕ
  /-- The buffer, as far as it has been written. -/
  buf : Bytes

/-- The statics of SocketBuffer.c that reading uses. Sockets are looked up by number; only queues
that belong to no socket share one, the number 0. -/
structure SocketBuffer where
  /-- `def_queue`. -/
  defQueue : SocketQueue
  /-- `queues`. -/
  queues : List SocketQueue

/-- What a call that may be interrupted comes back with. -/
inductive Outcome (α : Type*) where
  /-- `TCPSOCKET_COMPLETE`, with the result. -/
  | complete (result : α)
  /-- `TCPSOCKET_INTERRUPTED`. -/
  | interrupted
  /-- `SOCKET_ERROR`. -/
  | error

namespace SocketQueue

/-- The assignment in `SocketBuffer_complete`, `SocketBuffer_cleanup`. -/
def reset (queue : SocketQueue) : SocketQueue :=
  { queue with socket := 0, index := 0, headerlen := 0, datalen := 0 }

/-- The default queue is taken by a socket. -/
def claim (socket : ℕ) (queue : SocketQueue) : SocketQueue :=
  { queue with socket := socket, index := 0, datalen := 0 }

/-- Gives a header byte out. -/
def getChar (queue : SocketQueue) : SocketQueue := { queue with index := queue.index + 1 }

/-- Stores a header byte. -/
def putChar (c : UInt8) (queue : SocketQueue) : SocketQueue :=
  { queue with
    fixedHeader := queue.fixedHeader.setIfInBounds queue.index c
    index := queue.index + 1
    headerlen := queue.index + 1 }

/-- Stops in the middle of a packet. -/
def stop (actualLen : ℕ) (queue : SocketQueue) : SocketQueue :=
  { queue with index := 0, datalen := actualLen }

/-- Makes room for `bytes` bytes; what is stored already is kept. -/
def grow (bytes : ℕ) (queue : SocketQueue) : SocketQueue :=
  if bytes > queue.buflen then
    { queue with
      buf := if queue.datalen > 0 then queue.buf.take queue.datalen else queue.buf
      buflen := bytes }
  else queue

/-- What `recv` does to the buffer: `data` is written from `offset` on. -/
def fill (offset : ℕ) (data : Bytes) (queue : SocketQueue) : SocketQueue :=
  { queue with
    buf := queue.buf.take offset ++ data ++ queue.buf.drop (offset + data.length) }

end SocketQueue

namespace SocketBuffer

/-- `SocketBuffer_newDefQ`: what `malloc` gives, with four of its fields set. -/
def newDefQ (malloc : SocketQueue) : SocketQueue :=
  { malloc with socket := 0, index := 0, buflen := 0, datalen := 0 }

/-- `SocketBuffer_initialize`. -/
def initial (malloc : SocketQueue) : SocketBuffer := ⟨newDefQ malloc, []⟩

/-- `ListFindItem(queues, &socket, socketcompare)`. -/
def find (buffers : SocketBuffer) (socket : ℕ) : Option SocketQueue :=
  KeyedList.lookup SocketQueue.socket socket buffers.queues

/-- A change of the queue that was found. -/
def modify (buffers : SocketBuffer) (socket : ℕ) (f : SocketQueue → SocketQueue) : SocketBuffer :=
  { buffers with queues := KeyedList.modify SocketQueue.socket socket f buffers.queues }

/-- `SocketBuffer_cleanup`. -/
def cleanup (buffers : SocketBuffer) (socket : ℕ) : SocketBuffer where
  queues := KeyedList.remove SocketQueue.socket socket buffers.queues
  defQueue :=
    if buffers.defQueue.socket = socket then buffers.defQueue.reset else buffers.defQueue

/-- `SocketBuffer_getQueuedData`: how much of the data is there, and the buffers with room for
`bytes`. -/
def getQueuedData (buffers : SocketBuffer) (socket bytes : ℕ) : ℕ × SocketBuffer :=
  match buffers.find socket with
  | some queue => (queue.datalen, buffers.modify socket (SocketQueue.grow bytes))
  | none => (0, { buffers with defQueue := buffers.defQueue.grow bytes })

/-- `SocketBuffer_getQueuedChar`; there is no queued character if it is interrupted. -/
def getQueuedChar (buffers : SocketBuffer) (socket : ℕ) : Outcome UInt8 × SocketBuffer :=
  match buffers.find socket with
  | none => (.interrupted, buffers)
  | some queue =>
    if queue.index < queue.headerlen then
      (.complete (queue.fixedHeader.toList.getD queue.index 0),
        buffers.modify socket SocketQueue.getChar)
    else if queue.index > 4 then (.error, buffers)
    else (.interrupted, buffers)

/-- `SocketBuffer_interrupted`: the default queue becomes the socket's own, if it has none. -/
def interrupted (malloc : SocketQueue) (buffers : SocketBuffer) (socket actualLen : ℕ) :
    SocketBuffer :=
  match buffers.find socket with
  | some _ => buffers.modify socket (SocketQueue.stop actualLen)
  | none => ⟨newDefQ malloc, buffers.queues ++ [buffers.defQueue.stop actualLen]⟩

/-- `SocketBuffer_complete`: the socket's own queue, if it has one, becomes the default queue. -/
def complete (buffers : SocketBuffer) (socket : ℕ) : SocketBuffer :=
  match buffers.find socket with
  | some queue =>
    ⟨queue.reset, KeyedList.remove SocketQueue.socket socket buffers.queues⟩
  | none => { buffers with defQueue := buffers.defQueue.reset }

/-- `SocketBuffer_queueChar`. A default queue that belongs to another socket does not take the
character. -/
def queueChar (buffers : SocketBuffer) (socket : ℕ) (c : UInt8) : SocketBuffer :=
  match buffers.find socket with
  | some curq =>
    if curq.index > 4 then buffers else buffers.modify socket (SocketQueue.putChar c)
  | none =>
    let defQueue :=
      if buffers.defQueue.socket = 0 then buffers.defQueue.claim socket else buffers.defQueue
    if defQueue.socket ≠ socket ∨ defQueue.index > 4 then { buffers with defQueue := defQueue }
    else { buffers with defQueue := defQueue.putChar c }

end SocketBuffer

/-! ### The socket -/

/-- What a call of `recv` gives. -/
inductive Recv where
  /-- Some of the bytes that were asked for. -/
  | data (bytes : Bytes)
  /-- `EWOULDBLOCK` or `EAGAIN`. -/
  | wouldBlock
  /-- The peer has closed the connection. -/
  | closed
  /-- Another error. -/
  | failed
deriving DecidableEq, Repr

namespace Recv

/-- The bytes an answer brings. -/
def bytes : Recv → Bytes
  | data bytes => bytes
  | _ => []

/-- The answers `recv` can give when it is asked for `request` bytes. -/
def Answers (request : ℕ) : Recv → Prop
  | data bytes => 0 < bytes.length ∧ bytes.length ≤ request
  | _ => True

instance (request : ℕ) (answer : Recv) : Decidable (answer.Answers request) := by
  cases answer
  · exact inferInstanceAs (Decidable (_ ∧ _))
  all_goals exact inferInstanceAs (Decidable True)

end Recv

/-- The buffers, and the answers that the calls of `recv` still to come will get. -/
structure Net where
  /-- The statics of SocketBuffer.c. -/
  buffers : SocketBuffer
  /-- What the network has to say. -/
  answers : List Recv
  /-- Trace: a `recv` has written behind the end of its buffer. -/
  overrun : Bool

/-- A number of bytes as `recv` takes it: a `size_t`. -/
def sizeT (request : ℤ) : ℕ := (request % 2 ^ 64).toNat

/-- `recv`: the next answer; `none` if the network cannot give it to this request. -/
def recv (net : Net) (request : ℕ) : Option (Recv × Net) :=
  match net.answers with
  | [] => none
  | answer :: answers =>
    if answer.Answers request then some (answer, { net with answers := answers }) else none

/-- `Socket_getch`. -/
def socketGetch (malloc : SocketQueue) (socket : ℕ) (net : Net) :
    Option (Outcome UInt8 × Net) :=
  match net.buffers.getQueuedChar socket with
  | (.complete c, buffers) => some (.complete c, { net with buffers := buffers })
  | (.error, buffers) => some (.error, { net with buffers := buffers })
  | (.interrupted, _) =>
    match recv net 1 with
    | none => none
    | some (.wouldBlock, net) =>
      some (.interrupted, { net with buffers := net.buffers.interrupted malloc socket 0 })
    | some (.data (c :: _), net) =>
      some (.complete c, { net with buffers := net.buffers.queueChar socket c })
    | some (_, net) => some (.error, net)

/-- The buffer `recv` writes to. -/
def bufferOf (buffers : SocketBuffer) (socket : ℕ) : SocketQueue :=
  (buffers.find socket).getD buffers.defQueue

/-- `recv` into that buffer, from `offset` on. -/
def store (socket offset : ℕ) (data : Bytes) (net : Net) : Net where
  answers := net.answers
  overrun := net.overrun ||
    decide ((bufferOf net.buffers socket).buflen < offset + data.length)
  buffers :=
    match net.buffers.find socket with
    | some _ => net.buffers.modify socket (SocketQueue.fill offset data)
    | none => { net.buffers with defQueue := net.buffers.defQueue.fill offset data }

/-- The end of `Socket_getdata`, when `recv` has written `data` or would have blocked: the buffer
and `actual_len`. -/
def afterRecv (malloc : SocketQueue) (socket bytes actualLen : ℕ) (data : Bytes) (net : Net) :
    (Bytes × ℕ) × Net :=
  let net := store socket actualLen data net
  let actualLen := actualLen + data.length
  let buf := (bufferOf net.buffers socket).buf
  if actualLen = bytes then
    ((buf, actualLen), { net with buffers := net.buffers.complete socket })
  else
    ((buf, actualLen), { net with buffers := net.buffers.interrupted malloc socket actualLen })

/-- `Socket_getdata`: the buffer, NULL on an error, with `actual_len`. -/
def socketGetdata (malloc : SocketQueue) (socket bytes : ℕ) (net : Net) :
    Option (Option (Bytes × ℕ) × Net) :=
  if bytes = 0 then
    let buffers := net.buffers.complete socket
    some (some (buffers.defQueue.buf, 0), { net with buffers := buffers })
  else
    let (actualLen, buffers) := net.buffers.getQueuedData socket bytes
    match recv { net with buffers := buffers } (sizeT (bytes - actualLen)) with
    | none => none
    | some (.closed, net) => some (none, net)
    | some (.failed, net) => some (none, net)
    | some (.wouldBlock, net) =>
      let (result, net) := afterRecv malloc socket bytes actualLen [] net
      some (some result, net)
    | some (.data data, net) =>
      let (result, net) := afterRecv malloc socket bytes actualLen data net
      some (some result, net)

/-! ### MQTTPacket -/

/-- The loop of `MQTTPacket_decode`; `len` counts the bytes that may still come. -/
def decodeLoop (malloc : SocketQueue) (socket : ℕ) :
    (len value multiplier : ℕ) → Net → Option (Outcome ℕ × Net)
  | 0, _, _, net => some (.error, net)
  | len + 1, value, multiplier, net =>
    match socketGetch malloc socket net with
    | none => none
    | some (.interrupted, net) => some (.interrupted, net)
    | some (.error, net) => some (.error, net)
    | some (.complete c, net) =>
      let value := value + c.toNat % 128 * multiplier
      if c.toNat < 128 then some (.complete value, net)
      else decodeLoop malloc socket len value (multiplier * 128) net

/-- `MQTTPacket_decode`. -/
def decode (malloc : SocketQueue) (socket : ℕ) (net : Net) : Option (Outcome ℕ × Net) :=
  decodeLoop malloc socket maxNoOfRemainingLengthBytes 0 1 net

/-- `MQTTPacket_Factory` from the second byte on, up to the call of the function for the packet's
type. -/
def factoryRest (malloc : SocketQueue) (socket : ℕ) (header : UInt8) (net : Net) :
    Option (Outcome (UInt8 × Bytes) × Net) :=
  match decode malloc socket net with
  | none => none
  | some (.interrupted, net) => some (.interrupted, net)
  | some (.error, net) => some (.error, net)
  | some (.complete remainingLength, net) =>
    match socketGetdata malloc socket remainingLength net with
    | none => none
    | some (none, net) => some (.error, net)
    | some (some (data, actualLen), net) =>
      if actualLen ≠ remainingLength then some (.interrupted, net)
      else some (.complete (header, data.take remainingLength), net)

/-- `MQTTPacket_Factory`: the header byte and the packet's data. -/
def factory (malloc : SocketQueue) (socket : ℕ) (net : Net) :
    Option (Outcome (UInt8 × Bytes) × Net) :=
  match socketGetch malloc socket net with
  | none => none
  | some (.interrupted, net) => some (.interrupted, net)
  | some (.error, net) => some (.error, net)
  | some (.complete header, net) => factoryRest malloc socket header net

/-! ### The machine -/

/-- The buffers with what has come in and gone out on each socket since it was opened. -/
structure State where
  /-- The statics of SocketBuffer.c. -/
  buffers : SocketBuffer
  /-- Trace: a `recv` has written behind the end of its buffer. -/
  overrun : Bool
  /-- Trace: the bytes received on each socket. -/
  received : ℕ → Bytes
  /-- Trace: the packets read from each socket. -/
  packets : ℕ → List (UInt8 × Bytes)
  /-- Trace: the sockets with a failed read that have not been closed since. -/
  broken : List ℕ

/-- What happens to the sockets. -/
inductive Event where
  /-- `MQTTPacket_Factory` on a socket, and what the network gives it. -/
  | factory (socket : ℕ) (answers : List Recv)
  /-- `Socket_close`; the number may be given to a new socket then. -/
  | close (socket : ℕ)
deriving Repr

namespace State

/-- After `Socket_outInitialize`. -/
def initial (malloc : SocketQueue) : State where
  buffers := SocketBuffer.initial malloc
  overrun := false
  received := fun _ ↦ []
  packets := fun _ ↦ []
  broken := []

/-- One event; a call of the factory uses all the answers it comes with. -/
def step (malloc : SocketQueue) (s : State) : Event → Option State
  | .factory socket answers =>
    if socket = 0 then none
    else
      match factory malloc socket ⟨s.buffers, answers, s.overrun⟩ with
      | some (outcome, ⟨buffers, [], overrun⟩) =>
        some {
          buffers := buffers
          overrun := overrun
          received :=
            Function.update s.received socket
              (s.received socket ++ answers.flatMap Recv.bytes)
          packets :=
            match outcome with
            | .complete packet =>
              Function.update s.packets socket (s.packets socket ++ [packet])
            | _ => s.packets
          broken :=
            match outcome with
            | .error => socket :: s.broken
            | _ => s.broken }
      | _ => none
  | .close socket =>
    if socket = 0 then none
    else
      some {
        buffers := s.buffers.cleanup socket
        overrun := s.overrun
        received := Function.update s.received socket []
        packets := Function.update s.packets socket []
        broken := s.broken.filter (· ≠ socket) }

end State

/-- The machine of one process, from its start. -/
def machine (malloc : SocketQueue) : Machine State Event := ⟨State.step malloc⟩

end Reading
