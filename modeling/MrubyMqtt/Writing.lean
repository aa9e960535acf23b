import MrubyMqtt.Lib.CursorList
import MrubyMqtt.Lib.Machine
import MrubyMqtt.Paho
import MrubyMqtt.Packet

/-!
# Writing packets to non-blocking sockets

`Socket_putdatas` offers a packet to the socket in one `writev`. What the socket does not take is
kept as a pending write, and no other packet is written to the socket until it is done;
`Socket_continueWrites` goes on with it when the socket can be written again. Two traces record what
this is about: the packets that were accepted for a socket, and the bytes that the network took.

The bytes go out in order (`inOrder_iff`), unless

* a `writev` fails while a packet is being continued: `Socket_continueWrites` takes the nonzero
  `SOCKET_ERROR` for the nonzero "write complete", drops the rest of the packet and reports it as
  written; or
* a connection is closed in the middle of a packet. `Socket_close` takes the socket off
  `write_pending` and leaves the pending write in `writes`. When a packet of the next connection
  with the same socket number is written in part there are two of them, and which one is found
  depends on `writes.current` and on their order.

`SocketBuffer_updateWrite`, which exchanges the topic and the payload of a pending write for copies
of the same bytes, is left out. A packet whose length no `int` holds is not accepted by the model.
-/

open Bytes

namespace Writing

/-- A `pending_writes`; the buffers with their contents. -/
structure PendingWrites where
  /-- The socket. -/
  socket : ℕ
  /-- The length of the whole packet, an `int`. -/
  total : ℤ
  /-- How many bytes have been written. -/
  bytes : ℕ
  /-- The buffers. -/
  iovecs : List Bytes

/-- What `writev` does. -/
inductive Writev where
  /-- It takes so many bytes. -/
  | wrote (bytes : ℕ)
  /-- `EWOULDBLOCK` or `EAGAIN`. -/
  | wouldBlock
  /-- Another error. -/
  | failed
deriving DecidableEq, Repr

/-- What the module knows of pending writes, with the traces. -/
structure State where
  /-- `writes` of SocketBuffer.c, with its `current`. -/
  writes : CursorList PendingWrites
  /-- `s.write_pending`. -/
  writePending : List ℕ
  /-- Trace: the packets accepted for each socket since it was opened. -/
  sent : ℕ → List (Header × List Bytes)
  /-- Trace: the bytes the network took on each socket since it was opened. -/
  wire : ℕ → Bytes
  /-- Trace: the calls of `writecomplete`. -/
  completed : List ℕ

/-! ### One packet -/

/-- The buffers of `MQTTPacket_sends` and `Socket_putdatas`: header byte and remaining length, then
the packet's own. -/
def packetIovecs (header : Header) (buffers : List Bytes) : List Bytes :=
  (header.byte :: mqttPacketEncode (toInt32 (buffers.map List.length).sum)) :: buffers

theorem flatten_packetIovecs (header : Header) (buffers : List Bytes) :
    (packetIovecs header buffers).flatten = mqttPacketSends header buffers := by
  rw [packetIovecs, List.flatten_cons, List.cons_append, mqttPacketSends]

/-- `total` in `Socket_putdatas`. -/
def totalLength (iovecs : List Bytes) : ℤ := toInt32 (iovecs.map List.length).sum

/-- The first loop of `Socket_continueWrite`: the buffers that have not been written. A buffer that
is written in part is the last one that is offered. -/
def unwrittenLoop (bytes : ℕ) : (curbuflen : ℕ) → List Bytes → List Bytes
  | _, [] => []
  | curbuflen, iovec :: iovecs =>
    if bytes ≤ curbuflen then iovec :: unwrittenLoop bytes (curbuflen + iovec.length) iovecs
    else if bytes < curbuflen + iovec.length then [iovec.drop (bytes - curbuflen)]
    else unwrittenLoop bytes (curbuflen + iovec.length) iovecs

/-- `writev`: how many bytes it takes, if the network can take so many of what is offered; `none` is
`SOCKET_ERROR`, and blocking takes no bytes. -/
def socketWritev (offered : Bytes) : Writev → Option (Option ℕ)
  | .wrote bytes => if bytes ≤ offered.length then some (some bytes) else none
  | .wouldBlock => some (some 0)
  | .failed => some none

namespace State

/-- `SocketBuffer_getWrite`: `ListFindItem` looks at the current entry of `writes` first, and makes
what it finds the current one. -/
def getWrite (s : State) (socket : ℕ) : Option (PendingWrites × State) := do
  let writes ← s.writes.seek PendingWrites.socket socket
  let pw ← writes.current
  some (pw, { s with writes })

/-- Bytes go out to the network. -/
def put (s : State) (socket : ℕ) (bytes : Bytes) : State :=
  { s with wire := Function.update s.wire socket (s.wire socket ++ bytes) }

/-- `MQTTPacket_sends` with `Socket_putdatas`. -/
def putdatas (s : State) (socket : ℕ) (header : Header) (buffers : List Bytes) (answer : Writev) :
    Option (Paho.Write × State) :=
  let iovecs := packetIovecs header buffers
  if socket ∈ s.writePending then some (.error, s)
  else
    match socketWritev iovecs.flatten answer with
    | none => none
    | some none => some (.error, s)
    | some (some bytes) =>
      let s := s.put socket (iovecs.flatten.take bytes)
      let s := { s with
        sent := Function.update s.sent socket (s.sent socket ++ [(header, buffers)]) }
      if bytes = totalLength iovecs then some (.complete, s)
      else
        some (.interrupted,
          { s with
            writes := s.writes.append ⟨socket, totalLength iovecs, bytes, iovecs⟩
            writePending := s.writePending ++ [socket] })

/-- What `Socket_continueWrites` does when `Socket_continueWrite` has come back nonzero: the pending
write that `SocketBuffer_writeComplete` finds goes, and the callback is called. -/
def writeComplete (s : State) (socket : ℕ) : State :=
  { s with
    writes := s.writes.unlink PendingWrites.socket socket
    writePending := s.writePending.erase socket
    completed := s.completed ++ [socket] }

/-- One round of `Socket_continueWrites`, for a socket in its list. In which order it comes to the
sockets is left open. -/
def continueWrite (s : State) (socket : ℕ) (answer : Writev) : Option State :=
  match s.getWrite socket with
  | none => none
  | some (pw, s) =>
    let iovecs1 := (unwrittenLoop pw.bytes 0 pw.iovecs).flatten
    match socketWritev iovecs1 answer with
    | none => none
    | some none => some (s.writeComplete socket)
    | some (some bytes) =>
      let s := s.put socket (iovecs1.take bytes)
      if ((pw.bytes + bytes : ℕ) : ℤ) = pw.total then some (s.writeComplete socket)
      else
        some { s with
          writes := s.writes.modifyCurrent fun pw ↦ { pw with bytes := pw.bytes + bytes } }

/-- `Socket_close`, as far as it has to do with writing. -/
def close (s : State) (socket : ℕ) : State :=
  { s with
    writePending := s.writePending.erase socket
    sent := Function.update s.sent socket []
    wire := Function.update s.wire socket [] }

end State

/-- What happens to the sockets. -/
inductive Event where
  /-- A packet is offered. -/
  | sends (socket : ℕ) (header : Header) (buffers : List Bytes) (answer : Writev)
  /-- A pending write is continued. -/
  | continueWrite (socket : ℕ) (answer : Writev)
  /-- The socket is closed; its number may be given to a new one. -/
  | close (socket : ℕ)

namespace State

/-- Before anything is written. -/
def start : State := ⟨.empty, [], fun _ ↦ [], fun _ ↦ [], []⟩

/-- One event. -/
def step (s : State) : Event → Option State
  | .sends socket header buffers answer =>
    if (mqttPacketSends header buffers).length < 2 ^ 31 then
      (s.putdatas socket header buffers answer).map Prod.snd
    else none
  | .continueWrite socket answer =>
    if socket ∈ s.writePending then s.continueWrite socket answer else none
  | .close socket => some (s.close socket)

/-- What is still to be written of a packet. -/
def rest (s : State) (socket : ℕ) : Bytes :=
  if socket ∈ s.writePending then
    match s.writes.find PendingWrites.socket socket with
    | some pw => pw.iovecs.flatten.drop pw.bytes
    | none => []
  else []

/-- What the packets accepted for a socket are on the wire. -/
def stream (s : State) (socket : ℕ) : Bytes :=
  ((s.sent socket).map fun packet ↦ mqttPacketSends packet.1 packet.2).flatten

/-- The bytes of each socket are written in order and none is lost. -/
def InOrder (s : State) : Prop := ∀ socket, s.wire socket ++ s.rest socket = s.stream socket

/-- No socket has two pending writes. -/
def Single (s : State) : Prop :=
  ∀ socket, KeyedList.AtMostOnce PendingWrites.socket socket s.writes.entries

end State

/-- The machine of one process. -/
def machine : Machine State Event := ⟨State.step⟩

/-! ### The buffers that are offered again -/

theorem totalLength_eq {iovecs : List Bytes} (h : iovecs.flatten.length < 2 ^ 31) :
    totalLength iovecs = iovecs.flatten.length := by
  rw [totalLength, ← List.length_flatten]
  exact toInt32_eq_self (by omega) (by omega)

/-- From the first unwritten buffer on, all buffers are offered. -/
theorem flatten_unwrittenLoop_of_le {bytes curbuflen : ℕ} (h : bytes ≤ curbuflen)
    (iovecs : List Bytes) : (unwrittenLoop bytes curbuflen iovecs).flatten = iovecs.flatten := by
  induction iovecs generalizing curbuflen with
  | nil => rfl
  | cons iovec iovecs ih =>
    rw [unwrittenLoop, if_pos h, List.flatten_cons, List.flatten_cons, ih (by omega)]

/-- **What is offered again is the front of what is left**, and something of it, if anything is
left. -/
theorem flatten_unwrittenLoop_front (bytes curbuflen : ℕ) (iovecs : List Bytes) :
    (unwrittenLoop bytes curbuflen iovecs).flatten <+: iovecs.flatten.drop (bytes - curbuflen) ∧
      ((unwrittenLoop bytes curbuflen iovecs).flatten = [] →
        iovecs.flatten.drop (bytes - curbuflen) = []) := by
  induction iovecs generalizing curbuflen with
  | nil => simp [unwrittenLoop]
  | cons iovec iovecs ih =>
    rw [unwrittenLoop]
    split_ifs with hle hpart
    · have hzero : bytes - curbuflen = 0 := by omega
      rw [List.flatten_cons, flatten_unwrittenLoop_of_le (by omega), hzero, List.drop_zero,
        List.flatten_cons]
      exact ⟨List.prefix_rfl, id⟩
    · have hinside : bytes - curbuflen ≤ iovec.length := by omega
      rw [List.flatten_singleton, List.flatten_cons, List.drop_append_of_le_length hinside]
      refine ⟨List.prefix_append _ _, fun hnil ↦ ?_⟩
      have hlen : (iovec.drop (bytes - curbuflen)).length = 0 := congrArg List.length hnil
      rw [List.length_drop] at hlen
      omega
    · have hskip : bytes - (curbuflen + iovec.length) = bytes - curbuflen - iovec.length := by
        omega
      have hdrop : (iovec ++ iovecs.flatten).drop (bytes - curbuflen) =
          iovecs.flatten.drop (bytes - curbuflen - iovec.length) := by
        rw [List.drop_append, List.drop_of_length_le (by omega), List.nil_append]
      rw [List.flatten_cons, hdrop, ← hskip]
      exact ih (curbuflen + iovec.length)

/-- Writing some of what is offered leaves the rest of what was left. -/
theorem take_unwritten_append {bytes n : ℕ} {iovecs : List Bytes}
    (h : n ≤ (unwrittenLoop bytes 0 iovecs).flatten.length) :
    (unwrittenLoop bytes 0 iovecs).flatten.take n ++ iovecs.flatten.drop (bytes + n) =
      iovecs.flatten.drop bytes := by
  have hprefix := (flatten_unwrittenLoop_front bytes 0 iovecs).1
  rw [Nat.sub_zero] at hprefix
  obtain ⟨tail, htail⟩ := hprefix
  rw [← List.drop_drop, ← htail, List.drop_append_of_le_length h, ← List.append_assoc,
    List.take_append_drop]

/-- The bytes an answer of `writev` takes. -/
def Writev.bytes : Writev → ℕ
  | wrote bytes => bytes
  | _ => 0

theorem socketWritev_eq_some {offered : Bytes} {answer : Writev} {n : ℕ}
    (h : socketWritev offered answer = some (some n)) :
    answer ≠ .failed ∧ answer.bytes = n ∧ n ≤ offered.length := by
  rcases answer with m | - | -
  · rw [socketWritev] at h
    split_ifs at h with hle
    obtain rfl : m = n := by simpa using h
    exact ⟨Writev.noConfusion, rfl, hle⟩
  · obtain rfl : 0 = n := by simpa [socketWritev] using h
    exact ⟨Writev.noConfusion, rfl, Nat.zero_le _⟩
  · simp [socketWritev] at h

theorem socketWritev_eq_error {offered : Bytes} {answer : Writev}
    (h : socketWritev offered answer = some none) : answer = .failed := by
  rcases answer with m | - | -
  · rw [socketWritev] at h
    split_ifs at h
    simp at h
  · simp [socketWritev] at h
  · rfl

/-! ### What a step does -/

namespace State

/-- A packet has been accepted, and so many of its bytes were taken at once. -/
def accept (s : State) (socket : ℕ) (header : Header) (buffers : List Bytes) (n : ℕ) : State :=
  { s.put socket ((mqttPacketSends header buffers).take n) with
    sent := Function.update s.sent socket (s.sent socket ++ [(header, buffers)]) }

/-- The rest of a packet is kept. -/
def keep (s : State) (pw : PendingWrites) : State :=
  { s with writes := s.writes.append pw, writePending := s.writePending ++ [pw.socket] }

/-- Some more of the current pending write has been written. -/
def advance (s : State) (n : ℕ) : State :=
  { s with writes := s.writes.modifyCurrent fun pw ↦ { pw with bytes := pw.bytes + n } }

/-- The steps of the machine, one constructor for each way through the code. -/
inductive Steps (s : State) : Event → State → Prop
  /-- There is pending output already, or `writev` fails: nothing happens. -/
  | refused {socket : ℕ} {header : Header} {buffers : List Bytes} {answer : Writev}
      (h : socket ∈ s.writePending ∨ answer = .failed) :
      Steps s (.sends socket header buffers answer) s
  /-- The packet is written at once. -/
  | sent {socket : ℕ} {header : Header} {buffers : List Bytes} {answer : Writev}
      (hfree : socket ∉ s.writePending) (hanswer : answer ≠ .failed)
      (hall : answer.bytes = (mqttPacketSends header buffers).length) :
      Steps s (.sends socket header buffers answer) (s.accept socket header buffers answer.bytes)
  /-- A part of the packet is written, and the rest is kept. -/
  | kept {socket : ℕ} {header : Header} {buffers : List Bytes} {answer : Writev}
      (hfree : socket ∉ s.writePending) (hanswer : answer ≠ .failed)
      (hpart : answer.bytes < (mqttPacketSends header buffers).length) {pw : PendingWrites}
      (hsocket : pw.socket = socket) (hbytes : pw.bytes = answer.bytes)
      (hiovecs : pw.iovecs.flatten = mqttPacketSends header buffers)
      (htotal : pw.total = (mqttPacketSends header buffers).length) :
      Steps s (.sends socket header buffers answer)
        ((s.accept socket header buffers answer.bytes).keep pw)
  /-- `writev` fails in the middle of the packet. -/
  | dropped {socket : ℕ} {pw : PendingWrites} {t : State} (hpending : socket ∈ s.writePending)
      (hwrite : s.getWrite socket = some (pw, t)) :
      Steps s (.continueWrite socket .failed) (t.writeComplete socket)
  /-- The rest of the packet is written. -/
  | completed {socket : ℕ} {answer : Writev} {pw : PendingWrites} {t : State}
      (hpending : socket ∈ s.writePending) (hwrite : s.getWrite socket = some (pw, t))
      (hanswer : answer ≠ .failed)
      (hle : answer.bytes ≤ (unwrittenLoop pw.bytes 0 pw.iovecs).flatten.length)
      (hall : ((pw.bytes + answer.bytes : ℕ) : ℤ) = pw.total) :
      Steps s (.continueWrite socket answer)
        ((t.put socket ((unwrittenLoop pw.bytes 0 pw.iovecs).flatten.take
          answer.bytes)).writeComplete socket)
  /-- Some more of the packet is written. -/
  | advanced {socket : ℕ} {answer : Writev} {pw : PendingWrites} {t : State}
      (hpending : socket ∈ s.writePending) (hwrite : s.getWrite socket = some (pw, t))
      (hanswer : answer ≠ .failed)
      (hle : answer.bytes ≤ (unwrittenLoop pw.bytes 0 pw.iovecs).flatten.length)
      (hpart : ((pw.bytes + answer.bytes : ℕ) : ℤ) ≠ pw.total) :
      Steps s (.continueWrite socket answer)
        ((t.put socket ((unwrittenLoop pw.bytes 0 pw.iovecs).flatten.take
          answer.bytes)).advance answer.bytes)
  /-- The socket is closed. -/
  | closed {socket : ℕ} : Steps s (.close socket) (s.close socket)

theorem putdatas_cases {s s' : State} {socket : ℕ} {header : Header} {buffers : List Bytes}
    {answer : Writev} {rc : Paho.Write} (hsize : (mqttPacketSends header buffers).length < 2 ^ 31)
    (h : s.putdatas socket header buffers answer = some (rc, s')) :
    Steps s (.sends socket header buffers answer) s' := by
  have htotal : totalLength (packetIovecs header buffers) =
      (mqttPacketSends header buffers).length := by
    rw [← flatten_packetIovecs] at hsize ⊢
    exact totalLength_eq hsize
  rw [putdatas] at h
  simp only [flatten_packetIovecs, htotal] at h
  split_ifs at h with hpending
  · obtain rfl : s = s' := (Prod.mk.inj (Option.some.inj h)).2
    exact .refused (.inl hpending)
  · rcases hwritev : socketWritev (mqttPacketSends header buffers) answer with - | - | n
    · simp [hwritev] at h
    · simp only [hwritev] at h
      obtain rfl : s = s' := (Prod.mk.inj (Option.some.inj h)).2
      exact .refused (.inr (socketWritev_eq_error hwritev))
    · obtain ⟨hanswer, rfl, hle⟩ := socketWritev_eq_some hwritev
      simp only [hwritev] at h
      split_ifs at h with hall
      · obtain rfl := (Prod.mk.inj (Option.some.inj h)).2
        exact .sent hpending hanswer (by omega)
      · obtain rfl := (Prod.mk.inj (Option.some.inj h)).2
        exact .kept hpending hanswer (by omega) rfl rfl (flatten_packetIovecs header buffers) rfl

theorem step_cases {s s' : State} {e : Event} (h : s.step e = some s') : Steps s e s' := by
  rcases e with ⟨socket, header, buffers, answer⟩ | ⟨socket, answer⟩ | socket
  · rw [step] at h
    split_ifs at h with hsize
    rcases hput : s.putdatas socket header buffers answer with - | ⟨rc, t⟩
    · simp [hput] at h
    · obtain rfl : t = s' := by simpa [hput] using h
      exact putdatas_cases hsize hput
  · rw [step] at h
    split_ifs at h with hpending
    rw [continueWrite] at h
    rcases hwrite : s.getWrite socket with - | ⟨pw, t⟩
    · simp [hwrite] at h
    · simp only [hwrite] at h
      rcases hwritev : socketWritev (unwrittenLoop pw.bytes 0 pw.iovecs).flatten answer with
        - | - | n
      · simp [hwritev] at h
      · obtain rfl := socketWritev_eq_error hwritev
        simp only [hwritev] at h
        obtain rfl := Option.some.inj h
        exact .dropped hpending hwrite
      · obtain ⟨hanswer, rfl, hle⟩ := socketWritev_eq_some hwritev
        simp only [hwritev] at h
        split_ifs at h with hall
        · obtain rfl := Option.some.inj h
          exact .completed hpending hwrite hanswer hle hall
        · obtain rfl := Option.some.inj h
          exact .advanced hpending hwrite hanswer hle hall
  · obtain rfl := Option.some.inj h
    exact .closed

end State

end Writing
