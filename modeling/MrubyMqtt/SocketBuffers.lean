import MrubyMqtt.Reading

/-!
# What SocketBuffer.c keeps of a packet

Between two calls what is held of a packet that is not complete lies in the socket's own queue:
`Rest` says which header and data bytes these are. Inside a call the socket reads on from its own
queue or from the default queue. `InHand` is the state in both cases: the header bytes, how many of
them have been given out, and the data. Each operation of SocketBuffer.c has one lemma about it;
`Going` and `Ended` say what the operations leave alone.
-/

open Bytes

namespace Reading

/-! ### What a queue holds -/

namespace SocketQueue

/-- The queue's header bytes and the data in its buffer. -/
structure Filled (queue : SocketQueue) (header data : Bytes) : Prop where
  /-- `headerlen` counts the header bytes. -/
  headerlen : queue.headerlen = header.length
  /-- They stand at the front of `fixed_header`. -/
  header : queue.fixedHeader.toList.take header.length = header
  /-- The data stand at the front of `buf`. -/
  data : queue.buf.take data.length = data

variable {queue : SocketQueue} {header data : Bytes}

theorem Filled.length_le (h : queue.Filled header data) : header.length ≤ 5 := by
  have hlen : (queue.fixedHeader.toList.take header.length).length = header.length :=
    congrArg List.length h.header
  rw [List.length_take, Vector.length_toList] at hlen
  omega

/-- The next header byte is the one that was stored there. -/
theorem Filled.getD_fixedHeader (h : queue.Filled header data) {i : ℕ} (hi : i < header.length) :
    queue.fixedHeader.toList.getD i 0 = header[i] := by
  have hlen := h.length_le
  have hget : (queue.fixedHeader.toList.take header.length)[i]? = header[i]? :=
    congrArg (·[i]?) h.header
  rw [List.getElem?_take_of_lt hi, List.getElem?_eq_getElem hi] at hget
  rw [List.getD_eq_getElem?_getD, hget, Option.getD_some]

/-- Storing one more header byte. -/
theorem Filled.putChar (h : queue.Filled header data) (hindex : queue.index = header.length)
    (hroom : header.length ≤ 4) (c : UInt8) :
    (queue.putChar c).Filled (header ++ [c]) data where
  headerlen := by simp [SocketQueue.putChar, hindex]
  header := by
    have hlen : header.length < queue.fixedHeader.toList.length := by
      rw [Vector.length_toList]
      omega
    have hlen' : (header ++ [c]).length = header.length + 1 := by simp
    show (queue.fixedHeader.setIfInBounds queue.index c).toList.take _ = _
    rw [Vector.toList_setIfInBounds, hindex, hlen', List.set_eq_take_append_cons_drop,
      if_pos hlen, h.header, List.take_append, List.take_of_length_le (by omega)]
    simp
  data := h.data

/-- Making room keeps what is stored. -/
theorem Filled.grow (h : queue.Filled header data) (hdata : queue.datalen = data.length)
    (bytes : ℕ) : (queue.grow bytes).Filled header data := by
  rw [SocketQueue.grow]
  split_ifs with hmore hpos
  · refine ⟨h.headerlen, h.header, ?_⟩
    show (queue.buf.take queue.datalen).take data.length = data
    rw [List.take_take, hdata, Nat.min_self, h.data]
  · exact ⟨h.headerlen, h.header, h.data⟩
  · exact h

theorem index_grow (bytes : ℕ) (queue : SocketQueue) :
    (queue.grow bytes).index = queue.index := by
  rw [SocketQueue.grow]
  split_ifs <;> rfl

theorem datalen_grow (bytes : ℕ) (queue : SocketQueue) :
    (queue.grow bytes).datalen = queue.datalen := by
  rw [SocketQueue.grow]
  split_ifs <;> rfl

theorem le_buflen_grow (queue : SocketQueue) (bytes : ℕ) : bytes ≤ (queue.grow bytes).buflen := by
  by_cases hmore : bytes > queue.buflen
  · rw [SocketQueue.grow, if_pos hmore]
  · rw [SocketQueue.grow, if_neg hmore]
    omega

/-- What `recv` writes behind the data is data. -/
theorem Filled.fill (h : queue.Filled header data) (more : Bytes) :
    (queue.fill data.length more).Filled header (data ++ more) where
  headerlen := h.headerlen
  header := h.header
  data := by
    show (queue.buf.take data.length ++ more ++ _).take (data ++ more).length = data ++ more
    rw [h.data, List.take_append_of_le_length (Nat.le_refl _), List.take_length]

end SocketQueue

namespace SocketQueue

/-! No operation on a queue in use changes its socket. -/

theorem socket_getChar (queue : SocketQueue) : queue.getChar.socket = queue.socket := rfl

theorem socket_putChar (c : UInt8) (queue : SocketQueue) :
    (queue.putChar c).socket = queue.socket := rfl

theorem socket_stop (actualLen : ℕ) (queue : SocketQueue) :
    (queue.stop actualLen).socket = queue.socket := rfl

theorem socket_fill (offset : ℕ) (data : Bytes) (queue : SocketQueue) :
    (queue.fill offset data).socket = queue.socket := rfl

theorem socket_grow (bytes : ℕ) (queue : SocketQueue) :
    (queue.grow bytes).socket = queue.socket := by
  rw [SocketQueue.grow]
  split_ifs <;> rfl

end SocketQueue

/-! ### What a socket has in hand -/

namespace SocketBuffer

/-- Nobody's queue is in front of another one of the same socket. -/
def Single (buffers : SocketBuffer) : Prop :=
  ∀ socket, socket ≠ 0 → KeyedList.AtMostOnce SocketQueue.socket socket buffers.queues

/-- **Between two calls.** What is kept for a socket is in a queue of its own. -/
def Rest (buffers : SocketBuffer) (socket : ℕ) (header data : Bytes) : Prop :=
  match buffers.find socket with
  | some queue => queue.index = 0 ∧ queue.Filled header data ∧ queue.datalen = data.length
  | none => header = [] ∧ data = []

/-- **During a call.** The header bytes, `pos` of which have been given out, and the data are in
the socket's own queue, or in the default queue with no data yet. -/
def InHand (buffers : SocketBuffer) (socket : ℕ) (header : Bytes) (pos : ℕ) (data : Bytes) :
    Prop :=
  match buffers.find socket with
  | some queue => queue.index = pos ∧ queue.Filled header data ∧ queue.datalen = data.length
  | none =>
    data = [] ∧ pos = header.length ∧
      (header = [] ∧ buffers.defQueue.socket = 0 ∨
        buffers.defQueue.socket = socket ∧ buffers.defQueue.index = pos ∧
          buffers.defQueue.Filled header [] ∧ buffers.defQueue.datalen = 0)

/-- **After the last `recv`.** The data are in the buffer, and not yet counted. -/
def Loaded (buffers : SocketBuffer) (socket : ℕ) (header data : Bytes) : Prop :=
  match buffers.find socket with
  | some queue => queue.Filled header data
  | none => buffers.defQueue.socket = socket ∧ buffers.defQueue.Filled header data

/-- What reading on a socket leaves alone: the other sockets' queues, the queues there are, and the
default queue if the socket has a queue of its own. -/
structure Going (socket : ℕ) (before after : SocketBuffer) : Prop where
  /-- The other sockets' queues are untouched. -/
  others : ∀ other, other ≠ socket → after.find other = before.find other
  /-- There is a queue for the socket if there was one. -/
  own : (after.find socket).isSome = (before.find socket).isSome
  /-- Queues keep their sockets. -/
  sockets : after.queues.map SocketQueue.socket = before.queues.map SocketQueue.socket
  /-- The default queue is used for want of an own one. -/
  default : (before.find socket).isSome → after.defQueue = before.defQueue
  /-- Its owner is the one it had, or the socket. -/
  owner : after.defQueue.socket = before.defQueue.socket ∨ after.defQueue.socket = socket

namespace Going

variable {socket : ℕ} {a b c : SocketBuffer}

theorem refl (socket : ℕ) (a : SocketBuffer) : Going socket a a :=
  ⟨fun _ _ ↦ rfl, rfl, rfl, fun _ ↦ rfl, .inl rfl⟩

theorem trans (hab : Going socket a b) (hbc : Going socket b c) : Going socket a c where
  others other h := (hbc.others other h).trans (hab.others other h)
  own := hbc.own.trans hab.own
  sockets := hbc.sockets.trans hab.sockets
  default h := (hbc.default (hab.own ▸ h)).trans (hab.default h)
  owner := by
    rcases hbc.owner with h | h
    · rw [h]
      exact hab.owner
    · exact .inr h

theorem single (h : Going socket a b) (ha : a.Single) : b.Single := by
  intro other hother
  have hcount := KeyedList.atMostOnce_iff_count.1 (ha other hother)
  rw [KeyedList.atMostOnce_iff_count, h.sockets]
  exact hcount

end Going

section Operations

variable {buffers : SocketBuffer} {socket : ℕ}

/-- A change of the socket's own queue. -/
theorem going_modify (buffers : SocketBuffer) (socket : ℕ) {f : SocketQueue → SocketQueue}
    (hf : ∀ queue, (f queue).socket = queue.socket) :
    Going socket buffers (buffers.modify socket f) where
  others other h := KeyedList.lookup_modify_of_ne h hf _
  own := by
    show (KeyedList.lookup _ _ (KeyedList.modify _ _ _ _)).isSome = _
    rw [KeyedList.lookup_modify_self hf, Option.isSome_map]
    rfl
  sockets := KeyedList.map_key_modify hf _
  default _ := rfl
  owner := .inl rfl

/-- What is found after it. -/
theorem find_modify {f : SocketQueue → SocketQueue} (hf : ∀ queue, (f queue).socket = queue.socket)
    {queue : SocketQueue} (hfind : buffers.find socket = some queue) :
    (buffers.modify socket f).find socket = some (f queue) :=
  (KeyedList.lookup_modify_self hf _).trans (congrArg (Option.map f) hfind)

/-- A change of the default queue, for a socket without a queue of its own. -/
theorem going_default {defQueue : SocketQueue} (hnone : buffers.find socket = none)
    (howner : defQueue.socket = buffers.defQueue.socket ∨ defQueue.socket = socket) :
    Going socket buffers { buffers with defQueue := defQueue } where
  others _ _ := rfl
  own := rfl
  sockets := rfl
  default h := by simp [hnone] at h
  owner := howner

theorem inHand_own {queue : SocketQueue} (hfind : buffers.find socket = some queue)
    {header data : Bytes} {pos : ℕ} :
    buffers.InHand socket header pos data ↔
      queue.index = pos ∧ queue.Filled header data ∧ queue.datalen = data.length := by
  rw [InHand, hfind]

theorem inHand_default (hfind : buffers.find socket = none) {header data : Bytes} {pos : ℕ} :
    buffers.InHand socket header pos data ↔
      data = [] ∧ pos = header.length ∧
        (header = [] ∧ buffers.defQueue.socket = 0 ∨
          buffers.defQueue.socket = socket ∧ buffers.defQueue.index = pos ∧
            buffers.defQueue.Filled header [] ∧ buffers.defQueue.datalen = 0) := by
  rw [InHand, hfind]

/-- A header byte that is kept is given out. -/
theorem getQueuedChar_kept {header data : Bytes} {pos : ℕ}
    (h : buffers.InHand socket header pos data) (hpos : pos < header.length) :
    ∃ after, buffers.getQueuedChar socket = (.complete header[pos], after) ∧
      after.InHand socket header (pos + 1) data ∧ Going socket buffers after := by
  rcases hfind : buffers.find socket with - | queue
  · obtain ⟨-, hend, -⟩ := (inHand_default hfind).1 h
    omega
  · obtain ⟨hindex, hfilled, hdatalen⟩ := (inHand_own hfind).1 h
    have hlt : queue.index < queue.headerlen := by
      rw [hindex, hfilled.headerlen]
      exact hpos
    have hafter : (buffers.modify socket SocketQueue.getChar).find socket =
        some queue.getChar :=
      find_modify SocketQueue.socket_getChar hfind
    refine ⟨buffers.modify socket SocketQueue.getChar, ?_, ?_,
      going_modify _ _ SocketQueue.socket_getChar⟩
    · simp only [getQueuedChar, hfind]
      rw [if_pos hlt, hindex, hfilled.getD_fixedHeader hpos]
    · exact (inHand_own hafter).2 ⟨congrArg (· + 1) hindex,
        ⟨hfilled.headerlen, hfilled.header, hfilled.data⟩, hdatalen⟩

/-- When all of them have been given out, there is none. -/
theorem getQueuedChar_none {header data : Bytes}
    (h : buffers.InHand socket header header.length data) (hroom : header.length ≤ 4) :
    buffers.getQueuedChar socket = (.interrupted, buffers) := by
  rcases hfind : buffers.find socket with - | queue
  · simp only [getQueuedChar, hfind]
  · obtain ⟨hindex, hfilled, -⟩ := (inHand_own hfind).1 h
    have hge : ¬ queue.index < queue.headerlen := by
      rw [hindex, hfilled.headerlen]
      omega
    simp only [getQueuedChar, hfind]
    rw [if_neg hge, if_neg (by omega)]

/-- A header byte that has come in is kept. -/
theorem queueChar_inHand (hsocket : socket ≠ 0) {header : Bytes}
    (h : buffers.InHand socket header header.length []) (hroom : header.length ≤ 4) (c : UInt8) :
    (buffers.queueChar socket c).InHand socket (header ++ [c]) (header ++ [c]).length [] ∧
      Going socket buffers (buffers.queueChar socket c) := by
  have hlen : (header ++ [c]).length = header.length + 1 := List.length_append
  rw [hlen]
  rcases hfind : buffers.find socket with - | queue
  · obtain ⟨-, -, h⟩ := (inHand_default hfind).1 h
    rcases h with ⟨rfl, hfree⟩ | ⟨hown, hindex, hfilled, hdatalen⟩
    · -- The first byte: the default queue is free, and becomes the socket's.
      have hafter : buffers.queueChar socket c =
          ⟨(buffers.defQueue.claim socket).putChar c, buffers.queues⟩ := by
        simp [queueChar, hfind, hfree, SocketQueue.claim]
      have hempty : ((buffers.defQueue.claim socket).putChar c).Filled [c] [] := by
        refine ⟨rfl, ?_, rfl⟩
        show (buffers.defQueue.fixedHeader.setIfInBounds 0 c).toList.take 1 = [c]
        rw [Vector.toList_setIfInBounds, List.set_eq_take_append_cons_drop, if_pos (by simp)]
        rfl
      rw [hafter]
      refine ⟨(inHand_default ?_).2 ⟨rfl, rfl, .inr ⟨rfl, rfl, hempty, rfl⟩⟩,
        going_default hfind (.inr rfl)⟩
      exact hfind
    · have hafter : buffers.queueChar socket c =
          ⟨buffers.defQueue.putChar c, buffers.queues⟩ := by
        have hle : ¬ 4 < buffers.defQueue.index := by omega
        simp [queueChar, hfind, hown, hsocket, hle]
      rw [hafter]
      refine ⟨(inHand_default ?_).2 ⟨rfl, hlen.symm, .inr ⟨hown, congrArg (· + 1) hindex,
        hfilled.putChar hindex hroom c, hdatalen⟩⟩, going_default hfind (.inl rfl)⟩
      exact hfind
  · obtain ⟨hindex, hfilled, hdatalen⟩ := (inHand_own hfind).1 h
    have hstep : buffers.queueChar socket c = buffers.modify socket (SocketQueue.putChar c) := by
      simp only [queueChar, hfind]
      rw [if_neg (by omega)]
    have hafter : (buffers.modify socket (SocketQueue.putChar c)).find socket =
        some (queue.putChar c) :=
      find_modify (SocketQueue.socket_putChar c) hfind
    rw [hstep]
    exact ⟨(inHand_own hafter).2 ⟨congrArg (· + 1) hindex, hfilled.putChar hindex hroom c,
      hdatalen⟩, going_modify _ _ (SocketQueue.socket_putChar c)⟩

/-- Room is made where the data will go. -/
theorem getQueuedData_inHand {header data : Bytes} (hheader : header ≠ [])
    (h : buffers.InHand socket header header.length data) (bytes : ℕ) :
    ∃ after, buffers.getQueuedData socket bytes = (data.length, after) ∧
      after.InHand socket header header.length data ∧ Going socket buffers after ∧
      bytes ≤ (bufferOf after socket).buflen := by
  rcases hfind : buffers.find socket with - | queue
  · obtain ⟨rfl, -, h⟩ := (inHand_default hfind).1 h
    obtain ⟨hown, hindex, hfilled, hdatalen⟩ := h.resolve_left fun h ↦ hheader h.1
    refine ⟨⟨buffers.defQueue.grow bytes, buffers.queues⟩, ?_, (inHand_default ?_).2 ⟨rfl, rfl,
      .inr ⟨?_, ?_, hfilled.grow hdatalen bytes, ?_⟩⟩, going_default hfind (.inl ?_), ?_⟩
    · simp only [getQueuedData, hfind]
      rfl
    · exact hfind
    · exact (SocketQueue.socket_grow bytes _).trans hown
    · exact (SocketQueue.index_grow bytes _).trans hindex
    · exact (SocketQueue.datalen_grow bytes _).trans hdatalen
    · exact SocketQueue.socket_grow bytes _
    · show bytes ≤ ((buffers.find socket).getD (buffers.defQueue.grow bytes)).buflen
      rw [hfind]
      exact SocketQueue.le_buflen_grow _ _
  · obtain ⟨hindex, hfilled, hdatalen⟩ := (inHand_own hfind).1 h
    have hafter : (buffers.modify socket (SocketQueue.grow bytes)).find socket =
        some (queue.grow bytes) :=
      find_modify (SocketQueue.socket_grow bytes) hfind
    refine ⟨buffers.modify socket (SocketQueue.grow bytes), ?_, (inHand_own hafter).2 ⟨?_,
      hfilled.grow hdatalen bytes, ?_⟩, going_modify _ _ (SocketQueue.socket_grow bytes), ?_⟩
    · simp only [getQueuedData, hfind, hdatalen]
    · exact (SocketQueue.index_grow bytes _).trans hindex
    · exact (SocketQueue.datalen_grow bytes _).trans hdatalen
    · rw [bufferOf, hafter]
      exact SocketQueue.le_buflen_grow _ _

/-- The data go behind those that are there. -/
theorem store_inHand {header data : Bytes} (hheader : header ≠ []) {net : Net}
    (h : net.buffers.InHand socket header header.length data) {more : Bytes}
    (hroom : data.length + more.length ≤ (bufferOf net.buffers socket).buflen) :
    (store socket data.length more net).buffers.Loaded socket header (data ++ more) ∧
      Going socket net.buffers (store socket data.length more net).buffers ∧
      (store socket data.length more net).overrun = net.overrun := by
  have hoverrun : (store socket data.length more net).overrun = net.overrun := by
    show (net.overrun || decide _) = net.overrun
    rw [decide_eq_false (by omega), Bool.or_false]
  rcases hfind : net.buffers.find socket with - | queue
  · obtain ⟨rfl, -, h⟩ := (inHand_default hfind).1 h
    obtain ⟨hown, -, hfilled, -⟩ := h.resolve_left fun h ↦ hheader h.1
    have hafter : (store socket 0 more net).buffers =
        ⟨net.buffers.defQueue.fill 0 more, net.buffers.queues⟩ := by
      simp only [store, hfind]
    refine ⟨?_, ?_, hoverrun⟩
    · show Loaded (store socket 0 more net).buffers socket header ([] ++ more)
      rw [hafter, Loaded]
      show match net.buffers.find socket with | some _ => _ | none => _
      rw [hfind]
      exact ⟨hown, hfilled.fill more⟩
    · show Going socket net.buffers (store socket 0 more net).buffers
      rw [hafter]
      exact going_default hfind (.inl rfl)
  · obtain ⟨-, hfilled, -⟩ := (inHand_own hfind).1 h
    have hstep : (store socket data.length more net).buffers =
        net.buffers.modify socket (SocketQueue.fill data.length more) := by
      simp only [store, hfind]
    have hafter : (net.buffers.modify socket (SocketQueue.fill data.length more)).find socket =
        some (queue.fill data.length more) :=
      find_modify (SocketQueue.socket_fill data.length more) hfind
    rw [hstep]
    refine ⟨?_, going_modify _ _ (SocketQueue.socket_fill data.length more), hoverrun⟩
    rw [Loaded, hafter]
    exact hfilled.fill more

/-- The buffer that is handed up holds the data. -/
theorem take_buf_of_loaded {header data : Bytes} (h : buffers.Loaded socket header data) :
    (bufferOf buffers socket).buf.take data.length = data := by
  rw [Loaded] at h
  rcases hfind : buffers.find socket with - | queue
  · simp only [hfind] at h
    rw [bufferOf, hfind]
    exact h.2.data
  · simp only [hfind] at h
    rw [bufferOf, hfind]
    exact h.data

end Operations

/-- What the end of a call leaves alone: the other sockets' queues; and the default queue has lost
its owner, or is the one it was. -/
structure Ended (socket : ℕ) (before after : SocketBuffer) : Prop where
  /-- The other sockets' queues are untouched. -/
  others : ∀ other, other ≠ 0 → other ≠ socket → after.find other = before.find other
  /-- No socket has got a second queue. -/
  single : before.Single → after.Single
  /-- The default queue is free, or the socket had a queue of its own. -/
  owner : after.defQueue.socket = 0 ∨
    (before.find socket).isSome ∧ after.defQueue.socket = before.defQueue.socket

theorem Going.ended {socket : ℕ} {a b c : SocketBuffer} (hab : Going socket a b)
    (hbc : Ended socket b c) : Ended socket a c where
  others other h hne := (hbc.others other h hne).trans (hab.others other hne)
  single ha := hbc.single (hab.single ha)
  owner := by
    rcases hbc.owner with h | ⟨hsome, h⟩
    · exact .inl h
    · have hown : (a.find socket).isSome := hab.own ▸ hsome
      exact .inr ⟨hown, h.trans (congrArg SocketQueue.socket (hab.default hown))⟩

section End

variable {malloc : SocketQueue} {buffers : SocketBuffer} {socket : ℕ}

/-- The default queue is put away, under its owner if it has one. -/
theorem ended_put_away (hfind : buffers.find socket = none)
    (howner : buffers.defQueue.socket = 0 ∨ buffers.defQueue.socket = socket) (actualLen : ℕ) :
    Ended socket buffers
      ⟨newDefQ malloc, buffers.queues ++ [buffers.defQueue.stop actualLen]⟩ where
  others other h hne := by
    show KeyedList.lookup _ _ (buffers.queues ++ _) = _
    have hkey : (buffers.defQueue.stop actualLen).socket ≠ other := by
      show buffers.defQueue.socket ≠ other
      omega
    rw [KeyedList.lookup_append, KeyedList.lookup_cons, if_neg hkey]
    exact Option.or_none
  single h := by
    intro other hother
    refine (h other hother).append fun hkey ↦ ?_
    have hkey : buffers.defQueue.socket = other := hkey
    obtain rfl : socket = other := by omega
    exact hfind
  owner := .inl rfl

/-- **An interrupted read keeps what it has.** -/
theorem interrupted_loaded {header data : Bytes} (h : buffers.Loaded socket header data) :
    (buffers.interrupted malloc socket data.length).Rest socket header data ∧
      Ended socket buffers (buffers.interrupted malloc socket data.length) := by
  rw [Loaded] at h
  rcases hfind : buffers.find socket with - | queue
  · simp only [hfind] at h
    obtain ⟨hown, hfilled⟩ := h
    have hstep : buffers.interrupted malloc socket data.length =
        ⟨newDefQ malloc, buffers.queues ++ [buffers.defQueue.stop data.length]⟩ := by
      simp only [interrupted, hfind]
    have hafter : (⟨newDefQ malloc, buffers.queues ++ [buffers.defQueue.stop data.length]⟩ :
        SocketBuffer).find socket = some (buffers.defQueue.stop data.length) := by
      have hkey : (buffers.defQueue.stop data.length).socket = socket := hown
      show KeyedList.lookup _ _ (buffers.queues ++ _) = _
      rw [KeyedList.lookup_append, KeyedList.lookup_cons, if_pos hkey]
      show (buffers.find socket).or _ = _
      rw [hfind]
      rfl
    rw [hstep]
    refine ⟨?_, ended_put_away hfind (.inr hown) _⟩
    rw [Rest, hafter]
    exact ⟨rfl, ⟨hfilled.headerlen, hfilled.header, hfilled.data⟩, rfl⟩
  · simp only [hfind] at h
    have hstep : buffers.interrupted malloc socket data.length =
        buffers.modify socket (SocketQueue.stop data.length) := by
      simp only [interrupted, hfind]
    have hafter : (buffers.modify socket (SocketQueue.stop data.length)).find socket =
        some (queue.stop data.length) :=
      find_modify (SocketQueue.socket_stop data.length) hfind
    have hgoing : Going socket buffers (buffers.modify socket (SocketQueue.stop data.length)) :=
      going_modify _ _ (SocketQueue.socket_stop data.length)
    rw [hstep]
    refine ⟨?_, fun other _ hne ↦ hgoing.others other hne, hgoing.single, .inr ⟨?_, rfl⟩⟩
    · rw [Rest, hafter]
      exact ⟨rfl, ⟨h.headerlen, h.header, h.data⟩, rfl⟩
    · rw [hfind]
      rfl

/-- A socket without a queue has nothing kept. -/
theorem rest_of_find_eq_none (hfind : buffers.find socket = none) : buffers.Rest socket [] [] := by
  rw [Rest, hfind]
  exact ⟨rfl, rfl⟩

/-- A read that is interrupted before its first byte keeps nothing. -/
theorem interrupted_empty (hsocket : socket ≠ 0) (hfind : buffers.find socket = none)
    (hfree : buffers.defQueue.socket = 0) :
    (buffers.interrupted malloc socket 0).Rest socket [] [] ∧
      Ended socket buffers (buffers.interrupted malloc socket 0) := by
  have hstep : buffers.interrupted malloc socket 0 =
      ⟨newDefQ malloc, buffers.queues ++ [buffers.defQueue.stop 0]⟩ := by
    simp only [interrupted, hfind]
  have hkey : (buffers.defQueue.stop 0).socket ≠ socket := by
    show buffers.defQueue.socket ≠ socket
    omega
  have hafter : (⟨newDefQ malloc, buffers.queues ++ [buffers.defQueue.stop 0]⟩ :
      SocketBuffer).find socket = none := by
    show KeyedList.lookup _ _ (buffers.queues ++ _) = _
    rw [KeyedList.lookup_append, KeyedList.lookup_cons, if_neg hkey]
    show (buffers.find socket).or _ = _
    rw [hfind]
    rfl
  rw [hstep]
  exact ⟨rest_of_find_eq_none hafter, ended_put_away hfind (.inl hfree) _⟩

/-- An interrupted read of the header keeps what has come of it. -/
theorem interrupted_inHand (hsocket : socket ≠ 0) {header : Bytes}
    (h : buffers.InHand socket header header.length []) :
    (buffers.interrupted malloc socket 0).Rest socket header [] ∧
      Ended socket buffers (buffers.interrupted malloc socket 0) := by
  rcases hfind : buffers.find socket with - | queue
  · obtain ⟨-, -, ⟨rfl, hfree⟩ | ⟨hown, -, hfilled, -⟩⟩ := (inHand_default hfind).1 h
    · exact interrupted_empty hsocket hfind hfree
    · have hloaded : buffers.Loaded socket header [] := by
        rw [Loaded, hfind]
        exact ⟨hown, hfilled⟩
      exact interrupted_loaded hloaded
  · have hloaded : buffers.Loaded socket header [] := by
      rw [Loaded, hfind]
      exact ((inHand_own hfind).1 h).2.1
    exact interrupted_loaded hloaded

/-- **A complete read keeps nothing**, and leaves the default queue free. -/
theorem complete_rest (hsocket : socket ≠ 0) (hsingle : buffers.Single) :
    (buffers.complete socket).Rest socket [] [] ∧ Ended socket buffers (buffers.complete socket) ∧
      (buffers.complete socket).defQueue.socket = 0 := by
  rcases hfind : buffers.find socket with - | queue
  · have hstep : buffers.complete socket = ⟨buffers.defQueue.reset, buffers.queues⟩ := by
      simp only [complete, hfind]
    rw [hstep]
    exact ⟨rest_of_find_eq_none hfind, ⟨fun _ _ _ ↦ rfl, id, .inl rfl⟩, rfl⟩
  · have hstep : buffers.complete socket =
        ⟨queue.reset, KeyedList.remove SocketQueue.socket socket buffers.queues⟩ := by
      simp only [complete, hfind]
    have hgone : KeyedList.lookup SocketQueue.socket socket
        (KeyedList.remove SocketQueue.socket socket buffers.queues) = none :=
      KeyedList.lookup_remove_self (hsingle socket hsocket)
    rw [hstep]
    exact ⟨rest_of_find_eq_none hgone, ⟨fun other _ hne ↦ KeyedList.lookup_remove_of_ne hne _,
      fun h other hother ↦ (h other hother).remove, .inl rfl⟩, rfl⟩

/-- The socket takes up what it has kept. -/
theorem inHand_of_rest {header data : Bytes} (h : buffers.Rest socket header data)
    (hfree : buffers.defQueue.socket = 0 ∨ (buffers.find socket).isSome) :
    buffers.InHand socket header 0 data := by
  rw [Rest] at h
  rcases hfind : buffers.find socket with - | queue
  · simp only [hfind] at h
    rw [hfind] at hfree
    obtain ⟨rfl, rfl⟩ := h
    exact (inHand_default hfind).2 ⟨rfl, rfl, .inl ⟨rfl, hfree.resolve_right (by simp)⟩⟩
  · simp only [hfind] at h
    exact (inHand_own hfind).2 h

end End

end SocketBuffer

end Reading
