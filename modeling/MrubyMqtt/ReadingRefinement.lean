import MrubyMqtt.SocketBuffers

/-!
# The packets of a socket are the packets of its byte stream

However the bytes of several connections are cut into pieces and interleaved, the factory returns
on each socket the packets that the one-shot reader cuts out of the bytes received on it
(`packets_eq_frames`), as long as a socket whose read has failed is closed before another one finds
the default queue in its name. Where it is not, the bytes of an interrupted read are lost
(`not_framed_of_foreign`).
-/

open Bytes

namespace Reading

/-! ### The one-shot reader -/

/-- The factory gives what was there before the packet and after it. -/
theorem mqttPacketFactory_cons (header : UInt8) (stream : Bytes) :
    mqttPacketFactory (header :: stream) =
      (Base128.decode 4 stream).bind fun d ↦
        if d.1 ≤ d.2.length then some (header, d.2.take d.1, d.2.drop d.1) else none := by
  have hdec : mqttPacketDecode stream = Base128.decode 4 stream := by
    rw [mqttPacketDecode, Base128.decodeAcc_eq, maxNoOfRemainingLengthBytes]
    simp
  rw [mqttPacketFactory, hdec]
  rcases Base128.decode 4 stream with - | ⟨n, rest⟩ <;> rfl

/-- The one-shot reader as a framer. -/
def packetFramer : Framer UInt8 (UInt8 × Bytes) where
  next stream := (mqttPacketFactory stream).map fun p ↦ ((p.1, p.2.1), p.2.2)
  shorter := by
    intro bs rest frame h
    rw [Option.map_eq_some_iff] at h
    obtain ⟨⟨header, data, tail⟩, h, heq⟩ := h
    obtain ⟨rfl, rfl⟩ : (header, data) = frame ∧ tail = rest := by simpa using heq
    rcases bs with - | ⟨b, bs⟩
    · cases h
    · rw [mqttPacketFactory_cons, Option.bind_eq_some_iff] at h
      obtain ⟨⟨n, stream⟩, hdec, h⟩ := h
      have hlt : stream.length < bs.length := Base128.length_lt_of_decode hdec
      split_ifs at h with hle
      simp only [Option.some.injEq, Prod.mk.injEq] at h
      rw [← h.2.2, List.length_drop, List.length_cons]
      omega
  stable := by
    intro bs rest frame more h
    rw [Option.map_eq_some_iff] at h
    obtain ⟨⟨header, data, tail⟩, h, heq⟩ := h
    obtain ⟨rfl, rfl⟩ : (header, data) = frame ∧ tail = rest := by simpa using heq
    rcases bs with - | ⟨b, bs⟩
    · cases h
    · rw [mqttPacketFactory_cons, Option.bind_eq_some_iff] at h
      obtain ⟨⟨n, stream⟩, hdec, h⟩ := h
      split_ifs at h with hle
      simp only [Option.some.injEq, Prod.mk.injEq] at h hle
      obtain ⟨rfl, rfl, rfl⟩ := h
      have hlong : n ≤ (stream ++ more).length := by
        rw [List.length_append]
        omega
      rw [List.cons_append, mqttPacketFactory_cons, Base128.decode_append hdec, Option.bind_some,
        if_pos hlong, List.take_append_of_le_length hle, List.drop_append_of_le_length hle]
      rfl

theorem packetFramer_next (stream : Bytes) :
    packetFramer.next stream = (mqttPacketFactory stream).map fun p ↦ ((p.1, p.2.1), p.2.2) := rfl

theorem next_eq_none_iff {stream : Bytes} :
    packetFramer.next stream = none ↔ mqttPacketFactory stream = none :=
  Option.map_eq_none_iff

/-! ### The socket layer -/

/-- What a call has taken from the network, with no byte written where none belongs. -/
structure Used (before after : Net) (used : List Recv) : Prop where
  /-- The answers it got. -/
  answers : before.answers = used ++ after.answers
  /-- It has kept within its buffers. -/
  overrun : after.overrun = before.overrun

theorem Used.trans {a b c : Net} {us vs : List Recv} (hab : Used a b us) (hbc : Used b c vs) :
    Used a c (us ++ vs) where
  answers := by rw [hab.answers, hbc.answers, List.append_assoc]
  overrun := hbc.overrun.trans hab.overrun

theorem recv_eq_some {net net' : Net} {request : ℕ} {answer : Recv}
    (h : recv net request = some (answer, net')) :
    answer.Answers request ∧ net.answers = answer :: net'.answers ∧
      net'.buffers = net.buffers ∧ net'.overrun = net.overrun := by
  obtain ⟨buffers, answers, overrun⟩ := net
  rcases answers with - | ⟨first, answers⟩
  · cases h
  · simp only [recv] at h
    split_ifs at h with hanswers
    simp only [Option.some.injEq, Prod.mk.injEq] at h
    obtain ⟨rfl, rfl⟩ := h
    exact ⟨hanswers, rfl, rfl, rfl⟩

section Socket

variable {malloc : SocketQueue} {socket : ℕ} {net net' : Net}

/-- `Socket_getch` where a header byte is kept. -/
theorem socketGetch_kept (malloc : SocketQueue) {header data : Bytes} {pos : ℕ}
    (h : net.buffers.InHand socket header pos data) (hpos : pos < header.length) :
    ∃ after : Net, socketGetch malloc socket net = some (.complete header[pos], after) ∧
      Used net after [] ∧ SocketBuffer.Going socket net.buffers after.buffers ∧
      after.buffers.InHand socket header (pos + 1) data := by
  obtain ⟨buffers, hget, hinHand, hgoing⟩ := SocketBuffer.getQueuedChar_kept h hpos
  refine ⟨{ net with buffers := buffers }, ?_, ⟨rfl, rfl⟩, hgoing, hinHand⟩
  simp only [socketGetch, hget]

/-- `Socket_getch` where it comes from the network. -/
theorem socketGetch_recv (hsocket : socket ≠ 0) {header : Bytes}
    (h : net.buffers.InHand socket header header.length []) (hroom : header.length ≤ 4)
    {outcome : Outcome UInt8} (hget : socketGetch malloc socket net = some (outcome, net')) :
    ∃ answer, Used net net' [answer] ∧
      match outcome with
      | .complete c => answer.bytes = [c] ∧ SocketBuffer.Going socket net.buffers net'.buffers ∧
        net'.buffers.InHand socket (header ++ [c]) (header ++ [c]).length []
      | .interrupted => answer.bytes = [] ∧ SocketBuffer.Ended socket net.buffers net'.buffers ∧
        net'.buffers.Rest socket header []
      | .error => answer.bytes = [] ∧ net'.buffers = net.buffers := by
  rw [socketGetch, SocketBuffer.getQueuedChar_none h hroom] at hget
  simp only at hget
  rcases hrecv : recv net 1 with - | ⟨answer, mid⟩
  · simp [hrecv] at hget
  · obtain ⟨hanswers, hused, hbuffers, hoverrun⟩ := recv_eq_some hrecv
    simp only [hrecv] at hget
    rcases answer with bytes | - | - | -
    · rcases bytes with - | ⟨c, bytes⟩
      · exact absurd hanswers.1 (Nat.lt_irrefl 0)
      · simp only [Option.some.injEq, Prod.mk.injEq] at hget
        obtain ⟨rfl, rfl⟩ := hget
        obtain rfl : bytes = [] := by
          have hlen : bytes.length + 1 ≤ 1 := hanswers.2
          exact List.length_eq_zero_iff.1 (by omega)
        obtain ⟨hinHand, hgoing⟩ := SocketBuffer.queueChar_inHand hsocket h hroom c
        refine ⟨.data [c], ⟨hused, hoverrun⟩, rfl, ?_, ?_⟩
        · rw [hbuffers]
          exact hgoing
        · rw [hbuffers]
          exact hinHand
    · simp only [Option.some.injEq, Prod.mk.injEq] at hget
      obtain ⟨rfl, rfl⟩ := hget
      obtain ⟨hrest, hended⟩ :
          (net.buffers.interrupted malloc socket 0).Rest socket header [] ∧ _ :=
        SocketBuffer.interrupted_inHand hsocket h
      refine ⟨.wouldBlock, ⟨hused, hoverrun⟩, rfl, ?_, ?_⟩
      · rw [hbuffers]
        exact hended
      · rw [hbuffers]
        exact hrest
    · simp only [Option.some.injEq, Prod.mk.injEq] at hget
      obtain ⟨rfl, rfl⟩ := hget
      exact ⟨.closed, ⟨hused, hoverrun⟩, rfl, hbuffers⟩
    · simp only [Option.some.injEq, Prod.mk.injEq] at hget
      obtain ⟨rfl, rfl⟩ := hget
      exact ⟨.failed, ⟨hused, hoverrun⟩, rfl, hbuffers⟩

theorem sizeT_sub {n m : ℕ} (hlt : m < n) (hn : n < 128 ^ 4) : sizeT ((n : ℤ) - m) = n - m := by
  rw [sizeT]
  omega

/-- What `Socket_getdata` leaves behind when nothing has failed. -/
def Got (socket : ℕ) (header data : Bytes) (bytes : ℕ) (buf : Bytes) (actualLen : ℕ)
    (before after : SocketBuffer) : Prop :=
  SocketBuffer.Ended socket before after ∧ actualLen = data.length ∧
    if actualLen = bytes then
      buf.take bytes = data ∧ after.Rest socket [] [] ∧ after.defQueue.socket = 0
    else actualLen < bytes ∧ after.Rest socket header data

/-- The end of `Socket_getdata`. -/
theorem afterRecv_spec (hsocket : socket ≠ 0) (hsingle : net.buffers.Single)
    {header data : Bytes} (hheader : header ≠ [])
    (h : net.buffers.InHand socket header header.length data) {more : Bytes} {bytes : ℕ}
    (hfit : data.length + more.length ≤ bytes)
    (hroom : bytes ≤ (bufferOf net.buffers socket).buflen) {buf : Bytes} {actualLen : ℕ}
    (hafter : afterRecv malloc socket bytes data.length more net = ((buf, actualLen), net')) :
    Used net net' [] ∧
      Got socket header (data ++ more) bytes buf actualLen net.buffers net'.buffers := by
  obtain ⟨hloaded, hgoing, hoverrun⟩ := SocketBuffer.store_inHand hheader h
    (Nat.le_trans hfit hroom)
  have hlen : data.length + more.length = (data ++ more).length := List.length_append.symm
  have hanswers : (store socket data.length more net).answers = net.answers := rfl
  rw [afterRecv] at hafter
  simp only [hlen] at hafter
  split_ifs at hafter with hall
  · simp only [Prod.mk.injEq] at hafter
    obtain ⟨⟨rfl, rfl⟩, rfl⟩ := hafter
    obtain ⟨hrest, hended, hfree⟩ := SocketBuffer.complete_rest hsocket (hgoing.single hsingle)
    refine ⟨⟨hanswers.symm, hoverrun⟩, hgoing.ended hended, rfl, ?_⟩
    rw [if_pos hall, ← hall]
    exact ⟨SocketBuffer.take_buf_of_loaded hloaded, hrest, hfree⟩
  · simp only [Prod.mk.injEq] at hafter
    obtain ⟨⟨rfl, rfl⟩, rfl⟩ := hafter
    obtain ⟨hrest, hended⟩ := SocketBuffer.interrupted_loaded hloaded
    refine ⟨⟨hanswers.symm, hoverrun⟩, hgoing.ended hended, rfl, ?_⟩
    rw [if_neg hall]
    exact ⟨by omega, hrest⟩

theorem Got.of_going {header data : Bytes} {bytes : ℕ} {buf : Bytes} {actualLen : ℕ}
    {a b c : SocketBuffer} (hab : SocketBuffer.Going socket a b)
    (h : Got socket header data bytes buf actualLen b c) :
    Got socket header data bytes buf actualLen a c :=
  ⟨hab.ended h.1, h.2⟩

/-- `Socket_getdata`. -/
theorem socketGetdata_spec (hsocket : socket ≠ 0) (hsingle : net.buffers.Single)
    {header data : Bytes} (hheader : header ≠ [])
    (h : net.buffers.InHand socket header header.length data) {bytes : ℕ}
    (hbytes : data.length < bytes ∨ bytes = 0 ∧ data = []) (hlimit : bytes < 128 ^ 4)
    {result : Option (Bytes × ℕ)}
    (hget : socketGetdata malloc socket bytes net = some (result, net')) :
    ∃ used, Used net net' used ∧
      match result with
      | none => used.flatMap Recv.bytes = [] ∧ SocketBuffer.Going socket net.buffers net'.buffers
      | some (buf, actualLen) =>
        Got socket header (data ++ used.flatMap Recv.bytes) bytes buf actualLen net.buffers
          net'.buffers := by
  rcases hbytes with hlt | ⟨rfl, rfl⟩
  · obtain ⟨buffers, hqueued, hinHand, hgoing, hroom⟩ :=
      SocketBuffer.getQueuedData_inHand hheader h bytes
    have hne : bytes ≠ 0 := by omega
    rw [socketGetdata, if_neg hne, hqueued] at hget
    simp only at hget
    rw [sizeT_sub hlt hlimit] at hget
    rcases hrecv : recv { net with buffers := buffers } (bytes - data.length) with
      - | ⟨answer, mid⟩
    · simp [hrecv] at hget
    · obtain ⟨hanswers, hused, rfl, hoverrun⟩ := recv_eq_some hrecv
      have hmid : Used net mid [answer] := ⟨hused, hoverrun⟩
      simp only [hrecv] at hget
      rcases answer with more | - | - | -
      · have hfit : data.length + more.length ≤ bytes := by
          have hle : more.length ≤ bytes - data.length := hanswers.2
          omega
        rcases hafter : afterRecv malloc socket bytes data.length more mid with ⟨⟨buf, len⟩, after⟩
        obtain ⟨husedAfter, hgot⟩ :=
          afterRecv_spec hsocket (hgoing.single hsingle) hheader hinHand hfit hroom hafter
        simp only [hafter, Option.some.injEq, Prod.mk.injEq] at hget
        obtain ⟨rfl, rfl⟩ := hget
        refine ⟨[.data more], hmid.trans husedAfter, ?_⟩
        rw [List.flatMap_singleton]
        exact hgot.of_going hgoing
      · rcases hafter : afterRecv malloc socket bytes data.length [] mid with ⟨⟨buf, len⟩, after⟩
        obtain ⟨husedAfter, hgot⟩ := afterRecv_spec hsocket (hgoing.single hsingle) hheader hinHand
          (Nat.le_of_lt hlt) hroom hafter
        simp only [hafter, Option.some.injEq, Prod.mk.injEq] at hget
        obtain ⟨rfl, rfl⟩ := hget
        refine ⟨[.wouldBlock], hmid.trans husedAfter, ?_⟩
        rw [List.flatMap_singleton]
        exact hgot.of_going hgoing
      · simp only [Option.some.injEq, Prod.mk.injEq] at hget
        obtain ⟨rfl, rfl⟩ := hget
        exact ⟨[.closed], hmid, rfl, hgoing⟩
      · simp only [Option.some.injEq, Prod.mk.injEq] at hget
        obtain ⟨rfl, rfl⟩ := hget
        exact ⟨[.failed], hmid, rfl, hgoing⟩
  · rw [socketGetdata, if_pos rfl] at hget
    simp only [Option.some.injEq, Prod.mk.injEq] at hget
    obtain ⟨rfl, rfl⟩ := hget
    obtain ⟨hrest, hended, hfree⟩ := SocketBuffer.complete_rest hsocket hsingle
    refine ⟨[], ⟨rfl, rfl⟩, hended, rfl, ?_⟩
    rw [if_pos rfl]
    exact ⟨rfl, hrest, hfree⟩

/-! ### A packet -/

/-- Digits that all say that another one follows. -/
def Continued (digits : Bytes) : Prop := ∀ b ∈ digits, 128 ≤ b.toNat

/-- What is kept of a remaining length, and of the data: a length that is not complete has no data
behind it. -/
def Unread (len : ℕ) (digits data : Bytes) : Prop :=
  Continued digits ∧ digits.length ≤ len ∧ data = [] ∨ ∃ n, Base128.decode len digits = some (n, [])

theorem Unread.tail {len : ℕ} {c : UInt8} {digits data : Bytes}
    (h : Unread (len + 1) (c :: digits) data) (hc : ¬ c.toNat < 128) : Unread len digits data := by
  rcases h with ⟨hcontinued, hlen, hdata⟩ | ⟨n, hn⟩
  · refine .inl ⟨fun b hb ↦ hcontinued b (List.mem_cons_of_mem _ hb), ?_, hdata⟩
    simpa using hlen
  · rw [Base128.decode, if_neg hc, Option.map_eq_some_iff] at hn
    obtain ⟨⟨m, rest⟩, hm, heq⟩ := hn
    obtain rfl : rest = [] := congrArg Prod.snd heq
    exact .inr ⟨m, hm⟩

/-- A digit that ends the length is the last one that is kept. -/
theorem Unread.last {len : ℕ} {c : UInt8} {digits data : Bytes}
    (h : Unread (len + 1) (c :: digits) data) (hc : c.toNat < 128) : digits = [] := by
  rcases h with ⟨hcontinued, -, -⟩ | ⟨n, hn⟩
  · have := hcontinued c (List.mem_cons_self ..)
    omega
  · rw [Base128.decode, if_pos hc] at hn
    exact congrArg Prod.snd (Option.some.inj hn)

theorem Unread.data_eq_nil {len : ℕ} {data : Bytes} (h : Unread (len + 1) [] data) :
    data = [] := by
  rcases h with ⟨-, -, hdata⟩ | ⟨n, hn⟩
  · exact hdata
  · cases hn

/-- What the loop of `MQTTPacket_decode` leaves behind, if `digits` is the remaining length as far
as it is there now. -/
def DigitsRead (socket len value multiplier : ℕ) (front digits data : Bytes)
    (before after : SocketBuffer) : Outcome ℕ → Prop
  | .complete n =>
    SocketBuffer.Going socket before after ∧
      after.InHand socket (front ++ digits) (front ++ digits).length data ∧
      Base128.decodeAcc len value multiplier digits = some (n, [])
  | .interrupted =>
    SocketBuffer.Ended socket before after ∧ after.Rest socket (front ++ digits) [] ∧
      Continued digits ∧ digits.length ≤ len
  | .error => SocketBuffer.Going socket before after

/-- One digit that says that another one follows. -/
theorem DigitsRead.cons {len value multiplier : ℕ} {front digits data : Bytes}
    {a b c : SocketBuffer} {digit : UInt8} (hdigit : ¬ digit.toNat < 128)
    (hab : SocketBuffer.Going socket a b) {outcome : Outcome ℕ}
    (h : DigitsRead socket len (value + digit.toNat % 128 * multiplier) (multiplier * 128)
      (front ++ [digit]) digits data b c outcome) :
    DigitsRead socket (len + 1) value multiplier front (digit :: digits) data a c outcome := by
  have hfront : front ++ [digit] ++ digits = front ++ digit :: digits := by simp
  rcases outcome with n | - | -
  · obtain ⟨hgoing, hinHand, hdecode⟩ := h
    rw [hfront] at hinHand
    refine ⟨hab.trans hgoing, hinHand, ?_⟩
    rw [Base128.decodeAcc, if_neg hdigit, hdecode]
  · obtain ⟨hended, hrest, hcontinued, hlen⟩ := h
    rw [hfront] at hrest
    refine ⟨hab.ended hended, hrest, ?_, Nat.succ_le_succ hlen⟩
    intro b hb
    rcases List.mem_cons.1 hb with rfl | hb
    · omega
    · exact hcontinued b hb
  · exact hab.trans h

/-- **The remaining length.** Induction on the number of digits that may still come. -/
theorem decodeLoop_spec (hsocket : socket ≠ 0) {len value multiplier : ℕ}
    {front digits data : Bytes} (hdigits : Unread len digits data) (hfront : front.length + len = 5)
    (h : net.buffers.InHand socket (front ++ digits) front.length data) {outcome : Outcome ℕ}
    (hread : decodeLoop malloc socket len value multiplier net = some (outcome, net')) :
    ∃ used, Used net net' used ∧ (data = [] ∨ used.flatMap Recv.bytes = []) ∧
      DigitsRead socket len value multiplier front (digits ++ used.flatMap Recv.bytes) data
        net.buffers net'.buffers outcome := by
  induction len generalizing value multiplier front digits net with
  | zero =>
    simp only [decodeLoop, Option.some.injEq, Prod.mk.injEq] at hread
    obtain ⟨rfl, rfl⟩ := hread
    exact ⟨[], ⟨rfl, rfl⟩, .inr rfl, SocketBuffer.Going.refl _ _⟩
  | succ len ih =>
    rcases digits with - | ⟨c, digits⟩
    · -- Nothing more is kept: the digit comes from the network.
      obtain rfl := hdigits.data_eq_nil
      rw [List.append_nil] at h
      rw [decodeLoop] at hread
      rcases hget : socketGetch malloc socket net with - | ⟨got, mid⟩
      · simp [hget] at hread
      · obtain ⟨answer, hused, hgot⟩ := socketGetch_recv hsocket h (by omega) hget
        rcases got with c | - | -
        · obtain ⟨hbytes, hgoing, hinHand⟩ := hgot
          simp only [hget] at hread
          split_ifs at hread with hlast
          · simp only [Option.some.injEq, Prod.mk.injEq] at hread
            obtain ⟨rfl, rfl⟩ := hread
            refine ⟨[answer], hused, .inl rfl, ?_⟩
            rw [List.flatMap_singleton, hbytes]
            refine ⟨hgoing, hinHand, ?_⟩
            rw [List.nil_append, Base128.decodeAcc, if_pos hlast]
          · have hnone : Unread len [] [] :=
              .inl ⟨fun _ hb ↦ absurd hb List.not_mem_nil, Nat.zero_le _, rfl⟩
            have hfront' : (front ++ [c]).length + len = 5 := by
              rw [List.length_append, List.length_singleton]
              omega
            rw [← List.append_nil (front ++ [c])] at hinHand
            obtain ⟨used, husedRest, -, hrest⟩ := ih hnone hfront' (by simpa using hinHand) hread
            refine ⟨answer :: used, hused.trans husedRest, .inl rfl, ?_⟩
            rw [List.flatMap_cons, hbytes]
            exact hrest.cons hlast hgoing
        · obtain ⟨hbytes, hended, hrest⟩ := hgot
          simp only [hget, Option.some.injEq, Prod.mk.injEq] at hread
          obtain ⟨rfl, rfl⟩ := hread
          refine ⟨[answer], hused, .inl rfl, ?_⟩
          rw [List.flatMap_singleton, hbytes]
          refine ⟨hended, ?_, fun _ hb ↦ absurd hb List.not_mem_nil, Nat.zero_le _⟩
          simpa using hrest
        · obtain ⟨hbytes, hsame⟩ := hgot
          simp only [hget, Option.some.injEq, Prod.mk.injEq] at hread
          obtain ⟨rfl, rfl⟩ := hread
          refine ⟨[answer], hused, .inl rfl, ?_⟩
          show SocketBuffer.Going socket net.buffers mid.buffers
          rw [hsame]
          exact SocketBuffer.Going.refl _ _
    · -- The digit is kept from an earlier call.
      have hpos : front.length < (front ++ c :: digits).length := by simp
      have hc : (front ++ c :: digits)[front.length] = c := by simp
      obtain ⟨mid, hget, hused, hgoing, hinHand⟩ := socketGetch_kept malloc h hpos
      rw [hc] at hget
      rw [decodeLoop] at hread
      simp only [hget] at hread
      split_ifs at hread with hlast
      · obtain rfl := hdigits.last hlast
        simp only [Option.some.injEq, Prod.mk.injEq] at hread
        obtain ⟨rfl, rfl⟩ := hread
        refine ⟨[], hused, .inr rfl, hgoing, ?_, ?_⟩
        · simpa using hinHand
        · rw [List.flatMap_nil, List.append_nil, Base128.decodeAcc, if_pos hlast]
      · have hfront' : (front ++ [c]).length + len = 5 := by
          rw [List.length_append, List.length_singleton]
          omega
        have hinHand' : mid.buffers.InHand socket (front ++ [c] ++ digits) (front ++ [c]).length
            data := by
          simpa using hinHand
        obtain ⟨used, husedRest, hfew, hrest⟩ := ih (hdigits.tail hlast) hfront' hinHand' hread
        exact ⟨used, hused.trans husedRest, hfew, hrest.cons hlast hgoing⟩

/-- What is kept behind the header byte: a part of the remaining length, or all of it and too few
data. -/
def Begun (digits data : Bytes) : Prop :=
  Continued digits ∧ digits.length ≤ 4 ∧ data = [] ∨
    ∃ n, Base128.decode 4 digits = some (n, []) ∧ data.length < n

/-- What is kept of a packet that is not complete. -/
def Unfinished (header data : Bytes) : Prop :=
  header = [] ∧ data = [] ∨ ∃ b digits, header = b :: digits ∧ Begun digits data

/-- To the one-shot reader such a packet is incomplete. -/
theorem Unfinished.mqttPacketFactory_eq_none {header data : Bytes} (h : Unfinished header data) :
    mqttPacketFactory (header ++ data) = none := by
  rcases h with ⟨rfl, rfl⟩ | ⟨b, digits, rfl, h⟩
  · rfl
  · rw [List.cons_append, mqttPacketFactory_cons]
    rcases h with ⟨hcontinued, -, rfl⟩ | ⟨n, hn, hlt⟩
    · rw [List.append_nil, Base128.decode_eq_none_of_continued 4 hcontinued]
      rfl
    · rw [Base128.decode_append hn data, Option.bind_some, if_neg (by simpa using hlt)]

/-- What a call of the factory leaves behind, if `stream` is what was kept and what has come in. -/
def PacketRead (socket : ℕ) (stream : Bytes) (before after : SocketBuffer) :
    Outcome (UInt8 × Bytes) → Prop
  | .complete packet =>
    SocketBuffer.Ended socket before after ∧ after.Rest socket [] [] ∧
      packetFramer.next stream = some (packet, [])
  | .interrupted =>
    SocketBuffer.Ended socket before after ∧
      ∃ header data, header ++ data = stream ∧ after.Rest socket header data ∧
        Unfinished header data
  | .error => SocketBuffer.Going socket before after

theorem PacketRead.of_going {stream : Bytes} {a b c : SocketBuffer}
    (hab : SocketBuffer.Going socket a b) {outcome : Outcome (UInt8 × Bytes)}
    (h : PacketRead socket stream b c outcome) : PacketRead socket stream a c outcome := by
  rcases outcome with packet | - | -
  · exact ⟨hab.ended h.1, h.2⟩
  · exact ⟨hab.ended h.1, h.2⟩
  · exact hab.trans h

theorem Begun.unread {digits data : Bytes} (h : Begun digits data) : Unread 4 digits data := by
  rcases h with h | ⟨n, hn, -⟩
  · exact .inl h
  · exact .inr ⟨n, hn⟩

/-- While the remaining length is not complete there are no data. -/
theorem Begun.data_eq_nil {digits more data : Bytes} (h : Begun digits data)
    (hcontinued : Continued (digits ++ more)) : data = [] := by
  rcases h with ⟨-, -, hdata⟩ | ⟨n, hn, -⟩
  · exact hdata
  · have hdigits : Continued digits := fun b hb ↦ hcontinued b (List.mem_append_left _ hb)
    rw [Base128.decode_eq_none_of_continued 4 hdigits] at hn
    cases hn

/-- When it is, the data that are kept are too few, or none. -/
theorem Begun.length_lt {digits more data : Bytes} (h : Begun digits data) {n : ℕ}
    (hn : Base128.decode 4 (digits ++ more) = some (n, [])) :
    data.length < n ∨ n = 0 ∧ data = [] := by
  rcases h with ⟨-, -, rfl⟩ | ⟨m, hm, hlt⟩
  · rcases Nat.eq_zero_or_pos n with hzero | hpos
    · exact .inr ⟨hzero, rfl⟩
    · exact .inl hpos
  · rw [Base128.decode_append hm more, Option.some.injEq, Prod.mk.injEq] at hn
    exact .inl (hn.1 ▸ hlt)

/-- From the remaining length on. -/
theorem factoryRest_spec (hsocket : socket ≠ 0) (hsingle : net.buffers.Single) {b : UInt8}
    {digits data : Bytes} (hbegun : Begun digits data)
    (h : net.buffers.InHand socket (b :: digits) 1 data) {outcome : Outcome (UInt8 × Bytes)}
    (hread : factoryRest malloc socket b net = some (outcome, net')) :
    ∃ used, Used net net' used ∧
      PacketRead socket (b :: digits ++ data ++ used.flatMap Recv.bytes) net.buffers net'.buffers
        outcome := by
  rw [factoryRest] at hread
  rcases hdecode : decode malloc socket net with - | ⟨got, mid⟩
  · simp [hdecode] at hread
  · have hfront : net.buffers.InHand socket ([b] ++ digits) [b].length data := h
    obtain ⟨used, hused, hfew, hgot⟩ :=
      decodeLoop_spec hsocket hbegun.unread rfl hfront hdecode
    rcases got with n | - | -
    · obtain ⟨hgoing, hinHand, hacc⟩ := hgot
      have hn : Base128.decode 4 (digits ++ used.flatMap Recv.bytes) = some (n, []) := by
        rw [Base128.decodeAcc_eq] at hacc
        simpa using hacc
      simp only [hdecode] at hread
      rcases hdata : socketGetdata malloc socket n mid with - | ⟨result, after⟩
      · simp [hdata] at hread
      · obtain ⟨usedData, husedData, hresult⟩ := socketGetdata_spec hsocket
          (hgoing.single hsingle) (List.cons_ne_nil b _) hinHand (hbegun.length_lt hn)
          (Base128.decode_lt hn) hdata
        -- Data are kept from an earlier call, or the length is read in this one, not both.
        have hstream : b :: digits ++ data ++ (used ++ usedData).flatMap Recv.bytes =
            b :: (digits ++ used.flatMap Recv.bytes) ++
              (data ++ usedData.flatMap Recv.bytes) := by
          rcases hfew with rfl | hnone
          · simp
          · simp [hnone]
        rcases result with - | ⟨buf, actualLen⟩
        · simp only [hdata, Option.some.injEq, Prod.mk.injEq] at hread
          obtain ⟨rfl, rfl⟩ := hread
          exact ⟨used ++ usedData, hused.trans husedData, hgoing.trans hresult.2⟩
        · obtain ⟨hended, hlen, hrest⟩ := hresult
          simp only [hdata] at hread
          obtain rfl : after = net' := by
            split_ifs at hread <;> exact (Prod.mk.inj (Option.some.inj hread)).2
          refine ⟨used ++ usedData, hused.trans husedData, ?_⟩
          rw [hstream]
          by_cases hall : actualLen = n
          · rw [if_pos hall] at hrest
            rw [if_neg (not_not_intro hall)] at hread
            obtain rfl : _ = outcome := (Prod.mk.inj (Option.some.inj hread)).1
            refine ⟨hgoing.ended hended, hrest.2.1, ?_⟩
            show (mqttPacketFactory _).map _ = _
            rw [List.cons_append, mqttPacketFactory_cons, Base128.decode_append hn,
              Option.bind_some, List.nil_append, ← hall, hlen, if_pos (Nat.le_refl _),
              List.take_length, List.drop_length, Option.map_some, ← hlen, hall, hrest.1]
          · rw [if_neg hall] at hrest
            rw [if_pos hall] at hread
            obtain rfl : _ = outcome := (Prod.mk.inj (Option.some.inj hread)).1
            exact ⟨hgoing.ended hended, _, _, rfl, hrest.2,
              .inr ⟨b, _, rfl, .inr ⟨n, hn, hlen ▸ hrest.1⟩⟩⟩
    · obtain ⟨hended, hrest, hcontinued, hlen⟩ := hgot
      obtain rfl := hbegun.data_eq_nil hcontinued
      simp only [hdecode, Option.some.injEq, Prod.mk.injEq] at hread
      obtain ⟨rfl, rfl⟩ := hread
      refine ⟨used, hused, hended, _, [], ?_, hrest,
        .inr ⟨b, _, rfl, .inl ⟨hcontinued, hlen, rfl⟩⟩⟩
      simp
    · simp only [hdecode, Option.some.injEq, Prod.mk.injEq] at hread
      obtain ⟨rfl, rfl⟩ := hread
      exact ⟨used, hused, hgot⟩

/-- **One call of the factory.** Together with what was kept, the bytes that come in are a packet,
or are kept. -/
theorem factory_spec (hsocket : socket ≠ 0) (hsingle : net.buffers.Single) {header data : Bytes}
    (hrest : net.buffers.Rest socket header data) (hunfinished : Unfinished header data)
    (hfree : net.buffers.defQueue.socket = 0 ∨ (net.buffers.find socket).isSome)
    {outcome : Outcome (UInt8 × Bytes)}
    (hread : factory malloc socket net = some (outcome, net')) :
    ∃ used, Used net net' used ∧
      PacketRead socket (header ++ data ++ used.flatMap Recv.bytes) net.buffers net'.buffers
        outcome := by
  have h : net.buffers.InHand socket header 0 data := SocketBuffer.inHand_of_rest hrest hfree
  rw [factory] at hread
  rcases hunfinished with ⟨rfl, rfl⟩ | ⟨b, digits, rfl, hbegun⟩
  · rcases hget : socketGetch malloc socket net with - | ⟨got, mid⟩
    · simp [hget] at hread
    · obtain ⟨answer, hused, hgot⟩ := socketGetch_recv hsocket h (Nat.zero_le 4) hget
      rcases got with b | - | -
      · obtain ⟨hbytes, hgoing, hinHand⟩ := hgot
        simp only [hget] at hread
        have hbegun : Begun [] [] :=
          .inl ⟨fun _ hb ↦ absurd hb List.not_mem_nil, Nat.zero_le _, rfl⟩
        obtain ⟨used, husedRest, hpacket⟩ :=
          factoryRest_spec hsocket (hgoing.single hsingle) hbegun hinHand hread
        refine ⟨answer :: used, hused.trans husedRest, ?_⟩
        rw [List.flatMap_cons, hbytes]
        exact hpacket.of_going hgoing
      · obtain ⟨hbytes, hended, hkept⟩ := hgot
        simp only [hget, Option.some.injEq, Prod.mk.injEq] at hread
        obtain ⟨rfl, rfl⟩ := hread
        refine ⟨[answer], hused, hended, [], [], ?_, hkept, .inl ⟨rfl, rfl⟩⟩
        rw [List.flatMap_singleton, hbytes]
        rfl
      · simp only [hget, Option.some.injEq, Prod.mk.injEq] at hread
        obtain ⟨rfl, rfl⟩ := hread
        refine ⟨[answer], hused, ?_⟩
        show SocketBuffer.Going socket net.buffers mid.buffers
        rw [hgot.2]
        exact SocketBuffer.Going.refl _ _
  · obtain ⟨mid, hget, hused, hgoing, hinHand⟩ := socketGetch_kept malloc h (Nat.zero_lt_succ _)
    simp only [hget] at hread
    obtain ⟨used, husedRest, hpacket⟩ :=
      factoryRest_spec hsocket (hgoing.single hsingle) hbegun hinHand hread
    exact ⟨used, hused.trans husedRest, hpacket.of_going hgoing⟩

end Socket

/-! ### Runs -/

namespace SocketBuffer

/-- The bytes that are kept for a socket. -/
def held (buffers : SocketBuffer) (socket : ℕ) : Bytes :=
  match buffers.find socket with
  | some queue => queue.fixedHeader.toList.take queue.headerlen ++ queue.buf.take queue.datalen
  | none => []

theorem Rest.held_eq {buffers : SocketBuffer} {socket : ℕ} {header data : Bytes}
    (h : buffers.Rest socket header data) : buffers.held socket = header ++ data := by
  rw [Rest] at h
  rw [held]
  rcases hfind : buffers.find socket with - | queue
  · simp only [hfind] at h
    simp [h.1, h.2]
  · simp only [hfind] at h
    obtain ⟨-, hfilled, hdatalen⟩ := h
    simp only
    rw [hfilled.headerlen, hfilled.header, hdatalen, hfilled.data]

/-- What is kept for a socket depends on its own queue only. -/
theorem Rest.of_find_eq {before after : SocketBuffer} {socket : ℕ} {header data : Bytes}
    (h : before.Rest socket header data) (hfind : after.find socket = before.find socket) :
    after.Rest socket header data := by
  rw [Rest] at h ⊢
  rwa [hfind]

end SocketBuffer

namespace State

/-- The packets read from a socket are those of its byte stream, and the rest of the stream is
kept. -/
def Framed (s : State) (socket : ℕ) : Prop :=
  packetFramer.frames (s.received socket) = (s.packets socket, s.buffers.held socket)

/-- The invariant. -/
structure Good (s : State) : Prop where
  /-- No socket has two queues. -/
  single : s.buffers.Single
  /-- The default queue is free, or belongs to a socket whose read has failed. -/
  owner : s.buffers.defQueue.socket = 0 ∨ s.buffers.defQueue.socket ∈ s.broken
  /-- No `recv` has left its buffer. -/
  overrun : s.overrun = false
  /-- What is kept for a socket is what is left over of its bytes. -/
  kept : ∀ socket, socket ≠ 0 → socket ∉ s.broken → ∃ header data,
    s.buffers.Rest socket header data ∧ Unfinished header data ∧
      packetFramer.frames (s.received socket) = (s.packets socket, header ++ data)

theorem Good.framed {s : State} (h : s.Good) {socket : ℕ} (hsocket : socket ≠ 0)
    (hopen : socket ∉ s.broken) : s.Framed socket := by
  obtain ⟨header, data, hrest, -, hframes⟩ := h.kept socket hsocket hopen
  rw [Framed, hframes, hrest.held_eq]

/-- **The guard.** A socket whose read has failed is closed before it is read again, and before a
socket with nothing kept is read if the failed read has left its header in the default queue. -/
def Orderly (s : State) : Event → State → Prop
  | .factory socket _, _ =>
    socket ∉ s.broken ∧
      (s.buffers.defQueue.socket ∉ s.broken ∨ (s.buffers.find socket).isSome)
  | .close _, _ => True

instance (s : State) (e : Event) (s' : State) : Decidable (Orderly s e s') := by
  cases e
  · exact inferInstanceAs (Decidable (_ ∧ _))
  · exact inferInstanceAs (Decidable True)

theorem good_initial (malloc : SocketQueue) : (initial malloc).Good where
  single _ _ := Nat.zero_le 1
  owner := .inl rfl
  overrun := rfl
  kept _ _ _ := ⟨[], [], ⟨rfl, rfl⟩, .inl ⟨rfl, rfl⟩, packetFramer.frames_nil⟩

/-- What a call of the factory does to the state. -/
theorem step_factory {malloc : SocketQueue} {s s' : State} {socket : ℕ} {answers : List Recv}
    (h : s.step malloc (.factory socket answers) = some s') :
    socket ≠ 0 ∧ ∃ outcome buffers overrun,
      Reading.factory malloc socket ⟨s.buffers, answers, s.overrun⟩ =
        some (outcome, ⟨buffers, [], overrun⟩) ∧
      s'.buffers = buffers ∧ s'.overrun = overrun ∧
      s'.received = Function.update s.received socket
        (s.received socket ++ answers.flatMap Recv.bytes) ∧
      (match outcome with
        | .complete packet =>
          s'.packets = Function.update s.packets socket (s.packets socket ++ [packet]) ∧
            s'.broken = s.broken
        | .interrupted => s'.packets = s.packets ∧ s'.broken = s.broken
        | .error => s'.packets = s.packets ∧ s'.broken = socket :: s.broken) := by
  rw [step] at h
  split_ifs at h with hzero
  refine ⟨hzero, ?_⟩
  rcases hread : Reading.factory malloc socket ⟨s.buffers, answers, s.overrun⟩ with
    - | ⟨outcome, buffers, left, overrun⟩
  · simp [hread] at h
  · rcases left with - | ⟨answer, left⟩
    · simp only [hread, Option.some.injEq] at h
      refine ⟨outcome, buffers, overrun, rfl, ?_⟩
      subst h
      rcases outcome with packet | - | - <;> exact ⟨rfl, rfl, rfl, rfl, rfl⟩
    · simp [hread] at h

theorem update_of_ne {α : Type*} (f : ℕ → α) {i j : ℕ} (h : j ≠ i) (a : α) :
    Function.update f i a j = f j :=
  Function.update_of_ne h a f

/-- **One call.** -/
theorem good_factory {malloc : SocketQueue} {s s' : State} (hs : s.Good) {socket : ℕ}
    {answers : List Recv} (hstep : s.step malloc (.factory socket answers) = some s')
    (hguard : Orderly s (.factory socket answers) s') : s'.Good := by
  obtain ⟨hsocket, outcome, buffers, overrun, hread, hbuffers, hoverrun, hreceived, hrest⟩ :=
    step_factory hstep
  obtain ⟨hopen, hfree⟩ := hguard
  obtain ⟨header, data, hkept, hunfinished, hframes⟩ := hs.kept socket hsocket hopen
  have hfree : s.buffers.defQueue.socket = 0 ∨ (s.buffers.find socket).isSome := by
    rcases hfree with hfree | hown
    · exact .inl (hs.owner.resolve_right hfree)
    · exact .inr hown
  obtain ⟨used, hused, hpacket⟩ :=
    factory_spec hsocket hs.single hkept hunfinished hfree hread
  obtain rfl : answers = used := by simpa using hused.answers
  have hclean : s'.overrun = false := by
    rw [hoverrun]
    exact hused.overrun.trans hs.overrun
  have hsplit := packetFramer.frames_append (s.received socket) (answers.flatMap Recv.bytes)
  rw [hframes] at hsplit
  -- What the other sockets have is untouched.
  have hothers : (∀ other, other ≠ 0 → other ≠ socket →
      buffers.find other = s.buffers.find other) →
      (∀ other, other ≠ socket → s'.packets other = s.packets other) →
      ∀ other, other ≠ 0 → other ∉ s.broken → other ≠ socket → ∃ header data,
        s'.buffers.Rest other header data ∧ Unfinished header data ∧
          packetFramer.frames (s'.received other) = (s'.packets other, header ++ data) := by
    intro hfind hpackets other hother hbroken hne
    obtain ⟨h, d, hkept, hunfinished, hframes⟩ := hs.kept other hother hbroken
    refine ⟨h, d, ?_, hunfinished, ?_⟩
    · rw [hbuffers]
      exact hkept.of_find_eq (hfind other hother hne)
    · rw [hreceived, update_of_ne _ hne, hpackets other hne, hframes]
  rcases outcome with packet | - | -
  · obtain ⟨hpackets, hbroken⟩ := hrest
    obtain ⟨hended, hnothing, hnext⟩ := hpacket
    rw [packetFramer.frames_of_some hnext, packetFramer.frames_nil] at hsplit
    refine ⟨hbuffers ▸ hended.single hs.single, ?_, hclean, fun other hother hopen ↦ ?_⟩
    · rw [hbuffers, hbroken]
      rcases hended.owner with h | ⟨-, h⟩
      · exact .inl h
      · exact h ▸ hs.owner
    · rw [hbroken] at hopen
      rcases eq_or_ne other socket with rfl | hne
      · refine ⟨[], [], hbuffers ▸ hnothing, .inl ⟨rfl, rfl⟩, ?_⟩
        rw [hreceived, hpackets, Function.update_self, Function.update_self]
        exact hsplit
      · exact hothers hended.others (fun o ho ↦ hpackets ▸ update_of_ne _ ho _) other hother hopen
          hne
  · obtain ⟨hpackets, hbroken⟩ := hrest
    obtain ⟨hended, header', data', hstream, hkept', hunfinished'⟩ := hpacket
    rw [← hstream, packetFramer.frames_of_none
      (next_eq_none_iff.2 hunfinished'.mqttPacketFactory_eq_none), List.append_nil] at hsplit
    refine ⟨hbuffers ▸ hended.single hs.single, ?_, hclean, fun other hother hopen ↦ ?_⟩
    · rw [hbuffers, hbroken]
      rcases hended.owner with h | ⟨-, h⟩
      · exact .inl h
      · exact h ▸ hs.owner
    · rw [hbroken] at hopen
      rcases eq_or_ne other socket with rfl | hne
      · refine ⟨header', data', hbuffers ▸ hkept', hunfinished', ?_⟩
        rw [hreceived, hpackets, Function.update_self]
        exact hsplit
      · exact hothers hended.others (fun o ho ↦ by rw [hpackets]) other hother hopen hne
  · obtain ⟨hpackets, hbroken⟩ := hrest
    refine ⟨hbuffers ▸ hpacket.single hs.single, ?_, hclean, fun other hother hopen ↦ ?_⟩
    · rw [hbuffers, hbroken]
      rcases hpacket.owner with h | h
      · rw [h]
        exact hs.owner.imp_right (List.mem_cons_of_mem _)
      · exact .inr (h ▸ List.mem_cons_self ..)
    · rw [hbroken] at hopen
      have hne : other ≠ socket := fun h ↦ hopen (h ▸ List.mem_cons_self ..)
      exact hothers (fun o _ ho ↦ hpacket.others o ho) (fun o ho ↦ by rw [hpackets]) other hother
        (fun h ↦ hopen (List.mem_cons_of_mem _ h)) hne

/-- **Closing a socket.** -/
theorem good_close {malloc : SocketQueue} {s s' : State} (hs : s.Good) {socket : ℕ}
    (hstep : s.step malloc (.close socket) = some s') : s'.Good := by
  rw [step] at hstep
  split_ifs at hstep with hzero
  obtain rfl := Option.some.inj hstep
  refine ⟨fun other hother ↦ (hs.single other hother).remove, ?_, hs.overrun,
    fun other hother hopen ↦ ?_⟩
  · by_cases hmine : s.buffers.defQueue.socket = socket
    · have hdef : (s.buffers.cleanup socket).defQueue = s.buffers.defQueue.reset := if_pos hmine
      exact .inl (congrArg SocketQueue.socket hdef)
    · have hdef : (s.buffers.cleanup socket).defQueue = s.buffers.defQueue := if_neg hmine
      show (s.buffers.cleanup socket).defQueue.socket = 0 ∨
        (s.buffers.cleanup socket).defQueue.socket ∈ _
      rw [hdef]
      exact hs.owner.imp_right fun h ↦ List.mem_filter.2 ⟨h, by simpa using hmine⟩
  · rcases eq_or_ne other socket with rfl | hne
    · refine ⟨[], [], ?_, .inl ⟨rfl, rfl⟩, ?_⟩
      · exact SocketBuffer.rest_of_find_eq_none
          (KeyedList.lookup_remove_self (hs.single other hother))
      · simp only [Function.update_self]
        exact packetFramer.frames_nil
    · have hopen : other ∉ s.broken :=
        fun h ↦ hopen (List.mem_filter.2 ⟨h, by simpa using hne⟩)
      obtain ⟨h, d, hkept, hunfinished, hframes⟩ := hs.kept other hother hopen
      refine ⟨h, d, hkept.of_find_eq (KeyedList.lookup_remove_of_ne hne _), hunfinished, ?_⟩
      simp only [update_of_ne _ hne]
      exact hframes

theorem good_step {malloc : SocketQueue} {s s' : State} {e : Event} (hs : s.Good)
    (hstep : s.step malloc e = some s') (hguard : Orderly s e s') : s'.Good := by
  rcases e with ⟨socket, answers⟩ | socket
  · exact good_factory hs hstep hguard
  · exact good_close hs hstep

/-- A run that meets the guard keeps the state good. -/
theorem always_good (malloc : SocketQueue) {events : List Event}
    (h : (machine malloc).EachStep Orderly (initial malloc) events) :
    (machine malloc).Always Good (initial malloc) events :=
  (machine malloc).always_of_guarded (fun _ _ _ hs hstep hguard ↦ good_step hs hstep hguard)
    (fun _ hs ↦ hs) (good_initial malloc) h

end State

/-- **The packets of a socket are those of its byte stream.** Along every run in which a socket
whose read has failed is closed before it can disturb another one, whatever the pieces are in which
the bytes come and however the sockets take turns: the packets read from each socket are the
one-shot reader's, what is kept is what it leaves over, and nothing is written outside a buffer. -/
theorem packets_eq_frames (malloc : SocketQueue) {events : List Event}
    (h : (machine malloc).EachStep State.Orderly (State.initial malloc) events) :
    (machine malloc).Always
      (fun s ↦ s.overrun = false ∧
        ∀ socket, socket ≠ 0 → socket ∉ s.broken → s.Framed socket)
      (State.initial malloc) events :=
  (State.always_good malloc h).mono _ fun _ hs ↦
    ⟨hs.overrun, fun _ hsocket hopen ↦ hs.framed hsocket hopen⟩

/-- Two sockets take turns in the middle of their packets. -/
theorem packets_eq_frames_two_sockets :
    (machine ⟨1, 2, 3, ⟨#[4, 5, 6, 7, 8], rfl⟩, 9, 10, []⟩).Always
      (fun s ↦ s.overrun = false ∧
        ∀ socket, socket ≠ 0 → socket ∉ s.broken → s.Framed socket)
      (State.initial ⟨1, 2, 3, ⟨#[4, 5, 6, 7, 8], rfl⟩, 9, 10, []⟩)
      [.factory 4 [.data [0x30], .data [2], .data [65]], .factory 5 [.data [0xD0], .wouldBlock],
        .factory 4 [.data [66]], .factory 5 [.data [0]], .factory 6 [.data [0x20], .failed],
        .close 6, .factory 5 [.data [0x30], .data [0x80], .wouldBlock]] :=
  packets_eq_frames _ (by decide)

/-! ### A default queue that belongs to another socket -/

/-- The socket has no queue of its own, and the default queue is another one's. -/
structure Foreign (socket : ℕ) (buffers : SocketBuffer) : Prop where
  /-- Nothing is kept for the socket. -/
  own : buffers.find socket = none
  /-- The default queue is taken. -/
  taken : buffers.defQueue.socket ≠ 0
  /-- By another socket. -/
  other : buffers.defQueue.socket ≠ socket

/-- What a call leaves behind that starts so: if it is interrupted, nothing is kept. -/
def Lost {α : Type*} (socket : ℕ) (after : SocketBuffer) : Outcome α → Prop
  | .complete _ => Foreign socket after
  | .interrupted => after.find socket = none
  | .error => True

section Foreign

variable {malloc : SocketQueue} {socket : ℕ} {net net' : Net}

/-- An interrupted read files what it has under the other socket's name. -/
theorem find_interrupted_of_foreign {buffers : SocketBuffer} (h : Foreign socket buffers)
    (actualLen : ℕ) : (buffers.interrupted malloc socket actualLen).find socket = none := by
  have hstep : buffers.interrupted malloc socket actualLen =
      ⟨SocketBuffer.newDefQ malloc, buffers.queues ++ [buffers.defQueue.stop actualLen]⟩ := by
    simp only [SocketBuffer.interrupted, h.own]
  have hkey : (buffers.defQueue.stop actualLen).socket ≠ socket := h.other
  rw [hstep]
  show KeyedList.lookup _ _ (buffers.queues ++ _) = none
  rw [KeyedList.lookup_append, KeyedList.lookup_cons, if_neg hkey]
  show (buffers.find socket).or _ = none
  rw [h.own]
  rfl

theorem foreign_of_same {before after : SocketBuffer} (h : Foreign socket before)
    (hqueues : after.queues = before.queues)
    (hdefault : after.defQueue.socket = before.defQueue.socket) : Foreign socket after where
  own := by
    rw [SocketBuffer.find, hqueues]
    exact h.own
  taken := hdefault ▸ h.taken
  other := hdefault ▸ h.other

theorem socketGetch_foreign (h : Foreign socket net.buffers) {outcome : Outcome UInt8}
    (hget : socketGetch malloc socket net = some (outcome, net')) :
    Lost socket net'.buffers outcome := by
  have hnone : net.buffers.getQueuedChar socket = (.interrupted, net.buffers) := by
    simp only [SocketBuffer.getQueuedChar, h.own]
  rw [socketGetch, hnone] at hget
  simp only at hget
  rcases hrecv : recv net 1 with - | ⟨answer, mid⟩
  · simp [hrecv] at hget
  · obtain ⟨-, -, hbuffers, -⟩ := recv_eq_some hrecv
    have hmid : Foreign socket mid.buffers := by
      rw [hbuffers]
      exact h
    simp only [hrecv] at hget
    rcases answer with bytes | - | - | -
    · rcases bytes with - | ⟨c, bytes⟩
      · obtain rfl : _ = outcome := (Prod.mk.inj (Option.some.inj hget)).1
        trivial
      · simp only [Option.some.injEq, Prod.mk.injEq] at hget
        obtain ⟨rfl, rfl⟩ := hget
        have hsame : mid.buffers.queueChar socket c = mid.buffers := by
          simp [SocketBuffer.queueChar, hmid.own, hmid.taken, hmid.other]
        show Foreign socket (mid.buffers.queueChar socket c)
        rw [hsame]
        exact hmid
    · simp only [Option.some.injEq, Prod.mk.injEq] at hget
      obtain ⟨rfl, rfl⟩ := hget
      exact find_interrupted_of_foreign hmid 0
    · obtain rfl : _ = outcome := (Prod.mk.inj (Option.some.inj hget)).1
      trivial
    · obtain rfl : _ = outcome := (Prod.mk.inj (Option.some.inj hget)).1
      trivial

theorem decodeLoop_foreign {len value multiplier : ℕ} (h : Foreign socket net.buffers)
    {outcome : Outcome ℕ}
    (hread : decodeLoop malloc socket len value multiplier net = some (outcome, net')) :
    Lost socket net'.buffers outcome := by
  induction len generalizing value multiplier net with
  | zero =>
    obtain rfl : _ = outcome := (Prod.mk.inj (Option.some.inj hread)).1
    trivial
  | succ len ih =>
    rw [decodeLoop] at hread
    rcases hget : socketGetch malloc socket net with - | ⟨got, mid⟩
    · simp [hget] at hread
    · have hgot : Lost socket mid.buffers got := socketGetch_foreign h hget
      rcases got with c | - | -
      · simp only [hget] at hread
        split_ifs at hread with hlast
        · simp only [Option.some.injEq, Prod.mk.injEq] at hread
          obtain ⟨rfl, rfl⟩ := hread
          exact hgot
        · exact ih hgot hread
      · simp only [hget, Option.some.injEq, Prod.mk.injEq] at hread
        obtain ⟨rfl, rfl⟩ := hread
        exact hgot
      · simp only [hget, Option.some.injEq, Prod.mk.injEq] at hread
        obtain ⟨rfl, rfl⟩ := hread
        trivial

/-- Data that are too few go into the other socket's buffer. -/
theorem afterRecv_foreign {bytes actualLen : ℕ} {more : Bytes} (h : Foreign socket net.buffers)
    {buf : Bytes} {len : ℕ}
    (hafter : afterRecv malloc socket bytes actualLen more net = ((buf, len), net'))
    (hfew : len ≠ bytes) : net'.buffers.find socket = none := by
  have hstore : Foreign socket (store socket actualLen more net).buffers := by
    have hsame : (store socket actualLen more net).buffers =
        ⟨net.buffers.defQueue.fill actualLen more, net.buffers.queues⟩ := by
      simp only [store, h.own]
    rw [hsame]
    exact foreign_of_same h rfl rfl
  rw [afterRecv] at hafter
  split_ifs at hafter with hall
  · obtain rfl : _ = len := (Prod.mk.inj (Prod.mk.inj hafter).1).2
    exact absurd hall hfew
  · obtain rfl : _ = net' := (Prod.mk.inj hafter).2
    exact find_interrupted_of_foreign hstore _

theorem socketGetdata_foreign {bytes : ℕ} (h : Foreign socket net.buffers) {buf : Bytes} {len : ℕ}
    (hget : socketGetdata malloc socket bytes net = some (some (buf, len), net'))
    (hfew : len ≠ bytes) : net'.buffers.find socket = none := by
  rw [socketGetdata] at hget
  split_ifs at hget with hzero
  · obtain rfl : 0 = len := by
      simp only [Option.some.injEq, Prod.mk.injEq] at hget
      exact hget.1.2
    exact absurd hzero.symm hfew
  · have hqueued : net.buffers.getQueuedData socket bytes =
        (0, ⟨net.buffers.defQueue.grow bytes, net.buffers.queues⟩) := by
      simp only [SocketBuffer.getQueuedData, h.own]
    rw [hqueued] at hget
    simp only at hget
    rcases hrecv : recv ⟨⟨net.buffers.defQueue.grow bytes, net.buffers.queues⟩, net.answers,
      net.overrun⟩ (sizeT (bytes - (0 : ℕ))) with - | ⟨answer, mid⟩
    · simp only [hrecv, reduceCtorEq] at hget
    · obtain ⟨-, -, hbuffers, -⟩ := recv_eq_some hrecv
      have hmid : Foreign socket mid.buffers := by
        rw [hbuffers]
        exact foreign_of_same h rfl (SocketQueue.socket_grow bytes _)
      simp only [hrecv] at hget
      rcases answer with more | - | - | -
      · rcases hafter : afterRecv malloc socket bytes 0 more mid with ⟨⟨buf', len'⟩, after⟩
        simp only [hafter, Option.some.injEq, Prod.mk.injEq] at hget
        obtain ⟨⟨rfl, rfl⟩, rfl⟩ := hget
        exact afterRecv_foreign hmid hafter hfew
      · rcases hafter : afterRecv malloc socket bytes 0 [] mid with ⟨⟨buf', len'⟩, after⟩
        simp only [hafter, Option.some.injEq, Prod.mk.injEq] at hget
        obtain ⟨⟨rfl, rfl⟩, rfl⟩ := hget
        exact afterRecv_foreign hmid hafter hfew
      · simp at hget
      · simp at hget

/-- An interrupted call of the factory keeps nothing of what it has read. -/
theorem factory_foreign (h : Foreign socket net.buffers)
    (hread : factory malloc socket net = some (.interrupted, net')) :
    net'.buffers.find socket = none := by
  rw [factory] at hread
  rcases hget : socketGetch malloc socket net with - | ⟨got, mid⟩
  · simp [hget] at hread
  · have hgot : Lost socket mid.buffers got := socketGetch_foreign h hget
    rcases got with b | - | -
    · simp only [hget, factoryRest] at hread
      rcases hdecode : decode malloc socket mid with - | ⟨got, mid'⟩
      · simp [hdecode] at hread
      · have hgot' : Lost socket mid'.buffers got := decodeLoop_foreign hgot hdecode
        rcases got with n | - | -
        · simp only [hdecode] at hread
          rcases hdata : socketGetdata malloc socket n mid' with - | ⟨- | ⟨buf, len⟩, after⟩
          · simp [hdata] at hread
          · simp [hdata] at hread
          · simp only [hdata] at hread
            split_ifs at hread with hfew
            · obtain rfl : after = net' := (Prod.mk.inj (Option.some.inj hread)).2
              exact socketGetdata_foreign hgot' hdata hfew
            · cases (Prod.mk.inj (Option.some.inj hread)).1
        · simp only [hdecode, Option.some.injEq, Prod.mk.injEq, true_and] at hread
          exact hread ▸ hgot'
        · simp [hdecode] at hread
    · simp only [hget, Option.some.injEq, Prod.mk.injEq, true_and] at hread
      exact hread ▸ hgot
    · simp [hget] at hread

end Foreign

/-- **What the guard is for.** While the default queue belongs to another socket, a call that is
interrupted loses the bytes that came in, so the socket's stream is read wrongly from there on. -/
theorem not_framed_of_foreign {malloc : SocketQueue} {s s' : State} {socket : ℕ}
    {answers : List Recv} (hstep : s.step malloc (.factory socket answers) = some s')
    (hforeign : Foreign socket s.buffers) (hframed : s.Framed socket)
    (hbytes : answers.flatMap Recv.bytes ≠ [])
    (hinterrupted : s'.packets = s.packets ∧ s'.broken = s.broken) : ¬ s'.Framed socket := by
  obtain ⟨hsocket, outcome, buffers, overrun, hread, rfl, -, hreceived, hrest⟩ :=
    State.step_factory hstep
  have hheld : s.buffers.held socket = [] := by
    rw [SocketBuffer.held, hforeign.own]
  obtain rfl : outcome = .interrupted := by
    rcases outcome with packet | - | -
    · have hlen := congrArg (fun packets ↦ (packets socket).length)
        (hrest.1.symm.trans hinterrupted.1)
      simp at hlen
    · rfl
    · exact absurd (hrest.2.symm.trans hinterrupted.2) (List.cons_ne_self _ _)
  have hlost : s'.buffers.held socket = [] := by
    rw [SocketBuffer.held, factory_foreign hforeign hread]
  intro hframed'
  rw [State.Framed, hheld] at hframed
  rw [State.Framed, hlost, hrest.1, hreceived, Function.update_self,
    packetFramer.frames_append, hframed, List.nil_append, Prod.mk.injEq] at hframed'
  -- No packet is found in the bytes that came in, and yet nothing of them is left over.
  have hpackets : (packetFramer.frames (answers.flatMap Recv.bytes)).1 = [] :=
    List.append_right_eq_self.1 hframed'.1
  rcases hnext : packetFramer.next (answers.flatMap Recv.bytes) with - | ⟨packet, rest⟩
  · rw [packetFramer.frames_of_none hnext] at hframed'
    exact hbytes hframed'.2
  · rw [packetFramer.frames_of_some hnext] at hpackets
    cases hpackets

/-- Socket 4 fails after its first byte and is not closed; the first byte of socket 5 is lost. -/
theorem not_framed_of_foreign_two_sockets :
    ∃ s s' : State,
      (machine ⟨1, 2, 3, ⟨#[4, 5, 6, 7, 8], rfl⟩, 9, 10, []⟩).run
        (State.initial ⟨1, 2, 3, ⟨#[4, 5, 6, 7, 8], rfl⟩, 9, 10, []⟩)
        [.factory 4 [.data [0x30], .failed]] = some s ∧
      s.step ⟨1, 2, 3, ⟨#[4, 5, 6, 7, 8], rfl⟩, 9, 10, []⟩
        (.factory 5 [.data [0xD0], .wouldBlock]) = some s' ∧ ¬ s'.Framed 5 := by
  have hlost : ∀ s s' : State,
      (machine ⟨1, 2, 3, ⟨#[4, 5, 6, 7, 8], rfl⟩, 9, 10, []⟩).run
        (State.initial ⟨1, 2, 3, ⟨#[4, 5, 6, 7, 8], rfl⟩, 9, 10, []⟩)
        [.factory 4 [.data [0x30], .failed]] = some s →
      s.step ⟨1, 2, 3, ⟨#[4, 5, 6, 7, 8], rfl⟩, 9, 10, []⟩
        (.factory 5 [.data [0xD0], .wouldBlock]) = some s' → ¬ s'.Framed 5 := by
    intro s s' hs hs'
    obtain rfl := Option.some.inj hs
    obtain rfl := Option.some.inj hs'
    exact not_framed_of_foreign hs' ⟨rfl, by decide, by decide⟩ packetFramer.frames_nil
      (by decide) ⟨rfl, rfl⟩
  exact ⟨_, _, rfl, rfl, hlost _ _ rfl rfl⟩

end Reading
