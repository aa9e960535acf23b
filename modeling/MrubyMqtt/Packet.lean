import MrubyMqtt.Lib.Base128

/-!
# MQTT packets

The packet layer as the library has it, on byte strings. The reading side takes the bytes from
the socket; the writing side gives the bytes that go to it. Three facts of the wire format decide
what survives the trip:

* a "UTF" string carries its length in two bytes (`writeInt`, `readInt`);
* the remaining length of a packet is a base-128 numeral of which the reader accepts **four**
  bytes (`mqttPacketDecode`), while the writer writes as many as the number needs
  (`mqttPacketEncode`) and nothing checks the number;
* everything on the writing side is C `int` arithmetic.
-/

open Bytes

/-! ### The header byte -/

/-- The `bits` of a `Header`: the message type, the duplicate flag, the quality of service and the
retained flag. -/
structure Header where
  /-- The message type nibble. -/
  type : ℕ
  /-- The DUP flag bit. -/
  dup : ℕ
  /-- The QoS value. -/
  qos : ℕ
  /-- The retained flag bit. -/
  retain : ℕ
deriving DecidableEq, Repr

/-- Message type of PUBLISH. -/
def PUBLISH : ℕ := 3
/-- Message type of SUBSCRIBE. -/
def SUBSCRIBE : ℕ := 8

namespace Header

/-- The whole byte: each bit field keeps as many low bits as it is wide. -/
def byte (header : Header) : UInt8 :=
  UInt8.ofNat (header.type % 16 * 16 + header.dup % 2 * 8 + header.qos % 4 * 2 + header.retain % 2)

/-- The bit fields of a byte. -/
def ofByte (aHeader : UInt8) : Header where
  type := aHeader.toNat / 16
  dup := aHeader.toNat / 8 % 2
  qos := aHeader.toNat / 2 % 4
  retain := aHeader.toNat % 2

/-- The bit fields of a header byte are the fields it was built from, where they fit. -/
theorem ofByte_byte {header : Header} (htype : header.type < 16) (hdup : header.dup < 2)
    (hqos : header.qos < 4) (hretain : header.retain < 2) : ofByte header.byte = header := by
  obtain ⟨type, dup, qos, retain⟩ := header
  have hbyte : (byte ⟨type, dup, qos, retain⟩).toNat = type * 16 + dup * 8 + qos * 2 + retain := by
    rw [byte, UInt8.toNat_ofNat']
    simp only at htype hdup hqos hretain ⊢
    omega
  simp only at htype hdup hqos hretain
  simp only [ofByte, hbyte, Header.mk.injEq]
  omega

end Header

/-! ### Reading -/

/-- `readInt`: two bytes, high one first; `none` reads past the end of the buffer. -/
def readInt : Bytes → Option (ℕ × Bytes)
  | hi :: lo :: rest => some (256 * hi.toNat + lo.toNat, rest)
  | _ => none

/-- `readChar`. -/
def readChar : Bytes → Option (ℕ × Bytes)
  | c :: rest => some (c.toNat, rest)
  | [] => none

/-- `readUTFlen`: the characters of a length-delimited string and what follows them; `none` where
the length read would overrun the buffer. -/
def readUTFlen (curdata : Bytes) : Option (Bytes × Bytes) :=
  match readInt curdata with
  | none => none
  | some (len, rest) => if len ≤ rest.length then some (rest.take len, rest.drop len) else none

/-- A `Publish` as `MQTTPacket_publish` fills it in, with the strings its pointers lead to. -/
structure Publish where
  /-- The MQTT header byte. -/
  header : Header
  /-- The topic string. -/
  topic : Bytes
  /-- The MQTT message id. -/
  msgId : ℕ
  /-- The payload: binary, length delimited. -/
  payload : Bytes
deriving DecidableEq, Repr

/-- Why `MQTTPacket_publish` gives no packet. -/
inductive PacketError where
  /-- The packet is reported as bad (`BAD_MQTT_PACKET`). -/
  | badPacket
  /-- The message id is read from beyond the end of the packet. -/
  | overrun
deriving DecidableEq, Repr

/-- `MQTTPacket_publish`: topic, message id for QoS 1 and 2, and the rest is payload. Only the topic
is checked against the end of the packet. -/
def mqttPacketPublish (aHeader : UInt8) (data : Bytes) : Except PacketError Publish :=
  match readUTFlen data with
  | none => .error .badPacket
  | some (topic, curdata) =>
    let header := Header.ofByte aHeader
    if header.qos > 0 then
      match readInt curdata with
      | none => .error .overrun
      | some (msgId, payload) => .ok ⟨header, topic, msgId, payload⟩
    else .ok ⟨header, topic, 0, curdata⟩

/-- `MAX_NO_OF_REMAINING_LENGTH_BYTES`. -/
def maxNoOfRemainingLengthBytes : ℕ := 4

/-- `MQTTPacket_decode`: the remaining length and the stream behind it. -/
def mqttPacketDecode (stream : Bytes) : Option (ℕ × Bytes) :=
  Base128.decodeAcc maxNoOfRemainingLengthBytes 0 1 stream

/-- `MQTTPacket_Factory`, up to the call of the function for the packet's type: the header byte,
the packet's data and the stream behind it; `none` while the packet is incomplete or its length is
refused. -/
def mqttPacketFactory : Bytes → Option (UInt8 × Bytes × Bytes)
  | [] => none
  | header :: stream =>
    match mqttPacketDecode stream with
    | none => none
    | some (remainingLength, rest) =>
      if remainingLength ≤ rest.length then
        some (header, rest.take remainingLength, rest.drop remainingLength)
      else none

/-! ### Writing -/

/-- `writeInt`: two bytes of an `int`, high one first, each cut to a `char`. -/
def writeInt (anInt : ℤ) : Bytes := [toChar (anInt.tdiv 256), toChar (anInt.tmod 256)]

/-- `writeUTF`: length and characters; `strlen` is stored in an `int`. -/
def writeUTF (string : Bytes) : Bytes := writeInt (toInt32 string.length) ++ string

/-- The loop of `MQTTPacket_encode`. An `int` has at most five digits. -/
def mqttPacketEncodeLoop : ℕ → ℤ → Bytes
  | 0, _ => []
  | fuel + 1, length =>
    let d := toChar (length.tmod 128)
    let length := length.tdiv 128
    if length > 0 then (d ||| 0x80) :: mqttPacketEncodeLoop fuel length else [d]

/-- `MQTTPacket_encode`. -/
def mqttPacketEncode (length : ℤ) : Bytes := mqttPacketEncodeLoop 5 length

/-- `MQTTPacket_sends`: header byte, remaining length and buffers, as they go to the socket. The
lengths are summed in an `int`. -/
def mqttPacketSends (header : Header) (buffers : List Bytes) : Bytes :=
  header.byte ::
    (mqttPacketEncode (toInt32 (buffers.map List.length).sum) ++ buffers.flatten)

/-- `MQTTPacket_send_publish`: the bytes of a PUBLISH. The topic goes in with its length cut to two
bytes; a message id only for QoS 1 and 2. -/
def mqttPacketSendPublish (topic : Bytes) (msgId : ℤ) (payload : Bytes) (dup qos retained : ℕ) :
    Bytes :=
  let header : Header := ⟨PUBLISH, dup, qos, retained⟩
  if qos > 0 then
    mqttPacketSends header [writeInt (toInt32 topic.length), topic, writeInt msgId, payload]
  else mqttPacketSends header [writeInt (toInt32 topic.length), topic, payload]

/-- `MQTTPacket_send_subscribe` for one topic: the bytes of a SUBSCRIBE. -/
def mqttPacketSendSubscribe (topic : Bytes) (msgid qos : ℤ) (dup : ℕ) : Bytes :=
  mqttPacketSends ⟨SUBSCRIBE, dup, 1, 0⟩ [writeInt msgid ++ writeUTF topic ++ [toChar qos]]

/-! ### What is written is what is read -/

/-- A number below 65536 survives its two bytes. -/
theorem readInt_writeInt {n : ℕ} (h : n < 65536) (rest : Bytes) :
    readInt (writeInt n ++ rest) = some (n, rest) := by
  have hhi : toChar ((n : ℤ).tdiv 256) = toChar (n / 256 : ℕ) := rfl
  have hlo : toChar ((n : ℤ).tmod 256) = toChar (n % 256 : ℕ) := rfl
  rw [writeInt, hhi, hlo]
  simp only [List.cons_append, List.nil_append, readInt, toChar_natCast_toNat,
    Option.some.injEq, Prod.mk.injEq, and_true]
  omega

/-- Any two bytes are a number. -/
theorem readInt_writeInt_isSome (x : ℤ) (rest : Bytes) :
    ∃ n, readInt (writeInt x ++ rest) = some (n, rest) :=
  ⟨_, rfl⟩

theorem readInt_lt {bs rest : Bytes} {n : ℕ} (h : readInt bs = some (n, rest)) :
    n < 65536 ∧ bs.length = 2 + rest.length := by
  rcases bs with - | ⟨hi, - | ⟨lo, bs⟩⟩
  · cases h
  · cases h
  · have hhi : hi.toNat < 256 := hi.toNat_lt
    have hlo : lo.toNat < 256 := lo.toNat_lt
    simp only [readInt, Option.some.injEq, Prod.mk.injEq] at h
    obtain ⟨rfl, rfl⟩ := h
    simp only [List.length_cons]
    omega

/-- A string of less than 65536 bytes survives its length prefix. -/
theorem readUTFlen_write {string : Bytes} (h : string.length < 65536) (rest : Bytes) :
    readUTFlen (writeInt string.length ++ (string ++ rest)) = some (string, rest) := by
  rw [readUTFlen, readInt_writeInt h]
  simp

/-- What `readUTFlen` gives is short, and nothing is lost. -/
theorem length_of_readUTFlen {bs string rest : Bytes} (h : readUTFlen bs = some (string, rest)) :
    string.length < 65536 ∧ bs.length = 2 + string.length + rest.length := by
  rw [readUTFlen] at h
  rcases hint : readInt bs with - | ⟨len, tail⟩
  · simp [hint] at h
  · obtain ⟨hlt, hlen⟩ := readInt_lt hint
    simp only [hint] at h
    split_ifs at h with hle
    simp only [Option.some.injEq, Prod.mk.injEq] at h
    obtain ⟨rfl, rfl⟩ := h
    rw [List.length_take, List.length_drop]
    omega

/-- On a natural number the encoding loop writes its base-128 digits. -/
theorem mqttPacketEncodeLoop_natCast (fuel n : ℕ) :
    mqttPacketEncodeLoop fuel n = Base128.encode fuel n := by
  induction fuel generalizing n with
  | zero => rfl
  | succ fuel ih =>
    have hdigit : (n : ℤ).tmod 128 = (n % 128 : ℕ) := rfl
    have hrest : (n : ℤ).tdiv 128 = (n / 128 : ℕ) := rfl
    have hlt : n % 128 < 128 := Nat.mod_lt _ (by omega)
    simp only [mqttPacketEncodeLoop, Base128.encode, hdigit, hrest]
    by_cases hlast : n / 128 = 0
    · have hchar : toChar (n % 128 : ℕ) = UInt8.ofNat (n % 128) := by
        apply UInt8.toNat_inj.1
        rw [toChar_natCast_toNat, UInt8.toNat_ofNat']
      rw [if_neg (by omega), if_pos hlast, hchar]
    · -- The continuation bit is not set in a digit, so setting it adds 128.
      have hchar : toChar (n % 128 : ℕ) ||| 0x80 = UInt8.ofNat (n % 128 + 128) := by
        have htop : (0x80 : UInt8).toNat = 2 ^ 7 * 1 := rfl
        have hmod : n % 128 % 256 = n % 128 := by omega
        apply UInt8.toNat_inj.1
        rw [UInt8.toNat_or, toChar_natCast_toNat, UInt8.toNat_ofNat', hmod, htop, Nat.or_comm,
          ← Nat.two_pow_add_eq_or_of_lt hlt]
        omega
      rw [if_pos (by omega), if_neg hlast, hchar, ih]

/-- A remaining length of at most four digits survives. -/
theorem mqttPacketDecode_encode {n : ℕ} (h : n < 128 ^ 4) (rest : Bytes) :
    mqttPacketDecode (mqttPacketEncode n ++ rest) = some (n, rest) := by
  have henc : mqttPacketEncode n = Base128.encode 4 n :=
    (mqttPacketEncodeLoop_natCast 5 n).trans (Base128.encode_of_le (by omega) (by omega) h)
  rw [mqttPacketDecode, Base128.decodeAcc_eq, henc, maxNoOfRemainingLengthBytes,
    Base128.decode_encode (by omega) h]
  simp

/-- What the reader accepts as a remaining length has at most four digits. -/
theorem mqttPacketDecode_lt {stream rest : Bytes} {n : ℕ}
    (h : mqttPacketDecode stream = some (n, rest)) : n < 128 ^ 4 := by
  rw [mqttPacketDecode, Base128.decodeAcc_eq, Option.map_eq_some_iff] at h
  obtain ⟨⟨m, r⟩, hm, heq⟩ := h
  have hlt : m < 128 ^ 4 := Base128.decode_lt hm
  have hn : 0 + 1 * m = n := congrArg Prod.fst heq
  omega

/-- **A whole packet.** Buffers whose total length has four digits come out of the factory as they
went in. -/
theorem mqttPacketFactory_sends (header : Header) {buffers : List Bytes}
    (h : (buffers.map List.length).sum < 128 ^ 4) :
    mqttPacketFactory (mqttPacketSends header buffers) =
      some (header.byte, buffers.flatten, []) := by
  have hint : toInt32 ((buffers.map List.length).sum : ℕ) = (buffers.map List.length).sum :=
    toInt32_eq_self (by omega) (by omega)
  have hlen : (buffers.map List.length).sum = buffers.flatten.length := List.length_flatten.symm
  rw [mqttPacketSends, mqttPacketFactory, hint, mqttPacketDecode_encode h, hlen]
  simp only [Nat.le_refl, if_true, List.take_length, List.drop_length]

theorem length_of_mqttPacketFactory {stream data rest : Bytes} {header : UInt8}
    (h : mqttPacketFactory stream = some (header, data, rest)) : data.length < 128 ^ 4 := by
  rcases stream with - | ⟨b, stream⟩
  · cases h
  · rw [mqttPacketFactory] at h
    rcases hdec : mqttPacketDecode stream with - | ⟨n, tail⟩
    · simp [hdec] at h
    · have hlt : n < 128 ^ 4 := mqttPacketDecode_lt hdec
      simp only [hdec] at h
      split_ifs at h with hle
      simp only [Option.some.injEq, Prod.mk.injEq] at h
      obtain ⟨-, rfl, -⟩ := h
      rw [List.length_take]
      omega
