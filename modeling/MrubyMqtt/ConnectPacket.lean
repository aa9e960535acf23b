import MrubyMqtt.ConnectOptions

/-!
# The CONNECT packet

What the broker is told about a connect. The keep-alive goes into two bytes and the client id behind
a length of two bytes; nothing on the way looks at their size. So a `connect` that does not raise is
**faithful**, with either version of the protocol, exactly if the keep-alive is between 0 and 65535
and the client id has at most 65535 bytes (`connect_faithful_iff`). What is in the packet depends on
the options of its client alone, which stay as they are until it is sent (`packet_kept`).
-/

open Bytes

/-- Message type of CONNECT. -/
def CONNECT : ℕ := 1

/-- A `Connect`, as far as the wrapper's options fill it in. -/
structure Connect where
  /-- The MQTT protocol name. -/
  protocol : Bytes
  /-- The MQTT version number. -/
  version : ℕ
  /-- The clean session flag. -/
  cleanstart : Bool
  /-- The keep-alive timeout value in seconds. -/
  keepAliveTimer : ℕ
  /-- The client id. -/
  clientID : Bytes
deriving DecidableEq, Repr

/-- `MQTT`. -/
def protocolMqtt : Bytes := [0x4D, 0x51, 0x54, 0x54]

/-- `MQIsdp`. -/
def protocolMqisdp : Bytes := [0x4D, 0x51, 0x49, 0x73, 0x64, 0x70]

/-- The `flags` byte: `cleanstart` is its second bit, and no other bit is set without a will, a user
name and a password. -/
def connectFlags (cleansession : Bool) : UInt8 := if cleansession then 2 else 0

/-- `MQTTPacket_send_connect`: nothing is sent for another version. -/
def mqttPacketSendConnect (client : Clients) (mqttVersion : ℕ) : Option Bytes :=
  let rest := [connectFlags client.cleansession] ++ writeInt client.keepAliveInterval ++
    writeUTF client.clientID
  if mqttVersion = 3 then
    some (mqttPacketSends ⟨CONNECT, 0, 0, 0⟩ [writeUTF protocolMqisdp ++ [3] ++ rest])
  else if mqttVersion = 4 then
    some (mqttPacketSends ⟨CONNECT, 0, 0, 0⟩ [writeUTF protocolMqtt ++ [4] ++ rest])
  else none

/-- The data of a CONNECT without will, user name and password, read by `readUTFlen`, `readChar` and
`readInt`. -/
def readConnect (data : Bytes) : Option Connect := do
  let (protocol, curdata) ← readUTFlen data
  let (version, curdata) ← readChar curdata
  let (flags, curdata) ← readChar curdata
  let (keepAliveTimer, curdata) ← readInt curdata
  let (clientID, curdata) ← readUTFlen curdata
  if curdata = [] then some ⟨protocol, version, flags / 2 % 2 = 1, keepAliveTimer, clientID⟩
  else none

/-- A stream that is one CONNECT. -/
def decodeConnect (stream : Bytes) : Option Connect :=
  match mqttPacketFactory stream with
  | some (header, data, []) =>
    if (Header.ofByte header).type = CONNECT then readConnect data else none
  | _ => none

/-! ### What is written is what is read -/

theorem readUTFlen_writeUTF {string : Bytes} (hlen : string.length < 65536) (rest : Bytes) :
    readUTFlen (writeUTF string ++ rest) = some (string, rest) := by
  have hint : toInt32 string.length = string.length := toInt32_eq_self (by omega) (by omega)
  rw [writeUTF, hint, List.append_assoc]
  exact readUTFlen_write hlen rest

/-- The readers one after the other. -/
theorem readConnect_eq {data protocol clientID tail last : Bytes} {version flags : UInt8}
    {keepAlive : ℕ} (hprotocol : readUTFlen data = some (protocol, version :: flags :: tail))
    (hkeep : readInt tail = some (keepAlive, last))
    (hclient : readUTFlen last = some (clientID, [])) :
    readConnect data =
      some ⟨protocol, version.toNat, flags.toNat / 2 % 2 = 1, keepAlive, clientID⟩ := by
  rw [readConnect, hprotocol]
  simp only [Option.bind_eq_bind, Option.bind_some, readChar, hkeep, hclient, if_true]

/-- What they take out fits. -/
theorem readConnect_fits {data : Bytes} {connect : Connect} (h : readConnect data = some connect) :
    connect.keepAliveTimer < 65536 ∧ connect.clientID.length < 65536 := by
  simp only [readConnect, Option.bind_eq_bind, Option.bind_eq_some_iff] at h
  obtain ⟨⟨protocol, a⟩, -, ⟨version, b⟩, -, ⟨flags, c⟩, -, ⟨keepAlive, d⟩, hkeep,
    ⟨clientID, e⟩, hclient, hconnect⟩ := h
  dsimp only at hconnect
  split_ifs at hconnect
  rw [← Option.some.inj hconnect]
  exact ⟨(readInt_lt hkeep).1, (length_of_readUTFlen hclient).1⟩

/-- A whole packet with one buffer. -/
theorem decodeConnect_sends {buf : Bytes} (hbuf : buf.length < 128 ^ 4) :
    decodeConnect (mqttPacketSends ⟨CONNECT, 0, 0, 0⟩ [buf]) = readConnect buf := by
  have hsum : ([buf].map List.length).sum < 128 ^ 4 := by simpa using hbuf
  have hheader : Header.ofByte (Header.byte ⟨CONNECT, 0, 0, 0⟩) = ⟨CONNECT, 0, 0, 0⟩ := by decide
  have hflatten : [buf].flatten = buf := by simp
  rw [decodeConnect, mqttPacketFactory_sends _ hsum, hflatten]
  simp only [hheader, if_true]

theorem decodeConnect_fits {stream : Bytes} {connect : Connect}
    (h : decodeConnect stream = some connect) :
    connect.keepAliveTimer < 65536 ∧ connect.clientID.length < 65536 := by
  rw [decodeConnect] at h
  split at h
  · split_ifs at h
    exact readConnect_fits h
  · cases h

/-- The protocol name of a version. -/
def protocolOf (mqttVersion : ℕ) : Bytes := if mqttVersion = 3 then protocolMqisdp else protocolMqtt

/-- **What the writer puts in, the reader takes out**, for either version. -/
theorem decodeConnect_send {client : Clients} {version k : ℕ} (hversion : version = 3 ∨ version = 4)
    (hkeep : client.keepAliveInterval = k) (hk : k < 65536)
    (hclient : client.clientID.length < 65536) :
    ∃ wire, mqttPacketSendConnect client version = some wire ∧ decodeConnect wire =
      some ⟨protocolOf version, version, client.cleansession, k, client.clientID⟩ := by
  have hflags : decide ((connectFlags client.cleansession).toNat / 2 % 2 = 1) =
      client.cleansession := by
    cases client.cleansession <;> rfl
  have hid : readUTFlen (writeUTF client.clientID) = some (client.clientID, []) := by
    simpa using readUTFlen_writeUTF hclient []
  have hdecode : ∀ (protocol : Bytes) (b : UInt8), protocol.length ≤ 6 →
      decodeConnect (mqttPacketSends ⟨CONNECT, 0, 0, 0⟩ [writeUTF protocol ++ [b] ++
        ([connectFlags client.cleansession] ++ writeInt k ++ writeUTF client.clientID)]) =
        some ⟨protocol, b.toNat, client.cleansession, k, client.clientID⟩ := by
    intro protocol b hprotocol
    rw [decodeConnect_sends ?_]
    · have hread := readConnect_eq
        (readUTFlen_writeUTF (by omega) (b :: connectFlags client.cleansession ::
          (writeInt k ++ writeUTF client.clientID)) : readUTFlen (writeUTF protocol ++ _) = _)
        (readInt_writeInt hk _) hid
      rw [hflags] at hread
      rw [← hread]
      simp only [List.append_assoc, List.cons_append, List.nil_append]
    · simp only [writeUTF, writeInt, List.length_append, List.length_cons, List.length_nil]
      omega
  obtain rfl | rfl := hversion
  · exact ⟨_, by rw [mqttPacketSendConnect, hkeep, if_pos rfl],
      hdecode protocolMqisdp 3 (by decide)⟩
  · exact ⟨_, by rw [mqttPacketSendConnect, hkeep, if_neg (by decide), if_pos rfl],
      hdecode protocolMqtt 4 (by decide)⟩

namespace Wrapper

/-- `connect` raises, or its CONNECT, with either version, reads back as what was configured, and
the keep-alive in it is the interval after which the client itself sends a ping. -/
def ConnectFaithful (w : Wrapper) (p : Paho) : Prop :=
  match w.mqttConnect p with
  | .raised _ => True
  | .done (h, p') => ∀ version, version = 3 ∨ version = 4 → ∃ wire connect,
      mqttPacketSendConnect (p'.client h) version = some wire ∧ decodeConnect wire = some connect ∧
      (connect.keepAliveTimer : ℤ) = w.keepAlive ∧ w.clientId = .string connect.clientID ∧
      connect.cleanstart = w.cleanSession ∧
      (connect.keepAliveTimer : ℤ) = (p'.client h).keepAliveInterval
  | .stuck => False

/-- **Exactly when `connect` is faithful**, in every state and for every attribute: it raises, or
the client id is UTF-8 of at most 65535 bytes and the keep-alive is between 0 and 65535. -/
theorem connect_faithful_iff (w : Wrapper) (p : Paho) :
    w.ConnectFaithful p ↔ w.reachesCreate = false ∨ ∃ clientId, w.clientId = .string clientId ∧
      utf8ValidateString clientId = true ∧ clientId.length < 65536 ∧ 0 ≤ w.keepAlive ∧
      w.keepAlive < 65536 := by
  have hraised := mqttConnect_raised_iff (w := w) (p := p)
  rw [ConnectFaithful]
  rcases hconnect : w.mqttConnect p with ⟨h, p'⟩ | e | -
  · have hreaches : ¬ w.reachesCreate = false := by
      rw [← hraised, hconnect]
      rintro ⟨e, ⟨⟩⟩
    obtain ⟨-, -, ⟨address, clientId, -, hclientId, hoptions⟩, -⟩ := connect_options hconnect
    obtain ⟨hid, hclean, hkeep⟩ : (p'.client h).clientID = clientId ∧
        (p'.client h).cleansession = w.cleanSession ∧
        (p'.client h).keepAliveInterval = toInt32 w.keepAlive := by
      injection hoptions with _ hid hclean hkeep
      exact ⟨hid, hclean, hkeep⟩
    obtain ⟨-, address', clientId', -, hclientId', -, -, hutf8, -⟩ :=
      mqttConnect_done_iff.1 hconnect
    obtain rfl : clientId' = clientId := RubyValue.string.inj (hclientId'.symm.trans hclientId)
    rw [or_iff_right hreaches]
    constructor
    · intro hfaithful
      obtain ⟨wire, connect, -, hdecode, hk, hc, -⟩ := hfaithful 4 (.inr rfl)
      obtain ⟨htimer, hlength⟩ := decodeConnect_fits hdecode
      refine ⟨connect.clientID, hc, ?_, hlength, by omega, by omega⟩
      rw [RubyValue.string.inj (hc.symm.trans hclientId)]
      exact hutf8
    · rintro ⟨c, hc, -, hlength, hlo, hhi⟩ version hversion
      obtain rfl : c = clientId' := RubyValue.string.inj (hc.symm.trans hclientId)
      have hint : toInt32 w.keepAlive = w.keepAlive := toInt32_eq_self (by omega) (by omega)
      have hcast : ((w.keepAlive.toNat : ℕ) : ℤ) = w.keepAlive := Int.toNat_of_nonneg hlo
      have hinterval : (p'.client h).keepAliveInterval = (w.keepAlive.toNat : ℕ) := by
        rw [hkeep, hint, hcast]
      obtain ⟨wire, hwire, hdecode⟩ := decodeConnect_send hversion hinterval (by omega)
        (by rw [hid]; exact hlength)
      exact ⟨wire, _, hwire, hdecode, hcast, by rw [hid, hc], hclean, hinterval.symm⟩
  · exact iff_of_true trivial (.inl (hraised.1 ⟨e, hconnect⟩))
  · -- It comes to `MQTTAsync_create`, which refuses the client id.
    refine iff_of_false not_false ?_
    have hreaches : ¬ w.reachesCreate = false := by
      rw [← hraised, hconnect]
      rintro ⟨e, ⟨⟩⟩
    rintro (hnot | ⟨clientId, hclientId, hutf8, -⟩)
    · exact hreaches hnot
    · obtain ⟨hflag, address, clientId', haddress, hclientId', ha, hc⟩ :=
        reachesCreate_iff.1 (Bool.not_eq_false _ ▸ hreaches)
      obtain rfl : clientId = clientId' := RubyValue.string.inj (hclientId.symm.trans hclientId')
      have hdone := (mqttConnect_done_iff (p := p)).2
        ⟨hflag, address, clientId, haddress, hclientId, ha, hc, hutf8, rfl⟩
      cases hdone.symm.trans hconnect

/-- With a keep-alive of 65536 the broker is told 0, which switches it off. -/
theorem long_keep_alive_unfaithful :
    ¬ { mqttInit with
        address := .string [0x68], clientId := .string [0x6D],
        keepAlive := 65536 }.ConnectFaithful .init := by
  rw [connect_faithful_iff]
  rintro (hraises | ⟨clientId, -, -, -, -, hhi⟩)
  · revert hraises
    decide
  · revert hhi
    decide

end Wrapper

namespace System

/-- **The packet of a client** is the same whenever it is sent. -/
theorem packet_kept {cfg : Config} {s t : System} (hs : s.Wf) (hreaches : (machine cfg).Reaches s t)
    {h : ℕ} (hh : h < s.paho.count) (version : ℕ) :
    mqttPacketSendConnect (t.paho.client h) version =
      mqttPacketSendConnect (s.paho.client h) version := by
  have hoptions := options_run hs hreaches h hh
  rw [MqttAsyncs.options, MqttAsyncs.options] at hoptions
  injection hoptions with _ hid hclean hkeep
  rw [mqttPacketSendConnect, mqttPacketSendConnect, Paho.client, Paho.client, hid, hclean, hkeep]

end System
