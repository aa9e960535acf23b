import MrubyMqtt.System

/-!
# Outgoing requests

What becomes of the arguments of `publish` and `subscribe`: the call queues a command, the send
thread writes it as a packet, and the packet is read back by the library's own rules. The request is
**faithful** if the call raises, or the packet says exactly what was asked.

The two length fields decide. The topic has two bytes for its length, and the reader takes four
bytes of remaining length; nothing on the way out checks either. So a request that is not refused is
faithful exactly when its topic has at most 65535 bytes and its packet at most 268435455
(`publishFaithful_iff`, `subscribeFaithful_iff`).
-/

open Bytes

/-- The bytes `MQTTAsync_processCommand` writes for a command. -/
def Command.packet (command : Command) : Option Bytes :=
  match command.details with
  | .publish destinationName payload qos retained =>
    some (mqttPacketSendPublish destinationName command.token payload 0 qos retained)
  | .subscribe topic qos => some (mqttPacketSendSubscribe topic command.token qos 0)
  | _ => none

/-! ### Reading a packet back -/

/-- A stream that is one PUBLISH, read by `MQTTPacket_Factory` and `MQTTPacket_publish`. -/
def decodePublish (stream : Bytes) : Option Publish :=
  match mqttPacketFactory stream with
  | some (header, data, []) =>
    if (Header.ofByte header).type = PUBLISH then (mqttPacketPublish header data).toOption else none
  | _ => none

/-- A stream that is one SUBSCRIBE to one topic, read by `MQTTPacket_Factory`, `readInt`,
`readUTFlen` and `readChar`: its topic filter and its quality of service. -/
def decodeSubscribe (stream : Bytes) : Option (Bytes × ℕ) :=
  match mqttPacketFactory stream with
  | some (header, data, []) =>
    if (Header.ofByte header).type = SUBSCRIBE then
      match readInt data with
      | none => none
      | some (_, curdata) =>
        match readUTFlen curdata with
        | none => none
        | some (topic, curdata) =>
          match readChar curdata with
          | some (qos, []) => some (topic, qos)
          | _ => none
    else none
  | _ => none

/-- The bytes of a PUBLISH behind its fixed header. -/
def publishLength (topic payload : Bytes) (qos : ℤ) : ℕ :=
  2 + topic.length + (if 0 < qos then 2 else 0) + payload.length

/-- The topic has a two-byte length and the packet a remaining length of four bytes. -/
def PublishFits (topic payload : Bytes) (qos : ℤ) : Prop :=
  topic.length ≤ 65535 ∧ publishLength topic payload qos ≤ 268435455

/-- **What the writer puts in, the reader takes out**, when it fits. -/
theorem decodePublish_send {topic payload : Bytes} {qos retained : ℕ} (msgId : ℤ) (hqos : qos ≤ 2)
    (hretained : retained ≤ 1) (hfits : PublishFits topic payload qos) :
    ∃ id, decodePublish (mqttPacketSendPublish topic msgId payload 0 qos retained) =
      some ⟨⟨PUBLISH, 0, qos, retained⟩, topic, id, payload⟩ := by
  obtain ⟨htopic, hlength⟩ := hfits
  have hint : toInt32 topic.length = topic.length := toInt32_eq_self (by omega) (by omega)
  have hheader : Header.ofByte (Header.byte ⟨PUBLISH, 0, qos, retained⟩) =
      ⟨PUBLISH, 0, qos, retained⟩ :=
    Header.ofByte_byte (by simp [PUBLISH]) (by simp) (by simp; omega) (by simp; omega)
  rw [publishLength] at hlength
  rw [mqttPacketSendPublish, hint]
  by_cases hpos : qos > 0
  · -- With a message id between topic and payload.
    rw [if_pos (by omega)] at hlength
    obtain ⟨id, hid⟩ := readInt_writeInt_isSome msgId payload
    have hsum : ([writeInt topic.length, topic, writeInt msgId, payload].map List.length).sum
        < 128 ^ 4 := by
      simp only [List.map_cons, List.map_nil, List.sum_cons, List.sum_nil, writeInt,
        List.length_cons, List.length_nil]
      omega
    have hread : readUTFlen [writeInt topic.length, topic, writeInt msgId, payload].flatten =
        some (topic, writeInt msgId ++ payload) := by
      rw [← readUTFlen_write (by omega)]
      simp
    refine ⟨id, ?_⟩
    rw [if_pos hpos, decodePublish, mqttPacketFactory_sends _ hsum]
    simp only [hheader, if_true, mqttPacketPublish, hread, hpos, hid]
    rfl
  · -- Without one.
    rw [if_neg (by omega)] at hlength
    have hsum : ([writeInt topic.length, topic, payload].map List.length).sum < 128 ^ 4 := by
      simp only [List.map_cons, List.map_nil, List.sum_cons, List.sum_nil, writeInt,
        List.length_cons, List.length_nil]
      omega
    have hread : readUTFlen [writeInt topic.length, topic, payload].flatten =
        some (topic, payload) := by
      rw [← readUTFlen_write (by omega)]
      simp
    refine ⟨0, ?_⟩
    rw [if_neg hpos, decodePublish, mqttPacketFactory_sends _ hsum]
    simp only [hheader, if_true, mqttPacketPublish, hread, hpos, if_false]
    rfl

/-- **What the reader takes out always fits.** -/
theorem publishFits_of_decodePublish {stream : Bytes} {packet : Publish}
    (h : decodePublish stream = some packet) :
    PublishFits packet.topic packet.payload packet.header.qos := by
  rw [decodePublish] at h
  rcases hfactory : mqttPacketFactory stream with - | ⟨header, data, rest⟩
  · simp [hfactory] at h
  · -- The reader takes four digits of remaining length, and a topic length of two bytes.
    have hdata : data.length < 128 ^ 4 := length_of_mqttPacketFactory hfactory
    rcases rest with - | ⟨b, rest⟩
    · simp only [hfactory] at h
      split_ifs at h
      rw [mqttPacketPublish] at h
      rcases hread : readUTFlen data with - | ⟨topic, curdata⟩
      · simp [hread, Except.toOption] at h
      · obtain ⟨htopic, hlength⟩ := length_of_readUTFlen hread
        simp only [hread] at h
        by_cases hpos : (Header.ofByte header).qos > 0
        · rw [if_pos hpos] at h
          rcases hint : readInt curdata with - | ⟨id, payload⟩
          · simp [hint, Except.toOption] at h
          · obtain ⟨-, hpayload⟩ := readInt_lt hint
            simp only [hint, Except.toOption, Option.some.injEq] at h
            subst h
            refine ⟨by simp only; omega, ?_⟩
            simp only [publishLength]
            rw [if_pos (by omega)]
            omega
        · rw [if_neg hpos] at h
          simp only [Except.toOption, Option.some.injEq] at h
          subst h
          refine ⟨by simp only; omega, ?_⟩
          simp only [publishLength]
          rw [if_neg (by omega)]
          omega
    · simp [hfactory] at h

/-- The stages of `decodeSubscribe`, one after the other. -/
theorem decodeSubscribe_eq_some {stream data idRest topicRest topic : Bytes} {header : UInt8}
    {id qos : ℕ} (hfactory : mqttPacketFactory stream = some (header, data, []))
    (htype : (Header.ofByte header).type = SUBSCRIBE) (hid : readInt data = some (id, idRest))
    (htopic : readUTFlen idRest = some (topic, topicRest))
    (hqos : readChar topicRest = some (qos, [])) : decodeSubscribe stream = some (topic, qos) := by
  simp only [decodeSubscribe, hfactory, htype, if_true, hid, htopic, hqos]

theorem decodeSubscribe_send {topic : Bytes} {qos : ℕ} (msgid : ℤ) (hqos : qos ≤ 2)
    (htopic : topic.length ≤ 65535) :
    decodeSubscribe (mqttPacketSendSubscribe topic msgid qos 0) = some (topic, qos) := by
  have hint : toInt32 topic.length = topic.length := toInt32_eq_self (by omega) (by omega)
  have hheader : Header.ofByte (Header.byte ⟨SUBSCRIBE, 0, 1, 0⟩) = ⟨SUBSCRIBE, 0, 1, 0⟩ :=
    Header.ofByte_byte (by simp [SUBSCRIBE]) (by simp) (by simp) (by simp)
  have hsum : ([writeInt msgid ++ writeUTF topic ++ [toChar qos]].map List.length).sum
      < 128 ^ 4 := by
    simp only [List.map_cons, List.map_nil, List.sum_cons, List.sum_nil, writeUTF, writeInt,
      List.length_append, List.length_cons, List.length_nil]
    omega
  obtain ⟨id, hid⟩ := readInt_writeInt_isSome msgid (writeUTF topic ++ [toChar qos])
  have hdata : [writeInt msgid ++ writeUTF topic ++ [toChar qos]].flatten =
      writeInt msgid ++ (writeUTF topic ++ [toChar qos]) := by
    simp
  have hread : readUTFlen (writeUTF topic ++ [toChar qos]) = some (topic, [toChar qos]) := by
    rw [writeUTF, hint, List.append_assoc, readUTFlen_write (by omega)]
  have hchar : readChar [toChar qos] = some (qos, []) := by
    rw [readChar, toChar_natCast_toNat, Nat.mod_eq_of_lt (by omega)]
  have hfactory : mqttPacketFactory (mqttPacketSendSubscribe topic msgid qos 0) =
      some (Header.byte ⟨SUBSCRIBE, 0, 1, 0⟩, writeInt msgid ++ (writeUTF topic ++ [toChar qos]),
        []) := by
    rw [mqttPacketSendSubscribe, mqttPacketFactory_sends _ hsum, hdata]
  exact decodeSubscribe_eq_some hfactory (congrArg Header.type hheader) hid hread hchar

theorem length_of_decodeSubscribe {stream topic : Bytes} {qos : ℕ}
    (h : decodeSubscribe stream = some (topic, qos)) : topic.length ≤ 65535 := by
  rw [decodeSubscribe] at h
  split at h
  · split_ifs at h
    split at h
    · cases h
    · split at h
      · cases h
      · rename_i hread
        split at h
        · simp only [Option.some.injEq, Prod.mk.injEq] at h
          obtain ⟨rfl, -⟩ := h
          have hlt := (length_of_readUTFlen hread).1
          omega
        · cases h
  · cases h

/-! ### When Paho refuses -/

namespace Paho

/-- Paho returns an error: the client is not connected, the topic is not UTF-8, or the request needs
a message id and none is free. -/
def SendRefused (p : Paho) (h : ℕ) (topic : Bytes) (needsId : Prop) : Prop :=
  (p.client h).connected = false ∨ utf8ValidateString topic = false ∨
    (needsId ∧ ∃ p', p.mqttAsyncAssignMsgId h = some (0, p'))

/-- Assigning a message id leaves the queue alone. -/
theorem mqttAsyncAssignMsgId_commands {p p' : Paho} {h msgid : ℕ}
    (hassign : p.mqttAsyncAssignMsgId h = some (msgid, p')) : p'.commands = p.commands := by
  simp only [mqttAsyncAssignMsgId, Option.map_eq_some_iff, Prod.mk.injEq] at hassign
  obtain ⟨id, -, -, rfl⟩ := hassign
  split_ifs <;> rfl

/-- A PUBLISH or SUBSCRIBE is appended to the queue. -/
theorem mqttAsyncAddCommand_commands {p : Paho} {command : Command}
    (hlast : command.goesFirst = false) :
    (p.mqttAsyncAddCommand command).commands = p.commands ++ [command] := by
  rw [mqttAsyncAddCommand, if_neg (by simp [hlast])]

/-- **`MQTTAsync_send`.** With a valid quality of service it refuses, or does not come back, or has
appended one PUBLISH to the queue. -/
theorem mqttAsyncSend_cases (p : Paho) (h : ℕ) (topic : Bytes) (payloadlen : ℤ) (payload : Bytes)
    {qos : ℤ} (retained : ℕ) (hqos : 0 ≤ qos ∧ qos ≤ 2) :
    (p.SendRefused h topic (0 < qos) ∧
      ∃ rc, p.mqttAsyncSend h topic payloadlen payload qos retained = .refused rc) ∨
    (¬ p.SendRefused h topic (0 < qos) ∧
      p.mqttAsyncSend h topic payloadlen payload qos retained = .stuck ∧
      ((0 < qos ∧ p.mqttAsyncAssignMsgId h = none) ∨
        mallocable (topic.length + 1) = false ∨ mallocable payloadlen = false)) ∨
    (¬ p.SendRefused h topic (0 < qos) ∧ (0 < qos → (p.mqttAsyncAssignMsgId h).isSome) ∧
      ∃ id p', p'.commands = p.commands ++
          [⟨h, id, .publish topic (payload.take payloadlen.toNat) qos.toNat retained⟩] ∧
        p.mqttAsyncSend h topic payloadlen payload qos retained = .success p') := by
  obtain ⟨hlo, hhi⟩ := hqos
  rw [mqttAsyncSend]
  rcases hconn : (p.client h).connected with - | -
  · exact .inl ⟨.inl hconn, -3, rfl⟩
  rcases hutf : utf8ValidateString topic with - | -
  · exact .inl ⟨.inr (.inl hutf), -5, rfl⟩
  have hq : (decide (qos < 0) || decide (qos > 2)) = false := by simp; omega
  simp only [hq, Bool.not_true, Bool.false_eq_true, if_false]
  by_cases hpos : 0 < qos
  · simp only [gt_iff_lt, hpos, if_true, decide_true, Bool.true_and]
    rcases hassign : p.mqttAsyncAssignMsgId h with - | ⟨id, p'⟩
    · refine .inr (.inl ⟨?_, rfl, .inl ⟨trivial, rfl⟩⟩)
      simp [SendRefused, hconn, hutf, hassign]
    · have hcommands : p'.commands = p.commands := mqttAsyncAssignMsgId_commands hassign
      by_cases hid : id = 0
      · subst hid
        exact .inl ⟨.inr (.inr ⟨trivial, p', hassign⟩), -10, rfl⟩
      · have hnot : ¬ p.SendRefused h topic True := by
          simp [SendRefused, hconn, hutf, hassign, hid]
        simp only [hid, decide_false, Bool.false_eq_true, if_false]
        split_ifs with hmalloc
        · refine .inr (.inr ⟨hnot, by simp, id, _, ?_, rfl⟩)
          rw [mqttAsyncAddCommand_commands rfl, hcommands]
        · exact .inr (.inl ⟨hnot, rfl, .inr (Bool.and_eq_false_iff.1 (by simpa using hmalloc))⟩)
  · have hnot : ¬ p.SendRefused h topic (0 < qos) := by
      simp [SendRefused, hconn, hutf, hpos]
    simp only [gt_iff_lt, hpos, if_false, decide_false, Bool.false_and, Bool.false_eq_true]
    split_ifs with hmalloc
    · refine .inr (.inr ⟨by simpa [hpos] using hnot, by simp, 0, _, ?_, rfl⟩)
      rw [mqttAsyncAddCommand_commands rfl]
    · exact .inr (.inl ⟨by simpa [hpos] using hnot, rfl,
        .inr (Bool.and_eq_false_iff.1 (by simpa using hmalloc))⟩)

/-- **`MQTTAsync_subscribe`**, likewise; it always needs a message id. -/
theorem mqttAsyncSubscribe_cases (p : Paho) (h : ℕ) (topic : Bytes) {qos : ℤ}
    (hqos : 0 ≤ qos ∧ qos ≤ 2) :
    (p.SendRefused h topic True ∧ ∃ rc, p.mqttAsyncSubscribe h topic qos = .refused rc) ∨
    (¬ p.SendRefused h topic True ∧ p.mqttAsyncSubscribe h topic qos = .stuck ∧
      (p.mqttAsyncAssignMsgId h = none ∨ mallocable (topic.length + 1) = false)) ∨
    (¬ p.SendRefused h topic True ∧ (p.mqttAsyncAssignMsgId h).isSome ∧
      ∃ id p', p'.commands = p.commands ++ [⟨h, id, .subscribe topic qos.toNat⟩] ∧
        p.mqttAsyncSubscribe h topic qos = .success p') := by
  obtain ⟨hlo, hhi⟩ := hqos
  rw [mqttAsyncSubscribe]
  rcases hconn : (p.client h).connected with - | -
  · exact .inl ⟨.inl hconn, -3, rfl⟩
  rcases hutf : utf8ValidateString topic with - | -
  · exact .inl ⟨.inr (.inl hutf), -5, rfl⟩
  have hq : (decide (qos < 0) || decide (qos > 2)) = false := by simp; omega
  simp only [hq, Bool.not_true, Bool.false_eq_true, if_false]
  rcases hassign : p.mqttAsyncAssignMsgId h with - | ⟨id, p'⟩
  · exact .inr (.inl ⟨by simp [SendRefused, hconn, hutf, hassign], rfl, .inl rfl⟩)
  · have hcommands : p'.commands = p.commands := mqttAsyncAssignMsgId_commands hassign
    by_cases hid : id = 0
    · subst hid
      exact .inl ⟨.inr (.inr ⟨trivial, p', hassign⟩), -10, rfl⟩
    · have hnot : ¬ p.SendRefused h topic True := by
        simp [SendRefused, hconn, hutf, hassign, hid]
      simp only [hid, if_false]
      split_ifs with hmalloc
      · refine .inr (.inr ⟨hnot, rfl, id, _, ?_, rfl⟩)
        rw [mqttAsyncAddCommand_commands rfl, hcommands]
      · exact .inr (.inl ⟨hnot, rfl, .inr (by simpa using hmalloc)⟩)

end Paho

/-! ### Faithful or refused -/

namespace Wrapper

/-- `publish` raises: a quality of service out of range, no state in the slot, a NUL in the topic or
the payload, or a refusal by Paho. -/
def PublishRefused (w : Wrapper) (p : Paho) (topic payload : Bytes) (qos : Option ℤ) : Prop :=
  ¬ (0 ≤ qos.getD 0 ∧ qos.getD 0 ≤ 2) ∨ w.loadDataPtr = some none ∨
    ∃ m, w.loadDataPtr = some (some m) ∧ (¬ NulFree topic ∨ ¬ NulFree payload ∨
      p.SendRefused (w.stateClient m) topic (0 < qos.getD 0))

/-- `subscribe` raises, for the same reasons. -/
def SubscribeRefused (w : Wrapper) (p : Paho) (topic : Bytes) (qos : Option ℤ) : Prop :=
  ¬ (0 ≤ qos.getD 0 ∧ qos.getD 0 ≤ 2) ∨ w.loadDataPtr = some none ∨
    ∃ m, w.loadDataPtr = some (some m) ∧ (¬ NulFree topic ∨
      p.SendRefused (w.stateClient m) topic True)

/-- `publish` raises, or it queues one command whose packet reads back as the request. -/
def PublishFaithful (w : Wrapper) (p : Paho) (topic payload : Bytes) (qos : Option ℤ)
    (retain : Option Bool) : Prop :=
  match w.api p (.publish topic payload qos retain) with
  | .raised _ => True
  | .done p' => ∃ command wire packet, p'.commands = p.commands ++ [command] ∧
      command.packet = some wire ∧ decodePublish wire = some packet ∧ packet.topic = topic ∧
      packet.payload = payload ∧ (packet.header.qos : ℤ) = qos.getD 0 ∧
      packet.header.retain = (retain.getD false).toNat
  | .stuck => False

/-- `subscribe` raises, or it queues one command whose packet reads back as the request. -/
def SubscribeFaithful (w : Wrapper) (p : Paho) (topic : Bytes) (qos : Option ℤ) : Prop :=
  match w.api p (.subscribe topic qos) with
  | .raised _ => True
  | .done p' => ∃ command wire n, p'.commands = p.commands ++ [command] ∧
      command.packet = some wire ∧ decodeSubscribe wire = some (topic, n) ∧ (n : ℤ) = qos.getD 0
  | .stuck => False

/-- A request small enough for the packet is small enough for everything before it. -/
theorem mallocable_of_publishFits {topic payload : Bytes} {qos : ℤ}
    (hfits : PublishFits topic payload qos) :
    Paho.mallocable (topic.length + 1) = true ∧ toInt32 payload.length = payload.length ∧
      Paho.mallocable (toInt32 payload.length) = true := by
  obtain ⟨htopic, hlength⟩ := hfits
  rw [publishLength] at hlength
  have hint : toInt32 payload.length = payload.length := toInt32_eq_self (by omega) (by omega)
  refine ⟨?_, hint, ?_⟩
  · simp only [Paho.mallocable, Bool.and_eq_true, decide_eq_true_eq]
    omega
  · simp only [hint, Paho.mallocable, Bool.and_eq_true, decide_eq_true_eq]
    omega

/-- A queued PUBLISH reads back as the request exactly when the request fits. -/
theorem readsBack_publish_iff {commands queued : List Command} {h id : ℕ} {topic payload : Bytes}
    {qos : ℤ} {retain : Bool} (hqos : 0 ≤ qos ∧ qos ≤ 2)
    (hqueued : queued = commands ++ [⟨h, id, .publish topic
      (payload.take (toInt32 payload.length).toNat) qos.toNat retain.toNat⟩]) :
    (∃ command wire packet, queued = commands ++ [command] ∧ command.packet = some wire ∧
      decodePublish wire = some packet ∧ packet.topic = topic ∧ packet.payload = payload ∧
      (packet.header.qos : ℤ) = qos ∧ packet.header.retain = retain.toNat) ↔
    PublishFits topic payload qos := by
  constructor
  · rintro ⟨command, wire, packet, -, -, hdecode, rfl, rfl, rfl, -⟩
    exact publishFits_of_decodePublish hdecode
  · intro hfits
    obtain ⟨-, hint, -⟩ := mallocable_of_publishFits hfits
    have hcast : ((qos.toNat : ℕ) : ℤ) = qos := Int.toNat_of_nonneg hqos.1
    have hretain : retain.toNat ≤ 1 := Bool.toNat_le retain
    have hfits' : PublishFits topic payload (qos.toNat : ℕ) := hcast.symm ▸ hfits
    obtain ⟨msgId, hdecode⟩ := decodePublish_send id (by omega) hretain hfits'
    refine ⟨_, _, ⟨⟨PUBLISH, 0, qos.toNat, retain.toNat⟩, topic, msgId, payload⟩, hqueued, rfl, ?_,
      rfl, rfl, hcast, rfl⟩
    rw [hint, Int.toNat_natCast, List.take_length]
    exact hdecode

/-- **Exactly when `publish` is faithful**: it is refused, or it has a connection and a message id
and the request fits its packet. -/
theorem publishFaithful_iff (w : Wrapper) (p : Paho) (topic payload : Bytes) (qos : Option ℤ)
    (retain : Option Bool) :
    w.PublishFaithful p topic payload qos retain ↔
      w.PublishRefused p topic payload qos ∨
        ∃ m, w.loadDataPtr = some (some m) ∧
          (0 < qos.getD 0 → (p.mqttAsyncAssignMsgId (w.stateClient m)).isSome) ∧
          PublishFits topic payload (qos.getD 0) := by
  rw [PublishFaithful, api]
  by_cases hqos : 0 ≤ qos.getD 0 ∧ qos.getD 0 ≤ 2
  · have hvalid : (Api.publish topic payload qos retain).validOptions = true := by
      simpa [Api.validOptions] using hqos
    simp only [hvalid, Bool.not_true, Bool.false_eq_true, if_false]
    rcases hload : w.loadDataPtr with - | - | m
    · simp [PublishRefused, hload, hqos]
    · simp [PublishRefused, hload]
    · simp only [Api.call, strToCstr]
      by_cases htopic : NulFree topic
      · by_cases hpayload : NulFree payload
        · simp only [htopic, hpayload, if_true]
          obtain ⟨href, rc, hsend⟩ | ⟨hnot, hsend, hwhy⟩ | ⟨hnot, hid, id, p', hqueued, hsend⟩ :=
            p.mqttAsyncSend_cases (w.stateClient m) topic (toInt32 payload.length) payload
              (retain.getD false).toNat hqos
          · -- Paho refuses, and the wrapper raises.
            simp only [hsend, true_iff]
            exact .inl (.inr (.inr ⟨m, hload, .inr (.inr href)⟩))
          · -- The call does not come back, which a request that fits never leads to.
            simp only [hsend, false_iff]
            rintro (hrefused | ⟨m', hm', hid, hfits⟩)
            · simp [PublishRefused, hqos, hload, htopic, hpayload, hnot] at hrefused
            · obtain rfl : m = m' := by simpa using hm'
              obtain ⟨htopicLen, -, hpayloadLen⟩ := mallocable_of_publishFits hfits
              rcases hwhy with ⟨hpos, hnone⟩ | hbad | hbad
              · simpa [hnone] using hid hpos
              · simp [hbad] at htopicLen
              · simp [hbad] at hpayloadLen
          · -- The command is queued, and all depends on the packet it becomes.
            simp only [hsend]
            rw [readsBack_publish_iff hqos hqueued]
            constructor
            · intro hfits
              exact .inr ⟨m, rfl, hid, hfits⟩
            · rintro (hrefused | ⟨m', hm', hid, hfits⟩)
              · simp [PublishRefused, hqos, hload, htopic, hpayload, hnot] at hrefused
              · exact hfits
        · simp [PublishRefused, hload, htopic, hpayload]
      · by_cases hpayload : NulFree payload <;> simp [PublishRefused, hload, htopic, hpayload]
  · have hvalid : (Api.publish topic payload qos retain).validOptions = false := by
      simpa [Api.validOptions] using hqos
    simp [hvalid, PublishRefused, hqos]

/-- A queued SUBSCRIBE reads back as the request exactly when the topic filter fits. -/
theorem readsBack_subscribe_iff {commands queued : List Command} {h id : ℕ} {topic : Bytes}
    {qos : ℤ} (hqos : 0 ≤ qos ∧ qos ≤ 2)
    (hqueued : queued = commands ++ [⟨h, id, .subscribe topic qos.toNat⟩]) :
    (∃ command wire n, queued = commands ++ [command] ∧ command.packet = some wire ∧
      decodeSubscribe wire = some (topic, n) ∧ (n : ℤ) = qos) ↔ topic.length ≤ 65535 := by
  constructor
  · rintro ⟨command, wire, n, -, -, hdecode, -⟩
    exact length_of_decodeSubscribe hdecode
  · intro htopic
    exact ⟨_, _, qos.toNat, hqueued, rfl, decodeSubscribe_send _ (by omega) htopic,
      Int.toNat_of_nonneg hqos.1⟩

/-- **Exactly when `subscribe` is faithful.** -/
theorem subscribeFaithful_iff (w : Wrapper) (p : Paho) (topic : Bytes) (qos : Option ℤ) :
    w.SubscribeFaithful p topic qos ↔
      w.SubscribeRefused p topic qos ∨
        ∃ m, w.loadDataPtr = some (some m) ∧
          (p.mqttAsyncAssignMsgId (w.stateClient m)).isSome ∧ topic.length ≤ 65535 := by
  rw [SubscribeFaithful, api]
  by_cases hqos : 0 ≤ qos.getD 0 ∧ qos.getD 0 ≤ 2
  · have hvalid : (Api.subscribe topic qos).validOptions = true := by
      simpa [Api.validOptions] using hqos
    simp only [hvalid, Bool.not_true, Bool.false_eq_true, if_false]
    rcases hload : w.loadDataPtr with - | - | m
    · simp [SubscribeRefused, hload, hqos]
    · simp [SubscribeRefused, hload]
    · simp only [Api.call, strToCstr]
      by_cases htopic : NulFree topic
      · simp only [htopic, if_true]
        obtain ⟨href, rc, hsend⟩ | ⟨hnot, hsend, hwhy⟩ | ⟨hnot, hid, id, p', hqueued, hsend⟩ :=
          p.mqttAsyncSubscribe_cases (w.stateClient m) topic hqos
        · simp only [hsend, true_iff]
          exact .inl (.inr (.inr ⟨m, hload, .inr href⟩))
        · simp only [hsend, false_iff]
          rintro (hrefused | ⟨m', hm', hid, hlength⟩)
          · simp [SubscribeRefused, hqos, hload, htopic, hnot] at hrefused
          · obtain rfl : m = m' := by simpa using hm'
            rcases hwhy with hnone | hbad
            · simp [hnone] at hid
            · simp only [Paho.mallocable, Bool.and_eq_false_iff, decide_eq_false_iff_not] at hbad
              omega
        · simp only [hsend]
          rw [readsBack_subscribe_iff hqos hqueued]
          constructor
          · intro hlength
            exact .inr ⟨m, rfl, hid, hlength⟩
          · rintro (hrefused | ⟨m', hm', hid, hlength⟩)
            · simp [SubscribeRefused, hqos, hload, htopic, hnot] at hrefused
            · exact hlength
      · simp [SubscribeRefused, hload, htopic]
  · have hvalid : (Api.subscribe topic qos).validOptions = false := by
      simpa [Api.validOptions] using hqos
    simp [hvalid, SubscribeRefused, hqos]

/-- **Outgoing requests are faithful or refused, exactly within the limits of the format.** In every
state and for all arguments: `publish` is faithful if and only if it is refused, or there is a state
in the slot, a message id if one is needed, and the request fits; `subscribe` if and only if it is
refused, or there is a state, a message id, and a topic filter of at most 65535 bytes. -/
theorem outgoing_faithful_iff (w : Wrapper) (p : Paho) (topic payload : Bytes) (qos : Option ℤ)
    (retain : Option Bool) :
    (w.PublishFaithful p topic payload qos retain ↔
      w.PublishRefused p topic payload qos ∨
        ∃ m, w.loadDataPtr = some (some m) ∧
          (0 < qos.getD 0 → (p.mqttAsyncAssignMsgId (w.stateClient m)).isSome) ∧
          PublishFits topic payload (qos.getD 0)) ∧
    (w.SubscribeFaithful p topic qos ↔
      w.SubscribeRefused p topic qos ∨
        ∃ m, w.loadDataPtr = some (some m) ∧
          (p.mqttAsyncAssignMsgId (w.stateClient m)).isSome ∧ topic.length ≤ 65535) :=
  ⟨w.publishFaithful_iff p topic payload qos retain, w.subscribeFaithful_iff p topic qos⟩

/-- A client is created and its connection completes. -/
def connectedRun : List SystemEvent :=
  System.configure ++ System.connectCall .ruby ++
    [System.sendTurn .sent, .paho (.connack 0 0), .handlerReturn .receive]

/-- After that run a topic of 65536 letters is neither refused nor sent. -/
theorem long_topic_unfaithful :
    ∃ t, (System.machine ⟨true, true⟩).run .init connectedRun = some t ∧
      ¬ t.wrapper.PublishFaithful t.paho (List.replicate 65536 0x61) [0x31] none none := by
  have hutf : utf8ValidateString (List.replicate 65536 0x61) = true := by
    refine utf8ValidateString_ascii (fun b hb ↦ ?_) ?_
    · rw [List.eq_of_mem_replicate hb]
      decide
    · rw [List.length_replicate]
      omega
  have hnul : NulFree (List.replicate 65536 0x61) := by
    intro h0
    cases List.eq_of_mem_replicate h0
  have hpayload : NulFree [0x31] := by decide
  obtain ⟨t, hrun, hload, hconn⟩ : ∃ t,
      (System.machine ⟨true, true⟩).run .init connectedRun = some t ∧
        t.wrapper.loadDataPtr = some (some 0) ∧
        (t.paho.client (t.wrapper.stateClient 0)).connected = true := ⟨_, rfl, rfl, rfl⟩
  refine ⟨t, hrun, ?_⟩
  rw [publishFaithful_iff]
  rintro ((hqos | hnull | ⟨m, hm, htopic | hpay | hsend⟩) | ⟨m, -, -, hfits, -⟩)
  · exact hqos (by decide)
  · cases hload.symm.trans hnull
  · exact htopic hnul
  · exact hpay hpayload
  · obtain rfl : 0 = m := Option.some.inj (Option.some.inj (hload.symm.trans hm))
    rcases hsend with hdown | hbad | ⟨hpos, -⟩
    · cases hconn.symm.trans hdown
    · cases hutf.symm.trans hbad
    · exact absurd hpos (by decide)
  · rw [List.length_replicate] at hfits
    omega

end Wrapper
