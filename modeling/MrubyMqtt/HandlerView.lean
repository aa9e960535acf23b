import MrubyMqtt.DeliveryInvariant

/-!
# What the handler sees

The results about incoming messages, each read off from `step_moves`:

* a message that is handed on directly shows its topic and its payload as **C strings**, so binary
  payloads are cut at their first NUL (`direct_faithful_iff`);
* a message that comes out of the queue with a NUL-free topic shows an **empty** topic
  (`paths_agree_iff`): the receive thread passes length 0 for such a topic, and `mqtt_msgarrvd`
  terminates the string there;
* no message is lost, doubled or reordered, except that a clean session which completes throws the
  queue away (`messages_accounted`).
-/

open Bytes

namespace Session

/-! ### Where packets come from -/

/-- The callback leaves the record of packets alone. -/
theorem received_mqttMsgarrvd {s s' : Session} {topic topicLen : ℕ} {mm : Message} {rc : Bool}
    (h : s.mqttMsgarrvd topic topicLen mm = some (rc, s')) : s'.received = s.received := by
  rw [mqttMsgarrvd] at h
  rcases hload : s.wrapper.loadDataPtr with - | - | m <;>
    simp only [hload, Option.some.injEq, Prod.mk.injEq, reduceCtorEq] at h
  · exact congrArg Session.received h.2.symm
  · obtain ⟨-, rfl⟩ := h
    rfl

/-- So does the decision between handing on and queueing. -/
theorem received_deliverOrQueue {s s' : Session} {topic topiclen : ℕ} {mm : Message}
    (h : s.deliverOrQueue topic topiclen mm = some s') : s'.received = s.received := by
  rw [deliverOrQueue] at h
  split_ifs at h
  · obtain ⟨⟨rc, t⟩, hcall, rfl⟩ := Option.map_eq_some_iff.1 h
    have hsame : t.received = s.received := received_mqttMsgarrvd hcall
    cases rc <;> exact hsame
  · obtain rfl := Option.some.inj h
    rfl

theorem received_process {s s' : Session} {topic topiclen : ℕ} {payload : Payload} {header : Header}
    {msgId : ℕ} (h : s.protocolProcessPublication topic topiclen payload header msgId = some s') :
    s'.received = s.received := by
  rw [protocolProcessPublication] at h
  rcases hbuild : { s with arrived := s.arrived ++ [topic] }.buildMessage payload header msgId
    with ⟨mm, t⟩
  rw [hbuild] at h
  have hsame : t.received = s.received := by
    cases payload <;> exact congrArg (fun r ↦ r.2.received) hbuild.symm
  exact (received_deliverOrQueue h).trans hsame

theorem received_of_some {s s' t : Session} (h : some t = some s')
    (hsame : t.received = s.received) : s'.received = s.received := by
  rw [← Option.some.inj h]
  exact hsame

theorem received_redeliver {s s' : Session} (h : s.redeliver = some s') :
    s'.received = s.received := by
  rw [Session.redeliver] at h
  rcases hqueue : s.messageQueue with - | ⟨qe, rest⟩
  · simp only [hqueue, Option.some.injEq] at h
    rw [h]
  · simp only [hqueue, Option.map_eq_some_iff] at h
    obtain ⟨⟨rc, t⟩, hcall, rfl⟩ := h
    have hsame : t.received = s.received := received_mqttMsgarrvd hcall
    cases rc <;> exact hsame

theorem received_handlePubrels {s s' : Session} {msgId : ℕ}
    (h : s.mqttProtocolHandlePubrels msgId = some s') : s'.received = s.received := by
  rw [mqttProtocolHandlePubrels] at h
  rcases hfind : s.inboundMsgs.find? fun m ↦ m.msgid == msgId with - | m
  · simp only [hfind, Option.some.injEq] at h
    rw [h]
  · simp only [hfind, Option.map_eq_some_iff] at h
    obtain ⟨t, hprocess, rfl⟩ := h
    have hsame : t.received = s.received := received_process hprocess
    exact hsame

theorem received_handlePublishes {s s' : Session} {topic : ℕ} {publish : Publish}
    (h : s.mqttProtocolHandlePublishes topic publish = some s') : s'.received = s.received := by
  rw [mqttProtocolHandlePublishes] at h
  split_ifs at h
  · exact received_process h
  · exact received_of_some h rfl
  · exact received_of_some h rfl

/-- The record changes where a PUBLISH is read, and nowhere else. -/
theorem received_step {s s' : Session} {e : Incoming} (h : machine.step s e = some s') :
    s'.received = s.received ∨ ∃ aHeader data publish, e = .publish aHeader data ∧
      mqttPacketPublish aHeader data = .ok publish ∧
      s'.received =
        Function.update s.received (allocString s.heap publish.topic).1 (some publish) := by
  cases step_cases h with
  | quiet _ client wrapper turn => exact .inl rfl
  | publish aHeader data publish t hparse hhandle =>
    have hrecord := received_handlePublishes hhandle
    exact .inr ⟨aHeader, data, publish, rfl, hparse, hrecord⟩
  | pubrel msgId t hhandle =>
    have hsame : t.received = s.received := received_handlePubrels hhandle
    exact .inl hsame
  | redeliver t turn _ hcall =>
    have hsame : t.received = s.received := received_redeliver hcall
    exact .inl hsame
  | notFound _ => exact .inl rfl
  | connack =>
    left
    rw [completeConnection]
    split_ifs
    · rfl
    · rfl

/-- **Provenance.** A packet on record at the end of a run is one the run has read. -/
theorem received_of_run {s t : Session} {es : List Incoming} (hrun : machine.run s es = some t)
    {a : ℕ} {publish : Publish} (hreceived : t.received a = some publish)
    (hnew : s.received a ≠ some publish) :
    ∃ aHeader data, .publish aHeader data ∈ es ∧ mqttPacketPublish aHeader data = .ok publish := by
  induction es generalizing s with
  | nil =>
    obtain rfl : s = t := Option.some.inj hrun
    exact absurd hreceived hnew
  | cons e es ih =>
    obtain ⟨s', hstep, hrest⟩ := machine.run_cons_eq_some_iff.1 hrun
    -- Either this step has read the packet or a later one has.
    by_cases hs' : s'.received a = some publish
    · obtain hsame | ⟨aHeader, data, publish', rfl, hparse, hrecord⟩ := received_step hstep
      · exact absurd (hsame ▸ hs') hnew
      · have hread : a = (allocString s.heap publish'.topic).1 := by
          by_contra hne
          rw [hrecord, Function.update_of_ne hne] at hs'
          exact hnew hs'
        rw [hrecord, hread, Function.update_self] at hs'
        obtain rfl := Option.some.inj hs'
        exact ⟨aHeader, data, List.mem_cons_self, hparse⟩
    · obtain ⟨aHeader, data, hmem, hparse⟩ := ih hrest hs'
      exact ⟨aHeader, data, List.mem_cons_of_mem _ hmem, hparse⟩

/-! ### Direct delivery -/

/-- The handler is given what the packet holds. -/
def Shows (c : Call) (publish : Publish) : Prop :=
  c.topic = publish.topic ∧ c.payload = publish.payload

/-- The step hands the publication `a` on in the call `c`. -/
def HandsOn (s s' : Session) (a : ℕ) (publish : Publish) (c : Call) : Prop :=
  s'.received a = some publish ∧ c.publication = a ∧ s'.calls = s.calls ++ [c]

/-- A publication that is processed where it can be handed on is handed on, terminated at its own
length. -/
theorem handsOn_of_direct {s s' : Session} {e : Incoming} (hmoves : Moves s e s')
    (hdirect : s.Direct) {a : ℕ} (harrived : s'.arrived = s.arrived ++ [a]) :
    ∃ publish, HandsOn s s' a publish (callFor a publish.topic.length publish) := by
  have hgrown : s'.arrived ≠ s.arrived := by
    rw [harrived]
    simp
  cases hmoves with
  | quiet _ _ _ hsame _ => exact absurd hsame hgrown
  | delivered topic _ publish _ _ hreceived hcalls _ harrived' _ _ =>
    obtain rfl : a = topic := by
      have heq := harrived.symm.trans harrived'
      simpa using heq
    exact ⟨publish, hreceived, rfl, hcalls⟩
  | queued _ hwithheld _ _ _ _ _ _ => exact absurd hdirect hwithheld.not_direct
  | redelivered _ _ _ _ _ _ _ _ _ hsame _ _ => exact absurd hsame hgrown
  | refused _ _ _ hsame _ _ => exact absurd hsame hgrown
  | cleaned _ _ _ hsame _ => exact absurd hsame hgrown

/-- A call at the topic's own length is faithful, for a NUL-free topic, exactly when the payload is
NUL-free as well. -/
theorem shows_callFor_iff {a : ℕ} {publish : Publish} (htopic : NulFree publish.topic) :
    Shows (callFor a publish.topic.length publish) publish ↔ NulFree publish.payload := by
  rw [Shows, callFor, List.take_length, htopic.cString_eq, cString_eq_self_iff]
  exact and_iff_right rfl

/-- **Direct delivery is faithful exactly for NUL-free payloads.** Along every run, a publication
processed where it can be handed on is handed on once; if its topic is NUL-free, then the handler is
given the packet's topic and payload if and only if the payload is NUL-free. The packet is one that
the run has read. -/
theorem direct_faithful_iff (garbage : ℕ → ℕ → UInt8) (cleansession : Bool) (wrapper : Wrapper)
    (es : List Incoming) :
    machine.EachStep (fun s _ s' ↦ s.Direct → ∀ a, s'.arrived = s.arrived ++ [a] →
        ∃ publish c, HandsOn s s' a publish c ∧
          (NulFree publish.topic → (Shows c publish ↔ NulFree publish.payload)))
      (create garbage cleansession wrapper) es ∧
    ∀ t a publish, machine.run (create garbage cleansession wrapper) es = some t →
      t.received a = some publish →
      ∃ aHeader data, .publish aHeader data ∈ es ∧
        mqttPacketPublish aHeader data = .ok publish := by
  constructor
  · refine machine.eachStep_of_inductive (fun s e s' ht hstep ↦ ?_) (tracked_create ..) es
    obtain ⟨ht', hmoves⟩ := step_moves ht hstep
    refine ⟨fun hdirect a harrived ↦ ?_, ht'⟩
    obtain ⟨publish, hhands⟩ := handsOn_of_direct hmoves hdirect harrived
    exact ⟨publish, _, hhands, shows_callFor_iff⟩
  · intro t a publish hrun hreceived
    exact received_of_run hrun hreceived (by simp [create])

/-- A client whose `mqtt_state` is in the slot. -/
def readyWrapper : Wrapper := mqttInit.mqttConnectStore 0

/-- The PUBLISH of topic `t` with the payload `a`, NUL, `b` at QoS 0, on a connected client, shows
the payload `a`. -/
theorem binary_payload_cut :
    ¬ machine.EachStep (fun s _ s' ↦ s.Direct → ∀ a, s'.arrived = s.arrived ++ [a] →
        ∃ publish c, HandsOn s s' a publish c ∧ (NulFree publish.topic → Shows c publish))
      (create (fun _ _ ↦ 0) true readyWrapper)
      [.connectSent, .packet true, .redeliver, .connack,
        .publish 0x30 [0, 1, 0x74, 0x61, 0, 0x62]] := by
  intro h
  obtain ⟨-, h⟩ := h _ rfl
  obtain ⟨-, h⟩ := h _ rfl
  obtain ⟨-, h⟩ := h _ rfl
  obtain ⟨-, h⟩ := h _ rfl
  obtain ⟨h, -⟩ := h _ rfl
  obtain ⟨publish, c, ⟨hreceived, -, hcalls⟩, hshows⟩ := h ⟨rfl, rfl, 0, rfl⟩ 0 rfl
  obtain rfl : (⟨⟨3, 0, 0, 0⟩, [0x74], 0, [0x61, 0, 0x62]⟩ : Publish) = publish :=
    Option.some.inj hreceived
  have hcall : [(⟨0, [0x74], [0x61]⟩ : Call)] = [c] := hcalls
  obtain rfl := (List.cons.inj hcall).1
  exact absurd (hshows (by decide)).2 (by decide)

/-! ### The two paths -/

/-- The call a step adds, with the packet behind it. -/
def Calls (s s' : Session) (c : Call) (publish : Publish) : Prop :=
  s'.calls = s.calls ++ [c] ∧ s'.received c.publication = some publish

/-- The topic of a call: a direct call reads the whole buffer as a C string, one out of the queue
reads nothing of a NUL-free topic. -/
theorem topic_of_calls {s s' : Session} {e : Incoming} (hmoves : Moves s e s') {c : Call}
    {publish : Publish} (hcalls : Calls s s' c publish) :
    (e ≠ .redeliver → c.topic = cString publish.topic) ∧
      (e = .redeliver → c.topic = if NulFree publish.topic then [] else cString publish.topic) := by
  obtain ⟨hgrown, hreceived⟩ := hcalls
  have hnew : s'.calls ≠ s.calls := by
    rw [hgrown]
    simp
  cases hmoves with
  | quiet _ hsame _ _ _ => exact absurd hsame hnew
  | delivered topic _ publish' _ he hreceived' hcalls' _ _ _ _ =>
    obtain rfl : c = callFor topic publish'.topic.length publish' := by
      have heq := hgrown.symm.trans hcalls'
      simpa using heq
    obtain rfl : publish' = publish := Option.some.inj (hreceived'.symm.trans hreceived)
    refine ⟨fun _ ↦ ?_, fun h ↦ absurd h he⟩
    rw [callFor, List.take_length]
  | queued _ _ _ hsame _ _ _ _ => exact absurd hsame hnew
  | redelivered qe rest publish' _ _ _ hreceived' hcalls' _ _ _ _ =>
    obtain rfl : c = callFor qe.topicName
        (if NulFree publish'.topic then 0 else publish'.topic.length) publish' := by
      have heq := hgrown.symm.trans hcalls'
      simpa using heq
    obtain rfl : publish' = publish := Option.some.inj (hreceived'.symm.trans hreceived)
    refine ⟨fun h ↦ absurd rfl h, fun _ ↦ ?_⟩
    by_cases htopic : NulFree publish'.topic
    · simp [callFor, htopic]
    · simp [callFor, htopic]
  | refused _ hsame _ _ _ _ => exact absurd hsame hnew
  | cleaned _ hsame _ _ _ => exact absurd hsame hnew

/-- **The two paths agree on the packet's topic only where it is empty.** For a call made directly
in one run and a call made out of the queue in another (or the same) run, for packets with the same
topic: both calls show that topic if and only if it is empty. -/
theorem paths_agree_iff (garbage₁ garbage₂ : ℕ → ℕ → UInt8) (cleansession₁ cleansession₂ : Bool)
    (wrapper₁ wrapper₂ : Wrapper) (es₁ es₂ : List Incoming) :
    machine.EachStep (fun s₁ e₁ s₁' ↦
      machine.EachStep (fun s₂ e₂ s₂' ↦ ∀ c₁ c₂ publish₁ publish₂,
        e₁ ≠ .redeliver → Calls s₁ s₁' c₁ publish₁ →
        e₂ = .redeliver → Calls s₂ s₂' c₂ publish₂ →
        publish₁.topic = publish₂.topic →
          (c₁.topic = c₂.topic ∧ c₂.topic = publish₂.topic ↔ publish₂.topic = []))
        (create garbage₂ cleansession₂ wrapper₂) es₂)
      (create garbage₁ cleansession₁ wrapper₁) es₁ := by
  refine machine.eachStep_of_inductive (fun s₁ e₁ s₁' ht₁ hstep₁ ↦ ?_) (tracked_create ..) es₁
  obtain ⟨ht₁', hmoves₁⟩ := step_moves ht₁ hstep₁
  refine ⟨?_, ht₁'⟩
  -- The runs have nothing to do with each other: each call is judged by its own step.
  refine machine.eachStep_of_inductive (fun s₂ e₂ s₂' ht₂ hstep₂ ↦ ?_) (tracked_create ..) es₂
  obtain ⟨ht₂', hmoves₂⟩ := step_moves ht₂ hstep₂
  refine ⟨fun c₁ c₂ publish₁ publish₂ he₁ hcalls₁ he₂ hcalls₂ hsame ↦ ?_, ht₂'⟩
  rw [(topic_of_calls hmoves₁ hcalls₁).1 he₁, (topic_of_calls hmoves₂ hcalls₂).2 he₂, hsame]
  constructor
  · rintro ⟨hagree, hfaithful⟩
    by_cases htopic : NulFree publish₂.topic
    · rw [if_pos htopic] at hfaithful
      exact hfaithful.symm
    · rw [if_neg htopic, cString_eq_self_iff] at hfaithful
      exact absurd hfaithful htopic
  · intro hempty
    simp [hempty]

/-- A message of topic `t` that is refused, because the slot is NULL, and offered again after a
connect: its topic is shown as empty, where direct delivery would show `t`. -/
theorem queued_topic_empty :
    ¬ machine.EachStep (fun s e s' ↦ ∀ c publish, e = .redeliver → Calls s s' c publish →
        c.topic = cString publish.topic ∧ c.topic = publish.topic)
      (create (fun _ _ ↦ 0) true { mqttInit with self := true })
      [.connectSent, .packet true, .redeliver, .connack, .publish 0x30 [0, 1, 0x74, 0x61],
        .wrapper readyWrapper, .redeliver] := by
  intro h
  obtain ⟨-, h⟩ := h _ rfl
  obtain ⟨-, h⟩ := h _ rfl
  obtain ⟨-, h⟩ := h _ rfl
  obtain ⟨-, h⟩ := h _ rfl
  obtain ⟨-, h⟩ := h _ rfl
  obtain ⟨-, h⟩ := h _ rfl
  obtain ⟨h, -⟩ := h _ rfl
  have hshown := h ⟨0, [], [0x61]⟩ ⟨⟨3, 0, 0, 0⟩, [0x74], 0, [0x61]⟩ rfl ⟨rfl, rfl⟩
  exact absurd hshown.2 (by decide)

/-! ### Nothing is lost -/

/-- The step calls `mqtt_msgarrvd`: the head of the queue is offered again, or a publication is
processed where nothing is queued and the client is connected. -/
def Offers (s : Session) (e : Incoming) (s' : Session) : Prop :=
  e = .redeliver ∧ s.messageQueue ≠ [] ∧ s.client.hasSocket = true ∨
    s'.arrived ≠ s.arrived ∧ s.messageQueue = [] ∧ s.client.connected = true

/-- `mqtt_msgarrvd` returns 1 for a message, which is the head of the queue or that of the
publication that arrives: there is one more call of the handler, and message and topic, whose
buffers hold what the packet has brought, have been freed, once each. -/
def Takes (s : Session) (e : Incoming) (s' : Session) : Prop :=
  ∃ (c : Call) (message : Message), s'.calls = s.calls ++ [c] ∧
    s.Handed s' c.publication message ∧
    (e = .redeliver → ∃ qe rest, s.messageQueue = qe :: rest ∧ qe.topicName = c.publication ∧
      qe.msg = message) ∧
    (e ≠ .redeliver → s'.arrived = s.arrived ++ [c.publication])

/-- `mqtt_msgarrvd` returns 0: no call, nothing freed, and the message is in the queue. -/
def Refuses (s s' : Session) : Prop :=
  s'.calls = s.calls ∧ s'.heap.freed = s.heap.freed ∧ s'.messageQueue ≠ []

/-- Each call of `mqtt_msgarrvd` takes the message or refuses it, as the slot is set or NULL, and
nothing else calls the handler. -/
theorem offer_of_moves {s s' : Session} {e : Incoming} (hmoves : Moves s e s') :
    (Offers s e s' → (∃ m, s.wrapper.loadDataPtr = some (some m)) ∧ Takes s e s' ∨
      s.wrapper.loadDataPtr = some none ∧ Refuses s s') ∧
    (¬ Offers s e s' → s'.calls = s.calls) := by
  cases hmoves with
  | quiet hidle hcalls _ harrived _ =>
    refine ⟨?_, fun _ ↦ hcalls⟩
    rintro (⟨he, hqueue, hsocket⟩ | ⟨hgrown, -⟩)
    · rcases hidle he with hempty | hclosed
      · exact absurd hempty hqueue
      · rw [hclosed] at hsocket
        cases hsocket
    · exact absurd harrived hgrown
  | delivered topic message publish hdirect he _ hcalls _ harrived _ hhanded =>
    have hoffers : Offers s e s' := by
      refine .inr ⟨?_, hdirect.1, hdirect.2.1⟩
      rw [harrived]
      simp
    exact ⟨fun _ ↦ .inl ⟨hdirect.2.2, _, message, hcalls, hhanded, fun heq ↦ absurd heq he,
      fun _ ↦ harrived⟩, fun hnot ↦ absurd hoffers hnot⟩
  | queued qe hwithheld he hcalls hqueue _ _ hfreed =>
    refine ⟨?_, fun _ ↦ hcalls⟩
    rintro (⟨he', -⟩ | ⟨-, hempty, hconn⟩)
    · exact absurd he' he
    · refine .inr ⟨hwithheld hempty hconn, hcalls, hfreed, ?_⟩
      rw [hqueue]
      simp
  | redelivered qe rest publish hsocket hslot hhead _ hcalls _ _ _ hhanded =>
    have hoffers : Offers s .redeliver s' := by
      refine .inl ⟨rfl, ?_, hsocket⟩
      rw [hhead]
      simp
    exact ⟨fun _ ↦ .inl ⟨hslot, _, qe.msg, hcalls, hhanded, fun _ ↦ ⟨qe, rest, hhead, rfl, rfl⟩,
      fun hne ↦ absurd rfl hne⟩, fun hnot ↦ absurd hoffers hnot⟩
  | refused hslot hcalls hqueue harrived _ hfreed =>
    refine ⟨?_, fun _ ↦ hcalls⟩
    rintro (⟨-, hne, -⟩ | ⟨hgrown, -⟩)
    · exact .inr ⟨hslot, hcalls, hfreed, hqueue ▸ hne⟩
    · exact absurd harrived hgrown
  | cleaned _ hcalls _ harrived _ =>
    refine ⟨?_, fun _ ↦ hcalls⟩
    rintro (⟨he, -⟩ | ⟨hgrown, -⟩)
    · cases he
    · exact absurd harrived hgrown

/-- What is thrown away is the queue, at the CONNACK of a clean session. -/
theorem discarded_of_moves {s s' : Session} {e : Incoming} (hmoves : Moves s e s') :
    s'.discarded = s.discarded ∨ e = .connack ∧ s.client.cleansession = true ∧
      s'.discarded = s.discarded ++ s.messageQueue.map QEntry.topicName := by
  cases hmoves with
  | quiet _ _ _ _ hsame => exact .inl hsame
  | delivered _ _ _ _ _ _ _ _ _ hsame _ => exact .inl hsame
  | queued _ _ _ _ _ _ hsame _ => exact .inl hsame
  | redelivered _ _ _ _ _ _ _ _ _ _ hsame _ => exact .inl hsame
  | refused _ _ _ _ hsame _ => exact .inl hsame
  | cleaned hclean _ _ _ hcleaned => exact .inr ⟨rfl, hclean, hcleaned⟩

/-- **Every message is accounted for.** Along every run, with any pattern of the slot being NULL:
the publications shown to the handler, followed by those in the queue, are the publications
processed, in order and each once, less those that were in the queue when a clean session completed;
nothing is freed that is not live. And each call of `mqtt_msgarrvd` takes its message or refuses it.
-/
theorem messages_accounted (garbage : ℕ → ℕ → UInt8) (cleansession : Bool) (wrapper : Wrapper)
    (es : List Incoming) :
    machine.Always (fun s ↦
        s.calls.map Call.publication ++ s.messageQueue.map QEntry.topicName =
          s.arrived.filter (· ∉ s.discarded) ∧
        s.arrived.Nodup ∧ s.heap.failedFrees = [])
      (create garbage cleansession wrapper) es ∧
    machine.EachStep (fun s e s' ↦
        (s'.discarded = s.discarded ∨ e = .connack ∧ s.client.cleansession = true ∧
          s'.discarded = s.discarded ++ s.messageQueue.map QEntry.topicName) ∧
        (Offers s e s' → (∃ m, s.wrapper.loadDataPtr = some (some m)) ∧ Takes s e s' ∨
          s.wrapper.loadDataPtr = some none ∧ Refuses s s') ∧
        (¬ Offers s e s' → s'.calls = s.calls))
      (create garbage cleansession wrapper) es := by
  constructor
  · refine (always_tracked garbage cleansession wrapper es).mono machine fun s ht ↦ ?_
    have haccount := ht.account
    rw [List.append_nil] at haccount
    exact ⟨haccount, ht.arrivedNodup, ht.noFailedFree⟩
  · refine machine.eachStep_of_inductive (fun s e s' ht hstep ↦ ?_) (tracked_create ..) es
    obtain ⟨ht', hmoves⟩ := step_moves ht hstep
    exact ⟨⟨discarded_of_moves hmoves, offer_of_moves hmoves⟩, ht'⟩

/-- A message that comes before the CONNACK of a clean session, and is refused twice because the
slot is NULL, is thrown away: it is neither shown nor queued any more. -/
theorem clean_session_loses :
    ¬ machine.Always (fun s ↦
        s.calls.map Call.publication ++ s.messageQueue.map QEntry.topicName = s.arrived)
      (create (fun _ _ ↦ 0) true { mqttInit with self := true })
      [.connectSent, .publish 0x30 [0, 1, 0x74, 0x61], .redeliver, .packet true, .redeliver,
        .connack] := by
  intro h
  have hlast := h.last machine rfl
  exact absurd hlast (by decide)

end Session
