import MrubyMqtt.System

/-!
# What a connect samples

A call of `connect` reads the attributes once, and the new client keeps what it has read: where to
connect to and the options of its CONNECT. `connect_options` says which attribute ends up where, and
`options_step` that no later step of anybody changes the options of a client that exists: what Paho
sends for it, now or on a second attempt, is what was configured when `connect` was called.
-/

open Bytes

/-- What a client has been told by `MQTTAsync_create` and `MQTTAsync_connect`. -/
structure ConnectOptions where
  /-- Where to connect to. -/
  serverURI : Bytes
  /-- The client id. -/
  clientID : Bytes
  /-- The clean session flag. -/
  cleansession : Bool
  /-- The keep-alive interval. -/
  keepAliveInterval : ℤ
deriving DecidableEq, Repr

/-- The options of a handle. -/
def MqttAsyncs.options (m : MqttAsyncs) : ConnectOptions :=
  ⟨m.serverURI, m.c.clientID, m.c.cleansession, m.c.keepAliveInterval⟩

namespace Paho

/-- The options of every handle are the same. -/
structure SameOptions (p p' : Paho) : Prop where
  /-- Those of handle `k`. -/
  options : ∀ k, (p'.handle k).options = (p.handle k).options

namespace SameOptions

variable {p p' p'' : Paho}

theorem refl (p : Paho) : p.SameOptions p := ⟨fun _ ↦ rfl⟩

theorem trans (h₁ : p.SameOptions p') (h₂ : p'.SameOptions p'') : p.SameOptions p'' :=
  ⟨fun k ↦ (h₂.options k).trans (h₁.options k)⟩

/-- A record is replaced by one with the same options. -/
theorem setHandle {h : ℕ} {m : MqttAsyncs} (hm : m.options = (p.handle h).options) :
    p.SameOptions (p.setHandle h m) := by
  refine ⟨fun k ↦ ?_⟩
  rw [handle_setHandle]
  rcases eq_or_ne k h with rfl | hne
  · rw [Function.update_self, hm]
  · rw [Function.update_of_ne hne]

theorem addCommand (p : Paho) (command : Command) :
    p.SameOptions (p.mqttAsyncAddCommand command) := by
  obtain ⟨commands, heq⟩ := p.mqttAsyncAddCommand_eq command
  rw [heq]
  exact ⟨fun _ ↦ rfl⟩

theorem disconnectInternal (p : Paho) (h : ℕ) :
    p.SameOptions (p.mqttAsyncDisconnectInternal h) := by
  rw [mqttAsyncDisconnectInternal, mqttAsyncDisconnect1]
  split_ifs
  · exact addCommand ..
  · exact refl p

theorem removeResponsesAndCommands (p : Paho) (h : ℕ) :
    p.SameOptions (p.mqttAsyncRemoveResponsesAndCommands h) :=
  have hhandle : p.SameOptions (p.setHandle h { p.handle h with responses := [] }) := setHandle rfl
  ⟨hhandle.options⟩

theorem cleanSession (p : Paho) (h : ℕ) : p.SameOptions (p.mqttAsyncCleanSession h) := by
  have hclient : p.SameOptions (p.setClient h { p.client h with msgID := 0 }) := setHandle rfl
  exact hclient.trans (removeResponsesAndCommands _ h)

theorem closeOnly (p : Paho) (h : ℕ) : p.SameOptions (p.mqttAsyncCloseOnly h) := setHandle rfl

theorem closeSession (p : Paho) (h : ℕ) : p.SameOptions (p.mqttAsyncCloseSession h) := by
  rw [mqttAsyncCloseSession]
  split_ifs
  · exact (closeOnly p h).trans (cleanSession _ h)
  · exact closeOnly p h

theorem connectFailed (p : Paho) (h : ℕ) : p.SameOptions (p.connectFailed h).1 := by
  rw [Paho.connectFailed]
  split_ifs
  · have hqueued := addCommand (p.mqttAsyncCloseOnly h)
      ⟨h, 0, .connect (p.handle h).connectVersion⟩
    exact (closeOnly p h).trans hqueued
  · exact closeSession p h

theorem processConnect (p : Paho) (h version : ℕ) (tcp : Tcp) :
    p.SameOptions (p.processConnect h version tcp).1 := by
  rw [Paho.processConnect]
  by_cases hbusy : ((p.handle h).c.connectState ≠ 0 || (p.handle h).c.connected) = true
  · simp only [if_pos hbusy]
    exact setHandle rfl
  · simp only [if_neg hbusy]
    cases tcp with
    | inProgress => exact setHandle rfl
    | sent => exact setHandle rfl
    | failed =>
      dsimp only
      generalize (if version = 0 then 4 else if version = 4 then 3 else version) = version'
      split_ifs
      · exact addCommand p ⟨h, 0, .connect version'⟩
      · exact refl p

theorem processDisconnect (p : Paho) (h : ℕ) (internal : Bool) :
    p.SameOptions (p.processDisconnect h internal).1 := by
  rw [Paho.processDisconnect]
  by_cases hopen : ((p.client h).connectState ≠ 0 || (p.client h).connected) = true
  · simp only [if_pos hopen]
    exact closeSession p h
  · simp only [if_neg hopen]
    exact refl p

theorem processPacket (p : Paho) (command : Command) (write : Write) :
    p.SameOptions (p.processPacket command write).1 := by
  unfold Paho.processPacket
  dsimp only
  split
  · exact refl p
  · exact setHandle rfl
  · exact setHandle rfl
  · exact disconnectInternal ..
  · exact disconnectInternal ..
  · exact setHandle rfl

theorem processCommand {canSend : ℕ → Bool} {tcp : Tcp} {write : Write} {h : ℕ}
    {cb : Option Callback}
    (hstep : p.mqttAsyncProcessCommand canSend tcp write = some (p', h, cb)) :
    p.SameOptions p' := by
  rw [mqttAsyncProcessCommand, Option.map_eq_some_iff] at hstep
  obtain ⟨command, -, hdone⟩ := hstep
  have hdetached : p.SameOptions { p with commands := p.commands.erase command } :=
    ⟨fun _ ↦ rfl⟩
  rcases hdetails : command.details with version | internal | ⟨name, payload, qos, retained⟩ |
    ⟨topic, qos⟩ <;> simp only [hdetails, Prod.mk.injEq] at hdone <;>
    obtain ⟨rfl, rfl, rfl⟩ := hdone
  · exact hdetached.trans (processConnect ..)
  · exact hdetached.trans (processDisconnect ..)
  · exact hdetached.trans (processPacket ..)
  · exact hdetached.trans (processPacket ..)

theorem receiveConnack (p : Paho) (h rc : ℕ) : p.SameOptions (p.receiveConnack h rc).1 := by
  rw [Paho.receiveConnack]
  by_cases hcomplete : ((p.client h).connectState = 3 && rc = 0) = true
  · simp only [if_pos hcomplete]
    have hup : p.SameOptions
        (p.setClient h { p.client h with connected := true, connectState := 0 }) := setHandle rfl
    split_ifs
    · exact hup.trans (cleanSession _ h)
    · exact hup
  · simp only [if_neg hcomplete]
    exact connectFailed p h

theorem takeResponse (p : Paho) (h msgId : ℕ) (callback : Command → Option Callback) :
    p.SameOptions (p.takeResponse h msgId callback).1 := by
  rw [Paho.takeResponse]
  rcases hfind : (p.handle h).responses.find? fun cmd ↦ cmd.token == msgId with - | command <;>
    simp only [hfind]
  · exact refl p
  · exact setHandle rfl

/-- **No step of Paho's** changes the options of a client. -/
theorem step {e : PahoEvent} {h : ℕ} {cb : Option Callback}
    (hstep : p.step e = some (p', h, cb)) : p.SameOptions p' := by
  cases step_cases hstep with
  | processCommand hturn => exact processCommand hturn
  | connectFailed _ _ => exact connectFailed ..
  | connecting _ _ => exact setHandle rfl
  | disconnectInternal _ _ => exact disconnectInternal ..
  | closeOnly _ _ _ => exact closeOnly ..
  | connack _ rc _ => exact receiveConnack ..
  | takeResponse _ msgId callback _ => exact takeResponse ..
  | messageArrived _ _ => exact refl p
  | writeComplete _ command rest _ => exact setHandle rfl

theorem assignMsgId {h msgid : ℕ} (hassign : p.mqttAsyncAssignMsgId h = some (msgid, p')) :
    p.SameOptions p' := by
  rw [mqttAsyncAssignMsgId, Option.map_eq_some_iff] at hassign
  obtain ⟨id, -, hset⟩ := hassign
  obtain ⟨rfl, rfl⟩ := Prod.mk.inj hset
  split_ifs
  · exact setHandle rfl
  · exact refl p

/-- No request changes the options of a client. -/
theorem call {h : ℕ} {op : Api} (hcall : op.call p h = .done p') : p.SameOptions p' := by
  obtain ⟨q, command, hid, -, rfl⟩ := call_done hcall
  obtain rfl | ⟨msgid, hassign⟩ := hid
  · exact addCommand q command
  · exact (assignMsgId hassign).trans (addCommand q command)

end SameOptions

end Paho

namespace Wrapper

/-- The options the next client would be given, if the address and the client id are strings. -/
def connectOptions (w : Wrapper) (address clientId : Bytes) : ConnectOptions :=
  ⟨if Paho.uriTcp.isPrefixOf address then address.drop Paho.uriTcp.length else address, clientId,
    w.cleanSession, toInt32 w.keepAlive⟩

/-- **A `connect` that is not refused** creates the next client, and gives it the attributes. The
clients there were keep their options. -/
theorem connect_options {w : Wrapper} {p p' : Paho} {h : ℕ}
    (hdone : w.mqttConnect p = .done (h, p')) :
    h = p.count ∧ p'.count = p.count + 1 ∧
      (∃ address clientId, w.address = .string address ∧ w.clientId = .string clientId ∧
        (p'.handle h).options = w.connectOptions address clientId) ∧
      ∀ k, k ≠ h → (p'.handle k).options = (p.handle k).options := by
  obtain ⟨-, address, clientId, haddress, hclientId, -, -, -, heq⟩ := mqttConnect_done_iff.1 hdone
  obtain ⟨rfl, rfl⟩ := Prod.mk.inj heq
  set created := p.mqttAsyncCreate address clientId with hcreated
  set asked := created.2.setClient created.1
    { created.2.client created.1 with
      keepAliveInterval := toInt32 w.keepAlive
      cleansession := w.cleanSession } with hasked
  have hsame : asked.SameOptions (asked.mqttAsyncAddCommand ⟨created.1, 0, .connect 0⟩) :=
    .addCommand ..
  refine ⟨rfl, Paho.count_addCommand .., ⟨address, clientId, haddress, hclientId, ?_⟩,
    fun k hne ↦ ?_⟩
  · refine (hsame.options created.1).trans ?_
    rw [hasked, Paho.setClient, Paho.handle_setHandle, Function.update_self]
    have hnew : created.2.handle created.1 = _ := Function.update_self ..
    rw [Paho.client, hnew]
    rfl
  · refine (hsame.options k).trans ?_
    rw [hasked, Paho.setClient, Paho.handle_setHandle, Function.update_of_ne hne]
    exact congrArg MqttAsyncs.options (Function.update_of_ne hne ..)

end Wrapper

namespace System

/-- **No step** changes the options of a client that exists. -/
theorem options_step {cfg : Config} {s s' : System} {e : SystemEvent} (hs : s.Wf)
    (hstep : (machine cfg).step s e = some s') :
    s.paho.count ≤ s'.paho.count ∧
      ∀ k < s.paho.count, (s'.paho.handle k).options = (s.paho.handle k).options := by
  have hsame : ∀ {p : Paho}, p.count = s.paho.count → s.paho.SameOptions p →
      s.paho.count ≤ p.count ∧
        ∀ k < s.paho.count, (p.handle k).options = (s.paho.handle k).options :=
    fun hcount hoptions ↦ ⟨hcount.ge, fun k _ ↦ hoptions.options k⟩
  -- What is created and what is asked for is read off the call; every other move names its parts.
  cases (step_moves hs hstep).2 with
  | created c paho mutex _ _ _ _ _ _ _ =>
    simp only [machine, step] at hstep
    rcases hconnect : s.wrapper.mqttConnect s.paho with ⟨client, p⟩ | err | - <;>
      simp only [hconnect] at hstep <;> split_ifs at hstep
    · obtain rfl : p = paho := congrArg System.paho (Option.some.inj hstep)
      obtain ⟨rfl, hcount, -, hother⟩ := Wrapper.connect_options hconnect
      exact ⟨(Nat.le_succ _).trans_eq hcount.symm, fun k hk ↦ hother k hk.ne⟩
    · obtain rfl : s.paho = paho := congrArg System.paho (Option.some.inj hstep)
      exact hsame rfl (.refl _)
  | asked c op paho hconnections hslot =>
    obtain ⟨m, hslot⟩ := hslot
    simp only [machine, step] at hstep
    rcases hcall : s.wrapper.api s.paho op with p | err | - <;> simp only [hcall] at hstep <;>
      split_ifs at hstep
    · obtain rfl : p = paho := congrArg System.paho (Option.some.inj hstep)
      rw [Wrapper.api] at hcall
      split_ifs at hcall
      simp only [hslot] at hcall
      exact hsame hconnections.count (.call hcall)
    · obtain rfl : s.paho = paho := congrArg System.paho (Option.some.inj hstep)
      exact hsame rfl (.refl _)
  | silent e paho h hpaho | ignored e paho h cb hpaho _ | called e paho h cb m mutex hpaho _ _ =>
    exact hsame (Paho.step_moves hs.wellQueued hpaho).1.count (.step hpaho)
  | raised _ | connectNext _ _ _ | assigned _ _ _ _ | handlerReturned _ _ _ _ _ _ =>
    exact hsame rfl (.refl _)

/-- **And no run does.** -/
theorem options_run {cfg : Config} {s t : System} (hs : s.Wf)
    (hreaches : (machine cfg).Reaches s t) :
    ∀ k < s.paho.count, (t.paho.handle k).options = (s.paho.handle k).options := by
  have hkept := hreaches.of_inductive (P := fun u ↦ u.Wf ∧ s.paho.count ≤ u.paho.count ∧
    ∀ k < s.paho.count, (u.paho.handle k).options = (s.paho.handle k).options) (machine cfg)
    (fun u e u' ⟨hu, hcount, hsame⟩ hstep ↦ ?_) ⟨hs, le_rfl, fun _ _ ↦ rfl⟩
  · exact hkept.2.2
  · obtain ⟨hcount', hsame'⟩ := options_step hu hstep
    exact ⟨(step_moves hu hstep).1, hcount.trans hcount',
      fun k hk ↦ (hsame' k (hk.trans_le hcount)).trans (hsame k hk)⟩

end System
