import MrubyMqtt.ConnectOptions

/-!
# `MQTTClient.connect`

The class method writes its arguments into the attributes of the singleton, runs its block, and only
then calls `connect`, which is where the one check sits. Whatever raises on the way, the attributes
stay as they have been written: they are those from before the call exactly if the last value
written is the old one (`class_connect_intact_iff`). The next `connect`, also that of a default
handler, goes where they say.
-/

open Bytes

/-- A call of `MQTTClient.connect`. Its arguments are any objects. -/
structure ClassConnect where
  /-- `address`. -/
  address : RubyValue
  /-- `client_id`. -/
  clientId : RubyValue
  /-- What happens up to the end of the block: the calls it makes, its assignments, and the steps of
  other parties in between. -/
  block : List SystemEvent
  /-- The block ends with an exception: one of its own, or of a call it has made. -/
  blockRaises : Bool

/-- How the class method goes on after its block. -/
inductive ClassOutcome where
  /-- `connect` has queued its CONNECT, and goes on. -/
  | connecting (s : System)
  /-- It raises. -/
  | raised (s : System)
  /-- It cannot be called, or does not come back. -/
  | stuck

/-- The address and the client id. -/
def Wrapper.identity (w : Wrapper) : RubyValue × RubyValue := (w.address, w.clientId)

/-- `client.address = address` and `client.client_id = client_id`. -/
def Wrapper.assignIdentity (w : Wrapper) (identity : RubyValue × RubyValue) : Wrapper :=
  { w with address := identity.1, clientId := identity.2 }

/-- What an event makes of the address and the client id. -/
def SystemEvent.identityAfter (identity : RubyValue × RubyValue) :
    SystemEvent → RubyValue × RubyValue
  | .assign _ (.address value) => (value, identity.2)
  | .assign _ (.clientId value) => (identity.1, value)
  | _ => identity

/-- The address and the client id that were written last: the arguments, or what the block has
assigned. -/
def ClassConnect.written (args : ClassConnect) : RubyValue × RubyValue :=
  args.block.foldl SystemEvent.identityAfter (args.address, args.clientId)

namespace System

/-- `MQTTClient.connect(address, client_id, &block)`. -/
def classConnect (cfg : Config) (s : System) (c : Caller) (args : ClassConnect) : ClassOutcome :=
  if s.running c then
    let assigned :=
      { s with wrapper := s.wrapper.assignIdentity (args.address, args.clientId) }
    match (machine cfg).run assigned args.block with
    | none => .stuck
    | some t =>
      if !t.running c then .stuck
      else if args.blockRaises then .raised t
      else
        match t.wrapper.mqttConnect t.paho, step cfg t (.connect c) with
        | .raised _, _ => .raised t
        | .done _, some u => .connecting u
        | _, _ => .stuck
  else .stuck

/-- No callback touches the attributes. -/
theorem identity_runCallback {cfg : Config} {code : List Instr} {m : Option ℕ} {w w' : Wrapper}
    {waiting : Option Waiting} (hrun : runCallback cfg code m w = some (w', waiting)) :
    w'.identity = w.identity := by
  induction code generalizing m w with
  | nil =>
    obtain ⟨rfl, -⟩ := Prod.mk.inj (Option.some.inj hrun)
    rfl
  | cons instr rest ih =>
    rw [runCallback] at hrun
    have hexec : ∀ {v m'}, instr.exec cfg w m = .next v m' → v.identity = w.identity := by
      intro v m' hnext
      cases instr <;> simp only [Instr.exec] at hnext <;> (try split at hnext) <;> cases hnext <;>
        rfl
    rcases heffect : instr.exec cfg w m with ⟨v, m'⟩ | - | method | - <;>
      simp only [heffect] at hrun
    · exact (ih hrun).trans (hexec heffect)
    · obtain ⟨rfl, -⟩ := Prod.mk.inj (Option.some.inj hrun)
      rfl
    · obtain ⟨rfl, -⟩ := Prod.mk.inj (Option.some.inj hrun)
      rfl
    · cases hrun

/-- A step of the system writes the two attributes only where it is their assignment. -/
theorem identity_step {cfg : Config} {s s' : System} {e : SystemEvent}
    (hstep : step cfg s e = some s') :
    s'.wrapper.identity = e.identityAfter s.wrapper.identity := by
  cases e with
  | connect c =>
    simp only [step] at hstep
    rcases hconnect : s.wrapper.mqttConnect s.paho with done | err | - <;>
      simp only [hconnect] at hstep <;> split_ifs at hstep <;>
      obtain rfl := Option.some.inj hstep <;> rfl
  | connectNext c =>
    simp only [step, Option.map_eq_some_iff] at hstep
    obtain ⟨x, -, rfl⟩ := hstep
    cases x <;> rfl
  | api c op =>
    simp only [step] at hstep
    rcases hcall : s.wrapper.api s.paho op with p | err | - <;> simp only [hcall] at hstep <;>
      split_ifs at hstep <;> obtain rfl := Option.some.inj hstep <;> rfl
  | assign c value =>
    simp only [step] at hstep
    split_ifs at hstep
    cases value with
    | address value | clientId value | keepAlive value =>
      obtain rfl := Option.some.inj hstep
      rfl
    | cleanSession value =>
      rw [Wrapper.assign] at hstep
      split_ifs at hstep <;> obtain rfl := Option.some.inj hstep <;> rfl
  | paho e =>
    simp only [step] at hstep
    split_ifs at hstep
    rcases hpaho : s.paho.step e with - | ⟨p, h, - | cb⟩ <;> simp only [hpaho] at hstep
    · cases hstep
    · obtain rfl := Option.some.inj hstep
      rfl
    · obtain ⟨-, rfl⟩ | ⟨m, -, rfl⟩ := callback_cases hstep
      · rfl
      · rfl
  | handlerReturn t =>
    simp only [step] at hstep
    rcases hframe : s.frames t with - | f <;> simp only [hframe] at hstep
    · cases hstep
    · split_ifs at hstep
      obtain ⟨⟨w, waiting⟩, hrun, rfl⟩ := Option.map_eq_some_iff.1 hstep
      exact identity_runCallback hrun

/-- Events none of which assigns them leave them alone. -/
theorem identity_foldl {es : List SystemEvent} {identity : RubyValue × RubyValue}
    (hes : ∀ e ∈ es, ∀ identity, e.identityAfter identity = identity) :
    es.foldl SystemEvent.identityAfter identity = identity := by
  induction es with
  | nil => rfl
  | cons e es ih =>
    rw [List.foldl_cons, hes e List.mem_cons_self]
    exact ih fun e' he' ↦ hes e' (List.mem_cons_of_mem e he')

/-- Where the class method raises, the two attributes are what was written last. -/
theorem identity_of_raised {cfg : Config} {s t : System} {c : Caller} {args : ClassConnect}
    (hraised : s.classConnect cfg c args = .raised t) : t.wrapper.identity = args.written := by
  have hrunning : s.running c = true := by
    by_contra hidle
    simp [classConnect, hidle] at hraised
  simp only [classConnect, hrunning, if_true] at hraised
  split at hraised
  · cases hraised
  · rename_i u hrun
    have hwritten : u.wrapper.identity = args.written :=
      (machine cfg).observe_run (fun _ _ _ hstep ↦ identity_step hstep) hrun
    have hsame : u = t := by
      split_ifs at hraised
      · exact ClassOutcome.raised.inj hraised
      · split at hraised
        · exact ClassOutcome.raised.inj hraised
        · cases hraised
        · cases hraised
    rw [← hsame, hwritten]

/-- **A call of `MQTTClient.connect` that raises** leaves the address and the client id as they were
before exactly if the values written last, by the call itself or by its block, are the old ones. As
long as nobody assigns them again, the next `connect` that is not refused, also that of a default
handler, gives its client what was written last. -/
theorem class_connect_intact_iff {cfg : Config} {s t : System} {c : Caller} {args : ClassConnect}
    (hraised : s.classConnect cfg c args = .raised t) :
    (t.wrapper.identity = s.wrapper.identity ↔ args.written = s.wrapper.identity) ∧
      ∀ es u h p, (machine cfg).run t es = some u →
        (∀ e ∈ es, ∀ identity, e.identityAfter identity = identity) →
        u.wrapper.mqttConnect u.paho = .done (h, p) →
        ∃ address clientId, args.written = (.string address, .string clientId) ∧
          (p.handle h).options = u.wrapper.connectOptions address clientId := by
  have hwritten := identity_of_raised hraised
  refine ⟨by rw [hwritten], fun es u h p hrun hes hdone ↦ ?_⟩
  have hkept : u.wrapper.identity = args.written := by
    rw [(machine cfg).observe_run (f := fun s ↦ s.wrapper.identity)
      (fun _ _ _ hstep ↦ identity_step hstep) hrun, identity_foldl hes, hwritten]
  obtain ⟨-, -, ⟨address, clientId, haddress, hclientId, hoptions⟩, -⟩ :=
    Wrapper.connect_options hdone
  exact ⟨address, clientId, by rw [← hkept, Wrapper.identity, haddress, hclientId], hoptions⟩

/-- A client is connected to `h` as `m`. -/
def connectedRun : List SystemEvent :=
  configure ++ connectCall .ruby ++
    [sendTurn .sent, .paho (.connack 0 0), .handlerReturn .receive]

/-- `MQTTClient.connect("B", "b")`. -/
def secondConnect : ClassConnect where
  address := .string [0x42]
  clientId := .string [0x62]
  block := []
  blockRaises := false

/-- Such a call on the connected client, the loss, and the reconnect of the default handler. -/
theorem second_connect_run : ∃ s t u p,
    (machine ⟨true, false⟩).run init connectedRun = some s ∧
      s.wrapper.identity = (.string [0x68], .string [0x6D]) ∧
      s.wrapper.mqttConnect s.paho = .raised .alreadyConnected ∧
      s.classConnect ⟨true, false⟩ .ruby secondConnect = .raised t ∧
      (machine ⟨true, false⟩).run t [.paho (.closeSession 0), sendTurn .sent] = some u ∧
      u.handlerCalls = t.handlerCalls ++ [(.connlostCallback, 0)] ∧
      u.wrapper.identity = secondConnect.written ∧
      u.wrapper.mqttConnect u.paho = .done (1, p) ∧
      (p.handle 0).serverURI = [0x68] ∧ (p.client 0).clientID = [0x6D] :=
  ⟨_, _, _, _, rfl, rfl, rfl, rfl, rfl, rfl, rfl, rfl, rfl, rfl⟩

/-- The equivalence at that call. -/
theorem class_connect_intact_second : ∃ s t u p address clientId,
    (machine ⟨true, false⟩).run init connectedRun = some s ∧
      s.classConnect ⟨true, false⟩ .ruby secondConnect = .raised t ∧
      ¬ t.wrapper.identity = s.wrapper.identity ∧
      (machine ⟨true, false⟩).run t [.paho (.closeSession 0), sendTurn .sent] = some u ∧
      u.wrapper.mqttConnect u.paho = .done (1, p) ∧
      secondConnect.written = (.string address, .string clientId) ∧
      (p.handle 1).options = u.wrapper.connectOptions address clientId := by
  obtain ⟨s, t, u, p, hs, hold, -, ht, hu, -, -, hdone, -⟩ := second_connect_run
  obtain ⟨hiff, hreconnect⟩ := class_connect_intact_iff ht
  obtain ⟨address, clientId, hwritten, hoptions⟩ :=
    hreconnect _ u 1 p hu (by simp [sendTurn, SystemEvent.identityAfter]) hdone
  refine ⟨s, t, u, p, address, clientId, hs, ht, ?_, hu, hdone, hwritten, hoptions⟩
  rw [hiff, hold]
  decide

/-- `MQTTClient.connect` raises `MQTTAlreadyConnectedError`, and its address and client id are there
to stay: when the connection is lost, the `connect` of the default handler goes to the broker that
was refused. -/
theorem second_connect_redirects : ∃ s t u p,
    (machine ⟨true, false⟩).run init connectedRun = some s ∧
      s.wrapper.mqttConnect s.paho = .raised .alreadyConnected ∧
      s.classConnect ⟨true, false⟩ .ruby secondConnect = .raised t ∧
      t.wrapper.identity ≠ s.wrapper.identity ∧
      (machine ⟨true, false⟩).run t [.paho (.closeSession 0), sendTurn .sent] = some u ∧
      u.handlerCalls = t.handlerCalls ++ [(.connlostCallback, 0)] ∧
      u.wrapper.mqttConnect u.paho = .done (1, p) ∧
      (p.handle 0).serverURI = [0x68] ∧ (p.handle 1).serverURI = [0x42] ∧
      (p.client 0).clientID = [0x6D] ∧ (p.client 1).clientID = [0x62] := by
  obtain ⟨s, t, u, p, hs, hold, hrefused, ht, hu, hcall, hwritten, hdone, huri, hid⟩ :=
    second_connect_run
  obtain ⟨-, -, ⟨address, clientId, haddress, hclientId, hoptions⟩, -⟩ :=
    Wrapper.connect_options hdone
  -- The reconnect reads what the refused call has left in the attributes.
  obtain ⟨rfl, rfl⟩ : address = [0x42] ∧ clientId = [0x62] := by
    rw [Wrapper.identity, haddress, hclientId] at hwritten
    simpa [secondConnect] using Prod.mk.inj hwritten
  have huri' : (p.handle 1).serverURI = [0x42] := congrArg ConnectOptions.serverURI hoptions
  have hid' : (p.client 1).clientID = [0x62] := congrArg ConnectOptions.clientID hoptions
  have hchanged : t.wrapper.identity ≠ s.wrapper.identity := by
    rw [identity_of_raised ht, hold]
    decide
  exact ⟨s, t, u, p, hs, hrefused, ht, hchanged, hu, hcall, hdone, huri, huri', hid, hid'⟩

end System
