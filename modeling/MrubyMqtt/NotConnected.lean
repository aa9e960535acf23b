import MrubyMqtt.System

/-!
# Calls without a connection

`disconnect`, `publish` and `subscribe` begin with `check_mqtt_connected`, which does not look at
`mqtt_connected` but at the pointer in the slot. That pointer is there from the moment `connect` has
assigned it until the callback of an end clears it, which is after its handler. So while
`connected?` is false the calls raise `MQTTNotConnectedError` in one phase only: after the first
`connect` has returned, while the slot is NULL (`not_connected_iff`). Before that they read through
a null object; later they ask Paho, which answers with errors of its own, or queues the request of a
client whose success nobody has heard of (`api_cases`).
-/

open Bytes

/-- What Paho is asked never ends in `MQTTNotConnectedError`. -/
theorem Api.call_ne_notConnected (op : Api) (p : Paho) (client : ℕ) :
    op.call p client ≠ .raised .notConnected := by
  cases op with
  | disconnect =>
    rw [Api.call]
    split <;> simp
  | publish topic payload qos retain =>
    rw [Api.call]
    split
    · split <;> simp
    · simp
  | subscribe topic qos =>
    rw [Api.call]
    split
    · split <;> simp
    · simp

/-- A client that is not connected is asked for nothing: Paho queues no command. -/
theorem Api.call_of_not_connected {p : Paho} {client : ℕ}
    (hclient : (p.client client).connected = false) (op : Api) :
    ∃ e, op.call p client = .raised e := by
  cases op with
  | disconnect => exact ⟨.disconnectFailure, by simp [Api.call, Paho.mqttAsyncDisconnect1, hclient]⟩
  | publish topic payload qos retain =>
    by_cases ht : NulFree topic
    · by_cases hp : NulFree payload
      · exact ⟨.publishFailure,
          by simp [Api.call, Wrapper.strToCstr, ht, hp, Paho.mqttAsyncSend, hclient]⟩
      · exact ⟨.argumentError, by simp [Api.call, Wrapper.strToCstr, ht, hp]⟩
    · exact ⟨.argumentError, by simp [Api.call, Wrapper.strToCstr, ht]⟩
  | subscribe topic qos =>
    by_cases ht : NulFree topic
    · exact ⟨.subscribeFailure,
        by simp [Api.call, Wrapper.strToCstr, ht, Paho.mqttAsyncSubscribe, hclient]⟩
    · exact ⟨.argumentError, by simp [Api.call, Wrapper.strToCstr, ht]⟩

namespace Wrapper

/-- **A call with valid options**, by what its first line finds: a null object, NULL, or a state,
whose client Paho is asked about. -/
theorem api_cases {w : Wrapper} {op : Api} (hvalid : op.validOptions = true) (p : Paho) :
    (w.self = false ∧ ¬ ∃ e, w.api p op = .raised e) ∨
      (w.self = true ∧ w.dataPtr = none ∧ w.api p op = .raised .notConnected) ∨
      ∃ m, w.self = true ∧ w.dataPtr = some m ∧ w.api p op = op.call p (w.stateClient m) := by
  rw [api, hvalid, loadDataPtr]
  rcases w.self with - | -
  · exact .inl ⟨rfl, by simp⟩
  · rcases w.dataPtr with - | m
    · exact .inr (.inl ⟨rfl, rfl, rfl⟩)
    · exact .inr (.inr ⟨m, rfl, rfl, rfl⟩)

/-- It raises `MQTTNotConnectedError` exactly where `_self` is set and the slot is NULL. -/
theorem api_notConnected_iff {w : Wrapper} {op : Api} (hvalid : op.validOptions = true) (p : Paho) :
    w.api p op = .raised .notConnected ↔ w.self = true ∧ w.dataPtr = none := by
  obtain ⟨hself, hraises⟩ | ⟨hself, hslot, hraises⟩ | ⟨m, hself, hslot, hcall⟩ :=
    w.api_cases hvalid p
  · exact iff_of_false (fun h ↦ hraises ⟨_, h⟩) (by simp [hself])
  · exact iff_of_true hraises ⟨hself, hslot⟩
  · exact iff_of_false (hcall ▸ op.call_ne_notConnected p _) (by simp [hslot])

end Wrapper

namespace System

/-- The call raises `MQTTNotConnectedError`, and leaves Paho and the wrapper as they are. -/
def RaisesNotConnected (cfg : Config) (s : System) (c : Caller) (op : Api) : Prop :=
  s.wrapper.api s.paho op = .raised .notConnected ∧ (machine cfg).step s (.api c op) = some s

/-- A call that raises leaves everything as it is. -/
theorem step_api_of_raised {cfg : Config} {s : System} {c : Caller} {op : Api} {err : RubyError}
    (hrunning : s.running c = true) (hraised : s.wrapper.api s.paho op = .raised err) :
    (machine cfg).step s (.api c op) = some s := by
  simp only [machine, step, hrunning, if_true, hraised]

/-- **What the call raises, state by state**: `MQTTNotConnectedError` where a `connect` has returned
and the slot is NULL, and nowhere else. -/
theorem raisesNotConnected_iff {cfg : Config} {s : System} {c : Caller} {op : Api}
    (hrunning : s.running c = true) (hvalid : op.validOptions = true) :
    RaisesNotConnected cfg s c op ↔ s.wrapper.self = true ∧ s.wrapper.dataPtr = none := by
  rw [← Wrapper.api_notConnected_iff hvalid s.paho, RaisesNotConnected, and_iff_left_iff_imp]
  exact step_api_of_raised hrunning

/-- While the client in the slot is not connected the call raises an error of its own, and queues
nothing either. -/
theorem refused_of_not_connected {cfg : Config} {s : System} {c : Caller} {op : Api} {m : ℕ}
    (hrunning : s.running c = true) (hvalid : op.validOptions = true)
    (hslot : s.wrapper.loadDataPtr = some (some m))
    (hclient : (s.paho.client (s.wrapper.stateClient m)).connected = false) :
    ∃ err, err ≠ .notConnected ∧ s.wrapper.api s.paho op = .raised err ∧
      (machine cfg).step s (.api c op) = some s := by
  obtain ⟨err, herr⟩ := Api.call_of_not_connected hclient op
  have hraised : s.wrapper.api s.paho op = .raised err := by
    simp only [Wrapper.api, hvalid, Bool.not_true, Bool.false_eq_true, if_false, hslot, herr]
  refine ⟨err, ?_, hraised, step_api_of_raised hrunning hraised⟩
  rintro rfl
  exact op.call_ne_notConnected s.paho _ herr

/-! ### Runs -/

/-- The step calls the handler of a loss or of a disconnect on thread `t`. -/
def EntersEnd (s s' : System) (t : Thread) : Prop :=
  s.frames t = none ∧ ∃ f, s'.frames t = some f ∧
    (f.callback = .mqttConnlost ∨ f.callback = .mqttOnDisconnect)

/-- Where such a handler begins, `connected?` is false and the slot still holds the state. -/
theorem slot_of_entersEnd {cfg : Config} {s s' : System} {e : SystemEvent} {t : Thread}
    (hmoves : Moves cfg s e s') (henters : s.EntersEnd s' t) :
    s'.wrapper.mqttConnected = false ∧ ∃ m, s'.wrapper.dataPtr = some m := by
  obtain ⟨hidle, f, hf, hend⟩ := henters
  have hnone : s.frames t ≠ some f := by simp [hidle]
  cases hmoves with
  | called e p h cb m mutex _ hslot _ =>
    dsimp only at hf
    rcases eq_or_ne t e.thread with rfl | hne
    · rw [Function.update_self] at hf
      obtain rfl := Option.some.inj hf
      refine ⟨?_, m, (Wrapper.loadDataPtr_eq_some_iff.1 hslot).2⟩
      obtain rfl | rfl := hend <;> rfl
    · exact absurd ((Function.update_of_ne hne ..).symm.trans hf) hnone
  | handlerReturned t' _ _ _ _ _ =>
    dsimp only at hf
    rcases eq_or_ne t t' with rfl | hne
    · rw [Function.update_self] at hf
      cases hf
    · exact absurd ((Function.update_of_ne hne ..).symm.trans hf) hnone
  | connectNext c x _ =>
    cases x with
    | assigned client m => simp [connectNext, hidle] at hf
    | queued | allocated => exact absurd hf hnone
  | _ => exact absurd hf hnone

/-- **Along every run**: in a state in which `connected?` is false a valid call raises
`MQTTNotConnectedError`, queues nothing and changes nothing exactly if a `connect` has returned and
the slot is NULL; and no valid call does so where the handler of a loss or of a disconnect begins,
though `connected?` is false there. -/
theorem not_connected_iff (cfg : Config) (es : List SystemEvent) :
    (machine cfg).Always
        (fun s ↦ s.wrapper.mqttConnected = false → ∀ c op, s.running c = true →
          op.validOptions = true → (RaisesNotConnected cfg s c op ↔
            s.wrapper.self = true ∧ s.wrapper.dataPtr = none)) init es ∧
      (machine cfg).EachStep
        (fun s _ s' ↦ ∀ t, s.EntersEnd s' t → s'.wrapper.mqttConnected = false ∧
          ∀ c op, s'.running c = true → op.validOptions = true →
            ¬ RaisesNotConnected cfg s' c op) init es := by
  constructor
  · exact (machine cfg).always_of_forall (fun s _ c op ↦ raisesNotConnected_iff) init es
  · refine (machine cfg).eachStep_of_inductive (fun s e s' (hs : s.Wf) hstep ↦ ?_) wf_init es
    obtain ⟨hs', hmoves⟩ := step_moves hs hstep
    refine ⟨fun t henters ↦ ?_, hs'⟩
    obtain ⟨hflag, m, hm⟩ := slot_of_entersEnd hmoves henters
    refine ⟨hflag, fun c op hrunning hvalid hraises ↦ ?_⟩
    simp [((raisesNotConnected_iff hrunning hvalid).1 hraises).2] at hm

/-- A connect that is pending: `connected?` is false, and `disconnect`, `publish` and `subscribe`
raise, but not `MQTTNotConnectedError`. Before the first connect they do not even come back. -/
theorem pending_run_other_errors :
    (∀ op, op.validOptions = true → ¬ ∃ err, init.wrapper.api init.paho op = .raised err) ∧
      ∃ s, (machine ⟨false, false⟩).run init (configure ++ connectCall .ruby) = some s ∧
        s.running .ruby = true ∧ s.wrapper.mqttConnected = false ∧
        s.wrapper.api s.paho .disconnect = .raised .disconnectFailure ∧
        s.wrapper.api s.paho (.publish [0x74] [0x70] none none) = .raised .publishFailure ∧
        s.wrapper.api s.paho (.subscribe [0x74] none) = .raised .subscribeFailure := by
  refine ⟨fun op hvalid ↦ ?_, _, rfl, rfl, rfl, rfl, rfl, rfl⟩
  obtain ⟨-, hstuck⟩ | ⟨hself, -⟩ | ⟨_, hself, -⟩ := init.wrapper.api_cases hvalid init.paho
  · exact hstuck
  · cases hself
  · cases hself

/-! ### Until the next connect -/

/-- The step assigns the slot. -/
def AssignsSlot (s : System) : SystemEvent → Prop
  | .connectNext c => ∃ client m, s.connects c = some (.allocated client m)
  | _ => False

/-- **Once the callback of an end has cleared the slot, valid calls raise `MQTTNotConnectedError` in
every state, up to the step in which the next `connect` assigns its state.** -/
theorem not_connected_until_assigned {cfg : Config} {s : System} (hs : s.Wf)
    (hself : s.wrapper.self = true) (hslot : s.wrapper.dataPtr = none) {es : List SystemEvent}
    (hes : (machine cfg).EachStep (fun s e _ ↦ ¬ s.AssignsSlot e) s es) :
    (machine cfg).Always (fun s ↦ ∀ c op, s.running c = true → op.validOptions = true →
      RaisesNotConnected cfg s c op) s es := by
  refine (machine cfg).always_of_guarded
    (J := fun s ↦ s.Wf ∧ s.wrapper.self = true ∧ s.wrapper.dataPtr = none)
    (fun s e s' hs hstep hassigns ↦ ?_)
    (fun s hs c op hrunning hvalid ↦ (raisesNotConnected_iff hrunning hvalid).2 hs.2)
    ⟨hs, hself, hslot⟩ hes
  obtain ⟨hwf, hself, hslot⟩ := hs
  obtain ⟨hwf', hmoves⟩ := step_moves hwf hstep
  refine ⟨hwf', ?_⟩
  cases hmoves with
  | connectNext c x hx =>
    cases x with
    | allocated client m => exact absurd ⟨client, m, hx⟩ hassigns
    | queued client => exact ⟨hself, hslot⟩
    | assigned client m => exact ⟨rfl, hslot⟩
  | assigned c value wrapper hsame =>
    exact ⟨hsame.self.trans hself, hsame.dataPtr.trans hslot⟩
  | handlerReturned t f m mutex _ _ =>
    dsimp only
    split_ifs
    · exact ⟨hself, rfl⟩
    · exact ⟨hself, hslot⟩
  | _ => exact ⟨hself, hslot⟩

end System
