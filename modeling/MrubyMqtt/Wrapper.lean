import MrubyMqtt.Paho

/-!
# The wrapper

`src/mqtt.c` and the Ruby class over it: the two statics `_self` and `mqtt_connected`, the pointer
slot `DATA_PTR(_self)` of the singleton, the `mqtt_state` records that pass through that slot, and
the functions that read and write them.

The callbacks are written as code, one list of `Instr` each, because their order matters: every
one of them loads the slot first and works with that copy, and three of them free the copy and
clear the slot **after** the Ruby handler has run. `Instr.exec` gives one instruction its meaning;
`runCallback` runs up to the handler.

An API call is written as a function of what its first line loaded (`Api.call`), so that it can be
run in one go (`Wrapper.api`) or with other threads in between.
-/

open Bytes

/-- The exceptions a call into the wrapper can raise. -/
inductive RubyError where
  /-- `MQTTAlreadyConnectedError`. -/
  | alreadyConnected
  /-- `MQTTNotConnectedError`. -/
  | notConnected
  /-- `MQTTDisconnectFailureError`. -/
  | disconnectFailure
  /-- `MQTTPublishFailureError`. -/
  | publishFailure
  /-- `MQTTSubscribeFailureError`. -/
  | subscribeFailure
  /-- `ArgumentError`, from the Ruby methods and from `mrb_str_to_cstr` on an embedded NUL. -/
  | argumentError
  /-- `TypeError`, from `mrb_str_to_cstr` on an object that is no String. -/
  | typeError
deriving DecidableEq, Repr

/-- How a call ends: with a result, with an exception, or not at all. -/
inductive Outcome (α : Type) where
  /-- The call returns. -/
  | done (a : α)
  /-- The call raises. -/
  | raised (e : RubyError)
  /-- The process is stopped by a bad memory access, or the call never returns. -/
  | stuck

/-- The next part of a call, which runs where the first one returns. -/
def Outcome.bind {α β : Type} (first : Outcome α) (rest : α → Outcome β) : Outcome β :=
  match first with
  | .done a => rest a
  | .raised e => .raised e
  | .stuck => .stuck

/-- A Ruby object where the code wants a String. -/
inductive RubyValue where
  /-- `nil`. -/
  | nil
  /-- Any other object that is no String, by its identity. -/
  | object (id : ℕ)
  /-- A String. -/
  | string (bytes : Bytes)
deriving DecidableEq, Repr

/-- The statics, the singleton and the `mqtt_state` records. -/
structure Wrapper where
  /-- `_self` has been assigned; before that it is a zero `mrb_value`. -/
  self : Bool
  /-- `mqtt_connected`. -/
  mqttConnected : Bool
  /-- `DATA_PTR(_self)`: there is one object of the class, so this is its only data pointer. -/
  dataPtr : Option ℕ
  /-- How many `mqtt_state` records have been allocated. -/
  stateCount : ℕ
  /-- The field `client` of each record. -/
  stateClient : ℕ → ℕ
  /-- The records given to `mrb_free`, in order. -/
  freed : List ℕ
  /-- The attribute `address`. -/
  address : RubyValue
  /-- The attribute `client_id`. -/
  clientId : RubyValue
  /-- The attribute `keep_alive`. -/
  keepAlive : ℤ
  /-- What `clean_session` returns. -/
  cleanSession : Bool

/-- The state `mrb_mruby_mqtt_gem_init` and `mqtt_init` leave behind. -/
def mqttInit : Wrapper where
  self := false
  mqttConnected := false
  dataPtr := none
  stateCount := 0
  stateClient _ := 0
  freed := []
  address := .nil
  clientId := .nil
  keepAlive := 20
  cleanSession := true

namespace Wrapper

/-- `DATA_PTR(_self)`; `none` reads through the zero value that `_self` is at first. -/
def loadDataPtr (w : Wrapper) : Option (Option ℕ) := if w.self then some w.dataPtr else none

theorem loadDataPtr_eq_some_iff {w : Wrapper} {ptr : Option ℕ} :
    w.loadDataPtr = some ptr ↔ w.self = true ∧ w.dataPtr = ptr := by
  rw [loadDataPtr]
  split_ifs with hself <;> simp [hself]

/-- `mrb_str_to_cstr` raises on an embedded NUL. -/
def strToCstr (string : Bytes) : Outcome Bytes :=
  if NulFree string then .done string else .raised .argumentError

end Wrapper

namespace RubyValue

/-- `mrb_str_to_cstr` of an object that need not be a String. -/
def toCstr : RubyValue → Outcome Bytes
  | .string bytes => Wrapper.strToCstr bytes
  | _ => .raised .typeError

/-- **`mrb_str_to_cstr` returns** the bytes of a String without NUL, and of nothing else. -/
theorem toCstr_eq_done_iff {value : RubyValue} {bytes : Bytes} :
    value.toCstr = .done bytes ↔ value = .string bytes ∧ NulFree bytes := by
  cases value with
  | nil | object => simp [toCstr]
  | string content =>
    by_cases hnul : NulFree content
    · simp only [toCstr, Wrapper.strToCstr, if_pos hnul, Outcome.done.injEq, string.injEq]
      constructor
      · rintro rfl
        exact ⟨rfl, hnul⟩
      · exact And.left
    · simp only [toCstr, Wrapper.strToCstr, if_neg hnul, reduceCtorEq, false_iff, string.injEq]
      rintro ⟨rfl, hnul'⟩
      exact hnul hnul'

theorem toCstr_string {bytes : Bytes} (hnul : NulFree bytes) :
    (RubyValue.string bytes).toCstr = .done bytes :=
  toCstr_eq_done_iff.2 ⟨rfl, hnul⟩

/-- Otherwise it raises, and not what a refused `connect` raises. -/
theorem toCstr_cases (value : RubyValue) :
    (∃ bytes, value.toCstr = .done bytes) ∨
      ∃ e, value.toCstr = .raised e ∧ e ≠ .alreadyConnected := by
  cases value with
  | nil | object => exact .inr ⟨.typeError, rfl, by decide⟩
  | string content =>
    rw [toCstr, Wrapper.strToCstr]
    split_ifs
    · exact .inl ⟨content, rfl⟩
    · exact .inr ⟨.argumentError, rfl, by decide⟩

end RubyValue

namespace Wrapper

/-! ### `connect` -/

/-- `mqtt_connect` up to and including `MQTTAsync_connect`: the guard, the two C strings, first that
of the address, a new client, the CONNECT in the queue. A client id that is not UTF-8 leaves the
handle unset, which the code does not notice. -/
def mqttConnect (w : Wrapper) (p : Paho) : Outcome (ℕ × Paho) :=
  if w.mqttConnected then .raised .alreadyConnected
  else
    w.address.toCstr.bind fun cAddress ↦
      w.clientId.toCstr.bind fun cClientId ↦
        if utf8ValidateString cClientId then
          let created := p.mqttAsyncCreate cAddress cClientId
          .done (created.1,
            created.2.mqttAsyncConnect created.1 (toInt32 w.keepAlive) w.cleanSession)
        else .stuck

/-- `connect` comes to `MQTTAsync_create`: it is not refused, and address and client id are strings
without NUL. -/
def reachesCreate (w : Wrapper) : Bool :=
  !w.mqttConnected && match w.address, w.clientId with
    | .string address, .string clientId => NulFree address && NulFree clientId
    | _, _ => false

theorem reachesCreate_iff {w : Wrapper} :
    w.reachesCreate = true ↔ w.mqttConnected = false ∧ ∃ address clientId : Bytes,
      w.address = .string address ∧ w.clientId = .string clientId ∧ NulFree address ∧
      NulFree clientId := by
  rw [reachesCreate]
  rcases w.mqttConnected with - | - <;> rcases w.address with - | - | address <;>
    rcases w.clientId with - | - | clientId <;> simp

/-- A call that comes to `MQTTAsync_create` has made its two C strings. -/
theorem mqttConnect_of_strings {w : Wrapper} (hflag : w.mqttConnected = false)
    {address clientId : Bytes} (haddress : w.address = .string address)
    (hclientId : w.clientId = .string clientId) (ha : NulFree address) (hc : NulFree clientId)
    (p : Paho) :
    w.mqttConnect p = if utf8ValidateString clientId then
      .done ((p.mqttAsyncCreate address clientId).1,
        (p.mqttAsyncCreate address clientId).2.mqttAsyncConnect
          (p.mqttAsyncCreate address clientId).1 (toInt32 w.keepAlive) w.cleanSession)
      else .stuck := by
  simp only [mqttConnect, hflag, Bool.false_eq_true, if_false, haddress, hclientId,
    RubyValue.toCstr_string ha, RubyValue.toCstr_string hc, Outcome.bind]

/-- **A `connect` that does not come to `MQTTAsync_create`** raises, and what it raises tells
whether the flag is TRUE. -/
theorem mqttConnect_of_not_reaches {w : Wrapper} (hreaches : w.reachesCreate = false) (p : Paho) :
    ∃ e, w.mqttConnect p = .raised e ∧ (e = .alreadyConnected ↔ w.mqttConnected = true) := by
  by_cases hflag : w.mqttConnected = true
  · exact ⟨.alreadyConnected, if_pos hflag, iff_of_true rfl hflag⟩
  simp only [mqttConnect, if_neg hflag]
  obtain ⟨address, haddress⟩ | ⟨e, haddress, hne⟩ := w.address.toCstr_cases
  · obtain ⟨clientId, hclientId⟩ | ⟨e, hclientId, hne⟩ := w.clientId.toCstr_cases
    · -- With two C strings it would come there.
      obtain ⟨haddress, ha⟩ := RubyValue.toCstr_eq_done_iff.1 haddress
      obtain ⟨hclientId, hc⟩ := RubyValue.toCstr_eq_done_iff.1 hclientId
      have hcomes := reachesCreate_iff.2
        ⟨by simpa using hflag, address, clientId, haddress, hclientId, ha, hc⟩
      exact absurd (hcomes.symm.trans hreaches) Bool.noConfusion
    · rw [haddress, hclientId]
      exact ⟨e, rfl, iff_of_false hne hflag⟩
  · rw [haddress]
    exact ⟨e, rfl, iff_of_false hne hflag⟩

/-- **A `connect` that is not refused** has found the flag FALSE and two strings that make C
strings, the client id in UTF-8, and has created a client with these options. -/
theorem mqttConnect_done_iff {w : Wrapper} {p : Paho} {done : ℕ × Paho} :
    w.mqttConnect p = .done done ↔ w.mqttConnected = false ∧ ∃ address clientId : Bytes,
      w.address = .string address ∧ w.clientId = .string clientId ∧ NulFree address ∧
      NulFree clientId ∧ utf8ValidateString clientId = true ∧
      done = ((p.mqttAsyncCreate address clientId).1,
        (p.mqttAsyncCreate address clientId).2.mqttAsyncConnect
          (p.mqttAsyncCreate address clientId).1 (toInt32 w.keepAlive) w.cleanSession) := by
  constructor
  · intro hdone
    rcases hreaches : w.reachesCreate with - | -
    · obtain ⟨e, hraised, -⟩ := mqttConnect_of_not_reaches hreaches p
      rw [hraised] at hdone
      cases hdone
    · obtain ⟨hflag, address, clientId, haddress, hclientId, ha, hc⟩ :=
        reachesCreate_iff.1 hreaches
      rw [mqttConnect_of_strings hflag haddress hclientId ha hc p] at hdone
      split_ifs at hdone with hutf8
      exact ⟨hflag, address, clientId, haddress, hclientId, ha, hc, hutf8,
        (Outcome.done.inj hdone).symm⟩
  · rintro ⟨hflag, address, clientId, haddress, hclientId, ha, hc, hutf8, rfl⟩
    rw [mqttConnect_of_strings hflag haddress hclientId ha hc p, if_pos hutf8]

/-- **A `connect` raises** exactly if it does not come to `MQTTAsync_create`. -/
theorem mqttConnect_raised_iff {w : Wrapper} {p : Paho} :
    (∃ e, w.mqttConnect p = .raised e) ↔ w.reachesCreate = false := by
  constructor
  · rintro ⟨e, hraised⟩
    by_contra hreaches
    obtain ⟨hflag, address, clientId, haddress, hclientId, ha, hc⟩ :=
      reachesCreate_iff.1 (by simpa using hreaches)
    rw [mqttConnect_of_strings hflag haddress hclientId ha hc p] at hraised
    split_ifs at hraised
  · intro hreaches
    obtain ⟨e, hraised, -⟩ := mqttConnect_of_not_reaches hreaches p
    exact ⟨e, hraised⟩

/-- It raises `MQTTAlreadyConnectedError` where the flag is TRUE, and nowhere else. -/
theorem mqttConnect_eq_alreadyConnected_iff {w : Wrapper} {p : Paho} :
    w.mqttConnect p = .raised .alreadyConnected ↔ w.mqttConnected = true := by
  refine ⟨fun hrefused ↦ ?_, fun hflag ↦ if_pos hflag⟩
  obtain ⟨e, hraised, hiff⟩ :=
    mqttConnect_of_not_reaches (mqttConnect_raised_iff.1 ⟨_, hrefused⟩) p
  exact hiff.1 (Outcome.raised.inj (hraised.symm.trans hrefused))

/-- `mrb_malloc` of a new `mqtt_state`, with its fields. -/
def mallocState (w : Wrapper) (client : ℕ) : ℕ × Wrapper :=
  (w.stateCount,
    { w with
      stateCount := w.stateCount + 1
      stateClient := Function.update w.stateClient w.stateCount client })

/-- `DATA_PTR(self) = mqtt_state_p`. -/
def assignDataPtr (w : Wrapper) (m : ℕ) : Wrapper := { w with dataPtr := some m }

/-- `_self = self`. -/
def assignSelf (w : Wrapper) : Wrapper := { w with self := true }

/-- The rest of `mqtt_connect` without interruption: a new `mqtt_state` goes into the slot, and
`_self` is set. -/
def mqttConnectStore (w : Wrapper) (client : ℕ) : Wrapper :=
  let (m, w) := w.mallocState client
  (w.assignDataPtr m).assignSelf

/-! ### The attributes -/

/-- An assignment to an attribute of the singleton. -/
inductive Setter where
  /-- `address=`. -/
  | address (value : RubyValue)
  /-- `client_id=`. -/
  | clientId (value : RubyValue)
  /-- `keep_alive=`. -/
  | keepAlive (value : ℤ)
  /-- `clean_session=`. -/
  | cleanSession (value : Bool)
deriving DecidableEq, Repr

/-- The attribute writers. Only `clean_session=` looks at the connection. -/
def assign (w : Wrapper) : Setter → Outcome Wrapper
  | .address value => .done { w with address := value }
  | .clientId value => .done { w with clientId := value }
  | .keepAlive value => .done { w with keepAlive := value }
  | .cleanSession value =>
    if w.mqttConnected then .raised .argumentError else .done { w with cleanSession := value }

end Wrapper

/-! ### `disconnect`, `publish` and `subscribe` -/

/-- The API calls that need a connection. The options are `nil` where the caller leaves them out. -/
inductive Api where
  /-- `disconnect`. -/
  | disconnect
  /-- `publish(topic, payload, opts)`. -/
  | publish (topic payload : Bytes) (qos : Option ℤ) (retain : Option Bool)
  /-- `subscribe(topic, opts)`. -/
  | subscribe (topic : Bytes) (qos : Option ℤ)
deriving DecidableEq, Repr

namespace Api

/-- What the Ruby methods check before they call into C. -/
def validOptions : Api → Bool
  | .disconnect => true
  | .publish _ _ qos _ | .subscribe _ qos => 0 ≤ qos.getD 0 && qos.getD 0 ≤ 2

/-- The rest of `mqtt_disconnect`, `mqtt_publish` and `mqtt_subscribe` once `m` is known not to be
NULL; `client` is `m->client`. The length of the payload is stored in an `int`. -/
def call (p : Paho) (client : ℕ) : Api → Outcome Paho
  | .disconnect =>
    match p.mqttAsyncDisconnect1 client false with
    | .ok p' => .done p'
    | .error _ => .raised .disconnectFailure
  | .publish topic payload qos retain =>
    match Wrapper.strToCstr topic, Wrapper.strToCstr payload with
    | .done topicP, .done payloadP =>
      match p.mqttAsyncSend client topicP (toInt32 payloadP.length) payloadP (qos.getD 0)
        (retain.getD false).toNat with
      | .success p' => .done p'
      | .refused _ => .raised .publishFailure
      | .stuck => .stuck
    | _, _ => .raised .argumentError
  | .subscribe topic qos =>
    match Wrapper.strToCstr topic with
    | .done topicP =>
      match p.mqttAsyncSubscribe client topicP (qos.getD 0) with
      | .success p' => .done p'
      | .refused _ => .raised .subscribeFailure
      | .stuck => .stuck
    | _ => .raised .argumentError

end Api

namespace Wrapper

/-- An API call from start to end: the Ruby method's checks, then `m = DATA_PTR(_self)` and
`check_mqtt_connected`, then the rest. -/
def api (w : Wrapper) (p : Paho) (op : Api) : Outcome Paho :=
  if !op.validOptions then .raised .argumentError
  else
    match w.loadDataPtr with
    | none => .stuck
    | some none => .raised .notConnected
    | some (some m) => op.call p (w.stateClient m)

end Wrapper

/-! ### The callbacks -/

/-- The Ruby methods the callbacks call. -/
inductive Method where
  /-- `on_message_callback`. -/
  | onMessageCallback
  /-- `connlost_callback`. -/
  | connlostCallback
  /-- `on_disconnect_callback`. -/
  | onDisconnectCallback
  /-- `on_subscribe_callback`. -/
  | onSubscribeCallback
  /-- `on_subscribe_failure_callback`. -/
  | onSubscribeFailureCallback
  /-- `on_publish_callback`. -/
  | onPublishCallback
  /-- `on_connect_failure_callback`. -/
  | onConnectFailureCallback
  /-- `on_connect_callback`. -/
  | onConnectCallback
deriving DecidableEq, Repr

/-- One line of a callback. -/
inductive Instr where
  /-- `m = DATA_PTR(_self)`. -/
  | load
  /-- `if (m == NULL) return`. -/
  | returnIfNull
  /-- `mrb_intern_cstr(m->mrb, cause)`. -/
  | internCause
  /-- Any other call into mruby that passes `m->mrb`. -/
  | withMrb
  /-- `mqtt_connected = value`. -/
  | setConnected (value : Bool)
  /-- `mrb_funcall(m->mrb, m->self, method)`. -/
  | funcall (method : Method)
  /-- `mrb_free(m->mrb, m)`. -/
  | free
  /-- `DATA_PTR(_self) = NULL`. -/
  | clearDataPtr
deriving DecidableEq, Repr

/-- The body of each callback. What `mqtt_msgarrvd` does with the message is in
`MrubyMqtt.Delivery`; here it makes two strings and an `MQTTMessage` and fills it in. -/
def Callback.code : Callback → List Instr
  | .mqttMsgarrvd =>
    [.load, .returnIfNull, .withMrb, .withMrb, .withMrb, .withMrb, .withMrb,
      .funcall .onMessageCallback]
  | .mqttConnlost =>
    [.load, .returnIfNull, .internCause, .setConnected false, .funcall .connlostCallback, .free,
      .clearDataPtr]
  | .mqttOnDisconnect =>
    [.load, .returnIfNull, .setConnected false, .funcall .onDisconnectCallback, .free,
      .clearDataPtr]
  | .mqttOnSubscribe => [.load, .returnIfNull, .funcall .onSubscribeCallback]
  | .mqttOnSubscribeFailure => [.load, .returnIfNull, .funcall .onSubscribeFailureCallback]
  | .mqttOnPublish => [.load, .returnIfNull, .funcall .onPublishCallback]
  | .mqttOnConnectFailure =>
    [.load, .returnIfNull, .funcall .onConnectFailureCallback, .free, .clearDataPtr]
  | .mqttOnConnect => [.load, .returnIfNull, .setConnected true, .funcall .onConnectCallback]

/-- What the code leaves open: whether `mrb_intern_cstr` comes back from the NULL that Paho passes
as the cause of a loss, and what a mutex does that its owner locks again. -/
structure Config where
  /-- `mrb_intern_cstr(mrb, NULL)` returns. -/
  nullCauseReturns : Bool
  /-- Locking again counts, as it does on Windows. A pthread mutex of type `ERRORCHECK` refuses, and
  the unlock that follows releases it. -/
  recursiveMutex : Bool

/-- What one instruction leads to. -/
inductive Effect where
  /-- On to the next instruction, with the local variable `m`. -/
  | next (w : Wrapper) (m : Option ℕ)
  /-- The callback returns. -/
  | ret
  /-- The Ruby method is called. -/
  | handler (method : Method)
  /-- A bad memory access. -/
  | fault

/-- One instruction, for a callback whose local variable is `m`. -/
def Instr.exec (cfg : Config) (w : Wrapper) (m : Option ℕ) : Instr → Effect
  | .load =>
    match w.loadDataPtr with
    | some ptr => .next w ptr
    | none => .fault
  | .returnIfNull => if m = none then .ret else .next w m
  | .internCause => if cfg.nullCauseReturns then .next w m else .fault
  | .withMrb => .next w m
  | .setConnected value => .next { w with mqttConnected := value } m
  | .funcall method => .handler method
  | .free => .next { w with freed := w.freed ++ m.toList } m
  | .clearDataPtr => .next { w with dataPtr := none } m

/-- A callback that has called its Ruby method and waits for it: its copy of the slot and the code
still to run. -/
structure Waiting where
  /-- The Ruby method. -/
  method : Method
  /-- The local variable `m`. -/
  m : Option ℕ
  /-- The code after the call. -/
  rest : List Instr
deriving DecidableEq, Repr

/-- Runs a callback without interruption up to its Ruby method, or to its end; `none` is a bad
memory access. -/
def runCallback (cfg : Config) : List Instr → Option ℕ → Wrapper → Option (Wrapper × Option Waiting)
  | [], _, w => some (w, none)
  | instr :: rest, m, w =>
    match instr.exec cfg w m with
    | .next w' m' => runCallback cfg rest m' w'
    | .ret => some (w, none)
    | .handler method => some (w, some ⟨method, m, rest⟩)
    | .fault => none

namespace Callback

/-- The callbacks that free the state and clear the slot after their handler. -/
def clears : Callback → Bool
  | .mqttConnlost | .mqttOnDisconnect | .mqttOnConnectFailure => true
  | _ => false

/-- The Ruby method a callback calls. -/
def method : Callback → Method
  | .mqttMsgarrvd => .onMessageCallback
  | .mqttConnlost => .connlostCallback
  | .mqttOnDisconnect => .onDisconnectCallback
  | .mqttOnSubscribe => .onSubscribeCallback
  | .mqttOnSubscribeFailure => .onSubscribeFailureCallback
  | .mqttOnPublish => .onPublishCallback
  | .mqttOnConnectFailure => .onConnectFailureCallback
  | .mqttOnConnect => .onConnectCallback

/-- What a callback does to the flag before it calls its handler. -/
def flagAfter : Callback → Bool → Bool
  | .mqttConnlost, _ | .mqttOnDisconnect, _ => false
  | .mqttOnConnect, _ => true
  | _, flag => flag

/-- The code a callback still has to run when its handler returns. -/
def tail (cb : Callback) : List Instr := if cb.clears then [.free, .clearDataPtr] else []

/-- Whether a callback comes to its handler when the slot is not NULL. -/
def reachesHandler (cb : Callback) (cfg : Config) : Bool :=
  cb ≠ .mqttConnlost || cfg.nullCauseReturns

/-- **Every callback up to its handler.** With `_self` unset it reads through a null object; with
the slot NULL it returns at once; otherwise it sets the flag and calls the handler, keeping the
pointer it has loaded for its tail. -/
theorem runCallback_code (cb : Callback) (cfg : Config) (w : Wrapper) :
    runCallback cfg cb.code none w =
      match w.loadDataPtr with
      | none => none
      | some none => some (w, none)
      | some (some m) =>
        if cb.reachesHandler cfg then
          some ({ w with mqttConnected := cb.flagAfter w.mqttConnected },
            some ⟨cb.method, some m, cb.tail⟩)
        else none := by
  rcases hload : w.loadDataPtr with - | - | m
  · -- The first line of every callback reads through `_self`.
    cases cb <;> simp [code, runCallback, Instr.exec, hload]
  · cases cb <;> simp [code, runCallback, Instr.exec, hload]
  · obtain ⟨returns, recursive⟩ := cfg
    cases cb <;> cases returns <;>
      simp [code, runCallback, Instr.exec, hload, reachesHandler, flagAfter, tail, clears, method]

/-- **The tail of a callback**: nothing, or the copy is freed and the slot is cleared whatever it
holds by now. -/
theorem runCallback_tail (cb : Callback) (cfg : Config) (m : Option ℕ) (w : Wrapper) :
    runCallback cfg cb.tail m w =
      some (if cb.clears then { w with freed := w.freed ++ m.toList, dataPtr := none } else w,
        none) := by
  rw [tail]
  split_ifs <;> rfl

end Callback
