import MrubyMqtt.Utf8Encoding
import MrubyMqtt.Wrapper

/-!
# The handle of a connect

`mqtt_connect` declares `client` without a value and passes its address to `MQTTAsync_create`, whose
return code it drops. A client id that `UTF8_validateString` refuses leaves the variable unwritten,
and `mqtt_connect` goes on with whatever is in it. `Wrapper.mqttConnectCall` is the function again,
with the variable and what is done with it; `mqttConnectCall_of_done` and
`mqttConnectCall_of_raised` are its agreement with `Wrapper.mqttConnect`, and `handles_created_iff`
the exact set of strings it is right for.
-/

open Bytes

/-- What `MQTTAsync_create` returns, what it has written to `*handle`, and the library after it. -/
structure Created where
  /-- The return code. -/
  rc : ℤ
  /-- The handle it has written, if it has written one. -/
  handle : Option ℕ
  /-- The library. -/
  paho : Paho

/-- `MQTTAsync_create` from its first check on. -/
def Paho.mqttAsyncCreateChecked (p : Paho) (serverURI clientId : Bytes) : Created :=
  if utf8ValidateString clientId then
    ⟨0, some (p.mqttAsyncCreate serverURI clientId).1, (p.mqttAsyncCreate serverURI clientId).2⟩
  else ⟨-5, none, p⟩

theorem Paho.mqttAsyncCreateChecked_of_valid {clientId : Bytes}
    (hutf8 : utf8ValidateString clientId = true) (p : Paho) (serverURI : Bytes) :
    p.mqttAsyncCreateChecked serverURI clientId =
      ⟨0, some (p.mqttAsyncCreate serverURI clientId).1,
        (p.mqttAsyncCreate serverURI clientId).2⟩ :=
  if_pos hutf8

theorem Paho.mqttAsyncCreateChecked_of_invalid {clientId : Bytes}
    (hutf8 : ¬ utf8ValidateString clientId = true) (p : Paho) (serverURI : Bytes) :
    p.mqttAsyncCreateChecked serverURI clientId = ⟨-5, none, p⟩ :=
  if_neg hutf8

/-- What `mqtt_connect` does with its handle. -/
inductive HandleUse where
  /-- It is passed to `MQTTAsync_setCallbacks`. -/
  | setCallbacks
  /-- It is passed to `MQTTAsync_connect`. -/
  | connect
  /-- It is stored in the `mqtt_state`. -/
  | store
deriving DecidableEq, Repr

/-- A whole call of `mqtt_connect`. -/
structure ConnectCall where
  /-- How it ends. -/
  result : Outcome ℕ
  /-- The wrapper afterwards. -/
  wrapper : Wrapper
  /-- The library afterwards. -/
  paho : Paho
  /-- The uses of `client`, each with its value; `none` is a variable nobody has written. -/
  uses : List (HandleUse × Option ℕ)

namespace Wrapper

/-- `mqtt_connect` from `MQTTAsync_setCallbacks` on, with its variable `client`. What comes after a
use of the unwritten variable depends on what the stack holds. -/
def mqttConnectWith (w : Wrapper) (created : Created) : ConnectCall :=
  -- `created.rc` is not looked at.
  match created.handle with
  | some h =>
    ⟨.done h, w.mqttConnectStore h,
      created.paho.mqttAsyncConnect h (toInt32 w.keepAlive) w.cleanSession,
      [(.setCallbacks, some h), (.connect, some h), (.store, some h)]⟩
  | none => ⟨.stuck, w, created.paho, [(.setCallbacks, none)]⟩

/-- A whole call of `mqtt_connect`. -/
def mqttConnectCall (w : Wrapper) (p : Paho) : ConnectCall :=
  if w.mqttConnected then ⟨.raised .alreadyConnected, w, p, []⟩
  else
    match w.address.toCstr with
    | .raised e => ⟨.raised e, w, p, []⟩
    | .stuck => ⟨.stuck, w, p, []⟩
    | .done cAddress =>
      match w.clientId.toCstr with
      | .raised e => ⟨.raised e, w, p, []⟩
      | .stuck => ⟨.stuck, w, p, []⟩
      | .done cClientId => w.mqttConnectWith (p.mqttAsyncCreateChecked cAddress cClientId)

/-- With the flag FALSE and two strings that make C strings it comes to `MQTTAsync_create`. -/
theorem mqttConnectCall_of_strings {w : Wrapper} (hflag : w.mqttConnected = false)
    {address clientId : Bytes} (haddress : w.address = .string address)
    (hclientId : w.clientId = .string clientId) (ha : NulFree address) (hc : NulFree clientId)
    (p : Paho) :
    w.mqttConnectCall p = w.mqttConnectWith (p.mqttAsyncCreateChecked address clientId) := by
  simp only [mqttConnectCall, hflag, Bool.false_eq_true, if_false, haddress, hclientId,
    RubyValue.toCstr_string ha, RubyValue.toCstr_string hc]

/-- **The call agrees with `mqttConnect`** where that creates a client: it stores that client. -/
theorem mqttConnectCall_of_done {w : Wrapper} {p p' : Paho} {h : ℕ}
    (hdone : w.mqttConnect p = .done (h, p')) :
    w.mqttConnectCall p = ⟨.done h, w.mqttConnectStore h, p',
      [(.setCallbacks, some h), (.connect, some h), (.store, some h)]⟩ := by
  obtain ⟨hflag, address, clientId, haddress, hclientId, ha, hc, hutf8, heq⟩ :=
    mqttConnect_done_iff.1 hdone
  obtain ⟨rfl, rfl⟩ := Prod.mk.inj heq
  rw [mqttConnectCall_of_strings hflag haddress hclientId ha hc,
    p.mqttAsyncCreateChecked_of_valid hutf8]
  rfl

/-- Where that raises, the call raises the same and leaves everything as it is. -/
theorem mqttConnectCall_of_raised {w : Wrapper} {p : Paho} {e : RubyError}
    (hraised : w.mqttConnect p = .raised e) : w.mqttConnectCall p = ⟨.raised e, w, p, []⟩ := by
  rw [mqttConnect] at hraised
  rw [mqttConnectCall]
  rcases hflag : w.mqttConnected with - | -
  · simp only [hflag, Bool.false_eq_true, if_false] at hraised ⊢
    rcases haddress : w.address.toCstr with cAddress | err | -
    · rcases hclientId : w.clientId.toCstr with cClientId | err | -
      · simp only [haddress, hclientId, Outcome.bind] at hraised
        split at hraised <;> cases hraised
      · simp only [haddress, hclientId, Outcome.bind] at hraised ⊢
        rw [Outcome.raised.inj hraised]
      · simp only [haddress, hclientId, Outcome.bind] at hraised
        cases hraised
    · simp only [haddress, Outcome.bind] at hraised ⊢
      rw [Outcome.raised.inj hraised]
    · simp only [haddress, Outcome.bind] at hraised
      cases hraised
  · simp only [hflag, if_true] at hraised ⊢
    rw [Outcome.raised.inj hraised]

/-- The call is right about handles: it raises and leaves flag and slot as they are, or every handle
it uses is one that `MQTTAsync_create` has written, with return code 0. -/
def UsesCreated (w : Wrapper) (p : Paho) (created : Created) : Prop :=
  ((∃ e, (w.mqttConnectCall p).result = .raised e) ∧
      (w.mqttConnectCall p).wrapper.mqttConnected = w.mqttConnected ∧
      (w.mqttConnectCall p).wrapper.dataPtr = w.dataPtr) ∨
    ∀ use ∈ (w.mqttConnectCall p).uses, ∃ h, use.2 = some h ∧ created.handle = some h ∧
      created.rc = 0

/-- **Handles**: for every address and every client id, the call of `connect` uses created handles
only, or raises, exactly if `mqtt_connected` is TRUE, a string has an embedded NUL, or the client id
passes `UTF8_validateString`; and a client id whose length fits an `int` passes exactly if it is
UTF-8. -/
theorem handles_created_iff (w : Wrapper) (p : Paho) (address clientId : Bytes) :
    ({ w with address := .string address, clientId := .string clientId }.UsesCreated p
        (p.mqttAsyncCreateChecked address clientId) ↔
      w.mqttConnected = true ∨ ¬ NulFree address ∨ ¬ NulFree clientId ∨
        utf8ValidateString clientId = true) ∧
      (clientId.length < 2 ^ 31 → (utf8ValidateString clientId = true ↔ IsUtf8 clientId)) := by
  refine ⟨?_, utf8ValidateString_iff⟩
  set v : Wrapper := { w with address := .string address, clientId := .string clientId } with hv
  have hraises : ∀ e, v.mqttConnect p = .raised e →
      v.UsesCreated p (p.mqttAsyncCreateChecked address clientId) := by
    intro e hraised
    rw [UsesCreated, mqttConnectCall_of_raised hraised]
    exact .inl ⟨⟨e, rfl⟩, rfl, rfl⟩
  rcases hflag : w.mqttConnected with - | -
  · by_cases ha : NulFree address
    · by_cases hc : NulFree clientId
      · -- It comes to `MQTTAsync_create`.
        simp only [ha, hc, Bool.false_eq_true, not_true_eq_false, false_or]
        have hcall := mqttConnectCall_of_strings (w := v) hflag rfl rfl ha hc p
        by_cases hutf8 : utf8ValidateString clientId = true
        · rw [p.mqttAsyncCreateChecked_of_valid hutf8] at hcall ⊢
          refine iff_of_true (.inr ?_) hutf8
          rw [hcall]
          simp [mqttConnectWith]
        · rw [p.mqttAsyncCreateChecked_of_invalid hutf8] at hcall ⊢
          refine iff_of_false ?_ hutf8
          rw [UsesCreated, hcall]
          simp [mqttConnectWith]
      · refine iff_of_true (hraises .argumentError ?_) (.inr (.inr (.inl hc)))
        simp [mqttConnect, hv, hflag, RubyValue.toCstr, strToCstr, ha, hc, Outcome.bind]
    · refine iff_of_true (hraises .argumentError ?_) (.inr (.inl ha))
      simp [mqttConnect, hv, hflag, RubyValue.toCstr, strToCstr, ha, Outcome.bind]
  · refine iff_of_true (hraises .alreadyConnected ?_) (.inl rfl)
    simp [mqttConnect, hv, hflag]

/-- With the client id `FF` the variable is used unwritten, and nothing is raised. -/
theorem invalid_client_id_unwritten :
    ¬ { mqttInit with address := .string [0x68], clientId := .string [0xFF] }.UsesCreated .init
      (Paho.init.mqttAsyncCreateChecked [0x68] [0xFF]) := by
  rw [(handles_created_iff mqttInit .init [0x68] [0xFF]).1]
  decide

end Wrapper
