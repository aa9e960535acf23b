import MrubyMqtt.Delivery
import MrubyMqtt.Lib.Format
import MrubyMqtt.Lib.Reactor
import MrubyMqtt.System

/-!
# Dispatchers and handlers

What a callback of Paho's comes to in Ruby: `mrb_funcall` runs the dispatcher of the callback,
which prints its debug text and calls the handler the application has set.

`mrb_funcall` is called from outside the VM. It catches an exception and leaves it in `mrb->exc`,
where nothing takes it away; and Ruby code that runs while one is pending there raises it again
where a method written in C returns. So the interpreter is a `Reactor` over that one flag: it
answers a callback with the handlers it calls.

* With `debug` on, the topic and the payload of a message are part of a format string
  (`debug_neutral_iff`).
* A handler that raises leaves its exception to all later dispatchers (`isolated_iff`).
-/

open Bytes

/-- An `MQTTMessage`. -/
structure MqttMessage where
  /-- `message.topic`. -/
  topic : Bytes
  /-- `message.payload`. -/
  payload : Bytes
deriving DecidableEq, Repr

/-- The attributes of the client that the dispatchers read. -/
structure Attributes (η : Type) where
  /-- `@debug`. -/
  debug : Bool
  /-- What each dispatcher calls, if it is set: `@on_message` and so on. -/
  handlers : Method → Option η

/-- A call of a handler. -/
structure HandlerCall (η : Type) where
  /-- The dispatcher it comes from. -/
  method : Method
  /-- The handler. -/
  handler : η
  /-- What it is called with. -/
  arguments : List MqttMessage
deriving DecidableEq, Repr

/-! ### The dispatchers -/

/-- One line of a dispatcher. -/
inductive RubyLine where
  /-- Something is called that is written in C and does not raise by itself: `message.topic`,
  `message.payload` or `p cause`. -/
  | cMethod
  /-- `debug_out str`. -/
  | debugOut (str : Bytes)
  /-- The handler is called, if it is set. -/
  | callHandler (method : Method) (arguments : List MqttMessage)
  /-- The handler is called, if it is set; otherwise `sleep reconnect_interval` and `connect`. -/
  | callHandlerOrConnect (method : Method)

namespace Method

/-- What a dispatcher gives to `debug_out`. -/
def debugText (message : MqttMessage) : Method → Bytes
  | .onMessageCallback => ascii "received: " ++ message.topic ++ ascii " : " ++ message.payload
  | .connlostCallback | .onConnectFailureCallback => ascii "connection lost"
  | .onDisconnectCallback => ascii "on_disconnect_callback"
  | .onSubscribeCallback => ascii "on_subscribe_callback"
  | .onSubscribeFailureCallback => ascii "on_subscribe_failure_callback"
  | .onPublishCallback => ascii "on_publish_callback"
  | .onConnectCallback => ascii "on_connect_callback"

/-- The body of each dispatcher; `message` is the argument of `on_message_callback`. -/
def code (message : MqttMessage) : Method → List RubyLine
  | .onMessageCallback =>
    [.cMethod, .cMethod, .debugOut (debugText message .onMessageCallback),
      .callHandler .onMessageCallback [message]]
  | .connlostCallback =>
    [.debugOut (debugText message .connlostCallback), .cMethod,
      .callHandlerOrConnect .connlostCallback]
  | .onConnectFailureCallback =>
    [.debugOut (debugText message .onConnectFailureCallback),
      .callHandlerOrConnect .onConnectFailureCallback]
  | method => [.debugOut (debugText message method), .callHandler method []]

end Method

namespace Attributes

variable {η : Type} (a : Attributes η) (raises exc : Bool)

/-- One line: whether an exception is raised, and the handlers that are called. `exc` says that an
exception is pending, `raises` that the handler, or the `connect` in its place, raises one. -/
def exec : RubyLine → Bool × List (HandlerCall η)
  | .cMethod => (exc, [])
  | .debugOut str =>
    -- `printf` is written in C: if it does not raise itself, its return does.
    (a.debug && (exc || !Format.accepts (str ++ ascii "\n")), [])
  | .callHandler method arguments =>
    match a.handlers method with
    | some handler => (raises, [⟨method, handler, arguments⟩])
    | none => (false, [])
  | .callHandlerOrConnect method =>
    match a.handlers method with
    | some handler => (raises, [⟨method, handler, []⟩])
    | none => (exc || raises, [])

/-- The lines of a dispatcher, up to the first that raises. -/
def run : List RubyLine → Bool × List (HandlerCall η)
  | [] => (false, [])
  | line :: rest =>
    let (raised, calls) := a.exec raises exc line
    if raised then (true, calls) else ((run rest).1, calls ++ (run rest).2)

/-- `mrb_funcall` of a dispatcher: what is pending afterwards, and the handlers called. -/
def mrbFuncall (message : MqttMessage) (method : Method) : Bool × List (HandlerCall η) :=
  let (raised, calls) := a.run raises exc (method.code message)
  (exc || raised, calls)

end Attributes

/-- A callback of Paho's, with what it finds. -/
structure Occurrence (η : Type) where
  /-- The callback. -/
  callback : Callback
  /-- The wrapper when it begins. -/
  wrapper : Wrapper
  /-- The message `mqtt_msgarrvd` makes; the other callbacks have none. -/
  message : MqttMessage
  /-- The attributes of the client. -/
  attributes : Attributes η
  /-- The handler raises an exception if it is called, or the `connect` in its place does. -/
  raises : Bool

/-- The interpreter: `true` means that an exception is pending in `mrb->exc`. A callback that finds
no state in the slot does not come to its dispatcher. -/
def interpreter (cfg : Config) (η : Type) : Reactor Bool (Occurrence η) (HandlerCall η) where
  react exc o :=
    match runCallback cfg o.callback.code none o.wrapper with
    | some (_, some waiting) => o.attributes.mrbFuncall o.raises exc o.message waiting.method
    | _ => (exc, [])

/-! ### What a dispatcher does -/

namespace Method

/-- Something written in C runs before the handler, whether `debug` is on or not. -/
def callsC : Method → Bool
  | .onMessageCallback | .connlostCallback => true
  | _ => false

/-- Without a handler, the dispatcher calls `connect`. -/
def reconnects : Method → Bool
  | .connlostCallback | .onConnectFailureCallback => true
  | _ => false

/-- What the handler is called with. -/
def arguments (message : MqttMessage) (method : Method) : List MqttMessage :=
  if method = .onMessageCallback then [message] else []

/-- The texts that are constants hold no `%`. -/
theorem debugText_plain {method : Method} (hmethod : method ≠ .onMessageCallback)
    (message : MqttMessage) : (0x25 : UInt8) ∉ method.debugText message := by
  cases method with
  | onMessageCallback => exact absurd rfl hmethod
  | connlostCallback => show _ ∉ ascii "connection lost"; decide
  | onConnectFailureCallback => show _ ∉ ascii "connection lost"; decide
  | onDisconnectCallback => show _ ∉ ascii "on_disconnect_callback"; decide
  | onSubscribeCallback => show _ ∉ ascii "on_subscribe_callback"; decide
  | onSubscribeFailureCallback => show _ ∉ ascii "on_subscribe_failure_callback"; decide
  | onPublishCallback => show _ ∉ ascii "on_publish_callback"; decide
  | onConnectCallback => show _ ∉ ascii "on_connect_callback"; decide

end Method

namespace Attributes

variable {η : Type} (a : Attributes η) (raises exc : Bool) (message : MqttMessage) (method : Method)

theorem run_cMethod (rest : List RubyLine) :
    a.run raises exc (.cMethod :: rest) = if exc then (true, []) else a.run raises exc rest := rfl

theorem run_debugOut (str : Bytes) (rest : List RubyLine) :
    a.run raises exc (.debugOut str :: rest) =
      if a.debug && (exc || !Format.accepts (str ++ ascii "\n")) then (true, [])
      else a.run raises exc rest := rfl

/-- The handler is the last a dispatcher comes to. -/
theorem run_last (line : RubyLine) : a.run raises exc [line] = a.exec raises exc line := by
  rw [run]
  rcases a.exec raises exc line with ⟨- | -, calls⟩
  · exact Prod.ext rfl (List.append_nil _)
  · rfl

/-- `printf` takes the debug text of the dispatcher, or does not get it. -/
def printable : Bool := !a.debug || Format.accepts (method.debugText message ++ ascii "\n")

/-- **A dispatcher.** It raises before the handler if something written in C returns while an
exception is pending, or if its text is no format; otherwise it calls the handler, if it is set. -/
theorem run_code :
    a.run raises exc (method.code message) =
      if exc && (a.debug || method.callsC) || !a.printable message method then (true, [])
      else
        match a.handlers method with
        | some handler => (raises, [⟨method, handler, method.arguments message⟩])
        | none => (method.reconnects && (exc || raises), []) := by
  rw [printable]
  cases method <;> simp only [Method.code, run_cMethod, run_debugOut, run_last, exec] <;>
    generalize Format.accepts _ = accepted <;>
    cases exc <;> cases a.debug <;> cases accepted <;> rfl

end Attributes

namespace Occurrence

variable {η : Type} (cfg : Config) (o : Occurrence η)

/-- The dispatcher. -/
def method : Method := o.callback.method

/-- What the dispatcher's attribute holds. -/
def handler : Option η := o.attributes.handlers o.method

/-- The callback comes to its dispatcher: it finds a state in the slot, and gets through the lines
before. -/
def dispatched : Bool := o.wrapper.loadDataPtr.join.isSome && o.callback.reachesHandler cfg

/-- The debug text is a format that needs no argument. -/
def formats : Bool := Format.accepts (o.method.debugText o.message ++ ascii "\n")

/-- `printf` takes the debug text, or does not get it. -/
def printable : Bool := !o.attributes.debug || o.formats

/-- The dispatcher comes to a handler or a `connect` that raises, if nothing stops it before. -/
def handlerFails : Bool :=
  o.dispatched cfg && (o.handler.isSome || o.method.reconnects) && o.raises

/-- The callback leaves an exception where there was none. -/
def fails : Bool := o.handlerFails cfg || o.dispatched cfg && !o.printable

/-- The calls of the handler, if the dispatcher comes to it. -/
def handlerCalls : List (HandlerCall η) :=
  o.handler.toList.map fun handler ↦ ⟨o.method, handler, o.method.arguments o.message⟩

/-- **A callback**, from the slot to the handler. -/
theorem react_eq (exc : Bool) :
    (interpreter cfg η).react exc o =
      if o.dispatched cfg then
        if exc && (o.attributes.debug || o.method.callsC) || !o.printable then (true, [])
        else (exc || (o.handler.isSome || o.method.reconnects) && o.raises, o.handlerCalls)
      else (exc, []) := by
  simp only [interpreter, o.callback.runCallback_code]
  rcases hslot : o.wrapper.loadDataPtr with - | - | m
  · simp [dispatched, hslot]
  · simp [dispatched, hslot]
  · by_cases hreaches : o.callback.reachesHandler cfg = true
    · simp only [dispatched, hslot, hreaches]
      show o.attributes.mrbFuncall o.raises exc o.message o.method = _
      simp only [Attributes.mrbFuncall, Attributes.run_code]
      have hprintable : o.attributes.printable o.message o.method = o.printable := rfl
      rw [hprintable, handlerCalls, handler]
      rcases o.attributes.handlers o.method with - | handler <;>
        cases exc <;> cases o.printable <;> cases o.attributes.debug || o.method.callsC <;> simp
    · simp [dispatched, hreaches]

/-- A pending exception stays. -/
theorem react_true_fst : ((interpreter cfg η).react true o).1 = true := by
  rw [react_eq]
  split_ifs <;> rfl

theorem react_false_fst : ((interpreter cfg η).react false o).1 = o.fails cfg := by
  rw [react_eq, fails, handlerFails]
  cases o.dispatched cfg <;> cases o.printable <;> simp

/-- The handler is called if the text is printed, and an exception is pending only where nothing
written in C runs before it. -/
theorem react_snd (exc : Bool) :
    ((interpreter cfg η).react exc o).2 =
      if o.dispatched cfg ∧ o.printable ∧
          (exc = true → o.attributes.debug = false ∧ o.method.callsC = false) then
        o.handlerCalls
      else [] := by
  rw [react_eq]
  cases o.dispatched cfg <;> cases o.printable <;> cases exc <;> cases o.attributes.debug <;>
    cases o.method.callsC <;> simp

/-- **What is pending** after a sequence of callbacks: whether one of them has failed. -/
theorem after_eq (os : List (Occurrence η)) :
    (interpreter cfg η).after false os = os.any (fails cfg) := by
  rw [Reactor.after_latch (react_true_fst cfg), Bool.false_or]
  exact congrArg os.any (funext (react_false_fst cfg))

end Occurrence

/-! ### Where the callbacks come from -/

section Sources

variable {η : Type} {cfg : Config} {o : Occurrence η}

/-- A callback of the system's calls its dispatcher exactly if it is dispatched. -/
theorem System.callback_dispatched {s s' : System} {t : Thread} {underMutex : Bool} {h : ℕ}
    (hwrapper : o.wrapper = s.wrapper)
    (hcall : s.callback cfg t underMutex h o.callback = some s') :
    s'.handlerCalls =
      s.handlerCalls ++ if o.dispatched cfg then [(o.method, h)] else [] := by
  rw [System.callback, Callback.runCallback_code] at hcall
  rw [Occurrence.dispatched, hwrapper]
  rcases hslot : s.wrapper.loadDataPtr with - | - | m
  · simp [hslot] at hcall
  · simp only [hslot, Option.map_some, Option.some.injEq] at hcall
    rw [← hcall]
    simp
  · by_cases hreaches : o.callback.reachesHandler cfg = true
    · simp only [hslot, if_pos hreaches, Option.map_some, Option.some.injEq] at hcall
      rw [← hcall, hreaches]
      rfl
    · simp [hslot, if_neg hreaches] at hcall

/-- **A message is taken, whatever becomes of it in Ruby.** `mqtt_msgarrvd` returns 1 exactly if
its dispatcher is called, with the strings of the message. -/
theorem Session.mqttMsgarrvd_dispatched {s s' : Session} {topicName topicLen : ℕ} {mm : Message}
    {rc : Bool} (hwrapper : o.wrapper = s.wrapper) (hcallback : o.callback = .mqttMsgarrvd)
    (hcall : s.mqttMsgarrvd topicName topicLen mm = some (rc, s')) :
    rc = o.dispatched cfg ∧ s'.calls.length = s.calls.length + rc.toNat := by
  rw [Session.mqttMsgarrvd] at hcall
  rw [Occurrence.dispatched, hwrapper, hcallback]
  rcases hslot : s.wrapper.loadDataPtr with - | - | m <;>
    simp only [hslot, Option.some.injEq, Prod.mk.injEq, reduceCtorEq] at hcall
  · obtain ⟨rfl, rfl⟩ := hcall
    exact ⟨rfl, rfl⟩
  · obtain ⟨rfl, rfl⟩ := hcall
    exact ⟨rfl, List.length_append⟩

end Sources

/-! ### The debug attribute -/

namespace Occurrence

variable {η : Type} (cfg : Config) (o : Occurrence η)

/-- The same callback, for a client whose `debug` is `d`. -/
def withDebug (d : Bool) (o : Occurrence η) : Occurrence η :=
  { o with attributes := { o.attributes with debug := d } }

/-- The handler calls that `on_message` gets from a sequence of callbacks, in order. -/
def onMessageCalls (d : Bool) (os : List (Occurrence η)) : List (HandlerCall η) :=
  ((interpreter cfg η).outputs false (os.map (withDebug d))).flatten.filter
    fun c ↦ c.method = .onMessageCallback

/-- The same as a reactor on the callbacks without their own `debug`. -/
def seen (d : Bool) : Reactor Bool (Occurrence η) (HandlerCall η) :=
  ((interpreter cfg η).comap (withDebug d)).select fun c ↦ c.method = .onMessageCallback

theorem onMessageCalls_eq (d : Bool) (os : List (Occurrence η)) :
    onMessageCalls cfg d os = ((seen cfg d).outputs false os).flatten := by
  rw [seen, Reactor.flatten_outputs_select, Reactor.outputs_comap]
  rfl

theorem seen_after (d : Bool) (os : List (Occurrence η)) :
    (seen cfg d).after false os =
      os.any fun o ↦ o.handlerFails cfg || o.dispatched cfg && (d && !o.formats) := by
  rw [seen, Reactor.after_select, Reactor.after_comap, after_eq, List.any_map]
  refine congrArg os.any (funext fun o ↦ ?_)
  show (o.handlerFails cfg || o.dispatched cfg && !(!d || o.formats)) = _
  cases d <;> rfl

theorem method_eq_iff : o.method = .onMessageCallback ↔ o.callback = .mqttMsgarrvd := by
  rw [method]
  cases o.callback <;> decide

theorem filter_handlerCalls :
    o.handlerCalls.filter (fun c ↦ c.method = .onMessageCallback) =
      if o.callback = .mqttMsgarrvd then o.handlerCalls else [] := by
  rw [handlerCalls]
  by_cases hmessage : o.callback = .mqttMsgarrvd
  · rw [if_pos hmessage, List.filter_eq_self]
    intro c hc
    obtain ⟨handler, -, rfl⟩ := List.mem_map.1 hc
    exact decide_eq_true (o.method_eq_iff.2 hmessage)
  · rw [if_neg hmessage, List.filter_eq_nil_iff]
    intro c hc
    obtain ⟨handler, -, rfl⟩ := List.mem_map.1 hc
    exact fun h ↦ hmessage (o.method_eq_iff.1 (of_decide_eq_true h))

/-- `on_message` is called if no exception is pending, and with `debug` on only if the message is
printed. -/
theorem seen_react (d exc : Bool) :
    ((seen cfg d).react exc o).2 =
      if o.callback = .mqttMsgarrvd ∧ o.dispatched cfg ∧ exc = false ∧ (d = true → o.formats) then
        o.handlerCalls
      else [] := by
  have hprintable : (o.withDebug d).printable = true ↔ (d = true → o.formats) := by
    show (!d || o.formats) = true ↔ _
    cases d <;> simp
  have hkept : (o.withDebug d).handlerCalls.filter (fun c ↦ c.method = .onMessageCallback) =
    if o.callback = .mqttMsgarrvd then o.handlerCalls else [] := o.filter_handlerCalls
  show (((interpreter cfg η).react exc (o.withDebug d)).2).filter _ = _
  rw [react_snd, apply_ite (List.filter _), hkept, List.filter_nil]
  by_cases hmessage : o.callback = .mqttMsgarrvd
  · -- The readers of the message raise what is pending.
    have hcallsC : (o.withDebug d).method.callsC = true := by
      rw [(o.withDebug d).method_eq_iff.2 hmessage]
      rfl
    have hpending : (exc = true → d = false ∧ (o.withDebug d).method.callsC = false) ↔
        exc = false := by
      rw [hcallsC]
      cases exc <;> simp
    rw [if_pos hmessage]
    refine if_congr ⟨?_, ?_⟩ rfl rfl
    · rintro ⟨hdispatched, hformats, hquiet⟩
      exact ⟨hmessage, hdispatched, hpending.1 hquiet, hprintable.1 hformats⟩
    · rintro ⟨-, hdispatched, hexc, hformats⟩
      exact ⟨hdispatched, hprintable.2 hformats, hpending.2 hexc⟩
  · rw [if_neg hmessage, ite_self, if_neg fun h ↦ hmessage h.1]

theorem seen_after_off {pre : List (Occurrence η)} :
    (seen cfg false).after false pre = false ↔ ∀ e ∈ pre, ¬ e.handlerFails cfg := by
  rw [seen_after, List.any_eq_false]
  refine forall₂_congr fun e _ ↦ ?_
  simp

theorem seen_after_on {pre : List (Occurrence η)} :
    (seen cfg true).after false pre = false ↔
      (∀ e ∈ pre, ¬ e.handlerFails cfg) ∧ ∀ e ∈ pre, e.dispatched cfg → e.formats := by
  rw [seen_after, List.any_eq_false, ← forall₂_and]
  refine forall₂_congr fun e _ ↦ ?_
  simp

theorem handlerCalls_ne_nil : o.handlerCalls ≠ [] ↔ o.handler ≠ none := by
  rw [handlerCalls]
  cases o.handler <;> simp

theorem onMessageCalls_on_iff (os : List (Occurrence η)) :
    onMessageCalls cfg true os = onMessageCalls cfg false os ↔
      ∀ pre o post, os = pre ++ o :: post →
        o.callback = .mqttMsgarrvd → o.dispatched cfg → o.handler ≠ none →
        (∀ e ∈ pre, ¬ e.handlerFails cfg) →
          ∀ e ∈ pre ++ [o], e.dispatched cfg → e.formats := by
  -- Where `on_message` is called with `debug` on, it is called without.
  have hle : ∀ (pre : List (Occurrence η)) (o : Occurrence η),
      o.callback = .mqttMsgarrvd ∧ o.dispatched cfg ∧
        (seen cfg true).after false pre = false ∧ (true = true → o.formats) →
      o.callback = .mqttMsgarrvd ∧ o.dispatched cfg ∧
        (seen cfg false).after false pre = false ∧ (false = true → o.formats) := by
    rintro pre o ⟨hmessage, hdispatched, hpending, -⟩
    have hfine := (seen_after_on cfg).1 hpending
    exact ⟨hmessage, hdispatched, (seen_after_off cfg).2 hfine.1, nofun⟩
  have hsublist : ∀ pre o post, os = pre ++ o :: post →
      ((seen cfg true).react ((seen cfg true).after false pre) o).2.Sublist
        ((seen cfg false).react ((seen cfg false).after false pre) o).2 := by
    intro pre o _ _
    rw [seen_react, seen_react]
    exact Reactor.answer_sublist (hle pre o)
  rw [onMessageCalls_eq, onMessageCalls_eq, Reactor.flatten_outputs_eq_iff _ _ hsublist,
    Reactor.outputs_eq_iff]
  refine forall₃_congr fun pre o post ↦ imp_congr_right fun _ ↦ ?_
  rw [seen_react, seen_react, Reactor.answer_eq_iff (hle pre o), seen_after_on, seen_after_off,
    handlerCalls_ne_nil]
  constructor
  · intro h hmessage hdispatched hhandler hfine e he
    obtain ⟨-, -, ⟨-, hformats⟩, hlast⟩ := h ⟨hmessage, hdispatched, hfine, nofun⟩ hhandler
    obtain he | rfl := (List.mem_append.1 he).imp_right List.mem_singleton.1
    · exact hformats e he
    · exact fun _ ↦ hlast rfl
  · rintro h ⟨hmessage, hdispatched, hfine, -⟩ hhandler
    have hformats := h hmessage hdispatched hhandler hfine
    refine ⟨hmessage, hdispatched, ⟨hfine, fun e he ↦ ?_⟩, fun _ ↦ ?_⟩
    · exact hformats e (List.mem_append_left _ he)
    · exact hformats o (List.mem_append_right _ List.mem_cons_self) hdispatched

/-- Which messages `printf` takes: every `%` of the topic is followed by another, or by a newline,
and so is every `%` of the payload, except that the last byte may be a `%`. -/
theorem formats_message (hmessage : o.callback = .mqttMsgarrvd) :
    o.formats ↔ Format.directive false o.message.topic = some false ∧
      Format.directive false o.message.payload ≠ none := by
  have hprefix : Format.directive false (ascii "received: ") = some false :=
    Format.directive_of_not_mem (by decide)
  rw [formats, Format.accepts, o.method_eq_iff.2 hmessage, decide_eq_true_iff]
  show Format.directive false
    (ascii "received: " ++ o.message.topic ++ [0x20, 0x3A, 0x20] ++ o.message.payload ++ [0x0A]) =
      _ ↔ _
  simp only [Format.directive_append, hprefix, Option.bind_some]
  rcases Format.directive false o.message.topic with - | - | -
  · simp
  · -- The colon between the two leaves nothing open.
    show (Format.directive false o.message.payload).bind _ = _ ↔ _
    rcases Format.directive false o.message.payload with - | opened
    · simp
    · simp [Format.directive_newline]
  · simp [Format.directive_space]

theorem formats_of_not_message (hmessage : o.callback ≠ .mqttMsgarrvd) : o.formats := by
  have hplain := Method.debugText_plain (mt o.method_eq_iff.1 hmessage) o.message
  rw [formats, Format.accepts, Format.directive_append, Format.directive_of_not_mem hplain]
  rfl

/-- **When `debug` makes no difference.** For every sequence of callbacks, with any handlers and any
messages: what `on_message` is called with, in order, is the same for both values of `debug` exactly
if no message that would be handled without it, before any handler (or `connect` in its place) has
raised, is or comes after one whose text is no format. -/
theorem debug_neutral_iff :
    (∀ (d d' : Bool) (os : List (Occurrence η)),
      onMessageCalls cfg d os = onMessageCalls cfg d' os ↔
        d = d' ∨ ∀ pre o post, os = pre ++ o :: post →
          o.callback = .mqttMsgarrvd → o.dispatched cfg → o.handler ≠ none →
          (∀ e ∈ pre, ¬ e.handlerFails cfg) →
            ∀ e ∈ pre ++ [o], e.dispatched cfg → e.formats) ∧
    ∀ o : Occurrence η,
      (o.callback = .mqttMsgarrvd → (o.formats ↔
        Format.directive false o.message.topic = some false ∧
          Format.directive false o.message.payload ≠ none)) ∧
      (o.callback ≠ .mqttMsgarrvd → o.formats) := by
  refine ⟨fun d d' os ↦ ?_, fun o ↦ ⟨o.formats_message, o.formats_of_not_message⟩⟩
  rcases eq_or_ne d d' with rfl | hne
  · exact iff_of_true rfl (.inl rfl)
  · rw [or_iff_right hne, ← onMessageCalls_on_iff]
    cases d <;> cases d'
    · exact absurd rfl hne
    · exact eq_comm
    · exact Iff.rfl
    · exact absurd rfl hne

/-- A message of topic `t` with the payload `%d`. -/
def percentMessage : Occurrence Unit where
  callback := .mqttMsgarrvd
  wrapper := mqttInit.mqttConnectStore 0
  message := ⟨ascii "t", ascii "%d"⟩
  attributes := ⟨false, fun _ ↦ some ()⟩
  raises := false

/-- With `debug` on, `on_message` does not get it. -/
theorem percent_message_dropped :
    onMessageCalls ⟨true, false⟩ true [percentMessage] ≠
      onMessageCalls ⟨true, false⟩ false [percentMessage] := by
  decide

/-! ### A handler that raises -/

/-- The same callback, with a handler that returns normally. -/
def returning (o : Occurrence η) : Occurrence η :=
  { o with raises := o.handler.isNone && o.raises }

/-- A callback, with a handler that returns normally if it is marked. -/
def calmed (o : Occurrence η × Bool) : Occurrence η := if o.2 then o.1.returning else o.1

theorem calmed_fails {o : Occurrence η × Bool} (h : (calmed o).fails cfg) : o.1.fails cfg := by
  obtain ⟨o, - | -⟩ := o
  · exact h
  · have hraises : (o.handler.isNone && o.raises) = true → o.raises = true := by
      rw [Bool.and_eq_true]
      exact And.right
    simp only [fails, Bool.or_eq_true] at h ⊢
    refine h.imp_left fun hfails ↦ ?_
    simp only [handlerFails, Bool.and_eq_true] at hfails ⊢
    exact hfails.imp_right hraises

/-- **When a handler that raises does no harm.** For every sequence of callbacks and any choice
among the handlers that raise: the handlers are called, with their arguments, as if the chosen ones
had returned normally exactly if no callback comes to its handler behind something written in C
while an exception is pending that would not be there otherwise. -/
theorem isolated_iff (os : List (Occurrence η × Bool)) :
    (interpreter cfg η).outputs false (os.map Prod.fst) =
        (interpreter cfg η).outputs false (os.map calmed) ↔
      ∀ pre o post, os = pre ++ o :: post →
        (∃ e ∈ pre, e.1.fails cfg) → (∀ e ∈ pre, ¬ (calmed e).fails cfg) →
        o.1.dispatched cfg → o.1.handler ≠ none → o.1.printable →
          o.1.attributes.debug = false ∧ o.1.method.callsC = false := by
  rw [← Reactor.outputs_comap, ← Reactor.outputs_comap, Reactor.outputs_eq_iff]
  refine forall₃_congr fun pre o post ↦ imp_congr_right fun _ ↦ ?_
  have hsame : ∀ exc, ((interpreter cfg η).react exc (calmed o)).2 =
      ((interpreter cfg η).react exc o.1).2 := by
    intro exc
    obtain ⟨o, - | -⟩ := o
    · rfl
    · rw [react_snd, react_snd]
      rfl
  -- The exception that is pending with the marked handlers returning is pending without.
  have hle : pre.any (fun e ↦ (calmed e).fails cfg) = true →
      pre.any (fun e ↦ e.1.fails cfg) = true := by
    rw [List.any_eq_true, List.any_eq_true]
    exact fun ⟨e, he, hfails⟩ ↦ ⟨e, he, calmed_fails cfg hfails⟩
  show ((interpreter cfg η).react _ o.1).2 = ((interpreter cfg η).react _ (calmed o)).2 ↔ _
  rw [hsame, Reactor.after_comap, Reactor.after_comap, after_eq, after_eq, List.any_map,
    List.any_map, react_snd, react_snd, Reactor.answer_eq_iff, handlerCalls_ne_nil]
  · constructor
    · rintro h ⟨e, he, hfails⟩ hcalm hdispatched hhandler hprintable
      have hnot : ¬ pre.any (fun e ↦ (calmed e).fails cfg) = true := by
        rw [List.any_eq_true]
        exact fun ⟨e, he, hfails⟩ ↦ hcalm e he hfails
      obtain ⟨-, -, hquiet⟩ := h ⟨hdispatched, hprintable, fun hany ↦ absurd hany hnot⟩ hhandler
      exact hquiet (List.any_eq_true.2 ⟨e, he, hfails⟩)
    · rintro h ⟨hdispatched, hprintable, hquiet⟩ hhandler
      refine ⟨hdispatched, hprintable, fun hany ↦ ?_⟩
      by_cases hcalm : pre.any (fun e ↦ (calmed e).fails cfg) = true
      · exact hquiet hcalm
      · refine h (List.any_eq_true.1 hany) (fun e he hfails ↦ ?_) hdispatched hhandler hprintable
        exact hcalm (List.any_eq_true.2 ⟨e, he, hfails⟩)
  · rintro ⟨hdispatched, hprintable, hquiet⟩
    exact ⟨hdispatched, hprintable, fun hany ↦ hquiet (hle hany)⟩

/-- **Nothing gets to `on_message` any more** once an exception is pending, and it stays pending. -/
theorem no_message_after_failure (os : List (Occurrence η)) :
    (interpreter cfg η).after true os = true ∧
      ∀ calls ∈ (interpreter cfg η).outputs true os, ∀ c ∈ calls,
        c.method ≠ .onMessageCallback := by
  refine ⟨?_, ?_⟩
  · rw [Reactor.after_latch (react_true_fst cfg), Bool.true_or]
  · induction os with
    | nil => exact nofun
    | cons o os ih =>
      rw [Reactor.outputs, react_true_fst, List.forall_mem_cons]
      refine ⟨fun c hc hmethod ↦ ?_, ih⟩
      rw [react_snd] at hc
      split_ifs at hc with hcalled
      · obtain ⟨handler, -, rfl⟩ := List.mem_map.1 hc
        obtain ⟨-, hcallsC⟩ := hcalled.2.2 rfl
        have hreads : o.method.callsC = true := by
          rw [show o.method = .onMessageCallback from hmethod]
          rfl
        rw [hreads] at hcallsC
        cases hcallsC
      · cases hc

/-- A first message whose handler raises, and a second one. -/
def raisingRun : List (Occurrence Unit × Bool) :=
  [({ percentMessage with raises := true }, true), (percentMessage, false)]

/-- The second message does not get to its handler. -/
theorem raising_handler_poisons :
    (interpreter ⟨true, false⟩ Unit).outputs false (raisingRun.map Prod.fst) ≠
      (interpreter ⟨true, false⟩ Unit).outputs false (raisingRun.map calmed) := by
  decide

end Occurrence
