import MrubyMqtt.Connections
import MrubyMqtt.Lib.Machine

/-!
# The wrapper and Paho together

The program, Paho's send and receive threads, and what they share: the library's state, the
wrapper's statics and Paho's mutex. A step of `System.machine` is one operation of one of them.

* A call of `connect` is several steps: up to `MQTTAsync_connect`, which queues the CONNECT, then
  `mrb_malloc`, then the assignment of `DATA_PTR(self)`, then that of `_self`. Anything may come in
  between.
* A step of Paho that ends in a callback runs the callback up to its Ruby handler. From then on the
  thread has a **frame**, and the handler may call into the wrapper itself; `handlerReturn` runs the
  rest of the callback.
* The callbacks hold Paho's mutex, except that of `MQTTAsync_writeComplete`. A `connect` from inside
  a callback locks that mutex again (`Config.recursiveMutex`).

`handlerCalls` and `Frame.returned` are traces, which nothing reads. `System.Moves` says once what a
step can do.
-/

open Bytes

/-- Paho's threads. -/
inductive Thread where
  /-- `MQTTAsync_sendThread`. -/
  | send
  /-- `MQTTAsync_receiveThread`. -/
  | receive
deriving DecidableEq, Repr

/-- Who runs Ruby code: the program, or the handler of a callback on a thread of Paho's. -/
inductive Caller where
  /-- The program. -/
  | ruby
  /-- A handler. -/
  | handler (t : Thread)
deriving DecidableEq, Repr

/-- How far a call of `connect` has come. -/
inductive Connecting where
  /-- The CONNECT is in the queue. -/
  | queued (client : ℕ)
  /-- The `mqtt_state` is allocated. -/
  | allocated (client m : ℕ)
  /-- `DATA_PTR(self)` is assigned. -/
  | assigned (client m : ℕ)
deriving DecidableEq, Repr

/-- The client a call of `connect` has created. -/
def Connecting.client : Connecting → ℕ
  | .queued client | .allocated client _ | .assigned client _ => client

/-- The state a call of `connect` has allocated. -/
def Connecting.state : Connecting → Option ℕ
  | .queued _ => none
  | .allocated _ m | .assigned _ m => some m

/-- One line of `mqtt_connect` after `MQTTAsync_connect`; with the last one it returns. -/
def Connecting.next (w : Wrapper) : Connecting → Wrapper × Option Connecting
  | .queued client =>
    let (m, w) := w.mallocState client
    (w, some (.allocated client m))
  | .allocated client m => (w.assignDataPtr m, some (.assigned client m))
  | .assigned _ _ => (w.assignSelf, none)

/-- A callback that waits for its handler. -/
structure Frame where
  /-- The callback. -/
  callback : Callback
  /-- The client the event belongs to. -/
  handle : ℕ
  /-- Its local variable and the code still to run. -/
  waiting : Waiting
  /-- Trace: the states of the connects that have returned since the handler was called. -/
  returned : List ℕ
deriving DecidableEq, Repr

/-- The state of the program and of Paho. -/
structure System where
  /-- The library. -/
  paho : Paho
  /-- The wrapper. -/
  wrapper : Wrapper
  /-- The callback each thread is in. -/
  frames : Thread → Option Frame
  /-- The thread that holds `mqttasync_mutex` in its callback. -/
  mutex : Option Thread
  /-- The calls of `connect` under way. -/
  connects : Caller → Option Connecting
  /-- Trace: the Ruby methods the callbacks have called, with the client of the event. -/
  handlerCalls : List (Method × ℕ)

/-- The thread an event belongs to. -/
def PahoEvent.thread : PahoEvent → Thread
  | .processCommand _ _ _ | .connectTimeout _ => .send
  | _ => .receive

/-- The event happens under the mutex; `MQTTAsync_writeComplete` is called before it is taken. -/
def PahoEvent.underMutex : PahoEvent → Bool
  | .writeComplete _ => false
  | _ => true

/-- The call needs a message id, for which the program takes the mutex. -/
def Api.assignsMsgId : Api → Bool
  | .disconnect => false
  | .publish _ _ qos _ => 0 < qos.getD 0
  | .subscribe _ _ => true

/-- What can happen next. -/
inductive SystemEvent where
  /-- `connect` is called. -/
  | connect (c : Caller)
  /-- A call of `connect` goes on by one line. -/
  | connectNext (c : Caller)
  /-- `disconnect`, `publish` or `subscribe` is called. -/
  | api (c : Caller) (op : Api)
  /-- An attribute is assigned. -/
  | assign (c : Caller) (value : Wrapper.Setter)
  /-- A step of Paho's, with the callback it ends in. -/
  | paho (e : PahoEvent)
  /-- The handler of a callback returns. -/
  | handlerReturn (t : Thread)

/-- The event is a call of a method, other than a call of `connect` going on. -/
def SystemEvent.isCall : SystemEvent → Bool
  | .connect _ | .api _ _ | .assign _ _ => true
  | _ => false

namespace System

/-- The state after `mrb_mruby_mqtt_gem_init`. -/
def init : System where
  paho := .init
  wrapper := mqttInit
  frames _ := none
  mutex := none
  connects _ := none
  handlerCalls := []

/-- The caller runs Ruby code now. -/
def running (s : System) (c : Caller) : Bool :=
  (s.connects c).isNone && match c with
    | .ruby => true
    | .handler t => (s.frames t).isSome

/-- The caller can take the mutex, or holds it already. -/
def mutexOpen (s : System) (c : Caller) : Bool :=
  match s.mutex with
  | none => true
  | some t => c = .handler t

/-- The mutex after a function that has taken and released it. -/
def mutexAfter (cfg : Config) (s : System) : Option Thread :=
  if cfg.recursiveMutex then s.mutex else none

/-- A call of `connect` goes on by one line. The last one returns: the handlers that run then have
seen its state come. -/
def connectNext (s : System) (c : Caller) (x : Connecting) : System :=
  { s with
    wrapper := (x.next s.wrapper).1
    connects := Function.update s.connects c (x.next s.wrapper).2
    frames :=
      match x with
      | .assigned _ m => fun t ↦ (s.frames t).map fun f ↦ { f with returned := f.returned ++ [m] }
      | _ => s.frames }

/-- A callback runs up to its handler, or to its end. -/
def callback (cfg : Config) (s : System) (t : Thread) (underMutex : Bool) (h : ℕ) (cb : Callback) :
    Option System :=
  (runCallback cfg cb.code none s.wrapper).map fun (wrapper, waiting) ↦
    match waiting with
    | none => { s with wrapper := wrapper }
    | some waiting =>
      { s with
        wrapper := wrapper
        frames := Function.update s.frames t (some ⟨cb, h, waiting, []⟩)
        mutex := if underMutex then some t else s.mutex
        handlerCalls := s.handlerCalls ++ [(waiting.method, h)] }

/-- The rest of a callback. -/
def handlerReturn (cfg : Config) (s : System) (t : Thread) (f : Frame) : Option System :=
  (runCallback cfg f.waiting.rest f.waiting.m s.wrapper).map fun (wrapper, _) ↦
    { s with
      wrapper := wrapper
      frames := Function.update s.frames t none
      mutex := if s.mutex = some t then none else s.mutex }

/-- One step. A call that raises leaves everything as it is; `none` where the event cannot happen,
or where it does not come back. -/
def step (cfg : Config) (s : System) : SystemEvent → Option System
  | .connect c =>
    if s.running c then
      match s.wrapper.mqttConnect s.paho with
      | .done (client, paho) =>
        if s.mutexOpen c then
          some { s with
            paho := paho
            mutex := s.mutexAfter cfg
            connects := Function.update s.connects c (some (.queued client)) }
        else none
      | .raised _ => some s
      | .stuck => none
    else none
  | .connectNext c => (s.connects c).map (s.connectNext c)
  | .api c op =>
    if s.running c then
      match s.wrapper.api s.paho op with
      | .done paho =>
        if c = .ruby && op.assignsMsgId && s.mutex.isSome then none
        else some { s with paho := paho }
      | .raised _ => some s
      | .stuck => none
    else none
  | .assign c value =>
    if s.running c then
      match s.wrapper.assign value with
      | .done wrapper => some { s with wrapper := wrapper }
      | .raised _ => some s
      | .stuck => none
    else none
  | .paho e =>
    if (s.frames e.thread).isNone && (!e.underMutex || s.mutex.isNone) then
      match s.paho.step e with
      | none => none
      | some (paho, _, none) => some { s with paho := paho }
      | some (paho, h, some cb) => { s with paho := paho }.callback cfg e.thread e.underMutex h cb
    else none
  | .handlerReturn t =>
    match s.frames t with
    | none => none
    | some f => if (s.connects (.handler t)).isNone then s.handlerReturn cfg t f else none

/-- The machine of the whole program. -/
def machine (cfg : Config) : Machine System SystemEvent where
  step := step cfg

/-! ### What a step does -/

/-- The statics and states of two wrappers are the same; attributes may differ. -/
structure SameStatics (w w' : Wrapper) : Prop where
  /-- `_self`. -/
  self : w'.self = w.self
  /-- `mqtt_connected`. -/
  mqttConnected : w'.mqttConnected = w.mqttConnected
  /-- `DATA_PTR(_self)`. -/
  dataPtr : w'.dataPtr = w.dataPtr
  /-- The states allocated. -/
  stateCount : w'.stateCount = w.stateCount
  /-- Their clients. -/
  stateClient : w'.stateClient = w.stateClient
  /-- The states freed. -/
  freed : w'.freed = w.freed

theorem sameStatics_assign {w w' : Wrapper} {value : Wrapper.Setter}
    (h : w.assign value = .done w') : SameStatics w w' := by
  cases value with
  | cleanSession value =>
    rw [Wrapper.assign] at h
    split_ifs at h
    obtain rfl := Outcome.done.inj h
    exact ⟨rfl, rfl, rfl, rfl, rfl, rfl⟩
  | address | clientId | keepAlive =>
    obtain rfl := Outcome.done.inj h
    exact ⟨rfl, rfl, rfl, rfl, rfl, rfl⟩

/-- Every frame is that of its callback: it has loaded a state, and the callback's tail is left. -/
structure Framed (f : Frame) (m : ℕ) : Prop where
  /-- The state the callback has loaded. -/
  loaded : f.waiting.m = some m
  /-- What is left to run. -/
  rest : f.waiting.rest = f.callback.tail

/-- The system's invariant. -/
structure Wf (s : System) : Prop where
  /-- The command queue is in order. -/
  wellQueued : s.paho.WellQueued
  /-- The frames are those of their callbacks. -/
  framed : ∀ t f, s.frames t = some f → ∃ m, Framed f m
  /-- The clients being connected exist. -/
  connects : ∀ c x, s.connects c = some x → x.client < s.paho.count
  /-- The state in the slot has been allocated. -/
  slotKnown : ∀ m, s.wrapper.dataPtr = some m → m < s.wrapper.stateCount
  /-- The state of a call of `connect` has been allocated for its client. -/
  stateKnown : ∀ c x m, s.connects c = some x → x.state = some m →
    m < s.wrapper.stateCount ∧ s.wrapper.stateClient m = x.client

theorem wf_init : init.Wf where
  wellQueued := Paho.wellQueued_init
  framed _ _ h := nomatch h
  connects _ _ h := nomatch h
  slotKnown _ h := nomatch h
  stateKnown _ _ _ h := nomatch h

/-- What a step can do. -/
inductive Moves (cfg : Config) (s : System) : SystemEvent → System → Prop
  /-- A call raises. -/
  | raised {e} (he : e.isCall = true) : Moves cfg s e s
  /-- A client is created and its CONNECT queued. -/
  | created (c : Caller) (paho : Paho) (mutex : Option Thread)
      (hflag : s.wrapper.mqttConnected = false) (hwf : paho.WellQueued)
      (hcount : paho.count = s.paho.count + 1) (hlive : paho.Live s.paho.count)
      (hunused : Paho.Unused (paho.handle s.paho.count))
      (hother : ∀ k, k ≠ s.paho.count →
        paho.handle k = s.paho.handle k ∧ (paho.Live k ↔ s.paho.Live k))
      (hcommands : ∀ command ∈ paho.commands,
        command ∈ s.paho.commands ∨ command = ⟨s.paho.count, 0, .connect 0⟩) :
      Moves cfg s (.connect c)
        { s with
          paho := paho
          mutex := mutex
          connects := Function.update s.connects c (some (.queued s.paho.count)) }
  /-- A call of `connect` goes on. -/
  | connectNext (c : Caller) (x : Connecting) (hx : s.connects c = some x) :
      Moves cfg s (.connectNext c) (s.connectNext c x)
  /-- A request is queued. -/
  | asked (c : Caller) (op : Api) (paho : Paho) (hsame : s.paho.SameConnections paho)
      (hslot : ∃ m, s.wrapper.loadDataPtr = some (some m)) :
      Moves cfg s (.api c op) { s with paho := paho }
  /-- An attribute is assigned. -/
  | assigned (c : Caller) (value : Wrapper.Setter) (wrapper : Wrapper)
      (hsame : SameStatics s.wrapper wrapper) :
      Moves cfg s (.assign c value) { s with wrapper := wrapper }
  /-- A step of Paho's without a callback. -/
  | silent (e : PahoEvent) (paho : Paho) (h : ℕ) (hstep : s.paho.step e = some (paho, h, none)) :
      Moves cfg s (.paho e) { s with paho := paho }
  /-- A callback finds the slot NULL. -/
  | ignored (e : PahoEvent) (paho : Paho) (h : ℕ) (cb : Callback)
      (hstep : s.paho.step e = some (paho, h, some cb))
      (hslot : s.wrapper.loadDataPtr = some none) :
      Moves cfg s (.paho e) { s with paho := paho }
  /-- A callback calls its handler. -/
  | called (e : PahoEvent) (paho : Paho) (h : ℕ) (cb : Callback) (m : ℕ) (mutex : Option Thread)
      (hstep : s.paho.step e = some (paho, h, some cb))
      (hslot : s.wrapper.loadDataPtr = some (some m)) (hframe : s.frames e.thread = none) :
      Moves cfg s (.paho e)
        { s with
          paho := paho
          wrapper := { s.wrapper with mqttConnected := cb.flagAfter s.wrapper.mqttConnected }
          frames := Function.update s.frames e.thread
            (some ⟨cb, h, ⟨cb.method, some m, cb.tail⟩, []⟩)
          mutex := mutex
          handlerCalls := s.handlerCalls ++ [(cb.method, h)] }
  /-- A handler returns, and the rest of its callback runs. -/
  | handlerReturned (t : Thread) (f : Frame) (m : ℕ) (mutex : Option Thread)
      (hframe : s.frames t = some f) (hframed : Framed f m) :
      Moves cfg s (.handlerReturn t)
        { s with
          wrapper := if f.callback.clears then
              { s.wrapper with freed := s.wrapper.freed ++ [m], dataPtr := none }
            else s.wrapper
          frames := Function.update s.frames t none
          mutex := mutex }

/-- A step of Paho's that ends in a callback: the callback returns at once or calls its handler. -/
theorem Moves.callback {cfg : Config} {s s' : System} {e : PahoEvent}
    (hmoves : Moves cfg s (.paho e) s') {p : Paho} {h : ℕ} {cb : Callback}
    (hstep : s.paho.step e = some (p, h, some cb)) :
    (s.wrapper.loadDataPtr = some none ∧ s' = { s with paho := p }) ∨
    ∃ m mutex, s.wrapper.loadDataPtr = some (some m) ∧
      s' = { s with
        paho := p
        wrapper := { s.wrapper with mqttConnected := cb.flagAfter s.wrapper.mqttConnected }
        frames := Function.update s.frames e.thread
          (some ⟨cb, h, ⟨cb.method, some m, cb.tail⟩, []⟩)
        mutex := mutex
        handlerCalls := s.handlerCalls ++ [(cb.method, h)] } := by
  cases hmoves with
  | raised he => cases he
  | silent _ _ _ hstep' =>
    rw [hstep] at hstep'
    cases hstep'
  | ignored _ p' h' cb' hstep' hslot =>
    obtain ⟨rfl, -, -⟩ : p = p' ∧ h = h' ∧ cb = cb' := by
      rw [hstep] at hstep'
      simpa using hstep'
    exact .inl ⟨hslot, rfl⟩
  | called _ p' h' cb' m mutex hstep' hslot _ =>
    obtain ⟨rfl, rfl, rfl⟩ : p = p' ∧ h = h' ∧ cb = cb' := by
      rw [hstep] at hstep'
      simpa using hstep'
    exact .inr ⟨m, mutex, hslot, rfl⟩

/-- A callback, from outside. -/
theorem callback_cases {cfg : Config} {s s' : System} {t : Thread} {underMutex : Bool} {h : ℕ}
    {cb : Callback} (hcall : s.callback cfg t underMutex h cb = some s') :
    (s.wrapper.loadDataPtr = some none ∧ s' = s) ∨
    ∃ m, s.wrapper.loadDataPtr = some (some m) ∧
      s' = { s with
        wrapper := { s.wrapper with mqttConnected := cb.flagAfter s.wrapper.mqttConnected }
        frames := Function.update s.frames t (some ⟨cb, h, ⟨cb.method, some m, cb.tail⟩, []⟩)
        mutex := if underMutex then some t else s.mutex
        handlerCalls := s.handlerCalls ++ [(cb.method, h)] } := by
  rw [callback, Callback.runCallback_code] at hcall
  rcases hslot : s.wrapper.loadDataPtr with - | - | m
  · -- `_self` is not set.
    simp [hslot] at hcall
  · simp only [hslot, Option.map_some, Option.some.injEq] at hcall
    exact .inl ⟨rfl, hcall.symm⟩
  · by_cases hreaches : cb.reachesHandler cfg = true
    · simp only [hslot, if_pos hreaches, Option.map_some, Option.some.injEq] at hcall
      exact .inr ⟨m, rfl, hcall.symm⟩
    · simp [hslot, if_neg hreaches] at hcall

/-- The rest of a callback, from outside. -/
theorem handlerReturn_eq {cfg : Config} {s : System} {t : Thread} {f : Frame} {m : ℕ}
    (hframed : Framed f m) :
    s.handlerReturn cfg t f = some { s with
      wrapper := if f.callback.clears then
          { s.wrapper with freed := s.wrapper.freed ++ [m], dataPtr := none }
        else s.wrapper
      frames := Function.update s.frames t none
      mutex := if s.mutex = some t then none else s.mutex } := by
  rw [handlerReturn, hframed.loaded, hframed.rest, Callback.runCallback_tail]
  rfl

namespace Wf

variable {s : System}

/-- A step of Paho's keeps the system's invariant, whatever becomes of the wrapper. -/
theorem paho (hs : s.Wf) {e : PahoEvent} {p : Paho} {h : ℕ} {cb : Option Callback}
    (hstep : s.paho.step e = some (p, h, cb)) : { s with paho := p }.Wf := by
  obtain ⟨honly, -, hwf⟩ := Paho.step_moves hs.wellQueued hstep
  exact ⟨hwf, hs.framed, fun c x hx ↦ (hs.connects c x hx).trans_eq honly.count.symm, hs.slotKnown,
    hs.stateKnown⟩

theorem sameConnections (hs : s.Wf) {p : Paho} (hsame : s.paho.SameConnections p) :
    { s with paho := p }.Wf :=
  ⟨hsame.wellQueued hs.wellQueued, hs.framed,
    fun c x hx ↦ (hs.connects c x hx).trans_eq hsame.count.symm, hs.slotKnown, hs.stateKnown⟩

theorem sameStatics (hs : s.Wf) {w : Wrapper} (hsame : SameStatics s.wrapper w) :
    { s with wrapper := w }.Wf := by
  refine ⟨hs.wellQueued, hs.framed, hs.connects, fun m hm ↦ ?_, fun c x m hx hm ↦ ?_⟩
  · exact (hs.slotKnown m (hsame.dataPtr ▸ hm)).trans_eq hsame.stateCount.symm
  · obtain ⟨hlt, hclient⟩ := hs.stateKnown c x m hx hm
    exact ⟨hlt.trans_eq hsame.stateCount.symm, (congrFun hsame.stateClient m).trans hclient⟩

/-- A client is created. -/
theorem created (hs : s.Wf) (c : Caller) {p : Paho} (hwf : p.WellQueued)
    (hcount : p.count = s.paho.count + 1) (mutex : Option Thread) :
    { s with
      paho := p
      mutex := mutex
      connects := Function.update s.connects c (some (.queued s.paho.count)) }.Wf := by
  refine ⟨hwf, hs.framed, fun c' x hx ↦ lt_of_lt_of_eq ?_ hcount.symm, hs.slotKnown,
    fun c' x m hx hm ↦ ?_⟩ <;> rcases eq_or_ne c' c with rfl | hne
  · obtain rfl : Connecting.queued s.paho.count = x :=
      Option.some.inj ((Function.update_self c' _ s.connects).symm.trans hx)
    exact Nat.lt_succ_self _
  · have hold : s.connects c' = some x := (Function.update_of_ne hne _ _).symm.trans hx
    exact (hs.connects c' x hold).trans (Nat.lt_succ_self _)
  · obtain rfl : Connecting.queued s.paho.count = x :=
      Option.some.inj ((Function.update_self c' _ s.connects).symm.trans hx)
    cases hm
  · have hold : s.connects c' = some x := (Function.update_of_ne hne _ _).symm.trans hx
    exact hs.stateKnown c' x m hold hm

/-- A call of `connect` goes on. -/
theorem connectNext (hs : s.Wf) {c : Caller} {x : Connecting} (hx : s.connects c = some x) :
    (s.connectNext c x).Wf := by
  have hlt : x.client < s.paho.count := hs.connects c x hx
  have hother : ∀ (y : Option Connecting) c' z, c' ≠ c →
      Function.update s.connects c y c' = some z → s.connects c' = some z := fun y c' z hne hz ↦
    (Function.update_of_ne hne _ _).symm.trans hz
  have hself : ∀ (y : Option Connecting) z,
      Function.update s.connects c y c = some z → y = some z := fun y z hz ↦
    (Function.update_self c y s.connects).symm.trans hz
  cases x with
  | queued client =>
    refine ⟨hs.wellQueued, hs.framed, fun c' z hz ↦ ?_,
      fun m hm ↦ (hs.slotKnown m hm).trans (Nat.lt_succ_self _), fun c' z m hz hm ↦ ?_⟩ <;>
      rcases eq_or_ne c' c with rfl | hne
    · obtain rfl := Option.some.inj (hself _ z hz)
      exact hlt
    · exact hs.connects c' z (hother _ c' z hne hz)
    · obtain rfl := Option.some.inj (hself _ z hz)
      obtain rfl := Option.some.inj hm
      exact ⟨Nat.lt_succ_self _, Function.update_self ..⟩
    · obtain ⟨hlt, hclient⟩ := hs.stateKnown c' z m (hother _ c' z hne hz) hm
      exact ⟨hlt.trans (Nat.lt_succ_self _), (Function.update_of_ne hlt.ne _ _).trans hclient⟩
  | allocated client m₀ =>
    obtain ⟨hlt₀, hclient₀⟩ := hs.stateKnown c _ m₀ hx rfl
    refine ⟨hs.wellQueued, hs.framed, fun c' z hz ↦ ?_,
      fun m hm ↦ Option.some.inj hm ▸ hlt₀, fun c' z m hz hm ↦ ?_⟩ <;>
      rcases eq_or_ne c' c with rfl | hne
    · obtain rfl := Option.some.inj (hself _ z hz)
      exact hlt
    · exact hs.connects c' z (hother _ c' z hne hz)
    · obtain rfl := Option.some.inj (hself _ z hz)
      obtain rfl := Option.some.inj hm
      exact ⟨hlt₀, hclient₀⟩
    · exact hs.stateKnown c' z m (hother _ c' z hne hz) hm
  | assigned client m₀ =>
    refine ⟨hs.wellQueued, fun t f hf ↦ ?_, fun c' z hz ↦ ?_, hs.slotKnown, fun c' z m hz hm ↦ ?_⟩
    · obtain ⟨f', hf', rfl⟩ := Option.map_eq_some_iff.1 hf
      obtain ⟨m', hframed⟩ := hs.framed t f' hf'
      exact ⟨m', hframed.loaded, hframed.rest⟩
    · rcases eq_or_ne c' c with rfl | hne
      · cases hself _ z hz
      · exact hs.connects c' z (hother _ c' z hne hz)
    · rcases eq_or_ne c' c with rfl | hne
      · cases hself _ z hz
      · exact hs.stateKnown c' z m (hother _ c' z hne hz) hm

/-- A callback has run its tail. -/
theorem closeFrame (hs : s.Wf) (clears : Bool) (m : ℕ) (t : Thread) (mutex : Option Thread) :
    { s with
      wrapper := if clears then { s.wrapper with freed := s.wrapper.freed ++ [m], dataPtr := none }
        else s.wrapper
      frames := Function.update s.frames t none
      mutex := mutex }.Wf := by
  have hframed : ∀ t' f, Function.update s.frames t none t' = some f → ∃ m, Framed f m := by
    intro t' f hf
    rcases eq_or_ne t' t with rfl | hne
    · simp at hf
    · exact hs.framed t' f ((Function.update_of_ne hne _ _).symm.trans hf)
  cases clears
  · exact ⟨hs.wellQueued, hframed, hs.connects, hs.slotKnown, hs.stateKnown⟩
  · exact ⟨hs.wellQueued, hframed, hs.connects, nofun, hs.stateKnown⟩

/-- A callback has called its handler. -/
theorem openFrame (hs : s.Wf) (flag : Bool) (t : Thread) {f : Frame} {m : ℕ}
    (hframed : Framed f m) (mutex : Option Thread) (handlerCalls : List (Method × ℕ)) :
    { s with
      wrapper := { s.wrapper with mqttConnected := flag }
      frames := Function.update s.frames t (some f)
      mutex := mutex
      handlerCalls := handlerCalls }.Wf := by
  refine ⟨hs.wellQueued, fun t' f' hf' ↦ ?_, hs.connects, hs.slotKnown, hs.stateKnown⟩
  rcases eq_or_ne t' t with rfl | hne
  · obtain rfl : f = f' := by simpa using hf'
    exact ⟨m, hframed⟩
  · exact hs.framed t' f' ((Function.update_of_ne hne _ _).symm.trans hf')

end Wf

/-- **Every step** keeps the invariant and makes one of the moves. -/
theorem step_moves {cfg : Config} {s s' : System} {e : SystemEvent} (hs : s.Wf)
    (hstep : (machine cfg).step s e = some s') : s'.Wf ∧ Moves cfg s e s' := by
  cases e with
  | connect c =>
    simp only [machine, step] at hstep
    rcases hconnect : s.wrapper.mqttConnect s.paho with ⟨client, p⟩ | err | - <;>
      simp only [hconnect] at hstep <;> split_ifs at hstep
    · obtain rfl := Option.some.inj hstep
      obtain ⟨hflag, address, clientId, -, -, -, -, -, heq⟩ :=
        Wrapper.mqttConnect_done_iff.1 hconnect
      obtain ⟨rfl, rfl⟩ := Prod.mk.inj heq
      obtain ⟨-, hcount, hwf, hlive, hunused, hother, hcommands⟩ :=
        Paho.create_connect hs.wellQueued address clientId (toInt32 s.wrapper.keepAlive)
          s.wrapper.cleanSession
      exact ⟨hs.created c hwf hcount _,
        .created c _ _ hflag hwf hcount hlive hunused hother hcommands⟩
    · exact Option.some.inj hstep ▸ ⟨hs, .raised rfl⟩
  | connectNext c =>
    simp only [machine, step, Option.map_eq_some_iff] at hstep
    obtain ⟨x, hx, rfl⟩ := hstep
    exact ⟨hs.connectNext hx, .connectNext c x hx⟩
  | api c op =>
    simp only [machine, step] at hstep
    rcases hcall : s.wrapper.api s.paho op with p | err | - <;> simp only [hcall] at hstep <;>
      split_ifs at hstep
    · obtain rfl := Option.some.inj hstep
      rw [Wrapper.api] at hcall
      split_ifs at hcall
      rcases hslot : s.wrapper.loadDataPtr with - | - | m <;>
        simp only [hslot, reduceCtorEq] at hcall
      have hsame : s.paho.SameConnections p := Paho.sameConnections_call hcall
      exact ⟨hs.sameConnections hsame, .asked c op p hsame ⟨m, hslot⟩⟩
    · exact Option.some.inj hstep ▸ ⟨hs, .raised rfl⟩
  | assign c value =>
    simp only [machine, step] at hstep
    rcases hassign : s.wrapper.assign value with w | err | - <;> simp only [hassign] at hstep <;>
      split_ifs at hstep
    · obtain rfl := Option.some.inj hstep
      have hsame := sameStatics_assign hassign
      exact ⟨hs.sameStatics hsame, .assigned c value w hsame⟩
    · exact Option.some.inj hstep ▸ ⟨hs, .raised rfl⟩
  | paho e =>
    simp only [machine, step] at hstep
    split_ifs at hstep with hready
    rcases hpaho : s.paho.step e with - | ⟨p, h, - | cb⟩ <;> simp only [hpaho] at hstep
    · cases hstep
    · obtain rfl := Option.some.inj hstep
      exact ⟨hs.paho hpaho, .silent e p h hpaho⟩
    · have hs' := hs.paho hpaho
      obtain ⟨hslot, rfl⟩ | ⟨m, hslot, rfl⟩ := callback_cases hstep
      · exact ⟨hs', .ignored e p h cb hpaho hslot⟩
      · have hframe : s.frames e.thread = none := by
          simpa using (Bool.and_eq_true_iff.1 hready).1
        exact ⟨hs'.openFrame _ _ ⟨rfl, rfl⟩ _ _, .called e p h cb m _ hpaho hslot hframe⟩
  | handlerReturn t =>
    simp only [machine, step] at hstep
    rcases hframe : s.frames t with - | f <;> simp only [hframe] at hstep
    · cases hstep
    · split_ifs at hstep
      obtain ⟨m, hframed⟩ := hs.framed t f hframe
      rw [handlerReturn_eq hframed] at hstep
      obtain rfl := Option.some.inj hstep
      exact ⟨hs.closeFrame _ m t _, .handlerReturned t f m _ hframe hframed⟩

/-- No client comes to life in a step of Paho's. -/
theorem live_of_paho {s : System} (hs : s.Wf) {e : PahoEvent} {p : Paho} {h : ℕ}
    {cb : Option Callback} (hstep : s.paho.step e = some (p, h, cb)) {k : ℕ} (hk : p.Live k) :
    s.paho.Live k := by
  obtain ⟨honly, hmoves, -⟩ := Paho.step_moves hs.wellQueued hstep
  rcases eq_or_ne k h with rfl | hne
  · exact hmoves.live_of_live hk
  · exact (honly.live_iff hne).1 hk

/-! ### Pieces of runs -/

/-- The address and the client id are set. -/
def configure : List SystemEvent :=
  [.assign .ruby (.address (.string [0x68])), .assign .ruby (.clientId (.string [0x6D]))]

/-- A call of `connect` from its first line to its return. -/
def connectCall (c : Caller) : List SystemEvent :=
  [.connect c, .connectNext c, .connectNext c, .connectNext c]

/-- One turn of the send thread. -/
def sendTurn (tcp : Paho.Tcp) : SystemEvent := .paho (.processCommand (fun _ ↦ true) tcp .complete)

end System
