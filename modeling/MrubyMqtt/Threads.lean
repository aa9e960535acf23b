import MrubyMqtt.System

/-!
# The threads, line by line

`System.machine` runs a callback in one go up to its handler, and an API call in one go. Here they
are taken apart: a step of `Threads.machine` is one line of a callback, or one of the points of an
API call where another thread can make a difference. `disconnect`, `publish` and `subscribe` copy
the slot first, and read `m->client` through their copy twice later: for `opts.context`, and for the
call of Paho's function.

The program and the handlers run at the same time as Paho's threads; a handler runs on the thread of
its callback, which goes on when the handler has returned and no call of its own is under way.
-/

open Bytes

/-- An API call that has begun. -/
inductive Calling where
  /-- `connect`, after `MQTTAsync_connect`. -/
  | connecting (x : Connecting)
  /-- `m` has been copied from the slot and is not NULL. -/
  | loaded (op : Api) (m : ℕ)
  /-- `m->client` has been read for `opts.context`, which no callback looks at. -/
  | context (op : Api) (m : ℕ)
  /-- `m->client` has been read for the call. -/
  | read (op : Api) (client : ℕ)
deriving DecidableEq, Repr

/-- A callback under way. -/
structure Running where
  /-- Its local variable `m`. -/
  m : Option ℕ
  /-- The lines it has not run yet. -/
  rest : List Instr
  /-- It is in its Ruby handler. -/
  inHandler : Bool
deriving DecidableEq, Repr

/-- The state of all threads. -/
structure Threads where
  /-- The library. -/
  paho : Paho
  /-- The wrapper. -/
  wrapper : Wrapper
  /-- The callback each thread of Paho's is in. -/
  running : Thread → Option Running
  /-- The thread that holds `mqttasync_mutex` in its callback. -/
  mutex : Option Thread
  /-- The API calls under way. -/
  calls : Caller → Option Calling

/-- What can happen next. -/
inductive ThreadsEvent where
  /-- `connect` is called, and runs up to `MQTTAsync_connect`. -/
  | connect (c : Caller)
  /-- `disconnect`, `publish` or `subscribe` is called: it copies the slot and checks the copy. -/
  | api (c : Caller) (op : Api)
  /-- A call goes on. -/
  | callNext (c : Caller)
  /-- An attribute is assigned. -/
  | assign (c : Caller) (value : Wrapper.Setter)
  /-- A step of Paho's; a callback it ends in has still to run. -/
  | paho (e : PahoEvent)
  /-- A callback runs one line. -/
  | advance (t : Thread)
  /-- The handler of a callback returns. -/
  | handlerReturn (t : Thread)

/-- The call comes to read `m->client` for `opts.context`: `publish` converts its strings before
that, which may raise. -/
def Api.readsContext : Api → Bool
  | .publish topic payload _ _ => NulFree topic && NulFree payload
  | _ => true

/-- From there it comes to read `m->client` again: `subscribe` converts its topic in between. -/
def Api.readsClient : Api → Bool
  | .subscribe topic _ => NulFree topic
  | _ => true

/-- The state the call has copied from the slot. -/
def Calling.copied : Calling → Option ℕ
  | .loaded _ m | .context _ m => some m
  | _ => none

/-- The state the call reads next. -/
def Calling.reads : Calling → Option ℕ
  | .loaded op m => if op.readsContext then some m else none
  | .context op m => if op.readsClient then some m else none
  | _ => none

/-- The line reads a field of `m`. -/
def Instr.readsState : Instr → Bool
  | .internCause | .withMrb | .funcall _ | .free => true
  | _ => false

/-- The line is `mrb_free(m->mrb, m)`. -/
def Instr.isFree : Instr → Bool
  | .free => true
  | _ => false

namespace Threads

/-- The state after `mrb_mruby_mqtt_gem_init`. -/
def init : Threads where
  paho := .init
  wrapper := mqttInit
  running _ := none
  mutex := none
  calls _ := none

/-- The caller runs Ruby code now. -/
def canCall (s : Threads) (c : Caller) : Bool :=
  (s.calls c).isNone && match c with
    | .ruby => true
    | .handler t => (s.running t).any Running.inHandler

/-- The caller can take the mutex, or holds it already. -/
def mutexOpen (s : Threads) (c : Caller) : Bool :=
  match s.mutex with
  | none => true
  | some t => c = .handler t

/-- The mutex after a function that has taken and released it. -/
def mutexAfter (cfg : Config) (s : Threads) : Option Thread :=
  if cfg.recursiveMutex then s.mutex else none

/-- A call has come to its end. -/
def endCall (s : Threads) (c : Caller) : Threads :=
  { s with calls := Function.update s.calls c none }

/-- A call goes on. -/
def callNext (s : Threads) (c : Caller) : Calling → Option Threads
  | .connecting x =>
    some { s with
      wrapper := (x.next s.wrapper).1
      calls := Function.update s.calls c ((x.next s.wrapper).2.map .connecting) }
  | .loaded op m =>
    if op.readsContext then
      some { s with calls := Function.update s.calls c (some (.context op m)) }
    else some (s.endCall c)
  | .context op m =>
    if op.readsClient then
      some { s with calls := Function.update s.calls c (some (.read op (s.wrapper.stateClient m))) }
    else some (s.endCall c)
  | .read op client =>
    match op.call s.paho client with
    | .done paho =>
      if c = .ruby && op.assignsMsgId && s.mutex.isSome then none
      else some { s.endCall c with paho := paho }
    | .raised _ => some (s.endCall c)
    | .stuck => none

/-- A callback begins. -/
def callback (s : Threads) (t : Thread) (underMutex : Bool) (cb : Callback) : Threads :=
  { s with
    running := Function.update s.running t (some ⟨none, cb.code, false⟩)
    mutex := if underMutex then some t else s.mutex }

/-- A callback returns; its thread lets the mutex go. -/
def callbackReturn (s : Threads) (t : Thread) : Threads :=
  { s with
    running := Function.update s.running t none
    mutex := if s.mutex = some t then none else s.mutex }

/-- A callback runs one line. -/
def advance (cfg : Config) (s : Threads) (t : Thread) (f : Running) : Option Threads :=
  match f.rest with
  | [] => some (s.callbackReturn t)
  | instr :: rest =>
    match instr.exec cfg s.wrapper f.m with
    | .next wrapper m =>
      some { s with
        wrapper := wrapper
        running := Function.update s.running t (some ⟨m, rest, false⟩) }
    | .ret => some (s.callbackReturn t)
    | .handler _ => some { s with running := Function.update s.running t (some ⟨f.m, rest, true⟩) }
    | .fault => none

/-- One step. A call that raises at once leaves everything as it is; `none` where the event cannot
happen, or where it does not come back. -/
def step (cfg : Config) (s : Threads) : ThreadsEvent → Option Threads
  | .connect c =>
    if s.canCall c then
      match s.wrapper.mqttConnect s.paho with
      | .done (client, paho) =>
        if s.mutexOpen c then
          some { s with
            paho := paho
            mutex := s.mutexAfter cfg
            calls := Function.update s.calls c (some (.connecting (.queued client))) }
        else none
      | .raised _ => some s
      | .stuck => none
    else none
  | .api c op =>
    if s.canCall c then
      if op.validOptions then
        match s.wrapper.loadDataPtr with
        | none => none
        | some none => some s
        | some (some m) =>
          some { s with calls := Function.update s.calls c (some (.loaded op m)) }
      else some s
    else none
  | .callNext c => (s.calls c).bind (s.callNext c)
  | .assign c value =>
    if s.canCall c then
      match s.wrapper.assign value with
      | .done wrapper => some { s with wrapper := wrapper }
      | .raised _ => some s
      | .stuck => none
    else none
  | .paho e =>
    if (s.running e.thread).isNone && (!e.underMutex || s.mutex.isNone) then
      (s.paho.step e).map fun (paho, _, cb) ↦
        match cb with
        | none => { s with paho := paho }
        | some cb => { s with paho := paho }.callback e.thread e.underMutex cb
    else none
  | .advance t =>
    match s.running t with
    | some ⟨m, rest, false⟩ => s.advance cfg t ⟨m, rest, false⟩
    | _ => none
  | .handlerReturn t =>
    match s.running t with
    | some ⟨m, rest, true⟩ =>
      if (s.calls (.handler t)).isNone then
        some { s with running := Function.update s.running t (some ⟨m, rest, false⟩) }
      else none
    | _ => none

/-- The machine of all threads. -/
def machine (cfg : Config) : Machine Threads ThreadsEvent where
  step := step cfg

/-- What a step can be. -/
inductive Steps (cfg : Config) (s : Threads) : ThreadsEvent → Threads → Prop
  /-- `connect` raises. -/
  | connectRaised (c : Caller) : Steps cfg s (.connect c) s
  /-- `connect` has created its client. -/
  | connect (c : Caller) (client : ℕ) (paho : Paho)
      (hdone : s.wrapper.mqttConnect s.paho = .done (client, paho)) :
      Steps cfg s (.connect c)
        { s with
          paho := paho
          mutex := s.mutexAfter cfg
          calls := Function.update s.calls c (some (.connecting (.queued client))) }
  /-- A call raises for its options, or for the slot. -/
  | apiRaised (c : Caller) (op : Api)
      (hraised : op.validOptions = true → s.wrapper.loadDataPtr = some none) :
      Steps cfg s (.api c op) s
  /-- A call copies the slot. -/
  | loaded (c : Caller) (op : Api) (m : ℕ) (hvalid : op.validOptions = true)
      (hload : s.wrapper.loadDataPtr = some (some m)) :
      Steps cfg s (.api c op) { s with calls := Function.update s.calls c (some (.loaded op m)) }
  /-- A call goes on. -/
  | callNext {s'} (c : Caller) (call : Calling) (hcall : s.calls c = some call)
      (hnext : s.callNext c call = some s') : Steps cfg s (.callNext c) s'
  /-- An assignment raises. -/
  | assignRaised (c : Caller) (value : Wrapper.Setter) : Steps cfg s (.assign c value) s
  /-- An attribute is assigned. -/
  | assign (c : Caller) (value : Wrapper.Setter) (wrapper : Wrapper)
      (hdone : s.wrapper.assign value = .done wrapper) :
      Steps cfg s (.assign c value) { s with wrapper := wrapper }
  /-- A step of Paho's without a callback. -/
  | silent (e : PahoEvent) (paho : Paho) (h : ℕ) (hstep : s.paho.step e = some (paho, h, none)) :
      Steps cfg s (.paho e) { s with paho := paho }
  /-- A callback begins. -/
  | callback (e : PahoEvent) (paho : Paho) (h : ℕ) (cb : Callback)
      (hstep : s.paho.step e = some (paho, h, some cb)) (hidle : s.running e.thread = none)
      (hmutex : e.underMutex = true → s.mutex = none) :
      Steps cfg s (.paho e) ({ s with paho := paho }.callback e.thread e.underMutex cb)
  /-- A callback runs one line. -/
  | advance {s'} (t : Thread) (m : Option ℕ) (rest : List Instr)
      (hrunning : s.running t = some ⟨m, rest, false⟩)
      (hnext : s.advance cfg t ⟨m, rest, false⟩ = some s') : Steps cfg s (.advance t) s'
  /-- A handler returns. -/
  | handlerReturn (t : Thread) (m : Option ℕ) (rest : List Instr)
      (hrunning : s.running t = some ⟨m, rest, true⟩) (hcalls : s.calls (.handler t) = none) :
      Steps cfg s (.handlerReturn t)
        { s with running := Function.update s.running t (some ⟨m, rest, false⟩) }

/-- **Every step** is one of these. -/
theorem step_cases {cfg : Config} {s s' : Threads} {e : ThreadsEvent}
    (hstep : (machine cfg).step s e = some s') : Steps cfg s e s' := by
  cases e with
  | connect c =>
    simp only [machine, step] at hstep
    rcases hconnect : s.wrapper.mqttConnect s.paho with ⟨client, paho⟩ | err | - <;>
      simp only [hconnect] at hstep <;> split_ifs at hstep
    · obtain rfl := Option.some.inj hstep
      exact .connect c client paho hconnect
    · obtain rfl := Option.some.inj hstep
      exact .connectRaised c
  | api c op =>
    simp only [machine, step] at hstep
    split_ifs at hstep with _ hvalid
    · rcases hload : s.wrapper.loadDataPtr with - | - | m <;> simp only [hload] at hstep
      · cases hstep
      · obtain rfl := Option.some.inj hstep
        exact .apiRaised c op fun _ ↦ hload
      · obtain rfl := Option.some.inj hstep
        exact .loaded c op m hvalid hload
    · obtain rfl := Option.some.inj hstep
      exact .apiRaised c op fun h ↦ absurd h hvalid
  | callNext c =>
    obtain ⟨call, hcall, hnext⟩ := Option.bind_eq_some_iff.1 hstep
    exact .callNext c call hcall hnext
  | assign c value =>
    simp only [machine, step] at hstep
    rcases hassign : s.wrapper.assign value with wrapper | err | - <;>
      simp only [hassign] at hstep <;> split_ifs at hstep
    · obtain rfl := Option.some.inj hstep
      exact .assign c value wrapper hassign
    · obtain rfl := Option.some.inj hstep
      exact .assignRaised c value
  | paho e =>
    simp only [machine, step] at hstep
    split_ifs at hstep with hready
    obtain ⟨⟨paho, h, cb⟩, hpaho, rfl⟩ := Option.map_eq_some_iff.1 hstep
    obtain ⟨hidle, hmutex⟩ := Bool.and_eq_true_iff.1 hready
    rcases cb with - | cb
    · exact .silent e paho h hpaho
    · refine .callback e paho h cb hpaho (Option.isNone_iff_eq_none.1 hidle) fun hunder ↦ ?_
      simpa [hunder] using hmutex
  | advance t =>
    simp only [machine, step] at hstep
    rcases hf : s.running t with - | ⟨m, rest, - | -⟩ <;> simp only [hf] at hstep
    · cases hstep
    · exact .advance t m rest hf hstep
    · cases hstep
  | handlerReturn t =>
    simp only [machine, step] at hstep
    rcases hf : s.running t with - | ⟨m, rest, - | -⟩ <;> simp only [hf] at hstep
    · cases hstep
    · cases hstep
    · split_ifs at hstep with hcalls
      obtain rfl := Option.some.inj hstep
      exact .handlerReturn t m rest hf (Option.isNone_iff_eq_none.1 hcalls)

/-- The state whose fields the event reads, if it happens now. -/
def reads (s : Threads) : ThreadsEvent → Option ℕ
  | .callNext c => (s.calls c).bind Calling.reads
  | .advance t =>
    match s.running t with
    | some ⟨m, instr :: _, false⟩ => if instr.readsState then m else none
    | _ => none
  | _ => none

/-- **No use after free**: whatever happens next reads no field of a freed state, and `mrb_free` is
such a read. -/
def NoUseAfterFree (s : Threads) : Prop := ∀ e m, s.reads e = some m → m ∉ s.wrapper.freed

end Threads
