import MrubyMqtt.Atomicity
import MrubyMqtt.Lib.Locking

/-!
# Paho's mutexes

Paho has two mutexes that its callbacks can run into: `mqttasync_mutex`, under which its threads do
everything, and `mqttcommand_mutex`, which guards the command queue. For every step of the system
`System.locks` lists what the thread of that step does with them, function by function, and
`exec_locks` checks the lists against the system: they take the thread from the mutexes it holds
before the step to those it holds after it.

`MQTTAsync_assignMsgId` asks on which thread it runs and leaves `mqttasync_mutex` alone in a
callback. `MQTTAsync_create` and `MQTTAsync_setCallbacks` do not ask. So a handler whose callback is
made under the mutex locks it again exactly where it calls `connect` and `connect` does not raise
(`no_self_lock_iff`); the default handlers of a loss and of a failed connect do just that.
-/

open Bytes LockOp

/-- Paho's mutexes. -/
inductive Mutex where
  /-- `mqttasync_mutex`. -/
  | mqttasync
  /-- `mqttcommand_mutex`. -/
  | mqttcommand
deriving DecidableEq, Repr

/-! ### The functions -/

namespace Paho

/-- `MQTTAsync_addCommand`. -/
def mqttAsyncAddCommandLocks : List (LockOp Mutex) := guarded .mqttcommand

/-- `MQTTAsync_create`, whether or not it accepts the client id. -/
def mqttAsyncCreateLocks : List (LockOp Mutex) := guarded .mqttasync

/-- `MQTTAsync_setCallbacks`. -/
def mqttAsyncSetCallbacksLocks : List (LockOp Mutex) := guarded .mqttasync

/-- `MQTTAsync_connect`: the first one starts both threads, each under the mutex. -/
def mqttAsyncConnectLocks (p : Paho) : List (LockOp Mutex) :=
  (if p.count = 0 then guarded .mqttasync ++ guarded .mqttasync else []) ++ mqttAsyncAddCommandLocks

/-- `MQTTAsync_disconnect1`. -/
def mqttAsyncDisconnect1Locks (p : Paho) (h : ℕ) : List (LockOp Mutex) :=
  if (p.client h).connected then mqttAsyncAddCommandLocks else []

/-- `MQTTAsync_assignMsgId`: a handler runs on a thread of Paho's. -/
def mqttAsyncAssignMsgIdLocks : Caller → List (LockOp Mutex)
  | .ruby => guarded .mqttasync
  | .handler _ => []

/-- A CONNECT under way has failed: it is put back in the queue if there is more to try. -/
def connectFailedLocks (p : Paho) (h : ℕ) : List (LockOp Mutex) :=
  if mqttAsyncCheckConn (p.handle h).connectVersion then mqttAsyncAddCommandLocks else []

/-- `MQTTAsync_processCommand` with the command it has taken from the queue, up to its callback. -/
def commandLocks (p : Paho) (tcp : Tcp) (write : Write) (command : Command) :
    List (LockOp Mutex) :=
  let c := p.client command.client
  match command.details with
  | .connect version =>
    let version := if version = 0 then 4 else if version = 4 then 3 else version
    if c.connectState = 0 && !c.connected && tcp = .failed && mqttAsyncCheckConn version then
      mqttAsyncAddCommandLocks
    else []
  | .disconnect _ => []
  | .publish _ _ qos _ =>
    if 0 < qos && write = .error then p.mqttAsyncDisconnect1Locks command.client else []
  | .subscribe _ _ => if write = .error then p.mqttAsyncDisconnect1Locks command.client else []

end Paho

namespace Api

/-- What is checked before a message id is assigned. -/
def accepted (p : Paho) (client : ℕ) : Api → Bool
  | .disconnect => (p.client client).connected
  | .publish topic payload _ _ =>
    NulFree topic && NulFree payload && (p.client client).connected && utf8ValidateString topic
  | .subscribe topic _ =>
    NulFree topic && (p.client client).connected && utf8ValidateString topic

/-- `MQTTAsync_disconnect`, `MQTTAsync_send` and `MQTTAsync_subscribe`. -/
def locks (p : Paho) (client : ℕ) (c : Caller) (op : Api) : List (LockOp Mutex) :=
  (if op.assignsMsgId && op.accepted p client then Paho.mqttAsyncAssignMsgIdLocks c else []) ++
    match op.call p client with
    | .done _ => Paho.mqttAsyncAddCommandLocks
    | _ => []

end Api

namespace PahoEvent

/-- A step of Paho's threads, up to its callback. -/
def locks (p : Paho) : PahoEvent → List (LockOp Mutex)
  | .processCommand canSend tcp write =>
    .lock .mqttasync :: (guarded .mqttcommand ++
      match p.nextCommand canSend [] p.commands with
      | some command => p.commandLocks tcp write command
      | none => [])
  | .connectTimeout h | .cycleError h => .lock .mqttasync :: p.connectFailedLocks h
  | .connecting h ok => .lock .mqttasync :: if ok then [] else p.connectFailedLocks h
  | .connack h rc =>
    .lock .mqttasync ::
      if (p.client h).connectState = 3 && rc = 0 then [] else p.connectFailedLocks h
  | .receiveError h =>
    -- The mutex is released around `MQTTAsync_disconnect_internal`.
    if (p.client h).connected then
      guarded .mqttasync ++ (p.mqttAsyncDisconnect1Locks h ++ [.lock .mqttasync])
    else [.lock .mqttasync]
  | .closeSession h => .lock .mqttasync :: p.mqttAsyncDisconnect1Locks h
  | .suback _ _ _ | .puback _ _ | .messageArrived _ => [.lock .mqttasync]
  | .writeComplete _ => []

/-- The rest of the step, when its callback has returned. -/
def locksAfter (e : PahoEvent) : List (LockOp Mutex) :=
  if e.underMutex then [.unlock .mqttasync] else []

end PahoEvent

/-! ### The system -/

/-- The thread an event belongs to. -/
def SystemEvent.runner : SystemEvent → Caller
  | .connect c | .connectNext c | .api c _ | .assign c _ => c
  | .paho e => .handler e.thread
  | .handlerReturn t => .handler t

namespace System

/-- The mutexes a thread holds between two steps. No callback is made under `mqttcommand_mutex`. -/
def held (s : System) : Caller → Mutex → Bool
  | .handler t, .mqttasync => s.mutex = some t
  | _, _ => false

/-- The thread of the event has come to it. -/
def begins (s : System) : SystemEvent → Bool
  | .connect c | .api c _ | .assign c _ => s.running c
  | .connectNext c => (s.connects c).isSome
  | .paho e => (s.frames e.thread).isNone
  | .handlerReturn t => (s.frames t).isSome && (s.connects (.handler t)).isNone

/-- What an event does with the mutexes. A client id that is not UTF-8 takes `connect` as far as
`MQTTAsync_setCallbacks`. -/
def locks (cfg : Config) (s : System) : SystemEvent → List (LockOp Mutex)
  | .connect _ =>
    match s.wrapper.mqttConnect s.paho with
    | .done _ =>
      Paho.mqttAsyncCreateLocks ++ (Paho.mqttAsyncSetCallbacksLocks ++ s.paho.mqttAsyncConnectLocks)
    | .stuck => Paho.mqttAsyncCreateLocks ++ [.lock .mqttasync]
    | .raised _ => []
  | .api c op =>
    if op.validOptions then
      match s.wrapper.loadDataPtr with
      | some (some m) => op.locks s.paho (s.wrapper.stateClient m) c
      | _ => []
    else []
  | .paho e =>
    e.locks s.paho ++
      match step cfg s (.paho e) with
      | some s' => if (s'.frames e.thread).isSome then [] else e.locksAfter
      | none => []
  | .handlerReturn t => if s.mutex = some t then [.unlock .mqttasync] else []
  | .connectNext _ | .assign _ _ => []

/-- The event makes its thread lock a mutex that it holds. -/
def SelfLocks (type : MutexType) (cfg : Config) (s : System) (e : SystemEvent) : Prop :=
  s.begins e = true ∧ selfLocks type (s.held e.runner) (s.locks cfg e) = true

/-- A handler whose thread holds the mutex calls `connect`, which does not raise. -/
def ConnectsUnderMutex (s : System) (e : SystemEvent) : Prop :=
  ∃ t, e = .connect (.handler t) ∧ s.running (.handler t) = true ∧ s.mutex = some t ∧
    s.wrapper.reachesCreate = true

end System

/-! ### What the functions leave the thread with -/

section Neutral

variable {type : MutexType} {held : Mutex → Bool}

theorem neutral_addCommand (hcommand : held .mqttcommand = false) :
    Neutral type held Paho.mqttAsyncAddCommandLocks :=
  .guarded hcommand

theorem neutral_disconnect1 (hcommand : held .mqttcommand = false) (p : Paho) (h : ℕ) :
    Neutral type held (p.mqttAsyncDisconnect1Locks h) :=
  .ite (fun _ ↦ neutral_addCommand hcommand) fun _ ↦ .nil

theorem neutral_connectFailed (hcommand : held .mqttcommand = false) (p : Paho) (h : ℕ) :
    Neutral type held (p.connectFailedLocks h) :=
  .ite (fun _ ↦ neutral_addCommand hcommand) fun _ ↦ .nil

theorem neutral_command (hcommand : held .mqttcommand = false) (p : Paho) (tcp : Paho.Tcp)
    (write : Paho.Write) (command : Command) :
    Neutral type held (p.commandLocks tcp write command) := by
  rw [Paho.commandLocks]
  rcases command.details with version | internal | ⟨name, payload, qos, retained⟩ | ⟨topic, qos⟩
  · exact .ite (fun _ ↦ neutral_addCommand hcommand) fun _ ↦ .nil
  · exact .nil
  · exact .ite (fun _ ↦ neutral_disconnect1 hcommand p _) fun _ ↦ .nil
  · exact .ite (fun _ ↦ neutral_disconnect1 hcommand p _) fun _ ↦ .nil

/-- `connect`, on a thread that holds neither mutex. -/
theorem neutral_connect (hasync : held .mqttasync = false) (hcommand : held .mqttcommand = false)
    (p : Paho) : Neutral type held (Paho.mqttAsyncCreateLocks ++
      (Paho.mqttAsyncSetCallbacksLocks ++ p.mqttAsyncConnectLocks)) := by
  have hsection : Neutral type held (guarded .mqttasync) := .guarded hasync
  refine hsection.append (hsection.append ?_)
  exact (Neutral.ite (fun _ ↦ hsection.append hsection) fun _ ↦ .nil).append
    (neutral_addCommand hcommand)

/-- The other calls, on any thread that makes them: a handler does not touch `mqttasync_mutex`. -/
theorem neutral_api (hcommand : held .mqttcommand = false) {c : Caller}
    (hasync : c = .ruby → held .mqttasync = false) (p : Paho) (client : ℕ) (op : Api) :
    Neutral type held (op.locks p client c) := by
  refine (Neutral.ite (fun _ ↦ ?_) fun _ ↦ .nil).append ?_
  · cases c with
    | ruby => exact .guarded (hasync rfl)
    | handler t => exact .nil
  · rcases op.call p client with p' | e | -
    · exact neutral_addCommand hcommand
    · exact .nil
    · exact .nil

end Neutral

/-- A thread that has just taken `mqttasync_mutex`, and nothing else. -/
def onlyAsync : Mutex → Bool := Function.update (fun _ ↦ false) .mqttasync true

/-- What a step of Paho's leaves its thread with when it comes to its callback. -/
theorem locks_paho (type : MutexType) (p : Paho) (e : PahoEvent) :
    execAll type (fun _ ↦ false) (e.locks p) =
        some (if e.underMutex then onlyAsync else fun _ ↦ false) ∧
      selfLocks type (fun _ ↦ false) (e.locks p) = false := by
  -- Nearly all of them take the mutex first, and go on with something neutral.
  have htaken : ∀ {ops : List (LockOp Mutex)}, Neutral type onlyAsync ops →
      execAll type (fun _ ↦ false) (.lock .mqttasync :: ops) = some onlyAsync ∧
        selfLocks type (fun _ ↦ false) (.lock .mqttasync :: ops) = false := fun hops ↦ by
    rw [execAll, exec_lock rfl, Option.bind_some, selfLocks_lock_of_free rfl]
    exact ⟨hops.exec, hops.safe⟩
  have hcommand : onlyAsync .mqttcommand = false := rfl
  cases e with
  | processCommand canSend tcp write =>
    refine htaken ((Neutral.guarded hcommand).append ?_)
    rcases p.nextCommand canSend [] p.commands with - | command
    · exact .nil
    · exact neutral_command hcommand p tcp write command
  | connectTimeout h | cycleError h => exact htaken (neutral_connectFailed hcommand p h)
  | connecting h ok =>
    exact htaken (.ite (fun _ ↦ .nil) fun _ ↦ neutral_connectFailed hcommand p h)
  | connack h rc => exact htaken (.ite (fun _ ↦ .nil) fun _ ↦ neutral_connectFailed hcommand p h)
  | closeSession h => exact htaken (neutral_disconnect1 hcommand p h)
  | suback | puback | messageArrived => exact htaken .nil
  | writeComplete h => exact ⟨rfl, rfl⟩
  | receiveError h =>
    rw [PahoEvent.locks]
    rcases (p.client h).connected with - | -
    · exact htaken .nil
    · have hbefore : Neutral type (fun _ : Mutex ↦ false)
          (guarded .mqttasync ++ p.mqttAsyncDisconnect1Locks h) :=
        (Neutral.guarded rfl).append (neutral_disconnect1 rfl p h)
      rw [if_pos rfl, ← List.append_assoc, execAll_append, selfLocks_append hbefore.exec,
        hbefore.exec, hbefore.safe, Option.bind_some, Bool.false_or]
      exact htaken .nil

namespace System

variable {cfg : Config} {s : System}

/-- A thread that does not hold `mqttasync_mutex` holds nothing. -/
theorem held_eq {c : Caller} (hc : ∀ t, c = .handler t → s.mutex ≠ some t) :
    s.held c = fun _ ↦ false := by
  funext m
  cases c with
  | ruby => rfl
  | handler t =>
    cases m with
    | mqttasync => exact decide_eq_false (hc t rfl)
    | mqttcommand => rfl

theorem held_mqttcommand (c : Caller) : s.held c .mqttcommand = false := by
  cases c <;> rfl

/-- **`connect`** locks a mutex again exactly where it gets to `MQTTAsync_create` on a thread that
holds `mqttasync_mutex`. -/
theorem selfLocks_connect_iff {type : MutexType} {c : Caller} :
    selfLocks type (s.held c) (s.locks cfg (.connect c)) = true ↔
      s.wrapper.reachesCreate = true ∧ s.held c .mqttasync = true := by
  have hraised := Wrapper.mqttConnect_raised_iff (w := s.wrapper) (p := s.paho)
  have hfirst : ∀ ops, s.held c .mqttasync = true →
      selfLocks type (s.held c) (Paho.mqttAsyncCreateLocks ++ ops) = true := fun ops hheld ↦
    selfLocks_lock hheld _
  rw [locks]
  rcases hconnect : s.wrapper.mqttConnect s.paho with done | err | -
  · have hreaches : s.wrapper.reachesCreate = true := by simpa [hconnect] using hraised.symm
    rw [and_iff_right hreaches]
    rcases hheld : s.held c .mqttasync with - | -
    · exact iff_of_false (by
        rw [(neutral_connect hheld (held_mqttcommand c) s.paho).safe]
        exact Bool.false_ne_true) Bool.false_ne_true
    · exact iff_of_true (hfirst _ hheld) rfl
  · have hreaches : s.wrapper.reachesCreate = false := hraised.1 ⟨err, hconnect⟩
    exact iff_of_false Bool.false_ne_true fun h ↦ by simp [hreaches] at h
  · have hreaches : s.wrapper.reachesCreate = true := by simpa [hconnect] using hraised.symm
    rw [and_iff_right hreaches]
    rcases hheld : s.held c .mqttasync with - | -
    · refine iff_of_false ?_ Bool.false_ne_true
      rw [Paho.mqttAsyncCreateLocks, selfLocks_guarded_append hheld, selfLocks_lock_of_free hheld]
      exact Bool.false_ne_true
    · exact iff_of_true (hfirst _ hheld) rfl

/-- A step of Paho's never does: its thread holds nothing when it begins. -/
theorem selfLocks_paho {type : MutexType} {e : PahoEvent}
    (hheld : s.held (.handler e.thread) = fun _ ↦ false) :
    selfLocks type (s.held (.handler e.thread)) (s.locks cfg (.paho e)) = false := by
  obtain ⟨hexec, hsafe⟩ := locks_paho type s.paho e
  have hafter : ∀ held : Mutex → Bool, selfLocks type held e.locksAfter = false := fun held ↦ by
    rw [PahoEvent.locksAfter]
    split_ifs <;> rfl
  rw [hheld, locks, selfLocks_append hexec, hsafe, Bool.false_or]
  rcases step cfg s (.paho e) with - | s'
  · rfl
  · dsimp only
    rcases (s'.frames e.thread).isSome with - | -
    · exact hafter _
    · rfl

/-- **Every step**: the one thing that locks a mutex twice is a `connect` in a handler. -/
theorem selfLocks_iff {type : MutexType} (hs : s.MutexFramed) (e : SystemEvent) :
    s.SelfLocks type cfg e ↔ s.ConnectsUnderMutex e := by
  -- Any other event is safe.
  have hsafe : selfLocks type (s.held e.runner) (s.locks cfg e) = false →
      (∀ t, e ≠ .connect (.handler t)) → (s.SelfLocks type cfg e ↔ s.ConnectsUnderMutex e) := by
    intro hfalse hne
    refine iff_of_false ?_ ?_
    · rintro ⟨-, htrue⟩
      rw [hfalse] at htrue
      cases htrue
    · rintro ⟨t, he, -⟩
      exact hne t he
  cases e with
  | connect c =>
    rw [SelfLocks, SystemEvent.runner, selfLocks_connect_iff, begins]
    constructor
    · rintro ⟨hrunning, hreaches, hheld⟩
      cases c with
      | ruby => cases hheld
      | handler t => exact ⟨t, rfl, hrunning, of_decide_eq_true hheld, hreaches⟩
    · rintro ⟨t, he, hrunning, hmutex, hreaches⟩
      obtain rfl : c = .handler t := SystemEvent.connect.inj he
      exact ⟨hrunning, hreaches, decide_eq_true hmutex⟩
  | api c op =>
    refine hsafe ?_ fun t he ↦ by cases he
    rw [locks]
    split_ifs
    · rcases s.wrapper.loadDataPtr with - | - | m
      · rfl
      · rfl
      · refine (neutral_api (held_mqttcommand c) ?_ _ _ _).safe
        rintro rfl
        rfl
    · rfl
  | paho e =>
    by_cases hbegins : s.frames e.thread = none
    · refine hsafe (selfLocks_paho (held_eq ?_)) fun t he ↦ by cases he
      rintro t ⟨⟩ hmutex
      exact hs e.thread hmutex hbegins
    · refine iff_of_false ?_ ?_
      · rintro ⟨hfree, -⟩
        exact hbegins (Option.isNone_iff_eq_none.1 hfree)
      · rintro ⟨t, he, -⟩
        cases he
  | handlerReturn t =>
    refine hsafe ?_ fun t he ↦ by cases he
    rw [locks]
    split_ifs <;> rfl
  | connectNext c => exact hsafe rfl fun t he ↦ by cases he
  | assign c value => exact hsafe rfl fun t he ↦ by cases he

/-! ### The lists and the system agree -/

/-- `connect` has released `mqttasync_mutex` when it returns, whoever had locked it. -/
theorem exec_connect {c : Caller} {done : ℕ × Paho}
    (hconnect : s.wrapper.mqttConnect s.paho = .done done) :
    execAll .errorcheck (s.held c) (s.locks cfg (.connect c)) = some fun _ ↦ false := by
  have hcommand : s.held c .mqttcommand = false := held_mqttcommand c
  have hfree : Function.update (s.held c) .mqttasync false = fun _ ↦ false := by
    funext m
    cases m with
    | mqttasync => exact Function.update_self ..
    | mqttcommand => exact (Function.update_of_ne (by decide) _ _).trans hcommand
  rw [locks, hconnect]
  dsimp only
  rcases hheld : s.held c .mqttasync with - | -
  · have hnothing : s.held c = fun _ ↦ false := by
      rw [← hfree, ← hheld, Function.update_eq_self]
    rw [(neutral_connect hheld hcommand s.paho).exec, hnothing]
  · -- The lock of `MQTTAsync_create` is refused, and its unlock releases the callback's.
    have hcreate : execAll .errorcheck (s.held c) Paho.mqttAsyncCreateLocks =
        some fun _ ↦ false := by
      simp [Paho.mqttAsyncCreateLocks, guarded, execAll, LockOp.exec, hheld, hfree]
    rw [execAll_append, hcreate, Option.bind_some]
    have hsection : Neutral .errorcheck (fun _ : Mutex ↦ false) (guarded .mqttasync) := .guarded rfl
    refine (hsection.append ?_).exec
    exact (Neutral.ite (fun _ ↦ hsection.append hsection) fun _ ↦ .nil).append
      (neutral_addCommand rfl)

/-- A step of Paho's leaves its thread with the mutex where its callback waits for a handler. -/
theorem exec_paho {e : PahoEvent} {s' : System} (hs : s.MutexFramed)
    (hstep : step cfg s (.paho e) = some s') :
    execAll .errorcheck (s.held (.handler e.thread)) (s.locks cfg (.paho e)) =
      some (s'.held (.handler e.thread)) := by
  obtain ⟨hexec, -⟩ := locks_paho .errorcheck s.paho e
  rw [locks, hstep]
  dsimp only
  simp only [step] at hstep
  split_ifs at hstep with hready
  have hidle : s.frames e.thread = none :=
    Option.isNone_iff_eq_none.1 (Bool.and_eq_true_iff.1 hready).1
  have hfree : s.mutex ≠ some e.thread := fun hmutex ↦ hs _ hmutex hidle
  have hnothing : ∀ {q : System}, q.mutex = s.mutex →
      q.held (.handler e.thread) = fun _ ↦ false := fun hq ↦ held_eq fun t ht ↦ by
    obtain rfl : e.thread = t := Caller.handler.inj ht
    rw [hq]
    exact hfree
  have hback : execAll .errorcheck (if e.underMutex then onlyAsync else fun _ ↦ false)
      e.locksAfter = some fun _ ↦ false := by
    rw [PahoEvent.locksAfter]
    rcases e.underMutex with - | -
    · rfl
    · rw [if_pos rfl, if_pos rfl, onlyAsync, execAll, LockOp.exec, Option.bind_some,
        Function.update_idem, execAll_nil]
      exact congrArg some (Function.update_eq_self _ _)
  rw [hnothing rfl, execAll_append, hexec, Option.bind_some]
  rcases hpaho : s.paho.step e with - | ⟨p, h, - | cb⟩ <;> simp only [hpaho] at hstep
  · cases hstep
  · obtain rfl := Option.some.inj hstep
    simp only [hidle, Option.isSome_none, Bool.false_eq_true, if_false]
    exact hback.trans (congrArg some (hnothing rfl).symm)
  · obtain ⟨-, rfl⟩ | ⟨m, -, rfl⟩ := callback_cases hstep
    · simp only [hidle, Option.isSome_none, Bool.false_eq_true, if_false]
      exact hback.trans (congrArg some (hnothing rfl).symm)
    · simp only [Function.update_self, Option.isSome_some, if_true, execAll_nil]
      refine congrArg some ?_
      rcases e.underMutex with - | -
      · exact (hnothing rfl).symm
      · funext mutex
        cases mutex with
        | mqttasync => simp [onlyAsync, held]
        | mqttcommand => rfl

/-- **What a thread does with the mutexes takes it from those it holds before a step to those it
holds after it.** -/
theorem exec_locks {returns : Bool} {s s' : System} {e : SystemEvent} (hs : s.MutexFramed)
    (hstep : (machine ⟨returns, false⟩).step s e = some s') :
    execAll .errorcheck (s.held e.runner) (s.locks ⟨returns, false⟩ e) =
      some (s'.held e.runner) := by
  cases e with
  | connect c =>
    simp only [machine, step] at hstep
    rcases hconnect : s.wrapper.mqttConnect s.paho with done | err | - <;>
      simp only [hconnect] at hstep <;> split_ifs at hstep
    · obtain rfl := Option.some.inj hstep
      have hreleased : s.mutexAfter ⟨returns, false⟩ = none := rfl
      refine (exec_connect hconnect).trans (congrArg some ?_)
      exact (held_eq fun t _ ↦ by simp [hreleased]).symm
    · obtain rfl := Option.some.inj hstep
      rw [locks, hconnect]
      rfl
  | connectNext c =>
    simp only [machine, step, Option.map_eq_some_iff] at hstep
    obtain ⟨x, -, rfl⟩ := hstep
    rfl
  | api c op =>
    have hneutral : execAll .errorcheck (s.held c) (s.locks ⟨returns, false⟩ (.api c op)) =
        some (s.held c) := by
      rw [locks]
      split_ifs
      · rcases s.wrapper.loadDataPtr with - | - | m
        · rfl
        · rfl
        · refine (neutral_api (held_mqttcommand c) ?_ _ _ _).exec
          rintro rfl
          rfl
      · rfl
    rw [SystemEvent.runner, hneutral]
    simp only [machine, step] at hstep
    rcases hcall : s.wrapper.api s.paho op with p | err | - <;> simp only [hcall] at hstep <;>
      split_ifs at hstep <;> obtain rfl := Option.some.inj hstep <;> rfl
  | assign c value =>
    simp only [machine, step] at hstep
    rcases hassign : s.wrapper.assign value with w | err | - <;> simp only [hassign] at hstep <;>
      split_ifs at hstep <;> obtain rfl := Option.some.inj hstep <;> rfl
  | paho e => exact exec_paho hs hstep
  | handlerReturn t =>
    simp only [machine, step] at hstep
    rcases hframe : s.frames t with - | f <;> simp only [hframe] at hstep
    · cases hstep
    · split_ifs at hstep
      obtain ⟨⟨w, waiting⟩, -, rfl⟩ := Option.map_eq_some_iff.1 hstep
      rw [SystemEvent.runner, locks]
      by_cases hmutex : s.mutex = some t
      · rw [if_pos hmutex, execAll, LockOp.exec, Option.bind_some, execAll_nil]
        refine congrArg some ?_
        funext mutex
        cases mutex with
        | mqttasync => simp [held, hmutex]
        | mqttcommand => rfl
      · rw [if_neg hmutex, execAll_nil]
        refine congrArg some ?_
        funext mutex
        cases mutex with
        | mqttasync => simp [held, hmutex]
        | mqttcommand => rfl

/-! ### Runs -/

/-- The machine of the whole program, with mutexes of a given type: a thread that locks a normal
mutex again does not come back. -/
def lockingMachine (type : MutexType) (returns : Bool) : Machine System SystemEvent where
  step s e :=
    match execAll type (s.held e.runner) (s.locks ⟨returns, false⟩ e) with
    | some _ => step ⟨returns, false⟩ s e
    | none => none

/-- **Handlers lock nothing twice along exactly the runs in which none of them comes to
`MQTTAsync_create` under the mutex.** For both types of a mutex. -/
theorem no_self_lock_iff (type : MutexType) (returns : Bool) (es : List SystemEvent) :
    (lockingMachine type returns).EachTried (fun s e ↦ ¬ s.SelfLocks type ⟨returns, false⟩ e) init
        es ↔
      (lockingMachine type returns).EachTried (fun s e ↦ ¬ s.ConnectsUnderMutex e) init es := by
  have hinit : init.MutexFramed := fun _ hmutex ↦ nomatch hmutex
  refine (lockingMachine type returns).eachTried_iff (fun s e s' (hs : s.MutexFramed) hstep ↦ ?_)
    (fun s e hs ↦ not_congr (selfLocks_iff hs e)) hinit es
  simp only [lockingMachine] at hstep
  split at hstep
  · exact hs.step (show (machine ⟨returns, false⟩).step s e = some s' from hstep)
  · cases hstep

/-- The first connect fails with both versions, and the handler of the failure calls `connect`, as
the default handler does. -/
def retryRun : List SystemEvent :=
  configure ++ connectCall .ruby ++ [sendTurn .failed, sendTurn .failed, .connect (.handler .send)]

/-- That `connect` locks `mqttasync_mutex` on the thread that holds it, whether the mutexes are as
they are initialized or `MQTTAsync_init` has been run. -/
theorem retry_run_self_locks :
    ¬ (lockingMachine .normal false).EachTried (fun s e ↦ ¬ s.SelfLocks .normal ⟨false, false⟩ e)
        init retryRun ∧
      ¬ (lockingMachine .errorcheck false).EachTried
        (fun s e ↦ ¬ s.SelfLocks .errorcheck ⟨false, false⟩ e) init retryRun := by
  constructor
  · intro h
    have hlast := Machine.eachTried_last _ (configure ++ connectCall .ruby ++
      [sendTurn .failed, sendTurn .failed]) (.connect (.handler .send)) h rfl
    exact hlast ⟨rfl, rfl⟩
  · intro h
    have hlast := Machine.eachTried_last _ (configure ++ connectCall .ruby ++
      [sendTurn .failed, sendTurn .failed]) (.connect (.handler .send)) h rfl
    exact hlast ⟨rfl, rfl⟩

end System
