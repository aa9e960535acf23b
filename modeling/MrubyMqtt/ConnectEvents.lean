import MrubyMqtt.System

/-!
# What becomes of a connect

A `connect` has two ends: the call returns with its state in the slot, and later a callback reports
how the attempt came out. The callback does what it should only if the slot is right when it looks.

* A connect from inside the handler of a loss, a disconnect or a failure is always lost: the
  callback clears the slot after its handler (`keepsReconnects_iff`).
* A success is heard exactly if the slot is not NULL; in a run that leaves the latest attempt
  undisturbed, its success is heard (`Undisturbed`, `LatestKept.heard`).
* A failure is heard, and the state of its attempt released, exactly if that state is in the slot.
* A callback that comes before `_self` is set reads it unset. Until then Paho has done nothing but
  try to connect, and `Paho.Reports` says when that ends in a callback.
-/

open Bytes Wrapper

namespace System

/-! ### Connects inside a handler -/

/-- The states of the connects that have returned during the handler of an end are in the slot when
the callback returns. -/
def KeepsReconnects (s : System) (e : SystemEvent) (s' : System) : Prop :=
  ∀ t f, e = .handlerReturn t → s.frames t = some f → f.callback.clears = true →
    ∀ m ∈ f.returned, s'.wrapper.loadDataPtr = some (some m)

/-- No connect has returned during the handler of an end. -/
def NoReconnect (s : System) (e : SystemEvent) : Prop :=
  ∀ t f, e = .handlerReturn t → s.frames t = some f → f.callback.clears = true → f.returned = []

/-- **A reconnect inside a handler is lost.** -/
theorem keepsReconnects_iff {cfg : Config} {s s' : System} {e : SystemEvent}
    (hmoves : Moves cfg s e s') : KeepsReconnects s e s' ↔ s.NoReconnect e := by
  constructor
  · rintro hkeeps t f rfl hframe hclears
    cases hmoves with
    | raised he => cases he
    | handlerReturned _ f' m mutex hframe' _ =>
      obtain rfl : f = f' := Option.some.inj (hframe.symm.trans hframe')
      by_contra hreturned
      obtain ⟨m', hm'⟩ := List.exists_mem_of_ne_nil _ hreturned
      have hslot := hkeeps t f rfl hframe hclears m' hm'
      simp [Wrapper.loadDataPtr, hclears] at hslot
  · rintro hnone t f rfl hframe hclears m hm
    rw [hnone t f rfl hframe hclears] at hm
    cases hm

/-! ### A success -/

/-- The success of an attempt is heard: the flag is TRUE and `on_connect_callback` has been called,
once. -/
def HearsSuccess (s s' : System) (h : ℕ) : Prop :=
  s'.wrapper.mqttConnected = true ∧ s'.handlerCalls = s.handlerCalls ++ [(.onConnectCallback, h)]

/-- A success is heard exactly if the slot is not NULL. -/
theorem hearsSuccess_iff {cfg : Config} {s s' : System} {e : PahoEvent}
    (hmoves : Moves cfg s (.paho e) s') {p : Paho} {h : ℕ}
    (hstep : s.paho.step e = some (p, h, some .mqttOnConnect)) :
    HearsSuccess s s' h ↔ ∃ m, s.wrapper.loadDataPtr = some (some m) := by
  obtain ⟨hslot, rfl⟩ | ⟨m, mutex, hslot, rfl⟩ := hmoves.callback hstep
  · refine iff_of_false (fun hheard ↦ ?_) ?_
    · simpa using hheard.2
    · rintro ⟨m, hm⟩
      rw [hslot] at hm
      cases hm
  · exact iff_of_true ⟨rfl, rfl⟩ ⟨m, hslot⟩

/-- The call of `connect` that made a client has not assigned its state yet. -/
def Unassigned (s : System) (h : ℕ) : Prop :=
  ∃ c, s.connects c = some (.queued h) ∨ ∃ m, s.connects c = some (.allocated h m)

/-- A step leaves the latest attempt alone: no callback that clears the slot returns while the
attempt is live, or after a connect in its handler; and the success of the attempt comes after its
state has been assigned. -/
def Undisturbed (s : System) : SystemEvent → Prop
  | .handlerReturn t => ∀ f, s.frames t = some f → f.callback.clears = true →
      f.returned = [] ∧ ∀ h, h + 1 = s.paho.count → ¬ s.paho.Live h
  | .paho e => ∀ p h, s.paho.step e = some (p, h, some .mqttOnConnect) → h + 1 = s.paho.count →
      ¬ s.Unassigned h
  | _ => True

/-- While the latest attempt is live, its state has not been assigned yet or there is one in the
slot. -/
structure LatestKept (s : System) : Prop where
  /-- The system's invariant. -/
  wf : s.Wf
  /-- There is a state in the slot once the latest attempt has assigned its own. -/
  slot : ∀ h, h + 1 = s.paho.count → s.paho.Live h → s.Unassigned h ∨ s.wrapper.dataPtr ≠ none

theorem latestKept_init : init.LatestKept where
  wf := wf_init
  slot h hlatest := absurd hlatest (Nat.succ_ne_zero h)

/-- Fewer clients are live, and slot and connects are as before. -/
theorem LatestKept.mono {s s' : System} (hs : s.LatestKept) (hs' : s'.Wf)
    (hlive : ∀ h, s'.paho.Live h → s.paho.Live h) (hcount : s'.paho.count = s.paho.count)
    (hconnects : s'.connects = s.connects) (hslot : s'.wrapper.dataPtr = s.wrapper.dataPtr) :
    s'.LatestKept where
  wf := hs'
  slot h hlatest hh := by
    rw [Unassigned, hconnects, hslot]
    exact hs.slot h (hlatest.trans hcount) (hlive h hh)

/-- **A step that leaves the latest attempt alone** keeps its state in the slot. -/
theorem LatestKept.step {cfg : Config} {s s' : System} {e : SystemEvent} (hs : s.LatestKept)
    (hs' : s'.Wf) (hmoves : Moves cfg s e s') (hundisturbed : s.Undisturbed e) :
    s'.LatestKept := by
  have hpaho : ∀ {e p h cb}, s.paho.step e = some (p, h, cb) →
      (∀ k, p.Live k → s.paho.Live k) ∧ p.count = s.paho.count := fun hstep ↦
    ⟨fun _ hk ↦ live_of_paho hs.wf hstep hk, (Paho.step_moves hs.wf.wellQueued hstep).1.count⟩
  cases hmoves with
  | raised _ => exact hs
  | created c paho mutex _ _ hcount _ _ _ _ =>
    refine ⟨hs', fun h hlatest _ ↦ .inl ⟨c, .inl ?_⟩⟩
    obtain rfl : h = s.paho.count := Nat.succ_injective (hlatest.trans hcount)
    exact Function.update_self ..
  | connectNext c x hx =>
    have hother : ∀ (y : Option Connecting) c', c' ≠ c →
        Function.update s.connects c y c' = s.connects c' := fun y c' hne ↦
      Function.update_of_ne hne _ _
    cases x with
    | queued client =>
      refine ⟨hs', fun h hlatest hh ↦ (hs.slot h hlatest hh).imp_left ?_⟩
      rintro ⟨c', hc'⟩
      rcases eq_or_ne c' c with rfl | hne
      · obtain rfl : client = h := by simpa [hx] using hc'
        exact ⟨c', .inr ⟨_, Function.update_self ..⟩⟩
      · exact ⟨c', by simpa only [connectNext, hother _ c' hne] using hc'⟩
    | allocated client m => exact ⟨hs', fun _ _ _ ↦ .inr nofun⟩
    | assigned client m =>
      refine ⟨hs', fun h hlatest hh ↦ (hs.slot h hlatest hh).imp_left ?_⟩
      rintro ⟨c', hc'⟩
      rcases eq_or_ne c' c with rfl | hne
      · simp [hx] at hc'
      · exact ⟨c', by simpa only [connectNext, hother _ c' hne] using hc'⟩
  | asked c op paho hsame _ =>
    exact hs.mono hs' (fun h hh ↦ (hsame.live_iff h).1 hh) hsame.count rfl rfl
  | assigned c value wrapper hsame => exact hs.mono hs' (fun _ hh ↦ hh) rfl rfl hsame.dataPtr
  | silent e paho h hstep => exact hs.mono hs' (hpaho hstep).1 (hpaho hstep).2 rfl rfl
  | ignored e paho h cb hstep _ => exact hs.mono hs' (hpaho hstep).1 (hpaho hstep).2 rfl rfl
  | called e paho h cb m mutex hstep _ _ =>
    exact hs.mono hs' (hpaho hstep).1 (hpaho hstep).2 rfl rfl
  | handlerReturned t f m mutex hframe _ =>
    by_cases hclears : f.callback.clears = true
    · -- The slot is NULL now, but no attempt is live that would miss its state.
      exact ⟨hs', fun h hlatest hh ↦ absurd hh ((hundisturbed f hframe hclears).2 h hlatest)⟩
    · exact hs.mono hs' (fun _ hh ↦ hh) rfl rfl (by simp [hclears])

/-- The success of the latest attempt is heard. -/
def LatestHeard (s : System) (e : SystemEvent) (s' : System) : Prop :=
  ∀ pe p h, e = .paho pe → s.paho.step pe = some (p, h, some .mqttOnConnect) →
    h + 1 = s.paho.count → HearsSuccess s s' h

/-- A step that leaves the latest attempt alone lets its success be heard. -/
theorem LatestKept.heard {cfg : Config} {s s' : System} {e : SystemEvent} (hs : s.LatestKept)
    (hmoves : Moves cfg s e s') (hundisturbed : s.Undisturbed e) : LatestHeard s e s' := by
  rintro pe p h rfl hstep hlatest
  obtain ⟨-, hmovesPaho, -⟩ := Paho.step_moves hs.wf.wellQueued hstep
  have hslot : s.wrapper.dataPtr ≠ none :=
    (hs.slot h hlatest (hmovesPaho.live_of_aboutConnection rfl)).resolve_left
      (hundisturbed p h hstep hlatest)
  rw [hearsSuccess_iff hmoves hstep]
  obtain ⟨hnull, -⟩ | ⟨m, -, hload, -⟩ := hmoves.callback hstep
  · exact absurd (loadDataPtr_eq_some_iff.1 hnull).2 hslot
  · exact ⟨m, hload⟩

/-- **Reconnects.** Along every run:

* a callback that reports an end keeps the connects made during its handler exactly if there were
  none;
* the success of the latest attempt is heard exactly if the slot is not NULL then;
* if every step leaves the latest attempt undisturbed, then no such connect is lost and the success
  of the latest attempt is always heard. -/
theorem reconnect_iff (cfg : Config) (es : List SystemEvent) :
    (machine cfg).EachStep (fun s e s' ↦ (KeepsReconnects s e s' ↔ s.NoReconnect e) ∧
      ∀ pe p h, e = .paho pe → s.paho.step pe = some (p, h, some .mqttOnConnect) →
        (HearsSuccess s s' h ↔ ∃ m, s.wrapper.loadDataPtr = some (some m))) init es ∧
    ((machine cfg).EachStep (fun s e _ ↦ s.Undisturbed e) init es →
      (machine cfg).EachStep (fun s e s' ↦ KeepsReconnects s e s' ∧ LatestHeard s e s')
        init es) := by
  constructor
  · refine (machine cfg).eachStep_of_inductive (fun s e s' hs hstep ↦ ?_) wf_init es
    obtain ⟨hs', hmoves⟩ := step_moves hs hstep
    refine ⟨⟨keepsReconnects_iff hmoves, ?_⟩, hs'⟩
    rintro pe p h rfl hpaho
    exact hearsSuccess_iff hmoves hpaho
  · refine (machine cfg).eachStep_of_guarded (fun s e s' hs hstep hundisturbed ↦ ?_)
      latestKept_init
    obtain ⟨hs', hmoves⟩ := step_moves hs.wf hstep
    refine ⟨⟨(keepsReconnects_iff hmoves).2 ?_, hs.heard hmoves hundisturbed⟩,
      hs.step hs' hmoves hundisturbed⟩
    rintro t f rfl hframe hclears
    exact (hundisturbed f hframe hclears).1

/-- A client is connected, loses its connection, and the handler of the loss connects again. -/
def reconnectRun : List SystemEvent :=
  configure ++ connectCall .ruby ++
    [sendTurn .sent, .paho (.connack 0 0), .handlerReturn .receive, .paho (.receiveError 0),
      sendTurn .sent] ++ connectCall (.handler .send)

/-- When that handler returns, the new state leaves the slot; and when the CONNACK of the new client
comes, nobody hears it. -/
theorem reconnect_run_lost :
    ¬ (machine ⟨true, true⟩).EachStep KeepsReconnects init
        (reconnectRun ++ [.handlerReturn .send]) ∧
      ¬ (machine ⟨true, true⟩).EachStep LatestHeard init
        (reconnectRun ++ [.handlerReturn .send, sendTurn .sent] ++ [.paho (.connack 1 0)]) := by
  constructor
  · intro h
    have hlast := (machine ⟨true, true⟩).eachStep_last reconnectRun (.handlerReturn .send) h rfl rfl
    have hslot := hlast .send _ rfl rfl rfl 1 (by decide)
    cases hslot
  · have hunheard : ((machine ⟨true, true⟩).run init
        (reconnectRun ++ [.handlerReturn .send, sendTurn .sent])).any (fun t ↦
          1 + 1 = t.paho.count ∧
          (t.paho.step (.connack 1 0)).map Prod.snd = some (1, some .mqttOnConnect) ∧
          ((machine ⟨true, true⟩).step t (.paho (.connack 1 0))).map
            (fun u ↦ u.wrapper.mqttConnected) = some false) = true := by
      decide +kernel
    obtain ⟨t, hrun, ht⟩ := (Option.any_eq_true _ _).1 hunheard
    obtain ⟨hlatest, hpaho, hflag⟩ := of_decide_eq_true ht
    obtain ⟨⟨p, -⟩, hstep, rfl⟩ := Option.map_eq_some_iff.1 hpaho
    obtain ⟨u, hu, hdown⟩ := Option.map_eq_some_iff.1 hflag
    intro h
    have hlast := (machine ⟨true, true⟩).eachStep_last _ _ h hrun hu
    rw [(hlast (.connack 1 0) p 1 rfl hstep hlatest).1] at hdown
    cases hdown

/-! ### While `connect` is returning -/

/-- The failure of an attempt is heard: `on_connect_failure_callback` has been called, once, and the
callback goes on to free the state of that attempt. -/
def HearsFailure (cfg : Config) (s s' : System) (t : Thread) (h : ℕ) : Prop :=
  s'.handlerCalls = s.handlerCalls ++ [(.onConnectFailureCallback, h)] ∧
    ∃ f m, s'.frames t = some f ∧ s'.wrapper.stateClient m = h ∧ ∀ w w' waiting,
      runCallback cfg f.waiting.rest f.waiting.m w = some (w', waiting) → w'.freed = w.freed ++ [m]

/-- A failure is heard, and the state of its attempt freed, exactly if that state is in the slot. -/
theorem hearsFailure_iff {cfg : Config} {s s' : System} {e : PahoEvent}
    (hmoves : Moves cfg s (.paho e) s') {p : Paho} {h : ℕ}
    (hstep : s.paho.step e = some (p, h, some .mqttOnConnectFailure)) :
    HearsFailure cfg s s' e.thread h ↔
      ∃ m, s.wrapper.loadDataPtr = some (some m) ∧ s.wrapper.stateClient m = h := by
  obtain ⟨hslot, rfl⟩ | ⟨m, mutex, hslot, rfl⟩ := hmoves.callback hstep
  · refine iff_of_false (fun hheard ↦ ?_) ?_
    · simpa using hheard.1
    · rintro ⟨m, hm, -⟩
      rw [hslot] at hm
      cases hm
  · constructor
    · rintro ⟨-, f, m', hf, hclient, htail⟩
      obtain rfl := Option.some.inj ((Function.update_self e.thread _ s.frames).symm.trans hf)
      -- What the tail frees does not depend on the wrapper it finds: try it on the first one.
      have hfreed := htail mqttInit _ _
        (Callback.runCallback_tail .mqttOnConnectFailure cfg (some m) _)
      obtain rfl : m = m' := by simpa [Callback.clears] using hfreed
      exact ⟨m, hslot, hclient⟩
    · rintro ⟨m', hslot', hclient⟩
      obtain rfl : m = m' := by simpa [hslot] using hslot'
      refine ⟨rfl, _, m, Function.update_self .., hclient, fun w w' waiting hrun ↦ ?_⟩
      rw [Callback.runCallback_tail] at hrun
      obtain ⟨rfl, -⟩ := Prod.mk.inj (Option.some.inj hrun)
      rfl

end System

/-! ### Before `_self` is set -/

namespace Paho

/-- A handle that at most an attempt to connect has been made with: the client is not connected, and
nothing else is on the way. -/
structure Attempting (m : MqttAsyncs) : Prop where
  /-- The client is not connected. -/
  connected : m.c.connected = false
  /-- It is idle, its TCP connect is pending, or its CONNECT has been sent. -/
  connectState : m.c.connectState = 0 ∨ m.c.connectState = 1 ∨ m.c.connectState = 3
  /-- No partial write. -/
  pendingWrite : m.pendingWrite = false
  /-- No command that waits for a response. -/
  responses : m.responses = []

theorem Unused.attempting {m : MqttAsyncs} (hm : Unused m) : Attempting m := by
  have hidle : m.c.connected = false ∧ m.c.connectState = 0 := by
    simpa [Clients.hasSocket] using hm.hasSocket
  exact ⟨hidle.1, .inl hidle.2, hm.pendingWrite, hm.responses⟩

/-- All that Paho has done is to try to connect, and no attempt has succeeded. -/
structure OnlyConnects (p : Paho) : Prop where
  /-- Each handle is idle or attempting. -/
  handle : ∀ h, Attempting (p.handle h)
  /-- The queue holds CONNECTs, not tried before or to be tried with the second version. -/
  commands : ∀ command ∈ p.commands,
    command.details = .connect 0 ∨ command.details = .connect 4

theorem onlyConnects_init : init.OnlyConnects :=
  ⟨fun _ ↦ ⟨rfl, .inl rfl, rfl, rfl⟩, fun _ hmem ↦ absurd hmem List.not_mem_nil⟩

namespace OnlyConnects

variable {p : Paho}

theorem setHandle (hp : p.OnlyConnects) (h : ℕ) {m : MqttAsyncs} (hm : Attempting m) :
    (p.setHandle h m).OnlyConnects := by
  refine ⟨fun k ↦ ?_, hp.commands⟩
  rw [handle_setHandle]
  rcases eq_or_ne k h with rfl | hne
  · rwa [Function.update_self]
  · rw [Function.update_of_ne hne]
    exact hp.handle k

/-- The commands that are left are still CONNECTs. -/
theorem mono (hp : p.OnlyConnects) {p' : Paho} (hhandle : p'.handle = p.handle)
    (hcommands : ∀ command ∈ p'.commands, command ∈ p.commands) : p'.OnlyConnects :=
  ⟨fun h ↦ hhandle ▸ hp.handle h, fun command hmem ↦ hp.commands command (hcommands command hmem)⟩

/-- An attempt is put back in the queue. -/
theorem addCommand (hp : p.OnlyConnects) (h : ℕ) :
    (p.mqttAsyncAddCommand ⟨h, 0, .connect 4⟩).OnlyConnects := by
  refine ⟨fun k ↦ ?_, fun command hmem ↦ ?_⟩
  · rw [handle_addCommand]
    exact hp.handle k
  · rcases mem_addCommand hmem with hold | rfl
    · exact hp.commands command hold
    · exact .inr rfl

theorem closeOnly (hp : p.OnlyConnects) (h : ℕ) : (p.mqttAsyncCloseOnly h).OnlyConnects :=
  hp.setHandle h ⟨rfl, .inl rfl, (hp.handle h).pendingWrite, (hp.handle h).responses⟩

theorem closeSession (hp : p.OnlyConnects) (h : ℕ) : (p.mqttAsyncCloseSession h).OnlyConnects := by
  rw [mqttAsyncCloseSession]
  split_ifs
  · have hclosed := hp.closeOnly h
    rw [mqttAsyncCleanSession, mqttAsyncRemoveResponsesAndCommands]
    set q := (p.mqttAsyncCloseOnly h).setClient h
      { (p.mqttAsyncCloseOnly h).client h with msgID := 0 } with hq
    have hq' : q.OnlyConnects := hclosed.setHandle h
      ⟨(hclosed.handle h).connected, (hclosed.handle h).connectState,
        (hclosed.handle h).pendingWrite, (hclosed.handle h).responses⟩
    have hemptied := hq'.setHandle h (m := { q.handle h with responses := [] })
      ⟨(hq'.handle h).connected, (hq'.handle h).connectState, (hq'.handle h).pendingWrite, rfl⟩
    exact hemptied.mono rfl fun command hmem ↦ (List.mem_filter.1 hmem).1
  · exact hp.closeOnly h

theorem connectFailed (hp : p.OnlyConnects) (h : ℕ) : (p.connectFailed h).1.OnlyConnects := by
  rw [Paho.connectFailed]
  by_cases hmore : mqttAsyncCheckConn (p.handle h).connectVersion = true
  · simp only [if_pos hmore]
    rw [beq_iff_eq.1 hmore]
    exact (hp.closeOnly h).addCommand h
  · simp only [if_neg hmore]
    exact hp.closeSession h

/-- A CONNECT is taken from the queue. -/
theorem processConnect (hp : p.OnlyConnects) (h version : ℕ) (tcp : Tcp) :
    (p.processConnect h version tcp).1.OnlyConnects := by
  have hm := hp.handle h
  rw [Paho.processConnect]
  by_cases hbusy : ((p.handle h).c.connectState ≠ 0 || (p.handle h).c.connected) = true
  · rw [if_pos hbusy]
    exact hp.setHandle h ⟨hm.connected, hm.connectState, hm.pendingWrite, hm.responses⟩
  · rw [if_neg hbusy]
    generalize (if version = 0 then 4 else if version = 4 then 3 else version) = tried
    cases tcp with
    | inProgress =>
      exact hp.setHandle h ⟨hm.connected, .inr (.inl rfl), hm.pendingWrite, hm.responses⟩
    | sent => exact hp.setHandle h ⟨hm.connected, .inr (.inr rfl), hm.pendingWrite, hm.responses⟩
    | failed =>
      dsimp only
      split_ifs with hmore
      · rw [beq_iff_eq.1 hmore]
        exact hp.addCommand h
      · exact hp

/-- No response is awaited, so none is taken off. -/
theorem takeResponse (hp : p.OnlyConnects) (h msgId : ℕ) (callback : Command → Option Callback) :
    p.takeResponse h msgId callback = (p, none) := by
  rw [Paho.takeResponse]
  simp only [(hp.handle h).responses, List.find?_nil]

/-- **A step** other than the success of an attempt leaves it so. -/
theorem step (hp : p.OnlyConnects) {p' : Paho} {e : PahoEvent} {h : ℕ} {cb : Option Callback}
    (hcb : cb ≠ some .mqttOnConnect) (hstep : p.step e = some (p', h, cb)) : p'.OnlyConnects := by
  cases step_cases hstep with
  | processCommand hturn =>
    rw [mqttAsyncProcessCommand, Option.map_eq_some_iff] at hturn
    obtain ⟨command, hnext, hdone⟩ := hturn
    have hdetached : { p with commands := p.commands.erase command }.OnlyConnects :=
      hp.mono rfl fun _ hmem ↦ List.mem_of_mem_erase hmem
    rcases hp.commands command (mem_of_nextCommand hnext) with hdetails | hdetails <;>
      simp only [hdetails, Prod.mk.injEq] at hdone
    · exact hdone.1 ▸ hdetached.processConnect ..
    · exact hdone.1 ▸ hdetached.processConnect ..
  | connectFailed _ _ => exact hp.connectFailed h
  | connecting _ _ =>
    have hm := hp.handle h
    exact hp.setHandle h ⟨hm.connected, .inr (.inr rfl), hm.pendingWrite, hm.responses⟩
  | disconnectInternal _ hconnected =>
    rw [client, (hp.handle h).connected] at hconnected
    cases hconnected
  | closeOnly _ _ _ => exact hp.closeOnly h
  | connack _ rc _ =>
    rw [receiveConnack] at hcb ⊢
    by_cases hcomplete : ((p.client h).connectState = 3 && rc = 0) = true
    · simp only [if_pos hcomplete, ne_eq, not_true_eq_false] at hcb
    · simp only [if_neg hcomplete]
      exact hp.connectFailed h
  | takeResponse _ msgId callback _ =>
    rw [hp.takeResponse]
    exact hp
  | messageArrived _ _ => exact hp
  | writeComplete _ command rest hresponses =>
    rw [(hp.handle h).responses] at hresponses
    cases hresponses

end OnlyConnects

/-- What there is to report as long as Paho has done nothing but try to connect: an attempt fails
with no version left to try, it succeeds, or a message comes before its CONNACK. -/
def Reports (p : Paho) : PahoEvent → Prop
  | .processCommand _ tcp _ =>
    tcp = .failed ∧ ∃ command, p.commands.head? = some command ∧ command.details = .connect 4
  | .connectTimeout h =>
    (p.client h).connectState ≠ 0 ∧ mqttAsyncCheckConn (p.handle h).connectVersion = false
  | .connecting h ok =>
    (p.client h).connectState = 1 ∧ ok = false ∧
      mqttAsyncCheckConn (p.handle h).connectVersion = false
  | .cycleError h =>
    (p.client h).connectState = 3 ∧ mqttAsyncCheckConn (p.handle h).connectVersion = false
  | .connack h rc =>
    (p.client h).connectState = 3 ∧
      (rc = 0 ∨ mqttAsyncCheckConn (p.handle h).connectVersion = false)
  | .messageArrived h => (p.client h).connectState = 3
  | .receiveError _ | .suback _ _ _ | .puback _ _ | .writeComplete _ | .closeSession _ => False

theorem isSome_connectFailed_iff (p : Paho) (h : ℕ) :
    (p.connectFailed h).2.isSome ↔ mqttAsyncCheckConn (p.handle h).connectVersion = false := by
  rw [Paho.connectFailed]
  by_cases hmore : mqttAsyncCheckConn (p.handle h).connectVersion = true
  · simp [hmore]
  · simp [Bool.eq_false_iff.2 hmore]

theorem exists_callback_some_iff {q : Paho} {k : ℕ} {callback : Option Callback} :
    (∃ p' h cb, some (q, k, callback) = some (p', h, some cb)) ↔ callback.isSome := by
  rw [Option.isSome_iff_exists]
  constructor
  · rintro ⟨p', h, cb, heq⟩
    exact ⟨cb, congrArg (fun x ↦ x.2.2) (Option.some.inj heq)⟩
  · rintro ⟨cb, rfl⟩
    exact ⟨q, k, cb, rfl⟩

/-- The callback of a step that only happens in some states. -/
theorem exists_callback_ite_iff {c : Prop} [Decidable c] {q : Paho} {k : ℕ}
    {callback : Option Callback} :
    (∃ p' h cb, (if c then some (q, k, callback) else none) = some (p', h, some cb)) ↔
      c ∧ callback.isSome := by
  by_cases hc : c
  · rw [if_pos hc, and_iff_right hc, exists_callback_some_iff]
  · rw [if_neg hc]
    exact iff_of_false (by rintro ⟨_, _, _, ⟨⟩⟩) fun h ↦ hc h.1

/-- **When a callback is made** as long as Paho has done nothing but try to connect. -/
theorem exists_callback_iff {p : Paho} (hp : p.OnlyConnects) (hwf : p.WellQueued) (e : PahoEvent) :
    (∃ p' h cb, p.step e = some (p', h, some cb)) ↔ p.Reports e := by
  have hdown : ∀ h, (p.client h).connected = false := fun h ↦ (hp.handle h).connected
  -- A client that is not connected has a socket in the two states of an attempt.
  have hsocket : ∀ h, ((p.client h).hasSocket && (p.client h).connectState ≠ 1) = true ↔
      (p.client h).connectState = 3 := fun h ↦ by
    rcases (hp.handle h).connectState with hstate | hstate | hstate <;>
      simp [Clients.hasSocket, hdown, show (p.client h).connectState = _ from hstate]
  cases e with
  | processCommand canSend tcp write =>
    rw [step, mqttAsyncProcessCommand, Reports]
    rcases hcommands : p.commands with - | ⟨command, rest⟩
    · simp [nextCommand]
    have hmem : command ∈ p.commands := hcommands ▸ List.mem_cons_self
    have hconnect : command.isConnect = true := by
      rcases hp.commands command hmem with hdetails | hdetails <;> rw [Command.isConnect, hdetails]
    have hidle : (p.client command.client).hasSocket = false :=
      hwf.idle _ (List.mem_map.2 ⟨command, List.mem_filter.2 ⟨hmem, hconnect⟩, rfl⟩)
    have hbusy : ¬ ((p.handle command.client).c.connectState ≠ 0 ||
        (p.handle command.client).c.connected) = true := by
      rwa [Bool.not_eq_true, Bool.or_comm]
    have hfirst : nextCommand p canSend [] (command :: rest) = some command := by
      simp [nextCommand, hconnect]
    rw [hfirst, Option.map_some, exists_callback_some_iff, List.head?_cons]
    rcases hp.commands command hmem with hdetails | hdetails <;>
      simp only [hdetails, processConnect, if_neg hbusy] <;> cases tcp <;>
      simp [mqttAsyncCheckConn, hdetails]
  | connectTimeout h =>
    rw [step, exists_callback_ite_iff, isSome_connectFailed_iff, Reports]
  | connecting h ok =>
    rw [step, Reports]
    by_cases hstate : (p.client h).connectState = 1
    · rw [if_pos hstate, and_iff_right hstate]
      cases ok with
      | false =>
        rw [if_neg Bool.false_ne_true, exists_callback_some_iff, isSome_connectFailed_iff,
          and_iff_right rfl]
      | true =>
        rw [if_pos rfl, exists_callback_some_iff]
        simp
    · rw [if_neg hstate]
      exact iff_of_false (by rintro ⟨_, _, _, ⟨⟩⟩) fun h ↦ hstate h.1
  | cycleError h =>
    rw [step, exists_callback_ite_iff, isSome_connectFailed_iff, Reports]
  | connack h rc =>
    rw [step, exists_callback_ite_iff, hsocket, Reports]
    refine and_congr_right fun hstate ↦ ?_
    rw [receiveConnack]
    by_cases hrc : rc = 0
    · simp [hstate, hrc]
    · simp only [hstate, hrc, decide_true, decide_false, Bool.and_false, Bool.false_eq_true,
        if_false, isSome_connectFailed_iff, false_or]
  | messageArrived h =>
    rw [step, exists_callback_ite_iff, hsocket, Reports]
    exact and_iff_left rfl
  | receiveError h =>
    rw [step, exists_callback_ite_iff, Reports]
    simp
  | suback h msgId granted =>
    rw [step, exists_callback_ite_iff, hp.takeResponse, Reports]
    simp
  | puback h msgId =>
    rw [step, exists_callback_ite_iff, hp.takeResponse, Reports]
    simp
  | writeComplete h =>
    rw [step, Reports]
    simp [(hp.handle h).pendingWrite]
  | closeSession h =>
    rw [step, Reports, if_neg (by rw [hdown]; exact Bool.false_ne_true)]
    exact iff_of_false (by rintro ⟨_, _, _, ⟨⟩⟩) id

end Paho

namespace System

/-- The callback that a step of Paho's ends in reads `_self`, which has not been set. No thread is
held up then: one that is in a callback has found `_self` set. -/
def ReadsSelfUnset (s : System) (e : SystemEvent) : Prop :=
  s.wrapper.self = false ∧ ∃ pe p h cb, e = .paho pe ∧ s.paho.step pe = some (p, h, some cb)

/-- Paho has something to report before `_self` has been set. -/
def ReportsEarly (s : System) (e : SystemEvent) : Prop :=
  s.wrapper.self = false ∧ ∃ pe, e = .paho pe ∧ s.paho.Reports pe

/-- As long as `_self` is not set, Paho has done nothing but try to connect. -/
structure Published (s : System) : Prop where
  /-- The system's invariant. -/
  wf : s.Wf
  /-- Before the first `connect` has returned, nothing has been heard of its attempt. -/
  onlyConnects : s.wrapper.self = false → s.paho.OnlyConnects

theorem published_init : init.Published := ⟨wf_init, fun _ ↦ Paho.onlyConnects_init⟩

/-- **Every step** keeps it: a callback that came too early would not have come back. -/
theorem Published.step {cfg : Config} {s s' : System} {e : SystemEvent} (hs : s.Published)
    (hs' : s'.Wf) (hmoves : Moves cfg s e s') : s'.Published := by
  refine ⟨hs', ?_⟩
  have hload : s.wrapper.self = false → ∀ {ptr}, s.wrapper.loadDataPtr ≠ some ptr :=
    fun hself ptr hload ↦ by
      rw [(loadDataPtr_eq_some_iff.1 hload).1] at hself
      cases hself
  cases hmoves with
  | raised _ => exact hs.onlyConnects
  | created c paho mutex _ _ _ _ hunused hother hcommands =>
    intro hself
    refine ⟨fun h ↦ ?_, fun command hmem ↦ ?_⟩
    · rcases eq_or_ne h s.paho.count with rfl | hne
      · exact hunused.attempting
      · exact (hother h hne).1 ▸ (hs.onlyConnects hself).handle h
    · rcases hcommands command hmem with hold | rfl
      · exact (hs.onlyConnects hself).commands command hold
      · exact .inl rfl
  | connectNext c x _ =>
    cases x with
    | queued client => exact hs.onlyConnects
    | allocated client m => exact hs.onlyConnects
    | assigned client m => exact nofun
  | asked c op paho _ hslot =>
    intro hself
    obtain ⟨m, hslot⟩ := hslot
    exact absurd hslot (hload hself)
  | assigned c value wrapper hsame =>
    exact fun hself ↦ hs.onlyConnects (hsame.self.symm.trans hself)
  | silent e paho h hstep =>
    exact fun hself ↦ (hs.onlyConnects hself).step (Option.some_ne_none _).symm hstep
  | ignored e paho h cb _ hslot => exact fun hself ↦ absurd hslot (hload hself)
  | called e paho h cb m mutex _ hslot _ => exact fun hself ↦ absurd hslot (hload hself)
  | handlerReturned t f m mutex _ _ => cases f.callback.clears <;> exact hs.onlyConnects

/-- `_self` is read before it is set exactly if Paho has something to report. -/
theorem Published.readsSelfUnset_iff {s : System} (hs : s.Published) (e : SystemEvent) :
    s.ReadsSelfUnset e ↔ s.ReportsEarly e := by
  refine and_congr_right fun hself ↦ exists_congr fun pe ↦ ?_
  simp only [exists_and_left]
  exact and_congr_right fun _ ↦
    Paho.exists_callback_iff (hs.onlyConnects hself) hs.wf.wellQueued pe

/-- **Events while `connect` is returning.** Along every run:

* a success is heard exactly if the slot is not NULL when it comes;
* a failure is heard, and its state released, exactly if the slot holds the state of that attempt;
* no callback reads `_self` unset exactly if Paho has nothing to report until `_self` is set. -/
theorem connect_events_iff (cfg : Config) (es : List SystemEvent) :
    (machine cfg).EachStep (fun s e s' ↦ ∀ pe p h, e = .paho pe →
      (s.paho.step pe = some (p, h, some .mqttOnConnect) →
        (HearsSuccess s s' h ↔ ∃ m, s.wrapper.loadDataPtr = some (some m))) ∧
      (s.paho.step pe = some (p, h, some .mqttOnConnectFailure) →
        (HearsFailure cfg s s' pe.thread h ↔
          ∃ m, s.wrapper.loadDataPtr = some (some m) ∧ s.wrapper.stateClient m = h))) init es ∧
    ((machine cfg).EachTried (fun s e ↦ ¬ s.ReadsSelfUnset e) init es ↔
      (machine cfg).EachTried (fun s e ↦ ¬ s.ReportsEarly e) init es) := by
  constructor
  · refine (machine cfg).eachStep_of_inductive (fun s e s' hs hstep ↦ ?_) wf_init es
    obtain ⟨hs', hmoves⟩ := step_moves hs hstep
    refine ⟨?_, hs'⟩
    rintro pe p h rfl
    exact ⟨fun hpaho ↦ hearsSuccess_iff hmoves hpaho, fun hpaho ↦ hearsFailure_iff hmoves hpaho⟩
  · refine (machine cfg).eachTried_iff (fun s e s' (hs : s.Published) hstep ↦ ?_)
      (fun s e hs ↦ not_congr (hs.readsSelfUnset_iff e)) published_init es
    obtain ⟨hs', hmoves⟩ := step_moves hs.wf hstep
    exact hs.step hs' hmoves

/-- The first client disconnects, which leaves the slot NULL; the program connects again, and the
send thread takes the CONNECT from the queue at once. -/
def windowRun : List SystemEvent :=
  configure ++ connectCall .ruby ++
    [sendTurn .sent, .paho (.connack 0 0), .handlerReturn .receive, .api .ruby .disconnect,
      sendTurn .sent, .handlerReturn .send, .connect .ruby, sendTurn .sent]

/-- The CONNACK that comes before `connect` has assigned its state is not heard; and in the window
of the first `connect` a callback reads `_self` unset. -/
theorem window_run_unheard :
    (∃ t u p, (machine ⟨true, true⟩).run init windowRun = some t ∧
        t.paho.step (.connack 1 0) = some (p, 1, some .mqttOnConnect) ∧
        (machine ⟨true, true⟩).step t (.paho (.connack 1 0)) = some u ∧ ¬ HearsSuccess t u 1) ∧
      ¬ (machine ⟨true, true⟩).EachTried (fun s e ↦ ¬ s.ReadsSelfUnset e) init
        (configure ++ [.connect .ruby, sendTurn .sent] ++ [.paho (.connack 0 0)]) := by
  constructor
  · have hunheard : ((machine ⟨true, true⟩).run init windowRun).any (fun t ↦
          (t.paho.step (.connack 1 0)).map Prod.snd = some (1, some .mqttOnConnect) ∧
          ((machine ⟨true, true⟩).step t (.paho (.connack 1 0))).map
            (fun u ↦ u.wrapper.mqttConnected) = some false) = true := by
      decide +kernel
    obtain ⟨t, hrun, ht⟩ := (Option.any_eq_true _ _).1 hunheard
    obtain ⟨hpaho, hflag⟩ := of_decide_eq_true ht
    obtain ⟨⟨p, -⟩, hstep, rfl⟩ := Option.map_eq_some_iff.1 hpaho
    obtain ⟨u, hu, hdown⟩ := Option.map_eq_some_iff.1 hflag
    refine ⟨t, u, p, hrun, hstep, hu, fun hheard ↦ ?_⟩
    rw [hheard.1] at hdown
    cases hdown
  · obtain ⟨t, p, hrun, hstep, hself⟩ : ∃ t p,
        (machine ⟨true, true⟩).run init (configure ++ [.connect .ruby, sendTurn .sent]) = some t ∧
        t.paho.step (.connack 0 0) = some (p, 0, some .mqttOnConnect) ∧ t.wrapper.self = false :=
      ⟨_, _, rfl, rfl, rfl⟩
    intro h
    have hlast := (machine ⟨true, true⟩).eachTried_last _ _ h hrun
    exact hlast ⟨hself, _, p, 0, .mqttOnConnect, rfl, hstep⟩

end System
