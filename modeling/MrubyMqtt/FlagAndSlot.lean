import MrubyMqtt.System

/-!
# The flag and the slot

What the callbacks make of `mqtt_connected` and `DATA_PTR(_self)`, for any number of clients in any
order.

`FlagAgrees` is what the API relies on: while the flag is TRUE the slot holds a state, and that
state's client is connected. `KeepsFlag` is the exact condition on a step for it to stay so
(`flag_agrees_iff`), and `Bricked` the state in which the singleton can never be used again
(`bricked_forever`).

A callback acts on the slot whatever client it was called for. `Spares` says that it leaves the
state of another client alone, in what it has done and in what its tail will do; it does so in one
case only (`spares_iff`).
-/

open Bytes Wrapper

namespace System

/-! ### Agreement -/

/-- If the flag is TRUE, the slot holds a state whose client is connected. -/
def FlagAgrees (s : System) : Prop :=
  s.wrapper.mqttConnected = true → ∃ m, s.wrapper.loadDataPtr = some (some m) ∧
    (s.paho.client (s.wrapper.stateClient m)).connected = true

/-- What a step must be like for flag and slot to go on agreeing.

* A connect that assigns its state while the flag is TRUE has a connected client.
* A CONNACK that completes a connection finds in the slot a state of that client, or of a connected
  one. No other CONNACK comes for the client in the slot while the flag is TRUE.
* When the handler of an end returns, the flag is FALSE. -/
def KeepsFlag (s : System) : SystemEvent → Prop
  | .connectNext c => ∀ h m, s.connects c = some (.allocated h m) →
      s.wrapper.mqttConnected = true → (s.paho.client h).connected = true
  | .paho (.connack h rc) => ∀ m, s.wrapper.dataPtr = some m →
      if (s.paho.client h).connectState = 3 ∧ rc = 0 then
        s.wrapper.stateClient m = h ∨ (s.paho.client (s.wrapper.stateClient m)).connected = true
      else s.wrapper.mqttConnected = true → s.wrapper.stateClient m ≠ h
  | .handlerReturn t => ∀ f, s.frames t = some f → f.callback.clears = true →
      s.wrapper.mqttConnected = false
  | _ => True

/-- What a step of Paho's for client `h` must lead to, if the slot holds a state of client `k`: a
success that is reported comes while `k` is connected; and `k` loses its connection under the flag
only where a loss or a disconnect is reported. -/
def CallbackKeeps (s : System) (p : Paho) (h k : ℕ) : Option Callback → Prop
  | some .mqttOnConnect => k = h ∨ (s.paho.client k).connected = true
  | some .mqttConnlost | some .mqttOnDisconnect => True
  | _ => s.wrapper.mqttConnected = true → k = h → (p.client h).connected = true

/-- The client in the slot after a step of Paho's. -/
theorem connected_slot_iff {s : System} {p : Paho} {h : ℕ} (honly : s.paho.Only h p) {m : ℕ}
    (hbefore : (s.paho.client (s.wrapper.stateClient m)).connected = true) :
    (p.client (s.wrapper.stateClient m)).connected = true ↔
      (s.wrapper.stateClient m = h → (p.client h).connected = true) := by
  rcases eq_or_ne (s.wrapper.stateClient m) h with heq | hne
  · simp [heq]
  · rw [honly.client _ hne]
    exact iff_of_true hbefore fun heq ↦ absurd heq hne

/-- Agreement after a step of Paho's that leaves the flag as it is. -/
theorem flagAgrees_paho_iff {s : System} {p : Paho} {h : ℕ} (hagrees : s.FlagAgrees)
    (honly : s.paho.Only h p) {w : Wrapper} (hself : w.self = s.wrapper.self)
    (hflag : w.mqttConnected = s.wrapper.mqttConnected) (hslot : w.dataPtr = s.wrapper.dataPtr)
    (hclient : w.stateClient = s.wrapper.stateClient) {frames : Thread → Option Frame}
    {mutex : Option Thread} {connects : Caller → Option Connecting}
    {handlerCalls : List (Method × ℕ)} :
    (System.mk p w frames mutex connects handlerCalls).FlagAgrees ↔
      ∀ m, s.wrapper.dataPtr = some m → s.wrapper.mqttConnected = true →
        s.wrapper.stateClient m = h → (p.client h).connected = true := by
  simp only [FlagAgrees, hflag, hclient]
  constructor
  · intro hafter m hm hconnected
    obtain ⟨m', hload, hup⟩ := hafter hconnected
    obtain ⟨m₀, hload₀, hup₀⟩ := hagrees hconnected
    have hm' : w.dataPtr = some m' := (loadDataPtr_eq_some_iff.1 hload).2
    obtain rfl : m = m' := Option.some.inj (hm.symm.trans (hslot.symm.trans hm'))
    obtain rfl : m = m₀ := Option.some.inj (hm.symm.trans (loadDataPtr_eq_some_iff.1 hload₀).2)
    exact (connected_slot_iff honly hup₀).1 hup
  · intro hkeeps hconnected
    obtain ⟨m, hload, hup⟩ := hagrees hconnected
    obtain ⟨hself', hm⟩ := loadDataPtr_eq_some_iff.1 hload
    refine ⟨m, loadDataPtr_eq_some_iff.2 ⟨hself.trans hself', hslot.trans hm⟩, ?_⟩
    exact (connected_slot_iff honly hup).2 (hkeeps m hm hconnected)

/-- What a step of Paho's that meets the condition leads to. -/
theorem keepsFlag_paho_iff {s : System} (hsettled : s.paho.Settled) (hagrees : s.FlagAgrees)
    {e : PahoEvent} {p : Paho} {h : ℕ} {cb : Option Callback}
    (hstep : s.paho.step e = some (p, h, cb)) : s.KeepsFlag (.paho e) ↔
      ∀ m, s.wrapper.dataPtr = some m → s.CallbackKeeps p h (s.wrapper.stateClient m) cb := by
  have hslot : ∀ m, s.wrapper.dataPtr = some m → s.wrapper.mqttConnected = true →
      (s.paho.client (s.wrapper.stateClient m)).connected = true := by
    intro m hm hflag
    obtain ⟨m', hload, hup⟩ := hagrees hflag
    obtain rfl : m = m' := Option.some.inj (hm.symm.trans (loadDataPtr_eq_some_iff.1 hload).2)
    exact hup
  constructor
  · intro hkeeps m hm
    by_cases hcb : cb = some .mqttOnConnect
    · -- A success is a CONNACK that its client has waited for.
      subst hcb
      obtain ⟨rfl, hwaiting⟩ := Paho.connack_of_onConnect hstep
      have hkept := hkeeps m hm
      rwa [if_pos ⟨hwaiting, rfl⟩] at hkept
    · -- Otherwise the client in the slot is connected still, or its end is reported.
      have hkept : s.wrapper.mqttConnected = true → s.wrapper.stateClient m = h →
          (p.client h).connected = true ∨ cb = some .mqttConnlost ∨
            cb = some .mqttOnDisconnect := by
        rintro hflag rfl
        obtain hup | hlost | hended | ⟨rc, rfl⟩ := hsettled.connected_or hstep (hslot m hm hflag)
        · exact .inl hup
        · exact .inr (.inl hlost)
        · exact .inr (.inr hended)
        · -- A CONNACK for a connected client fails its connection.
          have hstate := hsettled _ (hslot m hm hflag)
          have hnot := hkeeps m hm
          simp only [hstate, OfNat.zero_ne_ofNat, false_and, if_false] at hnot
          exact absurd rfl (hnot hflag)
      rcases cb with - | cb
      · exact fun hflag hk ↦ by simpa using hkept hflag hk
      · cases cb with
        | mqttOnConnect => exact absurd rfl hcb
        | mqttConnlost | mqttOnDisconnect => trivial
        | _ => exact fun hflag hk ↦ by simpa using hkept hflag hk
  · intro hafter
    cases e with
    | connack k rc =>
      simp only [Paho.step] at hstep
      split_ifs at hstep
      obtain ⟨rfl, rfl, rfl⟩ := hstep
      intro m hm
      have hkept := hafter m hm
      by_cases hcomplete : (s.paho.client h).connectState = 3 ∧ rc = 0
      · have hcb : (s.paho.receiveConnack h rc).2 = some .mqttOnConnect := by
          rw [Paho.receiveConnack, if_pos (by simpa using hcomplete)]
        rw [hcb] at hkept
        rw [if_pos hcomplete]
        exact hkept
      · -- A CONNACK that completes nothing closes its client, whatever it reports.
        rw [if_neg hcomplete]
        rintro hflag rfl
        have hfailed : s.paho.receiveConnack (s.wrapper.stateClient m) rc =
            s.paho.connectFailed (s.wrapper.stateClient m) := by
          rw [Paho.receiveConnack, if_neg (by simpa using hcomplete)]
        have hup : ((s.paho.connectFailed (s.wrapper.stateClient m)).1.client
            (s.wrapper.stateClient m)).connected = true := by
          rw [hfailed] at hkept
          rcases hcb : (s.paho.connectFailed (s.wrapper.stateClient m)).2 with - | cb
          · rw [hcb] at hkept
            exact hkept hflag rfl
          · obtain rfl := Paho.connectFailed_callback hcb
            rw [hcb] at hkept
            exact hkept hflag rfl
        have hdown := s.paho.hasSocket_connectFailed (s.wrapper.stateClient m)
        simp [Clients.hasSocket, hup] at hdown
    | _ => trivial

/-- The clients stay settled. -/
theorem settled_step {cfg : Config} {s s' : System} {e : SystemEvent} (hs : s.Wf)
    (hsettled : s.paho.Settled) (hmoves : Moves cfg s e s') : s'.paho.Settled := by
  have hpaho : ∀ {e p h cb}, s.paho.step e = some (p, h, cb) → p.Settled := fun hstep ↦
    hsettled.step hstep (Paho.step_moves hs.wellQueued hstep).1
  cases hmoves with
  | raised _ => exact hsettled
  | created c paho mutex _ _ _ _ hunused hother _ =>
    intro k hk
    rcases eq_or_ne k s.paho.count with rfl | hne
    · have hdown : (paho.client s.paho.count).hasSocket = false := hunused.hasSocket
      simp [Clients.hasSocket, hk] at hdown
    · exact (congrArg (fun m ↦ m.c.connectState) (hother k hne).1).trans
        (hsettled k ((congrArg (fun m ↦ m.c.connected) (hother k hne).1).symm.trans hk))
  | connectNext c x _ => exact hsettled
  | asked c op paho hsame _ => exact hsame.settled hsettled
  | assigned c value wrapper _ => exact hsettled
  | silent e paho h hstep => exact hpaho hstep
  | ignored e paho h cb hstep _ => exact hpaho hstep
  | called e paho h cb m mutex hstep _ _ => exact hpaho hstep
  | handlerReturned t f m mutex _ _ => exact hsettled

/-- A call of `connect` that goes on. -/
theorem flagAgrees_connectNext_iff {s : System} (hs : s.Wf) (hagrees : s.FlagAgrees) {c : Caller}
    {x : Connecting} (hx : s.connects c = some x) :
    (s.connectNext c x).FlagAgrees ↔ s.KeepsFlag (.connectNext c) := by
  cases x with
  | queued client =>
    -- The new state has another address than the one in the slot.
    refine iff_of_true (fun hconnected ↦ ?_) fun h m hm ↦ ?_
    · obtain ⟨m, hload, hup⟩ := hagrees hconnected
      have hne : m ≠ s.wrapper.stateCount := (hs.slotKnown m (loadDataPtr_eq_some_iff.1 hload).2).ne
      refine ⟨m, hload, ?_⟩
      have hclient : (s.connectNext c (.queued client)).wrapper.stateClient m =
          s.wrapper.stateClient m := Function.update_of_ne hne _ _
      rw [hclient]
      exact hup
    · rw [hx] at hm
      cases hm
  | allocated client m =>
    have hclient : s.wrapper.stateClient m = client := (hs.stateKnown c _ m hx rfl).2
    constructor
    · intro hafter h m' hm hconnected
      obtain ⟨rfl, rfl⟩ : client = h ∧ m = m' := by
        rw [hx] at hm
        simpa using hm
      obtain ⟨m', hload, hup⟩ := hafter hconnected
      obtain rfl : m = m' := Option.some.inj (loadDataPtr_eq_some_iff.1 hload).2
      exact hclient ▸ hup
    · intro hkeeps hconnected
      obtain ⟨m₀, hload, -⟩ := hagrees hconnected
      refine ⟨m, loadDataPtr_eq_some_iff.2 ⟨(loadDataPtr_eq_some_iff.1 hload).1, rfl⟩, ?_⟩
      exact (congrArg (fun k ↦ (s.paho.client k).connected) hclient).trans
        (hkeeps client m hx hconnected)
  | assigned client m =>
    refine iff_of_true (fun hconnected ↦ ?_) fun h m hm ↦ ?_
    · obtain ⟨m₀, hload, hup⟩ := hagrees hconnected
      exact ⟨m₀, loadDataPtr_eq_some_iff.2 ⟨rfl, (loadDataPtr_eq_some_iff.1 hload).2⟩, hup⟩
    · rw [hx] at hm
      cases hm

/-- A callback that calls its handler. -/
theorem flagAgrees_called_iff {s : System} (hs : s.Wf) (hagrees : s.FlagAgrees) {e : PahoEvent}
    {p : Paho} {h : ℕ} {cb : Callback} (hstep : s.paho.step e = some (p, h, some cb)) {m : ℕ}
    (hslot : s.wrapper.loadDataPtr = some (some m)) {frames : Thread → Option Frame}
    {mutex : Option Thread} {connects : Caller → Option Connecting}
    {handlerCalls : List (Method × ℕ)} :
    (System.mk p { s.wrapper with mqttConnected := cb.flagAfter s.wrapper.mqttConnected } frames
      mutex connects handlerCalls).FlagAgrees ↔
      s.CallbackKeeps p h (s.wrapper.stateClient m) (some cb) := by
  obtain ⟨honly, hmovesPaho, -⟩ := Paho.step_moves hs.wellQueued hstep
  obtain ⟨hself, hm⟩ := loadDataPtr_eq_some_iff.1 hslot
  -- The callbacks that leave the flag alone; the three others are the last goals.
  have hsame : cb.flagAfter s.wrapper.mqttConnected = s.wrapper.mqttConnected →
      ((System.mk p { s.wrapper with mqttConnected := cb.flagAfter s.wrapper.mqttConnected } frames
        mutex connects handlerCalls).FlagAgrees ↔
      (s.wrapper.mqttConnected = true → s.wrapper.stateClient m = h →
        (p.client h).connected = true)) := fun hflag ↦ by
    rw [flagAgrees_paho_iff
      (w := { s.wrapper with mqttConnected := cb.flagAfter s.wrapper.mqttConnected })
      hagrees honly rfl hflag rfl rfl]
    constructor
    · exact fun h' ↦ h' m hm
    · intro h' m' hm'
      obtain rfl : m = m' := Option.some.inj (hm.symm.trans hm')
      exact h'
  cases cb with
  | mqttMsgarrvd | mqttOnSubscribe | mqttOnSubscribeFailure | mqttOnPublish |
    mqttOnConnectFailure => exact hsame rfl
  | mqttConnlost | mqttOnDisconnect =>
    -- The flag is FALSE now.
    exact iff_of_true nofun trivial
  | mqttOnConnect =>
    -- The flag is TRUE now, so all depends on the client in the slot.
    have hup : (p.client (s.wrapper.stateClient m)).connected = true ↔
        s.wrapper.stateClient m = h ∨
          (s.paho.client (s.wrapper.stateClient m)).connected = true := by
      rcases eq_or_ne (s.wrapper.stateClient m) h with heq | hne
      · rw [heq]
        exact iff_of_true hmovesPaho.connected_of_onConnect (.inl rfl)
      · rw [honly.client _ hne]
        exact (or_iff_right hne).symm
    refine Iff.trans ?_ hup
    constructor
    · intro hafter
      obtain ⟨m', hload, hup'⟩ := hafter rfl
      obtain rfl : m = m' := Option.some.inj (hm.symm.trans (loadDataPtr_eq_some_iff.1 hload).2)
      exact hup'
    · exact fun hup' _ ↦ ⟨m, loadDataPtr_eq_some_iff.2 ⟨hself, hm⟩, hup'⟩

/-- A callback that runs its tail. -/
theorem flagAgrees_handlerReturned_iff {s : System} (hagrees : s.FlagAgrees) {t : Thread}
    {f : Frame} (hframe : s.frames t = some f) (m : ℕ) (mutex : Option Thread) :
    { s with
      wrapper := if f.callback.clears then
          { s.wrapper with freed := s.wrapper.freed ++ [m], dataPtr := none }
        else s.wrapper
      frames := Function.update s.frames t none
      mutex := mutex }.FlagAgrees ↔ s.KeepsFlag (.handlerReturn t) := by
  have hkeeps : s.KeepsFlag (.handlerReturn t) ↔
      (f.callback.clears = true → s.wrapper.mqttConnected = false) := by
    constructor
    · exact fun h' ↦ h' f hframe
    · intro h' f' hf'
      obtain rfl : f = f' := Option.some.inj (hframe.symm.trans hf')
      exact h'
  rw [hkeeps]
  rcases hclears : f.callback.clears with - | -
  · exact iff_of_true hagrees nofun
  · -- The slot is NULL now, so agreement is that the flag is FALSE.
    constructor
    · intro hafter _
      by_contra hconnected
      obtain ⟨m', hload, -⟩ := hafter (by simpa using hconnected)
      have hnull := (loadDataPtr_eq_some_iff.1 hload).2
      simp at hnull
    · intro hflag hconnected
      exact absurd (hflag rfl) (by simp [show s.wrapper.mqttConnected = true from hconnected])

/-- **Agreement, step by step**: from agreement a step leads to agreement exactly where it meets
`KeepsFlag`. -/
theorem flagAgrees_step_iff {cfg : Config} {s s' : System} {e : SystemEvent} (hs : s.Wf)
    (hsettled : s.paho.Settled) (hagrees : s.FlagAgrees) (hmoves : Moves cfg s e s') :
    s'.FlagAgrees ↔ s.KeepsFlag e := by
  cases hmoves with
  | raised he =>
    refine iff_of_true hagrees ?_
    cases e <;> trivial
  | created c paho mutex hflag _ _ _ _ _ _ =>
    refine iff_of_true (fun hconnected ↦ ?_) trivial
    rw [hflag] at hconnected
    cases hconnected
  | connectNext c x hx => exact flagAgrees_connectNext_iff hs hagrees hx
  | asked c op paho hsame _ =>
    refine iff_of_true (fun hconnected ↦ ?_) trivial
    obtain ⟨m, hload, hup⟩ := hagrees hconnected
    exact ⟨m, hload, (hsame.connected _).trans hup⟩
  | assigned c value wrapper hsame =>
    refine iff_of_true (fun hconnected ↦ ?_) trivial
    obtain ⟨m, hload, hup⟩ := hagrees (hsame.mqttConnected ▸ hconnected)
    obtain ⟨hself, hm⟩ := loadDataPtr_eq_some_iff.1 hload
    refine ⟨m, loadDataPtr_eq_some_iff.2 ⟨hsame.self.trans hself, hsame.dataPtr.trans hm⟩, ?_⟩
    rw [hsame.stateClient]
    exact hup
  | silent e paho h hstep =>
    obtain ⟨honly, -, -⟩ := Paho.step_moves hs.wellQueued hstep
    rw [flagAgrees_paho_iff hagrees honly rfl rfl rfl rfl,
      keepsFlag_paho_iff hsettled hagrees hstep]
    rfl
  | ignored e paho h cb hstep hslot =>
    -- The slot is NULL, so the flag is FALSE, and the condition asks nothing.
    rw [keepsFlag_paho_iff hsettled hagrees hstep]
    refine iff_of_true (fun hconnected ↦ ?_) fun m hm ↦ ?_
    · obtain ⟨m, hload, -⟩ := hagrees hconnected
      rw [hslot] at hload
      cases hload
    · cases hm.symm.trans (loadDataPtr_eq_some_iff.1 hslot).2
  | called e paho h cb m mutex hstep hslot hframe =>
    have hm : s.wrapper.dataPtr = some m := (loadDataPtr_eq_some_iff.1 hslot).2
    rw [flagAgrees_called_iff hs hagrees hstep hslot, keepsFlag_paho_iff hsettled hagrees hstep]
    constructor
    · intro h' m' hm'
      obtain rfl : m = m' := Option.some.inj (hm.symm.trans hm')
      exact h'
    · exact fun h' ↦ h' m hm
  | handlerReturned t f m mutex hframe _ =>
    exact flagAgrees_handlerReturned_iff hagrees hframe m mutex

/-! ### The end of the road -/

/-- The flag is TRUE, the slot is NULL, and no `connect` is under way. -/
structure Bricked (s : System) : Prop where
  /-- The flag is TRUE. -/
  flag : s.wrapper.mqttConnected = true
  /-- The slot is NULL. -/
  slot : s.wrapper.loadDataPtr = some none
  /-- No `connect` is under way. -/
  connects : ∀ c, s.connects c = none

/-- In such a state every method raises. -/
theorem Bricked.raises {s : System} (hs : s.Bricked) :
    s.wrapper.mqttConnect s.paho = .raised .alreadyConnected ∧
      ∀ op : Api, op.validOptions = true → s.wrapper.api s.paho op = .raised .notConnected := by
  constructor
  · rw [Wrapper.mqttConnect, if_pos hs.flag]
  · intro op hvalid
    rw [Wrapper.api, hvalid, hs.slot]
    rfl

/-- **A bricked singleton stays bricked**, whatever the program, the handlers and Paho do. -/
theorem bricked_forever (cfg : Config) {s : System} (hs : s.Wf) (hbricked : s.Bricked)
    (es : List SystemEvent) : (machine cfg).Always Bricked s es := by
  have hstep : ∀ s e s', s.Wf ∧ s.Bricked → (machine cfg).step s e = some s' →
      s'.Wf ∧ s'.Bricked := by
    rintro s e s' ⟨hs, hflag, hslot, hconnects⟩ hstep
    obtain ⟨hs', hmoves⟩ := step_moves hs hstep
    refine ⟨hs', ?_⟩
    cases hmoves with
    | raised _ => exact ⟨hflag, hslot, hconnects⟩
    | created _ _ _ hdown _ _ _ _ _ _ =>
      rw [hdown] at hflag
      cases hflag
    | connectNext c x hx =>
      rw [hconnects c] at hx
      cases hx
    | asked _ _ _ _ _ => exact ⟨hflag, hslot, hconnects⟩
    | assigned c value wrapper hsame =>
      refine ⟨hsame.mqttConnected.trans hflag, ?_, hconnects⟩
      simp only [Wrapper.loadDataPtr, hsame.self, hsame.dataPtr]
      exact hslot
    | silent _ _ _ _ => exact ⟨hflag, hslot, hconnects⟩
    | ignored _ _ _ _ _ _ => exact ⟨hflag, hslot, hconnects⟩
    | called _ _ _ _ m _ _ hload _ =>
      rw [hslot] at hload
      cases hload
    | handlerReturned t f m mutex _ _ =>
      cases hclears : f.callback.clears
      · exact ⟨hflag, hslot, hconnects⟩
      · have hself : s.wrapper.self = true := by
          by_contra hself
          simp [Wrapper.loadDataPtr, hself] at hslot
        exact ⟨hflag, by simp [Wrapper.loadDataPtr, hself], hconnects⟩
  exact ((machine cfg).always_of_inductive hstep ⟨hs, hbricked⟩ es).mono _ fun _ h ↦ h.2

/-- **Flag and slot agree exactly along the runs whose steps all meet `KeepsFlag`.** -/
theorem flag_agrees_iff (cfg : Config) (es : List SystemEvent) :
    (machine cfg).Always FlagAgrees init es ↔
      (machine cfg).EachStep (fun s e _ ↦ s.KeepsFlag e) init es := by
  refine (machine cfg).always_iff_eachStep
    (fun s e s' (hs : s.Wf ∧ s.paho.Settled) hstep ↦ ?_) (fun s e s' hs hagrees hstep ↦ ?_)
    ⟨wf_init, Paho.settled_init⟩ nofun es
  · obtain ⟨hs', hmoves⟩ := step_moves hs.1 hstep
    exact ⟨hs', settled_step hs.1 hs.2 hmoves⟩
  · exact flagAgrees_step_iff hs.1 hs.2 hagrees (step_moves hs.1 hstep).2

/-- Two connects, a success of the first client, and a failure of the second: its callback frees the
state, clears the slot and leaves the flag TRUE. -/
def brickingRun : List SystemEvent :=
  configure ++ connectCall .ruby ++ connectCall .ruby ++
    [sendTurn .sent, sendTurn .sent, .paho (.connack 0 0), .handlerReturn .receive,
      .paho (.connack 1 5), sendTurn .sent, .paho (.connack 1 5), .handlerReturn .receive]

/-- Flag and slot disagree at the end of that run, and the singleton is bricked. -/
theorem bricking_run_disagrees :
    ¬ (machine ⟨true, true⟩).Always FlagAgrees init brickingRun ∧
      ∃ t, (machine ⟨true, true⟩).run init brickingRun = some t ∧ t.Bricked := by
  obtain ⟨t, hrun, hflag, hslot, hruby, hsend, hreceive⟩ :
      ∃ t, (machine ⟨true, true⟩).run init brickingRun = some t ∧
        t.wrapper.mqttConnected = true ∧ t.wrapper.loadDataPtr = some none ∧
        t.connects .ruby = none ∧ t.connects (.handler .send) = none ∧
        t.connects (.handler .receive) = none := ⟨_, rfl, rfl, rfl, rfl, rfl, rfl⟩
  have hbricked : t.Bricked := by
    refine ⟨hflag, hslot, fun c ↦ ?_⟩
    rcases c with - | - | - <;> assumption
  refine ⟨(machine _).not_always_of_run hrun fun hagrees ↦ ?_, t, hrun, hbricked⟩
  obtain ⟨m, hload, -⟩ := hagrees hflag
  rw [hslot] at hload
  cases hload

/-! ### Whose event it is -/

/-- A callback on thread `t` leaves the state `b` of another client alone: flag and slot are as they
were, nothing is freed, and neither will its tail change flag or slot or free `b`, whatever it
finds. -/
def Spares (cfg : Config) (s s' : System) (t : Thread) (b : ℕ) : Prop :=
  s'.wrapper.mqttConnected = s.wrapper.mqttConnected ∧ s'.wrapper.dataPtr = s.wrapper.dataPtr ∧
    s'.wrapper.freed = s.wrapper.freed ∧
    ∀ f, s'.frames t = some f → ∀ w w' waiting,
      runCallback cfg f.waiting.rest f.waiting.m w = some (w', waiting) →
        w'.mqttConnected = w.mqttConnected ∧ w'.dataPtr = w.dataPtr ∧ (b ∈ w'.freed → b ∈ w.freed)

/-- A callback about a connection, called while the slot holds the state `b`, spares it in one case
only: it is a success, and the flag is TRUE already. -/
theorem spares_iff {cfg : Config} {s s' : System} {e : PahoEvent}
    (hmoves : Moves cfg s (.paho e) s') {p : Paho} {h : ℕ} {cb : Callback}
    (hstep : s.paho.step e = some (p, h, some cb))
    (habout : cb.aboutConnection = true) {b : ℕ} (hslot : s.wrapper.loadDataPtr = some (some b)) :
    Spares cfg s s' e.thread b ↔ cb = .mqttOnConnect ∧ s.wrapper.mqttConnected = true := by
  obtain ⟨hslot', -⟩ | ⟨m, mutex, hslot', rfl⟩ := hmoves.callback hstep
  · rw [hslot] at hslot'
    cases hslot'
  · constructor
    · rintro ⟨hflag, -, -, htail⟩
      have hframe := htail _ (Function.update_self ..)
      rcases hclears : cb.clears with - | -
      · have hconnect : cb = .mqttOnConnect := by
          simpa [Callback.aboutConnection, hclears] using habout
        subst hconnect
        exact ⟨rfl, hflag.symm⟩
      · -- The tail clears the slot of any wrapper that has something there.
        have hclear := hframe { mqttInit with dataPtr := some 0 } _ _
          (Callback.runCallback_tail cb cfg (some m) _)
        simp [hclears] at hclear
    · rintro ⟨rfl, hflag⟩
      refine ⟨hflag.symm, rfl, rfl, fun f hf w w' waiting hrun ↦ ?_⟩
      obtain rfl := Option.some.inj ((Function.update_self e.thread _ s.frames).symm.trans hf)
      obtain ⟨rfl, -⟩ : w = w' ∧ none = waiting := by
        simpa [Callback.tail, Callback.clears, runCallback] using hrun
      exact ⟨rfl, rfl, id⟩

/-- **An event of one client leaves another client's state alone only if it is a success that comes
while the flag is TRUE.** Along every run, for an event of client `h` while the slot holds a state
`b` of another client. Where it is an end that is reported instead, the callback goes on to free
what it has loaded and to clear the slot. -/
theorem other_client_spared_iff (cfg : Config) (es : List SystemEvent) :
    (machine cfg).EachStep (fun s e s' ↦
      (∀ pe p h cb b, e = .paho pe → s.paho.step pe = some (p, h, some cb) →
        cb.aboutConnection = true → s.wrapper.loadDataPtr = some (some b) →
        s.wrapper.stateClient b ≠ h →
          (Spares cfg s s' pe.thread b ↔ cb = .mqttOnConnect ∧ s.wrapper.mqttConnected = true) ∧
          ∃ f, s'.frames pe.thread = some f ∧ f.callback = cb ∧ f.waiting.m = some b) ∧
      (∀ t f b, e = .handlerReturn t → s.frames t = some f → f.callback.clears = true →
        f.waiting.m = some b → s'.wrapper.dataPtr = none ∧ b ∈ s'.wrapper.freed))
      init es := by
  refine (machine cfg).eachStep_of_inductive (fun s e s' hs hstep ↦ ?_) wf_init es
  obtain ⟨hs', hmoves⟩ := step_moves hs hstep
  refine ⟨⟨?_, ?_⟩, hs'⟩
  · rintro pe p h cb b rfl hpaho habout hslot -
    refine ⟨spares_iff hmoves hpaho habout hslot, ?_⟩
    obtain ⟨hslot', -⟩ | ⟨m, mutex, hslot', rfl⟩ := hmoves.callback hpaho
    · rw [hslot] at hslot'
      cases hslot'
    · exact ⟨_, Function.update_self .., rfl, hslot'.symm.trans hslot |> Option.some.inj⟩
  · rintro t f b rfl hframe hclears hm
    cases hmoves with
    | raised he => cases he
    | handlerReturned _ f' m mutex hframe' hframed =>
      obtain rfl : f = f' := Option.some.inj (hframe.symm.trans hframe')
      obtain rfl : m = b := Option.some.inj (hframed.loaded.symm.trans hm)
      simp [hclears]

/-- Two connects; the second client gets a socket, and both attempts of the first one fail. -/
def crossRun : List SystemEvent :=
  configure ++ connectCall .ruby ++ connectCall .ruby ++
    [sendTurn .sent, sendTurn .failed, sendTurn .failed]

/-- The failure of the first client does not spare the second one's state; and when the handler has
returned, that state is freed and the slot NULL, with the second client live. -/
theorem cross_run_hits :
    ¬ (machine ⟨true, true⟩).EachStep (fun s e s' ↦ ∀ pe p h cb b, e = .paho pe →
        s.paho.step pe = some (p, h, some cb) → cb.aboutConnection = true →
        s.wrapper.loadDataPtr = some (some b) → s.wrapper.stateClient b ≠ h →
          Spares ⟨true, true⟩ s s' pe.thread b) init crossRun ∧
      ∃ t, (machine ⟨true, true⟩).run init (crossRun ++ [.handlerReturn .send]) = some t ∧
        t.wrapper.freed = [1] ∧ t.wrapper.dataPtr = none ∧ t.paho.Live 1 := by
  constructor
  · intro h
    have hlast := (machine ⟨true, true⟩).eachStep_last
      (configure ++ connectCall .ruby ++ connectCall .ruby ++ [sendTurn .sent, sendTurn .failed])
      (sendTurn .failed) h rfl rfl
    have hspares := hlast _ _ 0 .mqttOnConnectFailure 1 rfl rfl rfl rfl (by decide)
    have htail := hspares.2.2.2 _ rfl { mqttInit with dataPtr := some 1 } _ _ rfl
    exact absurd htail.2.1 (by decide)
  · exact ⟨_, rfl, rfl, rfl, by decide⟩

end System
