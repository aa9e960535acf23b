import MrubyMqtt.Threads

/-!
# Callbacks and calls in one go

`System.machine` runs a callback up to its handler in one step, and an API call in one step.
Whatever it can do in this way the threads can do line by line, when nothing comes in between:
`System.threads` reads a state of the one as a state of the other, and every step of the system is a
run of the threads (`step_threads`). So every state the system reaches is one that the threads reach
(`reaches_threads`), and what goes wrong in the system goes wrong in the threads.
-/

open Bytes

namespace System

/-- The state of the threads where every callback under way waits for its handler, and every call
under way is a `connect`. -/
def threads (s : System) : Threads where
  paho := s.paho
  wrapper := s.wrapper
  running t := (s.frames t).map fun f ↦ ⟨f.waiting.m, f.waiting.rest, true⟩
  mutex := s.mutex
  calls c := (s.connects c).map .connecting

/-- A thread that holds the mutex is in a callback. -/
def MutexFramed (s : System) : Prop := ∀ t, s.mutex = some t → s.frames t ≠ none

/-! ### One callback -/

variable {cfg : Config} {θ : Threads} {t : Thread}

theorem step_advance {m : Option ℕ} {code : List Instr} (hθ : θ.running t = some ⟨m, code, false⟩) :
    (Threads.machine cfg).step θ (.advance t) = θ.advance cfg t ⟨m, code, false⟩ := by
  simp only [Threads.machine, Threads.step, hθ]

/-- **Line by line**: a callback that runs in one go to its handler or its end can do so one line at
a time. -/
theorem run_lines (code : List Instr) {m : Option ℕ} {w : Wrapper} {waiting : Option Waiting}
    (hθ : θ.running t = some ⟨m, code, false⟩)
    (hrun : runCallback cfg code m θ.wrapper = some (w, waiting)) :
    ∃ es, (Threads.machine cfg).run θ es = some (match waiting with
      | none => { θ with wrapper := w }.callbackReturn t
      | some x =>
        { θ with
          wrapper := w
          running := Function.update θ.running t (some ⟨x.m, x.rest, true⟩) }) := by
  induction code generalizing θ m with
  | nil =>
    obtain ⟨rfl, rfl⟩ := Prod.mk.inj (Option.some.inj hrun)
    refine ⟨[.advance t], ?_⟩
    rw [Machine.run, step_advance hθ]
    rfl
  | cons instr rest ih =>
    rw [runCallback] at hrun
    rcases hexec : instr.exec cfg θ.wrapper m with ⟨w', m'⟩ | - | method | - <;>
      simp only [hexec] at hrun
    · -- One line, and then the rest.
      set θ' : Threads := { θ with
        wrapper := w'
        running := Function.update θ.running t (some ⟨m', rest, false⟩) } with hθ'
      have hstep : (Threads.machine cfg).step θ (.advance t) = some θ' := by
        rw [step_advance hθ, Threads.advance]
        simp only [hexec, hθ']
      have hrunning : θ'.running t = some ⟨m', rest, false⟩ := Function.update_self ..
      obtain ⟨es, hes⟩ := ih hrunning hrun
      refine ⟨.advance t :: es, ?_⟩
      rw [Machine.run, hstep, Option.bind_some, hes]
      rcases waiting with - | x <;> simp [hθ', Threads.callbackReturn, Function.update_idem]
    · obtain ⟨rfl, rfl⟩ := Prod.mk.inj (Option.some.inj hrun)
      refine ⟨[.advance t], ?_⟩
      rw [Machine.run, step_advance hθ, Threads.advance]
      simp only [hexec]
      rfl
    · obtain ⟨rfl, rfl⟩ := Prod.mk.inj (Option.some.inj hrun)
      refine ⟨[.advance t], ?_⟩
      rw [Machine.run, step_advance hθ, Threads.advance]
      simp only [hexec]
      rfl
    · cases hrun

/-- The calls of the threads, where one call of `connect` has changed. -/
theorem calls_update (s : System) (c : Caller) (r : Option Connecting) :
    (fun c' ↦ (Function.update s.connects c r c').map Calling.connecting) =
      Function.update s.threads.calls c (r.map .connecting) :=
  Function.comp_update (Option.map Calling.connecting) s.connects c r

/-- The callbacks of the threads, where one frame has changed. -/
theorem running_update (s : System) (t : Thread) (r : Option Frame) :
    (fun t' ↦ (Function.update s.frames t r t').map fun f ↦
      (⟨f.waiting.m, f.waiting.rest, true⟩ : Running)) =
      Function.update s.threads.running t (r.map fun f ↦ ⟨f.waiting.m, f.waiting.rest, true⟩) :=
  Function.comp_update (Option.map fun f : Frame ↦
    (⟨f.waiting.m, f.waiting.rest, true⟩ : Running)) s.frames t r

/-- A callback that runs in one go. -/
theorem callback_lines {s s' : System} (hmutex : s.MutexFramed) (hidle : s.frames t = none)
    {underMutex : Bool} (hopen : underMutex = true → s.mutex = none) {h : ℕ} {cb : Callback}
    (hcall : s.callback cfg t underMutex h cb = some s') :
    ∃ es, (Threads.machine cfg).run (s.threads.callback t underMutex cb) es = some s'.threads := by
  obtain ⟨⟨w, waiting⟩, hrun, rfl⟩ := Option.map_eq_some_iff.1 hcall
  have hrunning : (s.threads.callback t underMutex cb).running t = some ⟨none, cb.code, false⟩ :=
    Function.update_self ..
  obtain ⟨es, hes⟩ := run_lines cb.code hrunning hrun
  refine ⟨es, hes.trans (congrArg some ?_)⟩
  have hnone : s.threads.running t = none := by simp [threads, hidle]
  rcases waiting with - | x
  · -- It returns without a handler, and leaves no trace on its thread or on the mutex.
    have hfree : s.mutex ≠ some t := fun heq ↦ hmutex t heq hidle
    have hback : Function.update (Function.update s.threads.running t
        (some ⟨none, cb.code, false⟩)) t none = s.threads.running := by
      rw [Function.update_idem, ← hnone, Function.update_eq_self]
    simp only [Threads.callbackReturn, Threads.callback, hback]
    rcases underMutex with - | -
    · simp [threads, hfree]
    · simp [threads, hopen rfl]
  · simp only [Threads.callback, Function.update_idem]
    exact congrArg (fun running ↦ Threads.mk _ _ running _ _)
      (s.running_update t (some ⟨cb, h, x, []⟩)).symm

/-! ### Every step -/

/-- `publish` raises before it reads `m->client` where a string of its has a NUL in it. -/
theorem call_of_not_readsContext {op : Api} (hop : op.readsContext = false) (p : Paho)
    (client : ℕ) : op.call p client = .raised .argumentError := by
  cases op with
  | disconnect => cases hop
  | subscribe topic qos => cases hop
  | publish topic payload qos retain =>
    rw [Api.call, Wrapper.strToCstr, Wrapper.strToCstr]
    by_cases htopic : NulFree topic
    · by_cases hpayload : NulFree payload
      · simp [Api.readsContext, htopic, hpayload] at hop
      · simp [htopic, hpayload]
    · simp [htopic]

/-- `subscribe` does so before it reads it again. -/
theorem call_of_not_readsClient {op : Api} (hop : op.readsClient = false) (p : Paho) (client : ℕ) :
    op.call p client = .raised .argumentError := by
  cases op with
  | disconnect => cases hop
  | publish topic payload qos retain => cases hop
  | subscribe topic qos =>
    have htopic : ¬ NulFree topic := by simpa [Api.readsClient] using hop
    simp [Api.call, Wrapper.strToCstr, htopic]

/-- Who can call is the same on both sides. -/
theorem canCall_threads (s : System) (c : Caller) : s.threads.canCall c = s.running c := by
  rcases c with - | t
  · simp [Threads.canCall, running, threads]
  · rcases hframe : s.frames t with - | f <;> simp [Threads.canCall, running, threads, hframe]

/-- A call of `connect` runs up to `MQTTAsync_connect`, or raises. -/
theorem connect_lines {s s' : System} {c : Caller}
    (hstep : (machine cfg).step s (.connect c) = some s') :
    (Threads.machine cfg).step s.threads (.connect c) = some s'.threads := by
  have hcall : s.running c = true := by
    by_contra hcall
    simp [machine, step, hcall] at hstep
  simp only [machine, step, hcall, if_true] at hstep
  simp only [Threads.machine, Threads.step, canCall_threads, hcall, if_true]
  rcases hconnect : s.wrapper.mqttConnect s.paho with ⟨client, p⟩ | err | -
  all_goals
    have hconnect' : s.threads.wrapper.mqttConnect s.threads.paho = _ := hconnect
    simp only [hconnect] at hstep
    simp only [hconnect']
  · split_ifs at hstep with hopen
    obtain rfl := Option.some.inj hstep
    have hopen' : s.threads.mutexOpen c = true := hopen
    rw [if_pos hopen']
    exact congrArg (fun calls ↦ some (Threads.mk _ _ _ _ calls))
      (s.calls_update c (some (.queued client))).symm
  · exact congrArg _ (congrArg threads (Option.some.inj hstep))
  · cases hstep

/-- A call of `connect` goes on by one line. -/
theorem connectNext_lines (s : System) {c : Caller} {x : Connecting}
    (hx : s.connects c = some x) :
    (Threads.machine cfg).step s.threads (.callNext c) = some (s.connectNext c x).threads := by
  have hcall : s.threads.calls c = some (.connecting x) := by simp [threads, hx]
  -- The traces that `connectNext` keeps in the frames are not seen by the threads.
  have hrunning : s.threads.running = (s.connectNext c x).threads.running := by
    funext t
    cases x <;> simp [threads, connectNext, Function.comp_def]
  simp only [Threads.machine, Threads.step, hcall, Option.bind_some, Threads.callNext]
  rw [hrunning, ← s.calls_update]
  rfl

/-- An attribute is assigned, or the assignment raises. -/
theorem assign_lines {s s' : System} {c : Caller} {value : Wrapper.Setter}
    (hstep : (machine cfg).step s (.assign c value) = some s') :
    (Threads.machine cfg).step s.threads (.assign c value) = some s'.threads := by
  have hcall : s.running c = true := by
    by_contra hcall
    simp [machine, step, hcall] at hstep
  simp only [machine, step, hcall, if_true] at hstep
  simp only [Threads.machine, Threads.step, canCall_threads, hcall, if_true]
  rcases hassign : s.wrapper.assign value with w | err | -
  all_goals
    have hassign' : s.threads.wrapper.assign value = _ := hassign
    simp only [hassign] at hstep
    simp only [hassign']
  · exact Option.some.inj hstep ▸ rfl
  · exact Option.some.inj hstep ▸ rfl
  · cases hstep

/-- The threads while a call is under way that the system makes in one go. -/
def duringCall (s : System) (c : Caller) (call : Calling) : Threads :=
  { s.threads with calls := Function.update s.threads.calls c (some call) }

theorem step_duringCall (s : System) (c : Caller) (call : Calling) :
    (Threads.machine cfg).step (s.duringCall c call) (.callNext c) =
      (s.duringCall c call).callNext c call := by
  have hcall : (s.duringCall c call).calls c = some call := Function.update_self ..
  simp only [Threads.machine, Threads.step, hcall, Option.bind_some]

theorem duringCall_next (s : System) (c : Caller) (call call' : Calling) :
    { s.duringCall c call with
      calls := Function.update (s.duringCall c call).calls c (some call') } =
      s.duringCall c call' := by
  simp only [duringCall, Function.update_idem]

theorem endCall_duringCall {s : System} {c : Caller} (hidle : s.threads.calls c = none)
    (call : Calling) : (s.duringCall c call).endCall c = s.threads := by
  have hback : Function.update s.threads.calls c none = s.threads.calls := by
    rw [← hidle, Function.update_eq_self]
  simp only [Threads.endCall, duringCall, Function.update_idem, hback]

/-- What `System.step` makes of the outcome of a call. -/
def callDone (s : System) (c : Caller) (op : Api) (done : Outcome Paho) : Option System :=
  match done with
  | .done paho =>
    if c = .ruby && op.assignsMsgId && s.mutex.isSome then none else some { s with paho := paho }
  | .raised _ => some s
  | .stuck => none

/-- What is left of a call that has read `m->client` for the last time. -/
theorem read_lines {s s' : System} {c : Caller} {op : Api} {client : ℕ}
    (hidle : s.threads.calls c = none)
    (hstep : s.callDone c op (op.call s.paho client) = some s') :
    (Threads.machine cfg).step (s.duringCall c (.read op client)) (.callNext c) =
      some s'.threads := by
  rw [step_duringCall, Threads.callNext, endCall_duringCall hidle]
  rcases hdone : op.call s.paho client with p | err | -
  all_goals
    have hdone' : op.call (s.duringCall c (.read op client)).paho client = _ := hdone
    simp only [callDone, hdone] at hstep
    simp only [hdone']
  · split_ifs at hstep with hblocked
    obtain rfl := Option.some.inj hstep
    exact if_neg hblocked
  · exact congrArg _ (congrArg threads (Option.some.inj hstep))
  · cases hstep

/-- What is left of a call that has read `m->client` for `opts.context`: it reads it again. -/
theorem context_lines {s s' : System} {c : Caller} {op : Api} {m : ℕ}
    (hidle : s.threads.calls c = none)
    (hstep : s.callDone c op (op.call s.paho (s.wrapper.stateClient m)) = some s') :
    ∃ es, (Threads.machine cfg).run (s.duringCall c (.context op m)) es = some s'.threads := by
  by_cases hreads : op.readsClient = true
  · have hfirst : (Threads.machine cfg).step (s.duringCall c (.context op m)) (.callNext c) =
        some (s.duringCall c (.read op (s.wrapper.stateClient m))) := by
      rw [step_duringCall, Threads.callNext, if_pos hreads, duringCall_next]
      rfl
    refine ⟨[.callNext c, .callNext c], ?_⟩
    rw [Machine.run, hfirst, Option.bind_some, Machine.run_singleton]
    exact read_lines hidle hstep
  · rw [call_of_not_readsClient (Bool.eq_false_iff.2 hreads)] at hstep
    refine ⟨[.callNext c], ?_⟩
    rw [Machine.run_singleton, step_duringCall, Threads.callNext, if_neg hreads,
      endCall_duringCall hidle]
    exact congrArg _ (congrArg threads (Option.some.inj hstep))

/-- What is left of a call that has copied the slot. -/
theorem loaded_lines {s s' : System} {c : Caller} {op : Api} {m : ℕ}
    (hidle : s.threads.calls c = none)
    (hstep : s.callDone c op (op.call s.paho (s.wrapper.stateClient m)) = some s') :
    ∃ es, (Threads.machine cfg).run (s.duringCall c (.loaded op m)) es = some s'.threads := by
  by_cases hreads : op.readsContext = true
  · have hfirst : (Threads.machine cfg).step (s.duringCall c (.loaded op m)) (.callNext c) =
        some (s.duringCall c (.context op m)) := by
      rw [step_duringCall, Threads.callNext, if_pos hreads, duringCall_next]
    have hrest : ∃ es, (Threads.machine cfg).run (s.duringCall c (.context op m)) es =
        some s'.threads := context_lines hidle hstep
    obtain ⟨es, hes⟩ := hrest
    exact ⟨.callNext c :: es, by rw [Machine.run, hfirst, Option.bind_some, hes]⟩
  · rw [call_of_not_readsContext (Bool.eq_false_iff.2 hreads)] at hstep
    refine ⟨[.callNext c], ?_⟩
    rw [Machine.run_singleton, step_duringCall, Threads.callNext, if_neg hreads,
      endCall_duringCall hidle]
    exact congrArg _ (congrArg threads (Option.some.inj hstep))

/-- A call that runs in one go: it copies the slot, reads `m->client` twice, and does the rest. -/
theorem api_lines {s s' : System} {c : Caller} {op : Api}
    (hstep : (machine cfg).step s (.api c op) = some s') :
    ∃ es, (Threads.machine cfg).run s.threads es = some s'.threads := by
  have hcall : s.running c = true := by
    by_contra hcall
    simp [machine, step, hcall] at hstep
  simp only [machine, step, hcall, if_true] at hstep
  have hcan : s.threads.canCall c = true := (s.canCall_threads c).trans hcall
  have hidle : s.threads.calls c = none := by
    have hnone := (Bool.and_eq_true_iff.1 hcall).1
    simpa [threads] using hnone
  -- The call raises at once.
  have hat_once : s' = s → (Threads.machine cfg).step s.threads (.api c op) = some s.threads →
      ∃ es, (Threads.machine cfg).run s.threads es = some s'.threads := by
    rintro rfl hfirst
    exact ⟨[.api c op], (Machine.run_singleton _ _ _).trans hfirst⟩
  by_cases hvalid : op.validOptions = true
  · rcases hload : s.wrapper.loadDataPtr with - | - | m
    · simp [Wrapper.api, hvalid, hload] at hstep
    · refine hat_once ?_ ?_
      · simpa [Wrapper.api, hvalid, hload, eq_comm] using hstep
      · have hload' : s.threads.wrapper.loadDataPtr = some none := hload
        simp [Threads.machine, Threads.step, hcan, hvalid, hload']
    · have hload' : s.threads.wrapper.loadDataPtr = some (some m) := hload
      have happ : s.wrapper.api s.paho op = op.call s.paho (s.wrapper.stateClient m) := by
        simp [Wrapper.api, hvalid, hload]
      rw [happ] at hstep
      have hfirst : (Threads.machine cfg).step s.threads (.api c op) =
          some (s.duringCall c (.loaded op m)) := by
        simp [Threads.machine, Threads.step, hcan, hvalid, hload', duringCall]
      obtain ⟨es, hes⟩ : ∃ es, (Threads.machine cfg).run _ es = some s'.threads :=
        loaded_lines hidle hstep
      refine ⟨.api c op :: es, ?_⟩
      rw [Machine.run, hfirst, Option.bind_some, hes]
  · refine hat_once ?_ ?_
    · simpa [Wrapper.api, hvalid, eq_comm] using hstep
    · simp [Threads.machine, Threads.step, hcan, hvalid]

/-- A handler returns, and the tail of its callback runs in one go. -/
theorem handlerReturn_lines {s s' : System} {f : Frame} {m : ℕ} (hframe : s.frames t = some f)
    (hframed : Framed f m) (hidle : s.connects (.handler t) = none)
    (hreturn : s.handlerReturn cfg t f = some s') :
    ∃ es, (Threads.machine cfg).run s.threads es = some s'.threads := by
  obtain ⟨⟨w, waiting⟩, hrun, rfl⟩ := Option.map_eq_some_iff.1 hreturn
  -- There is no second handler.
  obtain rfl : waiting = none := by
    rw [hframed.rest, Callback.runCallback_tail] at hrun
    exact (Prod.mk.inj (Option.some.inj hrun)).2.symm
  set θ : Threads := { s.threads with
    running := Function.update s.threads.running t (some ⟨f.waiting.m, f.waiting.rest, false⟩) }
    with hθ
  have hwaits : s.threads.running t = some ⟨f.waiting.m, f.waiting.rest, true⟩ := by
    simp [threads, hframe]
  have hfirst : (Threads.machine cfg).step s.threads (.handlerReturn t) = some θ := by
    have hidle' : (s.threads.calls (.handler t)).isNone = true := by
      simp [threads, hidle]
    simp only [Threads.machine, Threads.step, hwaits, hidle', if_true, hθ]
  have hrunning : θ.running t = some ⟨f.waiting.m, f.waiting.rest, false⟩ :=
    Function.update_self ..
  obtain ⟨es, hes⟩ := run_lines f.waiting.rest hrunning hrun
  refine ⟨.handlerReturn t :: es, ?_⟩
  rw [Machine.run, hfirst, Option.bind_some, hes]
  simp only [hθ, Threads.callbackReturn, Function.update_idem]
  exact congrArg (fun running ↦ some (Threads.mk _ _ running _ _)) (s.running_update t none).symm

/-- **Every step of the system** is a run of the threads. -/
theorem step_threads {s s' : System} {e : SystemEvent} (hs : s.Wf) (hmutex : s.MutexFramed)
    (hstep : (machine cfg).step s e = some s') :
    ∃ es, (Threads.machine cfg).run s.threads es = some s'.threads := by
  cases e with
  | connect c => exact ⟨[.connect c], (Machine.run_singleton _ _ _).trans (connect_lines hstep)⟩
  | connectNext c =>
    simp only [machine, step, Option.map_eq_some_iff] at hstep
    obtain ⟨x, hx, rfl⟩ := hstep
    exact ⟨[.callNext c], (Machine.run_singleton _ _ _).trans (s.connectNext_lines hx)⟩
  | api c op => exact api_lines hstep
  | assign c value =>
    exact ⟨[.assign c value], (Machine.run_singleton _ _ _).trans (assign_lines hstep)⟩
  | paho e =>
    simp only [machine, step] at hstep
    split_ifs at hstep with hready
    obtain ⟨hidle, hopen⟩ := Bool.and_eq_true_iff.1 hready
    have hready' : ((s.threads.running e.thread).isNone &&
        (!e.underMutex || s.threads.mutex.isNone)) = true := by
      simpa [threads] using hready
    rcases hpaho : s.paho.step e with - | ⟨p, h, - | cb⟩ <;> simp only [hpaho] at hstep
    · cases hstep
    · obtain rfl := Option.some.inj hstep
      have hpaho' : s.threads.paho.step e = some (p, h, none) := hpaho
      refine ⟨[.paho e], ?_⟩
      rw [Machine.run_singleton]
      simp only [Threads.machine, Threads.step, hready', if_true, hpaho']
      rfl
    · have hpaho' : s.threads.paho.step e = some (p, h, some cb) := hpaho
      have hfirst : (Threads.machine cfg).step s.threads (.paho e) =
          some ({ s with paho := p }.threads.callback e.thread e.underMutex cb) := by
        simp only [Threads.machine, Threads.step, hready', if_true, hpaho']
        rfl
      have hframe : s.frames e.thread = none := by simpa using hidle
      have hnone : e.underMutex = true → s.mutex = none := fun hunder ↦ by
        simpa [hunder] using hopen
      obtain ⟨es, hes⟩ := callback_lines (s := { s with paho := p }) hmutex hframe hnone hstep
      refine ⟨.paho e :: es, ?_⟩
      rw [Machine.run, hfirst]
      exact hes
  | handlerReturn t =>
    simp only [machine, step] at hstep
    rcases hframe : s.frames t with - | f <;> simp only [hframe] at hstep
    · cases hstep
    · split_ifs at hstep with hidle
      obtain ⟨m, hframed⟩ := hs.framed t f hframe
      exact handlerReturn_lines hframe hframed (Option.isNone_iff_eq_none.1 hidle) hstep

/-- A thread that holds the mutex stays in its callback. -/
theorem MutexFramed.step {s s' : System} {e : SystemEvent} (hs : s.MutexFramed)
    (hstep : (machine cfg).step s e = some s') : s'.MutexFramed := by
  cases e with
  | connect c =>
    simp only [machine, System.step] at hstep
    rcases hconnect : s.wrapper.mqttConnect s.paho with ⟨client, p⟩ | err | - <;>
      simp only [hconnect] at hstep <;> split_ifs at hstep
    · obtain rfl := Option.some.inj hstep
      intro t ht
      refine hs t ?_
      simp only [mutexAfter] at ht
      split_ifs at ht
      exact ht
    · exact Option.some.inj hstep ▸ hs
  | connectNext c =>
    simp only [machine, System.step, Option.map_eq_some_iff] at hstep
    obtain ⟨x, -, rfl⟩ := hstep
    intro t ht
    have hframe := hs t ht
    cases x <;> simpa [connectNext] using hframe
  | api c op =>
    simp only [machine, System.step] at hstep
    rcases hcall : s.wrapper.api s.paho op with p | err | - <;> simp only [hcall] at hstep <;>
      split_ifs at hstep
    · exact Option.some.inj hstep ▸ hs
    · exact Option.some.inj hstep ▸ hs
  | assign c value =>
    simp only [machine, System.step] at hstep
    rcases hassign : s.wrapper.assign value with w | err | - <;> simp only [hassign] at hstep <;>
      split_ifs at hstep
    · exact Option.some.inj hstep ▸ hs
    · exact Option.some.inj hstep ▸ hs
  | paho e =>
    simp only [machine, System.step] at hstep
    split_ifs at hstep with hready
    rcases hpaho : s.paho.step e with - | ⟨p, h, - | cb⟩ <;> simp only [hpaho] at hstep
    · cases hstep
    · exact Option.some.inj hstep ▸ hs
    · obtain ⟨⟨w, waiting⟩, -, rfl⟩ := Option.map_eq_some_iff.1 hstep
      rcases waiting with - | x
      · exact hs
      intro t ht
      rcases eq_or_ne t e.thread with rfl | hne
      · simp
      · -- Another thread that holds the mutex is where it was.
        have hold : s.mutex = some t := by
          dsimp only at ht
          split_ifs at ht
          · exact absurd (Option.some.inj ht).symm hne
          · exact ht
        simpa [hne] using hs t hold
  | handlerReturn t =>
    simp only [machine, System.step] at hstep
    rcases hframe : s.frames t with - | f <;> simp only [hframe] at hstep
    · cases hstep
    · split_ifs at hstep
      obtain ⟨⟨w, waiting⟩, -, rfl⟩ := Option.map_eq_some_iff.1 hstep
      intro t' ht'
      dsimp only at ht'
      split_ifs at ht' with hheld
      have hne : t' ≠ t := by
        rintro rfl
        exact hheld ht'
      simpa [hne] using hs t' ht'

/-- **The threads reach what the system reaches.** -/
theorem reaches_threads {s : System} (hreach : (machine cfg).Reaches init s) :
    (Threads.machine cfg).Reaches Threads.init s.threads := by
  have hinv : s.Wf ∧ s.MutexFramed ∧ (Threads.machine cfg).Reaches Threads.init s.threads := by
    refine Machine.Reaches.of_inductive (machine cfg)
      (fun s e s' (hs : s.Wf ∧ s.MutexFramed ∧ (Threads.machine cfg).Reaches Threads.init s.threads)
        hstep ↦ ?_) ⟨wf_init, nofun, .refl _ _⟩ hreach
    obtain ⟨hwf, hmutex, hrun⟩ := hs
    obtain ⟨es, hes⟩ := step_threads hwf hmutex hstep
    exact ⟨(step_moves hwf hstep).1, hmutex.step hstep, hrun.trans _ ⟨es, hes⟩⟩
  exact hinv.2.2

end System
