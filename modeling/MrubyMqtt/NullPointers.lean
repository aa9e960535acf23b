import MrubyMqtt.StateLifetime

/-!
# Null pointers

What each line of the wrapper dereferences, over the threads taken line by line. Three pointers can
be NULL at all:

* the object of `_self`, until the first `connect` has returned;
* the local variable `m` of a callback, until the callback has checked it;
* the cause of a loss, which `MQTTAsync_checkDisconnect` passes as NULL, always.

A callback checks `m` before it uses it (`At.safe`), and an API call goes on only with a copy that
is not NULL. So a run dereferences NULL exactly where the slot is read while `_self` is unset, or
where `mqtt_connlost` comes past its check (`null_free_iff`).
-/

open Bytes

/-- What a pointer of the wrapper leads to. -/
inductive Pointee where
  /-- The object of `_self`, or the one `connect` is called on. -/
  | object
  /-- An `mqtt_state`. -/
  | state (m : ℕ)
  /-- The message, the payload and the topic that Paho passes to `mqtt_msgarrvd`. -/
  | message
  /-- The text that Paho passes to `mqtt_connlost`. -/
  | cause
deriving DecidableEq, Repr

/-- The object pointer of `_self`. -/
def Wrapper.selfPointer (w : Wrapper) : Option Pointee := if w.self then some .object else none

/-- The cause that `MQTTAsync_checkDisconnect` passes to `connectionLost`. -/
def connectionLostCause : Option Pointee := none

/-- What a line of a callback dereferences. `DATA_PTR(_self)` goes through the object of `_self`,
also where it is assigned; `mrb_intern_cstr` takes the length of its argument. -/
def Instr.derefs (w : Wrapper) (m : Option ℕ) : Instr → List (Option Pointee)
  | .load | .clearDataPtr => [w.selfPointer]
  | .internCause => [m.map .state, connectionLostCause]
  | .withMrb => [m.map .state, some .message]
  | .funcall _ | .free => [m.map .state]
  | .returnIfNull | .setConnected _ => []

/-- The lines of a callback behind its NULL check. -/
def Callback.body (cb : Callback) : List Instr := cb.code.drop 2

theorem Callback.code_eq (cb : Callback) : cb.code = .load :: .returnIfNull :: cb.body := by
  cases cb <;> rfl

/-- The slot is read once. -/
theorem Callback.ne_load_of_mem_body {cb : Callback} {instr : Instr} (h : instr ∈ cb.body) :
    instr ≠ .load := by
  rintro rfl
  revert h
  cases cb <;> decide

/-- Only a call of a Ruby method waits for a handler. -/
theorem Instr.eq_funcall {cfg : Config} {w : Wrapper} {m : Option ℕ} {instr : Instr}
    {method : Method} (h : instr.exec cfg w m = .handler method) : instr = .funcall method := by
  cases instr with
  | load =>
    rw [Instr.exec] at h
    split at h <;> cases h
  | returnIfNull | internCause =>
    rw [Instr.exec] at h
    split_ifs at h
  | funcall => exact congrArg _ (Effect.handler.inj h)
  | withMrb | setConnected | free | clearDataPtr => cases h

namespace Threads

/-- What an event dereferences, if it happens now. -/
def derefs (s : Threads) : ThreadsEvent → List (Option Pointee)
  | .api c op => if s.canCall c && op.validOptions then [s.wrapper.selfPointer] else []
  | .callNext c =>
    match s.calls c with
    | some (.connecting (.queued _)) => [some (.state s.wrapper.stateCount)]
    | some (.connecting (.allocated _ _)) => [some .object]
    | some call => call.reads.toList.map fun m ↦ some (.state m)
    | none => []
  | .advance t =>
    match s.running t with
    | some ⟨m, instr :: _, false⟩ => instr.derefs s.wrapper m
    | _ => []
  | _ => []

/-- The event reads the slot, and `_self` is not set. -/
def ReadsUnset (s : Threads) : ThreadsEvent → Prop
  | .api c op => s.canCall c = true ∧ op.validOptions = true ∧ s.wrapper.self = false
  | .advance t => ∃ m rest, s.running t = some ⟨m, .load :: rest, false⟩ ∧ s.wrapper.self = false
  | _ => False

/-- The event is the line of `mqtt_connlost` behind its NULL check. -/
def ReportsLoss (s : Threads) (e : ThreadsEvent) : Prop :=
  ∃ t m rest, e = .advance t ∧ s.running t = some ⟨m, .internCause :: rest, false⟩

/-! ### How far a callback has come -/

/-- A callback under way, with `_self` as it is now. -/
inductive At (w : Wrapper) : Running → Prop
  /-- It has not read the slot. -/
  | start (cb : Callback) (b : Bool) : At w ⟨none, .load :: .returnIfNull :: cb.body, b⟩
  /-- It has read the slot, so `_self` is set. -/
  | loaded (hself : w.self = true) (cb : Callback) (m : Option ℕ) (b : Bool) :
    At w ⟨m, .returnIfNull :: cb.body, b⟩
  /-- It has found a state there. -/
  | checked (hself : w.self = true) (cb : Callback) (m : ℕ) {rest : List Instr} (b : Bool)
    (hrest : rest <:+ cb.body) : At w ⟨some m, rest, b⟩

/-- `_self` stays set. -/
theorem At.mono {w w' : Wrapper} {f : Running} (hf : At w f)
    (hself : w.self = true → w'.self = true) : At w' f := by
  cases hf with
  | start cb b => exact .start cb b
  | loaded h cb m b => exact .loaded (hself h) cb m b
  | checked h cb m b hrest => exact .checked (hself h) cb m b hrest

/-- **A callback dereferences NULL in two places only**: where it reads the slot before `_self` is
set, and where it turns the cause of a loss into a symbol. -/
theorem At.safe {w : Wrapper} {m : Option ℕ} {instr : Instr} {rest : List Instr} {b : Bool}
    (hf : At w ⟨m, instr :: rest, b⟩) :
    none ∈ instr.derefs w m ↔ (instr = .load ∧ w.self = false) ∨ instr = .internCause := by
  cases hf with
  | start cb =>
    rcases hself : w.self <;> simp [Instr.derefs, Wrapper.selfPointer, hself]
  | loaded hself cb m => simp [Instr.derefs]
  | checked hself cb m b hrest =>
    have hmem : instr ∈ cb.body := hrest.subset List.mem_cons_self
    have hne : instr ≠ .load := Callback.ne_load_of_mem_body hmem
    cases instr <;>
      simp_all [Instr.derefs, Wrapper.selfPointer, connectionLostCause]

/-- **One line**: a callback that goes on is where it should be. -/
theorem At.next {cfg : Config} {w w' : Wrapper} {m m' : Option ℕ} {instr : Instr}
    {rest : List Instr} {b b' : Bool} (hf : At w ⟨m, instr :: rest, b⟩)
    (hexec : instr.exec cfg w m = .next w' m') :
    (w.self = true → w'.self = true) ∧ At w' ⟨m', rest, b'⟩ := by
  cases hf with
  | start cb =>
    rcases hload : w.loadDataPtr with - | ptr <;> simp only [Instr.exec, hload] at hexec
    · cases hexec
    · cases hexec
      exact ⟨id, .loaded (Wrapper.loadDataPtr_eq_some_iff.1 hload).1 cb _ _⟩
  | loaded hself cb m =>
    rcases m with - | m
    · cases hexec
    · cases hexec
      exact ⟨id, .checked hself cb m _ List.suffix_rfl⟩
  | checked hself cb m b hrest =>
    have hne : instr ≠ .load := Callback.ne_load_of_mem_body (hrest.subset List.mem_cons_self)
    have hrest' : rest <:+ cb.body := (List.suffix_cons instr rest).trans hrest
    cases instr with
    | load => exact absurd rfl hne
    | internCause =>
      simp only [Instr.exec] at hexec
      split_ifs at hexec
      cases hexec
      exact ⟨id, .checked hself cb m _ hrest'⟩
    | funcall => cases hexec
    | returnIfNull | withMrb | setConnected | free | clearDataPtr =>
      cases hexec
      exact ⟨id, (At.checked hself cb m _ hrest').mono id⟩

/-- A callback that calls its handler is where it should be when the handler has returned. -/
theorem At.handler {w : Wrapper} {m : Option ℕ} {method : Method} {rest : List Instr} {b b' : Bool}
    (hf : At w ⟨m, .funcall method :: rest, b⟩) : At w ⟨m, rest, b'⟩ := by
  cases hf with
  | checked hself cb m b hrest =>
    exact .checked hself cb m _ ((List.suffix_cons _ rest).trans hrest)

/-- Every callback under way is where it should be. -/
def Placed (s : Threads) : Prop := ∀ t f, s.running t = some f → At s.wrapper f

theorem placed_init : init.Placed := fun _ _ hf ↦ nomatch hf

variable {s s' : Threads}

/-- The callbacks stay where they are. -/
theorem Placed.mono (hs : s.Placed) (hrunning : s'.running = s.running)
    (hself : s.wrapper.self = true → s'.wrapper.self = true) : s'.Placed := fun t f hf ↦
  (hs t f (hrunning ▸ hf)).mono hself

/-- One of them goes on, or comes to its end. -/
theorem Placed.update (hs : s.Placed) {t : Thread} {r : Option Running}
    (hrunning : s'.running = Function.update s.running t r)
    (hself : s.wrapper.self = true → s'.wrapper.self = true)
    (hr : ∀ f, r = some f → At s'.wrapper f) : s'.Placed := by
  intro t' f hf
  rw [hrunning] at hf
  rcases eq_or_ne t' t with rfl | hne
  · exact hr f (by simpa using hf)
  · exact (hs t' f (by simpa [hne] using hf)).mono hself

/-- A line of a callback. -/
theorem Placed.advance {cfg : Config} (hs : s.Placed) {t : Thread} {f : Running}
    (hf : s.running t = some f) (hstep : s.advance cfg t f = some s') : s'.Placed := by
  have hreturn : (s.callbackReturn t).Placed := hs.update rfl id nofun
  obtain ⟨m, - | ⟨instr, rest⟩, b⟩ := f
  · exact Option.some.inj hstep ▸ hreturn
  have hat := hs t _ hf
  simp only [Threads.advance] at hstep
  rcases hexec : instr.exec cfg s.wrapper m with ⟨w', m'⟩ | - | method | - <;>
    simp only [hexec] at hstep
  · obtain rfl := Option.some.inj hstep
    obtain ⟨hself, hat'⟩ := hat.next hexec
    exact hs.update rfl hself fun f hf ↦ Option.some.inj hf ▸ hat'
  · exact Option.some.inj hstep ▸ hreturn
  · obtain rfl := Option.some.inj hstep
    obtain rfl := Instr.eq_funcall hexec
    exact hs.update rfl id fun f hf ↦ Option.some.inj hf ▸ hat.handler
  · cases hstep

/-- **Every step** keeps the callbacks where they should be. -/
theorem Placed.step {cfg : Config} (hs : s.Placed) {e : ThreadsEvent}
    (hstep : (machine cfg).step s e = some s') : s'.Placed := by
  cases step_cases hstep with
  | connectRaised _ | assignRaised _ _ | apiRaised _ _ _ => exact hs
  | connect c client paho _ => exact hs.mono rfl id
  | loaded c op m _ _ => exact hs.mono rfl id
  | callNext c call _ hnext =>
    rcases call with x | ⟨op, m⟩ | ⟨op, m⟩ | ⟨op, client⟩ <;> simp only [callNext] at hnext
    · refine Option.some.inj hnext ▸ hs.mono rfl fun hself ↦ ?_
      cases x
      · exact hself
      · exact hself
      · rfl
    · split_ifs at hnext <;> exact Option.some.inj hnext ▸ hs.mono rfl id
    · split_ifs at hnext <;> exact Option.some.inj hnext ▸ hs.mono rfl id
    · rcases hcall : op.call s.paho client with p | err | - <;> simp only [hcall] at hnext
      · split_ifs at hnext
        exact Option.some.inj hnext ▸ hs.mono rfl id
      · exact Option.some.inj hnext ▸ hs.mono rfl id
      · cases hnext
  | assign c value wrapper hdone =>
    exact hs.mono rfl (System.sameStatics_assign hdone).self.trans
  | silent e paho h _ => exact hs.mono rfl id
  | callback e paho h cb _ _ _ =>
    refine hs.update rfl id fun f hf ↦ ?_
    obtain rfl := Option.some.inj hf
    rw [cb.code_eq]
    exact .start cb false
  | advance t m rest hf hnext => exact hs.advance hf hnext
  | handlerReturn t m rest hf _ =>
    refine hs.update rfl id fun f hf' ↦ ?_
    obtain rfl := Option.some.inj hf'
    cases hs t _ hf with
    | start cb => exact .start cb _
    | loaded hself cb m => exact .loaded hself cb m _
    | checked hself cb m _ hrest => exact .checked hself cb m _ hrest

/-! ### Runs -/

/-- **What dereferences NULL**, event by event. -/
theorem derefs_iff (hs : s.Placed) (e : ThreadsEvent) :
    none ∈ s.derefs e ↔ s.ReadsUnset e ∨ s.ReportsLoss e := by
  cases e with
  | api c op =>
    have hloss : ¬ s.ReportsLoss (.api c op) := by rintro ⟨t, m, rest, ⟨⟩, -⟩
    rw [or_iff_left hloss, derefs, ReadsUnset]
    rcases hself : s.wrapper.self <;> simp [Wrapper.selfPointer, hself]
  | advance t =>
    have hloss : s.ReportsLoss (.advance t) ↔
        ∃ m rest, s.running t = some ⟨m, .internCause :: rest, false⟩ := by
      constructor
      · rintro ⟨t', m, rest, ⟨⟩, hf⟩
        exact ⟨m, rest, hf⟩
      · rintro ⟨m, rest, hf⟩
        exact ⟨t, m, rest, rfl, hf⟩
    rw [hloss, derefs, ReadsUnset]
    rcases hf : s.running t with - | ⟨m, - | ⟨instr, rest⟩, - | -⟩
    · simp
    · simp
    · simp
    · simp [(hs t _ hf).safe]
    · simp
  | callNext c =>
    refine iff_of_false ?_ (not_or.2 ⟨id, by rintro ⟨t, m, rest, ⟨⟩, -⟩⟩)
    rw [derefs]
    rcases s.calls c with - | ((- | - | -) | ⟨op, m⟩ | ⟨op, m⟩ | -)
    all_goals simp
  | connect | assign | paho | handlerReturn =>
    exact iff_of_false (by simp [derefs]) (not_or.2 ⟨id, by rintro ⟨t, m, rest, ⟨⟩, -⟩⟩)

/-- **NULL is dereferenced along exactly the runs** in which the slot is read before `_self` has
been set, or a loss is reported while the slot holds a state. -/
theorem null_free_iff (cfg : Config) (es : List ThreadsEvent) :
    (machine cfg).EachTried (fun s e ↦ ∀ pointer ∈ s.derefs e, pointer ≠ none) init es ↔
      (machine cfg).EachTried (fun s e ↦ ¬ s.ReadsUnset e ∧ ¬ s.ReportsLoss e) init es := by
  refine (machine cfg).eachTried_iff (fun s e s' (hs : s.Placed) hstep ↦ hs.step hstep)
    (fun s e hs ↦ ?_) placed_init es
  rw [← not_or, ← derefs_iff hs e]
  constructor
  · exact fun hnone hmem ↦ hnone none hmem rfl
  · rintro hmem pointer hpointer rfl
    exact hmem hpointer

/-- A connection is made and lost, and `mqtt_connlost` comes past its NULL check. -/
def lossRun : List ThreadsEvent :=
  configure ++ connectCall .ruby ++ [sendTurn, .paho (.connack 0 0)] ++
    callbackLines .receive 4 1 ++
    [.paho (.receiveError 0), sendTurn, .advance .send, .advance .send]

/-- The first call of the program reads through the zero `_self` if it is not a `connect`; and the
loss of a connection passes NULL to `mrb_intern_cstr`. -/
theorem loss_run_derefs_null :
    ¬ (machine ⟨false, true⟩).EachTried (fun s e ↦ ∀ pointer ∈ s.derefs e, pointer ≠ none) init
        [.api .ruby .disconnect] ∧
      ¬ (machine ⟨false, true⟩).EachTried (fun s e ↦ ∀ pointer ∈ s.derefs e, pointer ≠ none) init
        (lossRun ++ [.advance .send]) := by
  have hloss : ((machine ⟨false, true⟩).run init lossRun).any (fun t ↦
      none ∈ t.derefs (.advance .send)) = true := by decide +kernel
  constructor
  · intro h
    exact h.1 none List.mem_cons_self rfl
  · intro h
    obtain ⟨t, hrun, hmem⟩ := (Option.any_eq_true _ _).1 hloss
    exact (machine _).eachTried_last lossRun (.advance .send) h hrun none (of_decide_eq_true hmem)
      rfl

end Threads
