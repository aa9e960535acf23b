import MrubyMqtt.Lib.Reclamation
import MrubyMqtt.Threads

/-!
# The life of an `mqtt_state`

Seen from outside, the threads share the `mqtt_state` records through the slot as in
`Reclamation`: a callback holds its copy from the first line on until the last line that reads it, a
call until it has read `m->client` for the last time, and the callbacks that report an end free
what they hold and then clear the slot. `Threads.view` is that view, `Threads.action` says what a
step does in it, and `step_moves` connects the two.

Nothing in the code enforces the discipline: the slot has no lock, and Paho's mutex covers neither
the program's calls nor the callback of `MQTTAsync_writeComplete`. Along the runs that happen to
keep it no freed state is read (`state_lifetime`). For `mrb_free` alone the mutex would be enough,
if it could be locked twice.
-/

open Bytes

/-- Which accesses to a state count. `mrb_free` reads the state it frees; clearing the slot does
not. -/
structure Accesses where
  /-- The lines of callbacks that count. -/
  line : Instr → Bool
  /-- Whether API calls count. -/
  calls : Bool
  /-- `mrb_free` counts. -/
  line_free : line .free = true
  /-- Clearing the slot does not. -/
  line_clearDataPtr : line .clearDataPtr = false

/-- All reads. -/
def Accesses.reads : Accesses := ⟨Instr.readsState, true, rfl, rfl⟩

/-- The calls of `mrb_free` only. -/
def Accesses.frees : Accesses := ⟨Instr.isFree, false, rfl, rfl⟩

/-- Who can hold a state. -/
inductive Party where
  /-- The callback on a thread of Paho's. -/
  | callback (t : Thread)
  /-- An API call. -/
  | call (c : Caller)
deriving DecidableEq, Repr

/-- The callback will still access `m`. -/
def Running.Holds (x : Accesses) (f : Running) (m : ℕ) : Prop :=
  f.m = some m ∧ f.rest.any x.line = true

/-- The callback has freed `m` and is about to clear the slot. -/
def Running.Clearing (f : Running) (m : ℕ) : Prop :=
  f.m = some m ∧ f.rest.head? = some .clearDataPtr

/-- The call will still access `m`. -/
def Calling.Holds (x : Accesses) (call : Calling) (m : ℕ) : Prop :=
  x.calls = true ∧ call.reads = some m

theorem Calling.copied_of_reads {call : Calling} {m : ℕ} (h : call.reads = some m) :
    call.copied = some m := by
  rcases call with _ | ⟨op, k⟩ | ⟨op, k⟩ | _ <;> simp only [Calling.reads, reduceCtorEq] at h
  · split_ifs at h
    exact h
  · split_ifs at h
    exact h

/-- The call has allocated `m` and not put it into the slot yet. -/
def Calling.Fresh (call : Calling) (m : ℕ) : Prop :=
  ∃ client, call = .connecting (.allocated client m)

namespace Threads

/-- The slot, and who holds what. -/
def view (x : Accesses) (s : Threads) : Reclamation Party ℕ where
  slot := s.wrapper.dataPtr
  held party m :=
    match party with
    | .callback t => ∃ f ∈ s.running t, f.Holds x m
    | .call c => ∃ call ∈ s.calls c, call.Holds x m
  clearing party m :=
    match party with
    | .callback t => ∃ f ∈ s.running t, f.Clearing m
    | .call _ => False
  fresh party m :=
    match party with
    | .callback _ => False
    | .call c => ∃ call ∈ s.calls c, call.Fresh m
  freed := s.wrapper.freed

/-- What a line of a callback does. -/
def lineAction (x : Accesses) (s : Threads) (t : Thread) (f : Running) :
    Reclamation.Action Party ℕ :=
  match f.rest, f.m, s.wrapper.dataPtr with
  | .load :: rest, _, some m => if rest.any x.line then .load (.callback t) m else .quiet
  | .free :: _, some m, _ => .free (.callback t) m
  | .clearDataPtr :: _, _, _ => .clear (.callback t)
  | _, _, _ => .quiet

/-- What an event does. -/
def action (x : Accesses) (s : Threads) : ThreadsEvent → Reclamation.Action Party ℕ
  | .api c op =>
    match s.wrapper.dataPtr with
    | some m =>
      if op.validOptions && (x.calls && op.readsContext) then .load (.call c) m else .quiet
    | none => .quiet
  | .callNext c =>
    match s.calls c with
    | some (.connecting (.queued _)) => .allocate (.call c) s.wrapper.stateCount
    | some (.connecting (.allocated _ m)) => .publish (.call c) m
    | _ => .quiet
  | .advance t =>
    match s.running t with
    | some f => s.lineAction x t f
    | none => .quiet
  | _ => .quiet

/-- The invariant of all threads: the callbacks run their code, and every state anybody knows has
been allocated. -/
structure Wf (s : Threads) : Prop where
  /-- What a callback has still to run is the end of its code. -/
  rest : ∀ t, ∀ f ∈ s.running t, ∃ cb : Callback, f.rest <:+ cb.code
  /-- The state in the slot has been allocated. -/
  slot : ∀ m ∈ s.wrapper.dataPtr, m < s.wrapper.stateCount
  /-- The states the callbacks have copied have been allocated. -/
  copied : ∀ t, ∀ f ∈ s.running t, ∀ m ∈ f.m, m < s.wrapper.stateCount
  /-- So have those the calls have copied. -/
  loaded : ∀ c, ∀ call ∈ s.calls c, ∀ m ∈ call.copied, m < s.wrapper.stateCount
  /-- So have the freed ones. -/
  freed : ∀ m ∈ s.wrapper.freed, m < s.wrapper.stateCount
  /-- So have those not in the slot yet. -/
  fresh : ∀ c client m, s.calls c = some (.connecting (.allocated client m)) →
    m < s.wrapper.stateCount
  /-- Two calls have allocated different states. -/
  apart : ∀ c c' client client' m, s.calls c = some (.connecting (.allocated client m)) →
    s.calls c' = some (.connecting (.allocated client' m)) → c = c'

theorem wf_init : init.Wf where
  rest _ _ h := nomatch h
  slot _ h := nomatch h
  copied _ _ h := nomatch h
  loaded _ _ h := nomatch h
  freed _ h := nomatch h
  fresh _ _ _ h := nomatch h
  apart _ _ _ _ _ h := nomatch h

/-! ### What a step does -/

/-- After `mrb_free` a callback only clears the slot. -/
theorem suffix_free {cb : Callback} {rest : List Instr} (h : .free :: rest <:+ cb.code) :
    rest = [.clearDataPtr] := by
  cases cb <;> simp_all [Callback.code, List.suffix_cons_iff]

/-- What can be found in a table in which one entry has been replaced. -/
theorem exists_mem_update {κ β : Type*} [DecidableEq κ] {g : κ → Option β} {k j : κ} {r : Option β}
    {P : β → Prop} : (∃ b ∈ Function.update g k r j, P b) ↔
      (j = k ∧ ∃ b ∈ r, P b) ∨ (j ≠ k ∧ ∃ b ∈ g j, P b) := by
  rcases eq_or_ne j k with rfl | hne
  · simp [Function.update_self]
  · simp [hne]

variable {x : Accesses} {s : Threads} {paho : Paho} {w : Wrapper} {mutex : Option Thread}

/-- The callback on a thread goes on, or comes to its end. -/
theorem Wf.running (hs : s.Wf) {t : Thread} {r : Option Running}
    (hr : ∀ f ∈ r, (∃ cb : Callback, f.rest <:+ cb.code) ∧ ∀ m ∈ f.m, m < s.wrapper.stateCount)
    (hslot : ∀ m ∈ w.dataPtr, m < s.wrapper.stateCount)
    (hfreed : ∀ m ∈ w.freed, m < s.wrapper.stateCount)
    (hcount : w.stateCount = s.wrapper.stateCount) :
    (Threads.mk paho w (Function.update s.running t r) mutex s.calls).Wf := by
  have hold : ∀ t', ∀ f ∈ Function.update s.running t r t',
      (∃ cb : Callback, f.rest <:+ cb.code) ∧ ∀ m ∈ f.m, m < s.wrapper.stateCount := by
    intro t' f hf
    rcases eq_or_ne t' t with rfl | hne
    · exact hr f (by simpa using hf)
    · rw [Function.update_of_ne hne] at hf
      exact ⟨hs.rest t' f hf, hs.copied t' f hf⟩
  exact {
    rest := fun t' f hf ↦ (hold t' f hf).1
    slot := fun m hm ↦ (hslot m hm).trans_eq hcount.symm
    copied := fun t' f hf m hm ↦ ((hold t' f hf).2 m hm).trans_eq hcount.symm
    loaded := fun c call hc m hm ↦ (hs.loaded c call hc m hm).trans_eq hcount.symm
    freed := fun m hm ↦ (hfreed m hm).trans_eq hcount.symm
    fresh := fun c client m hc ↦ (hs.fresh c client m hc).trans_eq hcount.symm
    apart := hs.apart }

/-- An API call goes on, or comes to its end, and allocates nothing. -/
theorem Wf.calls (hs : s.Wf) {c : Caller} {r : Option Calling}
    (hloaded : ∀ call ∈ r, ∀ m ∈ call.copied, m < s.wrapper.stateCount)
    (hfresh : ∀ client m, r ≠ some (.connecting (.allocated client m)))
    (hslot : ∀ m ∈ w.dataPtr, m < s.wrapper.stateCount) (hfreed : w.freed = s.wrapper.freed)
    (hcount : w.stateCount = s.wrapper.stateCount) :
    (Threads.mk paho w s.running mutex (Function.update s.calls c r)).Wf := by
  have hold : ∀ c' call, Function.update s.calls c r c' = some call →
      (c' = c ∧ r = some call) ∨ s.calls c' = some call := by
    intro c' call hc
    rcases eq_or_ne c' c with rfl | hne
    · exact .inl ⟨rfl, by simpa using hc⟩
    · exact .inr (by simpa [hne] using hc)
  have hallocated : ∀ c' client m,
      Function.update s.calls c r c' = some (.connecting (.allocated client m)) →
      s.calls c' = some (.connecting (.allocated client m)) := fun c' client m hc ↦
    (hold c' _ hc).resolve_left fun h ↦ hfresh client m h.2
  exact {
    rest := hs.rest
    slot := fun m hm ↦ (hslot m hm).trans_eq hcount.symm
    copied := fun t f hf m hm ↦ (hs.copied t f hf m hm).trans_eq hcount.symm
    loaded := fun c' call hc m hm ↦ by
      refine lt_of_lt_of_eq ?_ hcount.symm
      rcases hold c' _ hc with ⟨-, hr⟩ | hc
      · exact hloaded call hr m hm
      · exact hs.loaded c' call hc m hm
    freed := fun m hm ↦ (hs.freed m (hfreed ▸ hm)).trans_eq hcount.symm
    fresh := fun c' client m hc ↦
      (hs.fresh c' client m (hallocated c' client m hc)).trans_eq hcount.symm
    apart := fun c₁ c₂ h₁ h₂ m hc₁ hc₂ ↦
      hs.apart c₁ c₂ h₁ h₂ m (hallocated c₁ h₁ m hc₁) (hallocated c₂ h₂ m hc₂) }

/-- Who holds what, after a callback has gone on. -/
theorem held_running {t : Thread} {r : Option Running} {i : Party} {m : ℕ} :
    ((Threads.mk paho w (Function.update s.running t r) mutex s.calls).view x).held i m ↔
      (i = .callback t ∧ ∃ f ∈ r, f.Holds x m) ∨ (i ≠ .callback t ∧ (s.view x).held i m) := by
  rcases i with t' | c
  · simpa only [view, Party.callback.injEq, ne_eq] using
      exists_mem_update (g := s.running) (P := fun f ↦ f.Holds x m)
  · simp [view]

/-- Who is about to clear the slot, after a callback has gone on. -/
theorem clearing_running {t : Thread} {r : Option Running} {i : Party} {m : ℕ} :
    ((Threads.mk paho w (Function.update s.running t r) mutex s.calls).view x).clearing i m ↔
      (i = .callback t ∧ ∃ f ∈ r, f.Clearing m) ∨ (i ≠ .callback t ∧ (s.view x).clearing i m) := by
  rcases i with t' | c
  · simpa only [view, Party.callback.injEq, ne_eq] using
      exists_mem_update (g := s.running) (P := fun f ↦ f.Clearing m)
  · simp [view]

/-- Who holds what, after a call has gone on. -/
theorem held_calls {c : Caller} {r : Option Calling} {i : Party} {m : ℕ} :
    ((Threads.mk paho w s.running mutex (Function.update s.calls c r)).view x).held i m ↔
      (i = .call c ∧ ∃ call ∈ r, call.Holds x m) ∨ (i ≠ .call c ∧ (s.view x).held i m) := by
  rcases i with t | c'
  · simp [view]
  · simpa only [view, Party.call.injEq, ne_eq] using
      exists_mem_update (g := s.calls) (P := fun call ↦ call.Holds x m)

/-- Who has a fresh state, after a call has gone on. -/
theorem fresh_calls {c : Caller} {r : Option Calling} {i : Party} {m : ℕ} :
    ((Threads.mk paho w s.running mutex (Function.update s.calls c r)).view x).fresh i m ↔
      (i = .call c ∧ ∃ call ∈ r, call.Fresh m) ∨ (i ≠ .call c ∧ (s.view x).fresh i m) := by
  rcases i with t | c'
  · simp [view]
  · simpa only [view, Party.call.injEq, ne_eq] using
      exists_mem_update (g := s.calls) (P := fun call ↦ call.Fresh m)

/-- A callback that was not about to clear the slot has gone on. -/
theorem clearing_running_of {t : Thread} {f : Running} {r : Option Running}
    (hf : s.running t = some f) (hrest : f.rest.head? ≠ some .clearDataPtr) {i : Party} {m : ℕ}
    (hclearing : (s.view x).clearing i m) :
    ((Threads.mk paho w (Function.update s.running t r) mutex s.calls).view x).clearing i m := by
  refine clearing_running.2 (.inr ⟨?_, hclearing⟩)
  rintro rfl
  obtain ⟨f', hf', -, hhead⟩ := hclearing
  obtain rfl : f = f' := Option.some.inj (hf.symm.trans hf')
  exact hrest hhead

/-- A callback goes on, or comes to its end, and holds no more than before. -/
theorem moves_running {t : Thread} {r : Option Running}
    (hslot : w.dataPtr = s.wrapper.dataPtr) (hfreed : w.freed = s.wrapper.freed)
    (hheld : ∀ f' ∈ r, ∀ m, f'.Holds x m → ∃ f ∈ s.running t, f.Holds x m)
    (hclearing : ∀ f ∈ s.running t, ∀ m, f.Clearing m → ∃ f' ∈ r, f'.Clearing m) :
    (s.view x).Moves ((Threads.mk paho w (Function.update s.running t r) mutex s.calls).view x)
      .quiet := by
  refine .quiet hslot hfreed (fun i m hm ↦ ?_) (fun i m hm ↦ ?_) fun i m hm ↦ hm
  · rcases held_running.1 hm with ⟨rfl, f', hf', hholds⟩ | ⟨-, hold⟩
    · exact hheld f' hf' m hholds
    · exact hold
  · rcases eq_or_ne i (.callback t) with rfl | hne
    · obtain ⟨f, hf, hclear⟩ := hm
      exact clearing_running.2 (.inl ⟨rfl, hclearing f hf m hclear⟩)
    · exact clearing_running.2 (.inr ⟨hne, hm⟩)

/-- An API call goes on, or comes to its end, and holds no more than before. -/
theorem moves_calls {c : Caller} {r : Option Calling}
    (hslot : w.dataPtr = s.wrapper.dataPtr) (hfreed : w.freed = s.wrapper.freed)
    (hheld : ∀ call' ∈ r, ∀ m, call'.Holds x m → ∃ call ∈ s.calls c, call.Holds x m)
    (hfresh : ∀ call ∈ r, ∀ m, ¬ call.Fresh m) :
    (s.view x).Moves ((Threads.mk paho w s.running mutex (Function.update s.calls c r)).view x)
      .quiet := by
  refine .quiet hslot hfreed (fun i m hm ↦ ?_) (fun i m hm ↦ hm) fun i m hm ↦ ?_
  · rcases held_calls.1 hm with ⟨rfl, call, hcall, hholds⟩ | ⟨-, hold⟩
    · exact hheld call hcall m hholds
    · exact hold
  · rcases fresh_calls.1 hm with ⟨rfl, call, hcall, hnew⟩ | ⟨-, hold⟩
    · exact absurd hnew (hfresh call hcall m)
    · exact hold

/-- A callback runs one line that neither copies nor frees nor clears. -/
theorem moves_line (hs : s.Wf) {t : Thread} {m : Option ℕ} {instr : Instr} {rest : List Instr}
    {b b' : Bool} (hf : s.running t = some ⟨m, instr :: rest, b⟩)
    (hinstr : instr ≠ .clearDataPtr) (hslot : w.dataPtr = s.wrapper.dataPtr)
    (hfreed : w.freed = s.wrapper.freed) (hcount : w.stateCount = s.wrapper.stateCount) :
    (Threads.mk paho w (Function.update s.running t (some ⟨m, rest, b'⟩)) mutex s.calls).Wf ∧
      (s.view x).Moves ((Threads.mk paho w (Function.update s.running t (some ⟨m, rest, b'⟩)) mutex
        s.calls).view x) .quiet := by
  constructor
  · refine hs.running ?_ (hslot ▸ hs.slot) (hfreed ▸ hs.freed) hcount
    rintro f ⟨⟩
    obtain ⟨cb, hsuffix⟩ := hs.rest t _ hf
    have hcopied := hs.copied t _ hf
    exact ⟨⟨cb, (List.suffix_cons instr rest).trans hsuffix⟩, hcopied⟩
  · refine moves_running hslot hfreed ?_ ?_
    · rintro f ⟨⟩ k ⟨hk, hany⟩
      exact ⟨_, hf, hk, by simp_all⟩
    · rintro f hf' k ⟨-, hclear⟩
      obtain rfl : ⟨m, instr :: rest, b⟩ = f := Option.some.inj (hf.symm.trans hf')
      exact absurd (Option.some.inj hclear) hinstr

/-- A callback returns. -/
theorem moves_callbackReturn (hs : s.Wf) {t : Thread} {f : Running} (hf : s.running t = some f)
    (hrest : f.rest.head? ≠ some .clearDataPtr) :
    (s.callbackReturn t).Wf ∧ (s.view x).Moves ((s.callbackReturn t).view x) .quiet := by
  refine ⟨hs.running nofun hs.slot hs.freed rfl, moves_running rfl rfl nofun ?_⟩
  rintro f' hf' k ⟨-, hclear⟩
  obtain rfl : f = f' := Option.some.inj (hf.symm.trans hf')
  exact absurd hclear hrest

/-- A callback copies the slot. -/
theorem load_moves (hs : s.Wf) {t : Thread} {m : Option ℕ} {rest : List Instr} {b : Bool}
    (hf : s.running t = some ⟨m, .load :: rest, b⟩) :
    { s with running := Function.update s.running t (some ⟨s.wrapper.dataPtr, rest, false⟩) }.Wf ∧
      (s.view x).Moves ({ s with
        running := Function.update s.running t (some ⟨s.wrapper.dataPtr, rest, false⟩) }.view x)
        (s.lineAction x t ⟨m, .load :: rest, b⟩) := by
  constructor
  · refine hs.running ?_ hs.slot hs.freed rfl
    rintro f ⟨⟩
    obtain ⟨cb, hsuffix⟩ := hs.rest t _ hf
    exact ⟨⟨cb, (List.suffix_cons .load rest).trans hsuffix⟩, hs.slot⟩
  -- The callback holds what was in the slot, if that is a state and a line to come reads it.
  have hheld : ∀ {i k}, (({ s with
      running := Function.update s.running t (some ⟨s.wrapper.dataPtr, rest, false⟩) } :
      Threads).view x).held i k →
      (s.view x).held i k ∨ (s.wrapper.dataPtr = some k ∧ rest.any x.line = true) := by
    intro i k hk
    rcases held_running.1 hk with ⟨-, f, ⟨⟩, hholds⟩ | ⟨-, hold⟩
    · exact .inr hholds
    · exact .inl hold
  rcases hslot : s.wrapper.dataPtr with - | k
  · simp only [lineAction, hslot]
    rw [hslot] at hheld
    refine .quiet rfl rfl (fun i k hk ↦ ?_) (fun _ _ hk ↦ clearing_running_of hf (by simp) hk)
      fun _ _ hk ↦ hk
    exact (hheld hk).resolve_right fun h ↦ nomatch h.1
  · simp only [lineAction, hslot]
    rw [hslot] at hheld
    split_ifs with hany
    · refine .load _ k hslot rfl rfl (fun i k' hk' ↦ ?_)
        (fun _ _ hk' ↦ clearing_running_of hf (by simp) hk') fun _ _ hk' ↦ hk'
      exact (hheld hk').imp_right fun h ↦ (Option.some.inj h.1).symm
    · refine .quiet rfl rfl (fun i k' hk' ↦ ?_)
        (fun _ _ hk' ↦ clearing_running_of hf (by simp) hk') fun _ _ hk' ↦ hk'
      exact (hheld hk').resolve_right fun h ↦ hany h.2

/-- A callback frees its copy. -/
theorem free_moves (hs : s.Wf) {t : Thread} {m : ℕ} {b : Bool}
    (hf : s.running t = some ⟨some m, [.free, .clearDataPtr], b⟩) :
    { s with
      wrapper := { s.wrapper with freed := s.wrapper.freed ++ [m] }
      running := Function.update s.running t (some ⟨some m, [.clearDataPtr], false⟩) }.Wf ∧
      (s.view x).Moves ({ s with
        wrapper := { s.wrapper with freed := s.wrapper.freed ++ [m] }
        running := Function.update s.running t (some ⟨some m, [.clearDataPtr], false⟩) }.view x)
        (.free (.callback t) m) := by
  have hcopied : ∀ k ∈ some m, k < s.wrapper.stateCount := hs.copied t _ hf
  constructor
  · refine hs.running ?_ hs.slot (fun k hk ↦ ?_) rfl
    · rintro f ⟨⟩
      obtain ⟨cb, hsuffix⟩ := hs.rest t _ hf
      exact ⟨⟨cb, (List.suffix_cons .free _).trans hsuffix⟩, hcopied⟩
    · rcases List.mem_append.1 hk with hold | hnew
      · exact hs.freed k hold
      · exact List.mem_singleton.1 hnew ▸ hcopied m rfl
  · refine .free _ m ⟨_, hf, rfl, by simp [x.line_free]⟩ rfl rfl (fun i k hk ↦ ?_)
      (fun _ _ hk ↦ clearing_running_of hf (by simp) hk)
      (clearing_running.2 (.inl ⟨rfl, _, rfl, rfl, rfl⟩)) fun _ _ hk ↦ hk
    -- Clearing the slot is no access, so the callback is done with the state.
    rcases held_running.1 hk with ⟨-, f, ⟨⟩, -, hany⟩ | ⟨hne, hold⟩
    · simp [x.line_clearDataPtr] at hany
    · exact ⟨hold, hne⟩

/-- A callback clears the slot. -/
theorem clearDataPtr_moves (hs : s.Wf) {t : Thread} {m : Option ℕ} {rest : List Instr} {b : Bool}
    (hf : s.running t = some ⟨m, .clearDataPtr :: rest, b⟩) :
    { s with
      wrapper := { s.wrapper with dataPtr := none }
      running := Function.update s.running t (some ⟨m, rest, false⟩) }.Wf ∧
      (s.view x).Moves ({ s with
        wrapper := { s.wrapper with dataPtr := none }
        running := Function.update s.running t (some ⟨m, rest, false⟩) }.view x)
        (.clear (.callback t)) := by
  constructor
  · refine hs.running ?_ (by simp) hs.freed rfl
    rintro f ⟨⟩
    obtain ⟨cb, hsuffix⟩ := hs.rest t _ hf
    have hcopied := hs.copied t _ hf
    exact ⟨⟨cb, (List.suffix_cons .clearDataPtr rest).trans hsuffix⟩, hcopied⟩
  · refine .clear _ rfl rfl (fun i k hk ↦ ?_) fun _ _ hk ↦ hk
    rcases held_running.1 hk with ⟨rfl, f, ⟨⟩, hk', hany⟩ | ⟨-, hold⟩
    · exact ⟨_, hf, hk', by simp_all⟩
    · exact hold

/-- **A line of a callback** keeps the invariant and does what `lineAction` says. -/
theorem advance_moves {cfg : Config} {s' : Threads} (hs : s.Wf) {t : Thread} {f : Running}
    (hf : s.running t = some f) (hstep : s.advance cfg t f = some s') :
    s'.Wf ∧ (s.view x).Moves (s'.view x) (s.lineAction x t f) := by
  obtain ⟨m, rest, b⟩ := f
  rcases rest with - | ⟨instr, rest⟩
  · obtain rfl := Option.some.inj hstep
    exact moves_callbackReturn hs hf (by simp)
  cases instr with
  | load =>
    simp only [advance, Instr.exec] at hstep
    rcases hload : s.wrapper.loadDataPtr with - | ptr <;> simp only [hload] at hstep
    · cases hstep
    obtain rfl := Option.some.inj hstep
    obtain rfl : s.wrapper.dataPtr = ptr := (Wrapper.loadDataPtr_eq_some_iff.1 hload).2
    exact load_moves hs hf
  | returnIfNull =>
    simp only [advance, Instr.exec] at hstep
    rcases m with - | m
    · obtain rfl := Option.some.inj hstep
      exact moves_callbackReturn hs hf (by simp)
    · obtain rfl := Option.some.inj hstep
      exact moves_line hs hf (by simp) rfl rfl rfl
  | internCause =>
    simp only [advance, Instr.exec] at hstep
    split_ifs at hstep
    obtain rfl := Option.some.inj hstep
    exact moves_line hs hf (by simp) rfl rfl rfl
  | withMrb =>
    obtain rfl := Option.some.inj hstep
    exact moves_line hs hf (by simp) rfl rfl rfl
  | setConnected value =>
    obtain rfl := Option.some.inj hstep
    exact moves_line hs hf (by simp) rfl rfl rfl
  | funcall method =>
    obtain rfl := Option.some.inj hstep
    exact moves_line hs hf (by simp) rfl rfl rfl
  | free =>
    obtain ⟨cb, hsuffix⟩ := hs.rest t _ hf
    obtain rfl := suffix_free hsuffix
    obtain rfl := Option.some.inj hstep
    rcases m with - | m
    · -- `mrb_free(NULL)` does nothing.
      have hnone : s.wrapper.freed ++ (none : Option ℕ).toList = s.wrapper.freed := by simp
      exact moves_line hs hf (by simp) rfl hnone rfl
    · exact free_moves hs hf
  | clearDataPtr =>
    obtain rfl := Option.some.inj hstep
    exact clearDataPtr_moves hs hf

/-- An event that changes neither callbacks nor calls nor the slot does nothing. -/
theorem moves_refl (s : Threads) (x : Accesses) : (s.view x).Moves (s.view x) .quiet :=
  .quiet rfl rfl (fun _ _ h ↦ h) (fun _ _ h ↦ h) fun _ _ h ↦ h

/-- A call allocates its state. -/
theorem Wf.allocate (hs : s.Wf) (c : Caller) (client : ℕ) :
    (Threads.mk s.paho (s.wrapper.mallocState client).2 s.running s.mutex
      (Function.update s.calls c
        (some (.connecting (.allocated client s.wrapper.stateCount))))).Wf := by
  have hgrow : ∀ m, m < s.wrapper.stateCount → m < (s.wrapper.mallocState client).2.stateCount :=
    fun _ hm ↦ hm.trans (Nat.lt_succ_self _)
  have hold : ∀ c' call, Function.update s.calls c
      (some (.connecting (.allocated client s.wrapper.stateCount))) c' = some call →
      (c' = c ∧ call = .connecting (.allocated client s.wrapper.stateCount)) ∨
        s.calls c' = some call := by
    intro c' call hc
    rcases eq_or_ne c' c with rfl | hne
    · exact .inl ⟨rfl, by simpa [eq_comm] using hc⟩
    · exact .inr (by simpa [hne] using hc)
  refine ⟨hs.rest, fun m hm ↦ hgrow m (hs.slot m hm),
    fun t f hf m hm ↦ hgrow m (hs.copied t f hf m hm),
    fun c' call hc m hm ↦ ?_, fun m hm ↦ hgrow m (hs.freed m hm), fun c' client' m hc ↦ ?_,
    fun c₁ c₂ h₁ h₂ m hc₁ hc₂ ↦ ?_⟩
  · rcases hold c' _ hc with ⟨-, rfl⟩ | hc
    · cases hm
    · exact hgrow m (hs.loaded c' call hc m hm)
  · rcases hold c' _ hc with ⟨-, hnew⟩ | hc
    · cases hnew
      exact Nat.lt_succ_self _
    · exact hgrow m (hs.fresh c' client' m hc)
  · rcases hold c₁ _ hc₁ with ⟨rfl, hnew₁⟩ | hold₁ <;>
      rcases hold c₂ _ hc₂ with ⟨rfl, hnew₂⟩ | hold₂
    · rfl
    · cases hnew₁
      exact absurd (hs.fresh c₂ h₂ _ hold₂) (lt_irrefl _)
    · cases hnew₂
      exact absurd (hs.fresh c₁ h₁ _ hold₁) (lt_irrefl _)
    · exact hs.apart c₁ c₂ h₁ h₂ m hold₁ hold₂

/-- **A call goes on**: it allocates its state, puts it into the slot, reads `m->client`, or does
nothing that matters here. -/
theorem callNext_moves {s' : Threads} (hs : s.Wf) {c : Caller} {call : Calling}
    (hc : s.calls c = some call) (hstep : s.callNext c call = some s') :
    s'.Wf ∧ (s.view x).Moves (s'.view x) (s.action x (.callNext c)) := by
  have hend : (s.endCall c).Wf ∧ (s.view x).Moves ((s.endCall c).view x) .quiet :=
    ⟨hs.calls nofun nofun hs.slot rfl rfl, moves_calls rfl rfl nofun nofun⟩
  rcases call with (client | ⟨client, m⟩ | ⟨client, m⟩) | ⟨op, m⟩ | ⟨op, m⟩ | ⟨op, client⟩
  · obtain rfl := Option.some.inj hstep
    simp only [action, hc]
    -- Whatever is known has a smaller number than the new state.
    have hnew : s.wrapper.stateCount ∉ s.wrapper.freed ∧
        s.wrapper.dataPtr ≠ some s.wrapper.stateCount ∧
        ∀ i, ¬ (s.view x).held i s.wrapper.stateCount := by
      refine ⟨fun h ↦ lt_irrefl _ (hs.freed _ h), fun h ↦ lt_irrefl _ (hs.slot _ h), ?_⟩
      rintro (t | c') ⟨f, hf, hholds⟩
      · exact lt_irrefl _ (hs.copied t f hf _ hholds.1)
      · exact lt_irrefl _ (hs.loaded c' f hf _ (Calling.copied_of_reads hholds.2))
    refine ⟨hs.allocate c client, .allocate _ _ hnew rfl rfl (fun i m hm ↦ ?_) (fun _ _ hm ↦ hm)
      fun i m hm ↦ ?_⟩
    · rcases held_calls.1 hm with ⟨-, call, ⟨⟩, -, ⟨⟩⟩ | ⟨-, hold⟩
      exact hold
    · rcases fresh_calls.1 hm with ⟨-, call, ⟨⟩, client', heq⟩ | ⟨-, hold⟩
      · right
        cases heq
        rfl
      · exact .inl hold
  · obtain rfl := Option.some.inj hstep
    simp only [action, hc]
    have hknown : ∀ k ∈ some m, k < s.wrapper.stateCount := by
      rintro k ⟨⟩
      exact hs.fresh c client m hc
    refine ⟨hs.calls nofun nofun hknown rfl rfl, .publish _ _ ⟨_, hc, client, rfl⟩ rfl rfl
      (fun i k hk ↦ ?_) (fun _ _ hk ↦ hk) fun i k hk ↦ ?_⟩
    · rcases held_calls.1 hk with ⟨-, call, ⟨⟩, -, ⟨⟩⟩ | ⟨-, hold⟩
      exact hold
    · rcases fresh_calls.1 hk with ⟨-, call, ⟨⟩, client', ⟨⟩⟩ | ⟨hne, hold⟩
      refine ⟨hold, ?_⟩
      -- Two calls have not allocated the same state.
      rintro rfl
      rcases i with t | c'
      · exact hold
      · obtain ⟨call, hcall, client', rfl⟩ := hold
        exact hne (congrArg _ (hs.apart c' c client' client k hcall hc))
  · obtain rfl := Option.some.inj hstep
    simp only [action, hc]
    exact ⟨hs.calls nofun nofun hs.slot rfl rfl, moves_calls rfl rfl nofun nofun⟩
  · simp only [callNext] at hstep
    simp only [action, hc]
    split_ifs at hstep with hreads
    · obtain rfl := Option.some.inj hstep
      refine ⟨hs.calls ?_ nofun hs.slot rfl rfl,
        moves_calls rfl rfl ?_ (by rintro _ ⟨⟩ k ⟨client, ⟨⟩⟩)⟩
      · rintro _ ⟨⟩ k hk
        exact hs.loaded c _ hc k hk
      · -- A call that reads `m->client` again has been going to do so from the start.
        rintro _ ⟨⟩ k ⟨hcalls, hk⟩
        obtain rfl : m = k := Option.some.inj (Calling.copied_of_reads hk)
        exact ⟨_, hc, hcalls, if_pos hreads⟩
    · exact Option.some.inj hstep ▸ hend
  · simp only [callNext] at hstep
    simp only [action, hc]
    split_ifs at hstep
    · obtain rfl := Option.some.inj hstep
      exact ⟨hs.calls (by rintro _ ⟨⟩ k ⟨⟩) nofun hs.slot rfl rfl,
        moves_calls rfl rfl (by rintro _ ⟨⟩ k ⟨-, ⟨⟩⟩) (by rintro _ ⟨⟩ k ⟨client, ⟨⟩⟩)⟩
    · exact Option.some.inj hstep ▸ hend
  · simp only [callNext] at hstep
    simp only [action, hc]
    rcases hcall : op.call s.paho client with p | err | - <;> simp only [hcall] at hstep
    · split_ifs at hstep
      obtain rfl := Option.some.inj hstep
      exact ⟨hs.calls nofun nofun hs.slot rfl rfl, moves_calls rfl rfl nofun nofun⟩
    · exact Option.some.inj hstep ▸ hend
    · cases hstep

/-- An attribute is assigned. -/
theorem Wf.assign (hs : s.Wf) (hsame : System.SameStatics s.wrapper w) :
    { s with wrapper := w }.Wf where
  rest := hs.rest
  slot m hm := (hs.slot m (hsame.dataPtr ▸ hm)).trans_eq hsame.stateCount.symm
  copied t f hf m hm := (hs.copied t f hf m hm).trans_eq hsame.stateCount.symm
  loaded c call hc m hm := (hs.loaded c call hc m hm).trans_eq hsame.stateCount.symm
  freed m hm := (hs.freed m (hsame.freed ▸ hm)).trans_eq hsame.stateCount.symm
  fresh c client m hc := (hs.fresh c client m hc).trans_eq hsame.stateCount.symm
  apart := hs.apart

/-- A call copies the slot. -/
theorem loaded_moves (hs : s.Wf) {c : Caller} {op : Api} {m : ℕ} (hvalid : op.validOptions = true)
    (hload : s.wrapper.loadDataPtr = some (some m)) :
    { s with calls := Function.update s.calls c (some (.loaded op m)) }.Wf ∧
      (s.view x).Moves ({ s with calls := Function.update s.calls c (some (.loaded op m)) }.view x)
        (s.action x (.api c op)) := by
  have hslot : s.wrapper.dataPtr = some m := (Wrapper.loadDataPtr_eq_some_iff.1 hload).2
  simp only [action, hslot, hvalid, Bool.true_and]
  refine ⟨hs.calls ?_ nofun hs.slot rfl rfl, ?_⟩
  · rintro _ ⟨⟩ k ⟨⟩
    exact hs.slot m hslot
  split_ifs with hcounts
  · refine .load _ m hslot rfl rfl (fun i k hk ↦ ?_) (fun _ _ hk ↦ hk) fun i k hk ↦ ?_
    · rcases held_calls.1 hk with ⟨-, call, ⟨⟩, -, hreads⟩ | ⟨-, hold⟩
      · exact .inr (Option.some.inj (Calling.copied_of_reads hreads)).symm
      · exact .inl hold
    · rcases fresh_calls.1 hk with ⟨-, call, ⟨⟩, client, ⟨⟩⟩ | ⟨-, hold⟩
      exact hold
  · refine moves_calls rfl rfl ?_ ?_
    · rintro _ ⟨⟩ k ⟨hcalls, hreads⟩
      refine absurd ?_ hcounts
      have hcontext : op.readsContext = true := by
        by_contra hnone
        simp [Calling.reads, hnone] at hreads
      rw [hcalls, hcontext]
      rfl
    · rintro _ ⟨⟩ k ⟨client, ⟨⟩⟩

/-- **Every step** keeps the invariant and does what `action` says. -/
theorem step_moves {cfg : Config} {s' : Threads} {e : ThreadsEvent} (hs : s.Wf)
    (hstep : (machine cfg).step s e = some s') :
    s'.Wf ∧ (s.view x).Moves (s'.view x) (s.action x e) := by
  cases step_cases hstep with
  | connectRaised _ | assignRaised _ _ => exact ⟨hs, s.moves_refl x⟩
  | apiRaised c op hraised =>
    have hquiet : s.action x (.api c op) = .quiet := by
      rcases hvalid : op.validOptions with - | -
      · rcases hslot : s.wrapper.dataPtr with - | m <;> simp [action, hslot, hvalid]
      · simp [action, (Wrapper.loadDataPtr_eq_some_iff.1 (hraised hvalid)).2]
    exact ⟨hs, hquiet ▸ s.moves_refl x⟩
  | connect c client paho _ =>
    refine ⟨hs.calls nofun nofun hs.slot rfl rfl, moves_calls rfl rfl ?_ ?_⟩
    · rintro _ ⟨⟩ m ⟨-, ⟨⟩⟩
    · rintro _ ⟨⟩ m ⟨k, ⟨⟩⟩
  | loaded c op m hvalid hload => exact loaded_moves hs hvalid hload
  | callNext c call hcall hnext => exact callNext_moves hs hcall hnext
  | assign c value wrapper hdone =>
    have hsame := System.sameStatics_assign hdone
    exact ⟨hs.assign hsame, .quiet hsame.dataPtr hsame.freed (fun _ _ h ↦ h) (fun _ _ h ↦ h)
      fun _ _ h ↦ h⟩
  | silent e paho h _ =>
    exact ⟨⟨hs.rest, hs.slot, hs.copied, hs.loaded, hs.freed, hs.fresh, hs.apart⟩,
      s.moves_refl x⟩
  | callback e paho h cb _ hidle _ =>
    refine ⟨hs.running ?_ hs.slot hs.freed rfl, moves_running rfl rfl ?_ ?_⟩
    · rintro f ⟨⟩
      exact ⟨⟨cb, List.suffix_rfl⟩, nofun⟩
    · rintro f ⟨⟩ m ⟨⟨⟩, -⟩
    · rintro f hf
      rw [hidle] at hf
      cases hf
  | advance t m rest hf hnext =>
    have hmoves := advance_moves (x := x) hs hf hnext
    simpa only [action, hf] using hmoves
  | handlerReturn t m rest hf _ =>
    refine ⟨hs.running ?_ hs.slot hs.freed rfl, moves_running rfl rfl ?_ ?_⟩
    · rintro f ⟨⟩
      have hrest := hs.rest t _ hf
      have hcopied := hs.copied t _ hf
      exact ⟨hrest, hcopied⟩
    · rintro f ⟨⟩ k hk
      exact ⟨_, hf, hk⟩
    · rintro f hf' k hk
      obtain rfl : ⟨m, rest, true⟩ = f := Option.some.inj (hf.symm.trans hf')
      exact ⟨_, rfl, hk⟩

/-! ### Reads -/

/-- **The discipline**, for all reads: the event copies no state that a callback has freed and not
cleared yet, and frees none that a callback or a call will still read. -/
def Exclusive (s : Threads) (e : ThreadsEvent) : Prop :=
  (s.view .reads).Disciplined (s.action .reads e)

theorem sound_init (x : Accesses) : (init.view x).Sound where
  live i m h := by rcases i with t | c <;> obtain ⟨_, ⟨⟩, -⟩ := h
  once := List.nodup_nil
  stale _ h := nomatch h
  unknown i m h := by
    rcases i with t | c
    · exact h.elim
    · obtain ⟨_, ⟨⟩, -⟩ := h

/-- What is read next is held, and so has not been freed. -/
theorem noUseAfterFree (hsound : (s.view .reads).Sound) : s.NoUseAfterFree := by
  intro e m he
  cases e with
  | callNext c =>
    obtain ⟨call, hc, hreads⟩ := Option.bind_eq_some_iff.1 he
    exact hsound.live (.call c) m ⟨call, hc, rfl, hreads⟩
  | advance t =>
    rcases hf : s.running t with - | ⟨ptr, - | ⟨instr, rest⟩, - | -⟩ <;>
      simp only [reads, hf, reduceCtorEq] at he
    split_ifs at he with hreads
    exact hsound.live (.callback t) m ⟨_, hf, he, by simp [Accesses.reads, hreads]⟩
  | _ => cases he

/-! ### The mutex -/

/-- A callback that will free its state or clear the slot holds the mutex. -/
def MutexHeld (s : Threads) : Prop :=
  ∀ t, ∀ f ∈ s.running t, .free ∈ f.rest ∨ .clearDataPtr ∈ f.rest → s.mutex = some t

/-- A call that goes on leaves callbacks and mutex alone. -/
theorem callNext_frame {s' : Threads} {c : Caller} {call : Calling}
    (hstep : s.callNext c call = some s') : s'.running = s.running ∧ s'.mutex = s.mutex := by
  rcases call with next | ⟨op, m⟩ | ⟨op, m⟩ | ⟨op, client⟩
  · exact Option.some.inj hstep ▸ ⟨rfl, rfl⟩
  · simp only [callNext] at hstep
    split_ifs at hstep <;> exact Option.some.inj hstep ▸ ⟨rfl, rfl⟩
  · simp only [callNext] at hstep
    split_ifs at hstep <;> exact Option.some.inj hstep ▸ ⟨rfl, rfl⟩
  · simp only [callNext] at hstep
    rcases hcall : op.call s.paho client with p | err | - <;> simp only [hcall] at hstep
    · split_ifs at hstep
      exact Option.some.inj hstep ▸ ⟨rfl, rfl⟩
    · exact Option.some.inj hstep ▸ ⟨rfl, rfl⟩
    · cases hstep

/-- A callback goes on with a part of the lines it had. -/
theorem MutexHeld.running (hs : s.MutexHeld) {t : Thread} {f f' : Running}
    (hf : s.running t = some f) (hrest : f'.rest ⊆ f.rest) :
    (Threads.mk paho w (Function.update s.running t (some f')) s.mutex s.calls).MutexHeld := by
  intro t' g hg hends
  rcases eq_or_ne t' t with rfl | hne
  · obtain rfl : f' = g := by simpa using hg
    exact hs t' f hf (hends.imp (fun h ↦ hrest h) fun h ↦ hrest h)
  · exact hs t' g (by simpa [hne] using hg) hends

theorem MutexHeld.callbackReturn (hs : s.MutexHeld) (t : Thread) :
    (s.callbackReturn t).MutexHeld := by
  intro t' f hf hends
  have hne : t' ≠ t := by
    rintro rfl
    simp [Threads.callbackReturn] at hf
  have hheld : s.mutex = some t' := hs t' f (by simpa [Threads.callbackReturn, hne] using hf) hends
  simp [Threads.callbackReturn, hheld, hne]

/-- The one callback that Paho makes without the mutex neither frees nor clears. -/
theorem onPublish_of_not_underMutex {p p' : Paho} {e : PahoEvent} {h : ℕ} {cb : Callback}
    (hstep : p.step e = some (p', h, some cb)) (he : e.underMutex = false) :
    cb = .mqttOnPublish := by
  cases e with
  | writeComplete k =>
    simp only [Paho.step] at hstep
    split_ifs at hstep
    rcases hresponses : (p.handle k).responses with - | ⟨command, rest⟩ <;>
      simp only [hresponses, reduceCtorEq, Option.some.injEq, Prod.mk.injEq] at hstep
    exact hstep.2.2.symm
  | _ => cases he

/-- If the mutex can be locked twice, the callbacks that need it keep it. -/
theorem MutexHeld.step {cfg : Config} (hcfg : cfg.recursiveMutex = true) {s' : Threads}
    {e : ThreadsEvent} (hs : s.MutexHeld) (hstep : (machine cfg).step s e = some s') :
    s'.MutexHeld := by
  cases step_cases hstep with
  | connectRaised _ | assignRaised _ _ | apiRaised _ _ _ | loaded _ _ _ _ _ => exact hs
  | connect c client paho _ =>
    -- Unlocking once does not release a mutex that the callback has locked before.
    intro t f hf hends
    simpa [mutexAfter, hcfg] using hs t f hf hends
  | callNext c call _ hnext =>
    obtain ⟨hrunning, hmutex⟩ := callNext_frame hnext
    intro t f hf hends
    rw [hmutex]
    exact hs t f (hrunning ▸ hf) hends
  | assign c value wrapper _ => exact hs
  | silent e paho h _ => exact hs
  | callback e paho h cb hpaho _ hmutex =>
    intro t f hf hends
    rcases hunder : e.underMutex with - | -
    · -- The callback of `MQTTAsync_writeComplete`.
      obtain rfl := onPublish_of_not_underMutex hpaho hunder
      rcases eq_or_ne t e.thread with rfl | hne
      · obtain rfl : Running.mk none Callback.mqttOnPublish.code false = f := by
          simpa [Threads.callback] using hf
        simp [Callback.code] at hends
      · simpa [Threads.callback, hunder] using
          hs t f (by simpa [Threads.callback, hne] using hf) hends
    · -- Nobody else holds the mutex.
      rcases eq_or_ne t e.thread with rfl | hne
      · simp [Threads.callback]
      · have hheld := hs t f (by simpa [Threads.callback, hne] using hf) hends
        rw [hmutex hunder] at hheld
        cases hheld
  | advance t m rest hf hnext =>
    rw [Threads.advance] at hnext
    rcases rest with - | ⟨instr, rest⟩
    · exact Option.some.inj hnext ▸ hs.callbackReturn t
    · have hsub : rest ⊆ instr :: rest := List.subset_cons_self instr rest
      rcases hexec : instr.exec cfg s.wrapper m with ⟨w, m'⟩ | - | method | - <;>
        simp only [hexec] at hnext
      · exact Option.some.inj hnext ▸ hs.running hf hsub
      · exact Option.some.inj hnext ▸ hs.callbackReturn t
      · exact Option.some.inj hnext ▸ hs.running hf hsub
      · cases hnext
  | handlerReturn t m rest hf _ => exact hs.running hf (List.Subset.refl rest)

/-- Under the mutex one callback at a time frees and clears. -/
theorem MutexHeld.disciplined (hs : s.MutexHeld) (e : ThreadsEvent) :
    (s.view .frees).Disciplined (s.action .frees e) := by
  cases e with
  | api c op =>
    rcases hslot : s.wrapper.dataPtr with - | m <;>
      simp [action, hslot, Accesses.frees, Reclamation.Disciplined]
  | callNext c =>
    simp only [action]
    rcases s.calls c with - | ((- | - | -) | - | - | -) <;> trivial
  | advance t =>
    rcases hf : s.running t with - | f
    · simp [action, hf, Reclamation.Disciplined]
    simp only [action, hf]
    have hfrees : ∀ rest : List Instr, rest.any Accesses.frees.line = true → .free ∈ rest := by
      intro rest hany
      obtain ⟨instr, hmem, hfree⟩ := List.any_eq_true.1 hany
      cases instr <;> first | exact hmem | cases hfree
    -- Two callbacks that need the mutex are on the same thread.
    have hown : ∀ t' f', s.running t' = some f' → .free ∈ f'.rest ∨ .clearDataPtr ∈ f'.rest →
        .free ∈ f.rest → t' = t := fun t' f' hf' hends' hfree ↦
      Option.some.inj ((hs t' f' hf' hends').symm.trans (hs t f hf (.inl hfree)))
    obtain ⟨m, - | ⟨instr, rest⟩, b⟩ := f
    · trivial
    cases instr with
    | load =>
      rcases hslot : s.wrapper.dataPtr with - | k <;> simp only [lineAction, hslot]
      · trivial
      split_ifs with hany
      · rintro (t' | c) hclear
        · obtain ⟨f', hf', -, hhead⟩ := hclear
          obtain rfl := hown t' f' hf' (.inr (List.mem_of_mem_head? hhead))
            (List.mem_cons_of_mem _ (hfrees rest hany))
          obtain rfl : ⟨m, .load :: rest, b⟩ = f' := Option.some.inj (hf.symm.trans hf')
          cases hhead
        · exact hclear
      · trivial
    | free =>
      rcases m with - | m <;> simp only [lineAction]
      · trivial
      rintro (t' | c) hne ⟨f', hf', hheld⟩
      · obtain rfl := hown t' f' hf' (.inl (hfrees _ hheld.2)) List.mem_cons_self
        exact hne rfl
      · obtain ⟨⟨⟩, -⟩ := hheld
    | _ => trivial
  | _ => trivial

/-- **The life of a state.** Along every run:

* if every step keeps the discipline, no freed state is ever read, and none is freed twice;
* if the mutex can be locked twice, no state is freed twice, whatever happens. -/
theorem state_lifetime (cfg : Config) (es : List ThreadsEvent) :
    ((machine cfg).EachStep (fun s e _ ↦ s.Exclusive e) init es →
      (machine cfg).Always (fun s ↦ s.NoUseAfterFree ∧ s.wrapper.freed.Nodup) init es) ∧
    (cfg.recursiveMutex = true →
      (machine cfg).Always (fun s ↦ s.wrapper.freed.Nodup) init es) := by
  constructor
  · refine (machine cfg).always_of_guarded
      (fun s e s' (hs : s.Wf ∧ (s.view .reads).Sound) hstep hexclusive ↦ ?_)
      (fun s hs ↦ ⟨noUseAfterFree hs.2, hs.2.once⟩) ⟨wf_init, sound_init _⟩
    obtain ⟨hs', hmoves⟩ := step_moves hs.1 hstep
    exact ⟨hs', hs.2.step hmoves hexclusive⟩
  · intro hcfg
    have hinv : (machine cfg).Always
        (fun s ↦ s.Wf ∧ (s.view .frees).Sound ∧ s.MutexHeld) init es := by
      refine (machine cfg).always_of_inductive (fun s e s' ⟨hs, hsound, hmutex⟩ hstep ↦ ?_)
        ⟨wf_init, sound_init _, nofun⟩ es
      obtain ⟨hs', hmoves⟩ := step_moves hs hstep
      exact ⟨hs', hsound.step hmoves (hmutex.disciplined e), hmutex.step hcfg hstep⟩
    exact hinv.mono _ fun s hs ↦ hs.2.1.once

/-- The address and the client id are set. -/
def configure : List ThreadsEvent :=
  [.assign .ruby (.address (.string [0x68])), .assign .ruby (.clientId (.string [0x6D]))]

/-- A call of `connect` from its first line to its return. -/
def connectCall (c : Caller) : List ThreadsEvent :=
  [.connect c, .callNext c, .callNext c, .callNext c]

/-- One turn of the send thread. -/
def sendTurn : ThreadsEvent := .paho (.processCommand (fun _ ↦ true) .sent .complete)

/-- A callback runs `n` lines up to its handler, the handler returns, and it runs `k` more lines. -/
def callbackLines (t : Thread) (n k : ℕ) : List ThreadsEvent :=
  List.replicate n (.advance t) ++ [.handlerReturn t] ++ List.replicate k (.advance t)

/-- The program calls `disconnect`, which copies the slot; then the connection is lost, and the
callback gets as far as `mrb_free`. -/
def staleRun : List ThreadsEvent :=
  configure ++ connectCall .ruby ++ [sendTurn, .paho (.connack 0 0)] ++
    callbackLines .receive 4 1 ++ [.api .ruby .disconnect, .paho (.receiveError 0), sendTurn] ++
    callbackLines .send 5 1

/-- Two clients, of which the first is connected and loses its connection. Its handler calls
`connect`, which releases the mutex that the callback holds; so the receive thread reports the
failure of the second client at the same time. -/
def doubleRun : List ThreadsEvent :=
  configure ++ connectCall .ruby ++ connectCall .ruby ++
    [sendTurn, sendTurn, .paho (.connack 0 0)] ++ callbackLines .receive 4 1 ++
    [.paho (.connack 1 5), sendTurn, .paho (.receiveError 0), sendTurn] ++
    List.replicate 5 (.advance .send) ++ [.connect (.handler .send), .paho (.connack 1 5)] ++
    callbackLines .receive 3 1 ++
    [.callNext (.handler .send), .callNext (.handler .send), .callNext (.handler .send)] ++
    callbackLines .send 0 1

/-- At the end of the first run the program reads a freed state next; in the second, with a mutex
that cannot be locked twice, one state is freed twice. -/
theorem stale_run_reads_freed :
    ¬ (machine ⟨true, true⟩).Always NoUseAfterFree init staleRun ∧
      ¬ (machine ⟨true, false⟩).Always (fun s ↦ s.wrapper.freed.Nodup) init doubleRun := by
  have hstale : ((machine ⟨true, true⟩).run init staleRun).any (fun t ↦
      t.reads (.callNext .ruby) = some 0 ∧ 0 ∈ t.wrapper.freed) = true := by decide +kernel
  have hdouble : ((machine ⟨true, false⟩).run init doubleRun).any (fun t ↦
      ¬ t.wrapper.freed.Nodup) = true := by decide +kernel
  constructor
  · obtain ⟨t, hrun, ht⟩ := (Option.any_eq_true _ _).1 hstale
    obtain ⟨hreads, hfreed⟩ := of_decide_eq_true ht
    exact (machine _).not_always_of_run hrun fun hsafe ↦ hsafe _ 0 hreads hfreed
  · obtain ⟨t, hrun, ht⟩ := (Option.any_eq_true _ _).1 hdouble
    exact (machine _).not_always_of_run hrun (of_decide_eq_true ht)

end Threads
