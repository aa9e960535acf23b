import Mathlib.Logic.Basic
import Mathlib.Order.Basic

/-!
# Partial labelled machines and what holds along their runs

A `Machine σ ε` takes a state and an event to the next state, or refuses the event. A run is
a list of events; where an event is refused the run ends there. Three predicates speak about a
run as a whole:

* `Always P s es` — `P` holds in every state the run from `s` passes through;
* `EachStep Q s es` — every step the run takes satisfies `Q`, which reads the state before,
  the event, and the state after;
* `EachTried Q s es` — every event the run comes to satisfies `Q`, also one that is refused.

The rules below are the only inductions over runs that a client needs. `always_of_inductive`
is the invariant rule. `eachStep_of_guarded` carries an invariant that survives only the steps
meeting a guard. `eachStep_iff`, `eachTried_iff`, `always_iff` and `always_iff_eachStep` are the
**exactness** rules:
if, from a good state, a step is right exactly when it meets the guard, then a whole run is right
exactly when all its steps meet the guard. They are what turns "this step breaks the invariant" into
a statement about every run.
-/

/-- A deterministic machine over states `σ` and events `ε`; `none` refuses the event. -/
structure Machine (σ ε : Type*) where
  /-- One step. -/
  step : σ → ε → Option σ

namespace Machine

variable {σ ε : Type*} (M : Machine σ ε)

/-- The state after a whole run, if no event was refused. -/
def run : σ → List ε → Option σ
  | s, [] => some s
  | s, e :: es => (M.step s e).bind fun s' ↦ run s' es

/-- `P` holds in every state of the run. -/
def Always (P : σ → Prop) : σ → List ε → Prop
  | s, [] => P s
  | s, e :: es => P s ∧ ∀ s', M.step s e = some s' → Always P s' es

/-- Every step the run takes satisfies `Q`. -/
def EachStep (Q : σ → ε → σ → Prop) : σ → List ε → Prop
  | _, [] => True
  | s, e :: es => ∀ s', M.step s e = some s' → Q s e s' ∧ EachStep Q s' es

/-- Every event the run comes to satisfies `Q`, the one it is stopped by included. -/
def EachTried (Q : σ → ε → Prop) : σ → List ε → Prop
  | _, [] => True
  | s, e :: es => Q s e ∧ ∀ s', M.step s e = some s' → EachTried Q s' es

/-- `t` is reached from `s` by some run. -/
def Reaches (s t : σ) : Prop := ∃ es, M.run s es = some t

theorem run_singleton (s : σ) (e : ε) : M.run s [e] = M.step s e := by
  rw [run]
  exact Option.bind_fun_some _

theorem run_cons_eq_some_iff {s t : σ} {e : ε} {es : List ε} :
    M.run s (e :: es) = some t ↔ ∃ s', M.step s e = some s' ∧ M.run s' es = some t := by
  simp [run, Option.bind_eq_some_iff]

theorem run_append (s : σ) (es fs : List ε) :
    M.run s (es ++ fs) = (M.run s es).bind fun s' ↦ M.run s' fs := by
  induction es generalizing s with
  | nil => rfl
  | cons e es ih =>
    rw [List.cons_append, run, run]
    rcases M.step s e with - | s'
    · rfl
    · exact ih s'

/-- **What the events alone determine.** If a step takes an observation of the state to a function
of it and of the event, a run folds that function over its events. -/
theorem observe_run {α : Type*} {f : σ → α} {g : α → ε → α}
    (hstep : ∀ s e s', M.step s e = some s' → f s' = g (f s) e) {s t : σ} {es : List ε}
    (hrun : M.run s es = some t) : f t = es.foldl g (f s) := by
  induction es generalizing s with
  | nil =>
    obtain rfl : s = t := Option.some.inj hrun
    rfl
  | cons e es ih =>
    obtain ⟨s', hs', hrest⟩ := M.run_cons_eq_some_iff.1 hrun
    rw [List.foldl_cons, ← hstep s e s' hs']
    exact ih hrest

/-- **A machine seen through an observation.** If from every good state a step is, through `f`, the
step of another machine, and refused where that one refuses it, then so is every run. -/
theorem map_run {τ : Type*} {N : Machine τ ε} {I : σ → Prop} {f : σ → τ}
    (hstep : ∀ s e, I s → (M.step s e).map f = N.step (f s) e ∧ ∀ s', M.step s e = some s' → I s')
    {s : σ} (hs : I s) (es : List ε) : (M.run s es).map f = N.run (f s) es := by
  induction es generalizing s with
  | nil => rfl
  | cons e es ih =>
    obtain ⟨hmap, hkeep⟩ := hstep s e hs
    rw [run, run, ← hmap]
    rcases hs' : M.step s e with - | s'
    · rfl
    · exact ih (hkeep s' hs')

/-- A machine whose steps answer, with the answers so far. -/
def answering {β : Type*} (step : σ → ε → Option (σ × β)) : Machine (σ × List β) ε :=
  ⟨fun s e ↦ (step s.1 e).map fun next ↦ (next.1, s.2 ++ [next.2])⟩

/-- **Simulation.** If whatever the specification does the implementation does too, with the same
answer and ending in related states, then it does so along every run. -/
theorem run_answering_of_simulates {τ β : Type*} {spec : τ → ε → Option (τ × β)}
    {impl : σ → ε → Option (σ × β)} {R : σ → τ → Prop}
    (hstep : ∀ s t e t' b, R s t → spec t e = some (t', b) →
      ∃ s', impl s e = some (s', b) ∧ R s' t')
    {s : σ} {t t' : τ} {answers answers' : List β} (h : R s t) {es : List ε}
    (hrun : (answering spec).run (t, answers) es = some (t', answers')) :
    ∃ s', (answering impl).run (s, answers) es = some (s', answers') ∧ R s' t' := by
  induction es generalizing s t answers with
  | nil =>
    obtain ⟨rfl, rfl⟩ := Prod.mk.inj (Option.some.inj hrun)
    exact ⟨s, rfl, h⟩
  | cons e es ih =>
    obtain ⟨next, hnext, hrest⟩ := (answering spec).run_cons_eq_some_iff.1 hrun
    obtain ⟨⟨t₁, b⟩, hspec, rfl⟩ := Option.map_eq_some_iff.1 hnext
    obtain ⟨s₁, himpl, hR⟩ := hstep s t e t₁ b h hspec
    obtain ⟨s', hs', hlast⟩ := ih hR hrest
    refine ⟨s', (answering impl).run_cons_eq_some_iff.2 ⟨_, ?_, hs'⟩, hlast⟩
    exact Option.map_eq_some_iff.2 ⟨_, himpl, rfl⟩

theorem Reaches.refl (s : σ) : M.Reaches s s := ⟨[], rfl⟩

theorem Reaches.trans {s t u : σ} (h : M.Reaches s t) (h' : M.Reaches t u) : M.Reaches s u := by
  obtain ⟨es, hes⟩ := h
  obtain ⟨fs, hfs⟩ := h'
  exact ⟨es ++ fs, by rw [run_append, hes]; exact hfs⟩

/-- A property of the steps of a run can be checked by taking them. -/
instance decidableEachStep {Q : σ → ε → σ → Prop} [∀ s e s', Decidable (Q s e s')] :
    ∀ (s : σ) (es : List ε), Decidable (M.EachStep Q s es)
  | _, [] => .isTrue trivial
  | s, e :: es =>
    match h : M.step s e with
    | none => .isTrue fun s' hs' ↦ absurd (h.symm.trans hs') (Option.some_ne_none s').symm
    | some s' =>
      have : Decidable (M.EachStep Q s' es) := decidableEachStep s' es
      decidable_of_iff (Q s e s' ∧ M.EachStep Q s' es) <| by
        constructor
        · intro hQ t ht
          obtain rfl : s' = t := Option.some.inj (h.symm.trans ht)
          exact hQ
        · exact fun hall ↦ hall s' h

/-! ### Reading a run property at a state or a step -/

/-- A property of every state of a run holds in particular at its start. -/
theorem Always.head {P : σ → Prop} {s : σ} {es : List ε} (h : M.Always P s es) : P s := by
  cases es with
  | nil => exact h
  | cons e es => exact h.1

/-- And at its end. -/
theorem Always.last {P : σ → Prop} {s t : σ} {es : List ε} (h : M.Always P s es)
    (hrun : M.run s es = some t) : P t := by
  induction es generalizing s with
  | nil =>
    obtain rfl : s = t := Option.some.inj hrun
    exact h
  | cons e es ih =>
    obtain ⟨s', hs', hrest⟩ := M.run_cons_eq_some_iff.1 hrun
    exact ih (h.2 s' hs') hrest

theorem Always.mono {P P' : σ → Prop} (hP : ∀ s, P s → P' s) {s : σ} {es : List ε}
    (h : M.Always P s es) : M.Always P' s es := by
  induction es generalizing s with
  | nil => exact hP s h
  | cons e es ih => exact ⟨hP s h.1, fun s' hs' ↦ ih (h.2 s' hs')⟩

theorem EachStep.mono {Q Q' : σ → ε → σ → Prop} (hQ : ∀ s e s', Q s e s' → Q' s e s')
    {s : σ} {es : List ε} (h : M.EachStep Q s es) : M.EachStep Q' s es := by
  induction es generalizing s with
  | nil => trivial
  | cons e es ih => exact fun s' hs' ↦ ⟨hQ _ _ _ (h s' hs').1, ih (h s' hs').2⟩

/-- The last step of a run is one of its steps. -/
theorem eachStep_last {Q : σ → ε → σ → Prop} {s t u : σ} (es : List ε) (e : ε)
    (h : M.EachStep Q s (es ++ [e])) (hrun : M.run s es = some t) (hstep : M.step t e = some u) :
    Q t e u := by
  induction es generalizing s with
  | nil =>
    obtain rfl : s = t := Option.some.inj hrun
    exact (h u hstep).1
  | cons e' es ih =>
    obtain ⟨s', hs', hrest⟩ := M.run_cons_eq_some_iff.1 hrun
    exact ih (h s' hs').2 hrest

/-- What a run comes to last is something it comes to. -/
theorem eachTried_last {Q : σ → ε → Prop} {s t : σ} (es : List ε) (e : ε)
    (h : M.EachTried Q s (es ++ [e])) (hrun : M.run s es = some t) : Q t e := by
  induction es generalizing s with
  | nil =>
    obtain rfl : s = t := Option.some.inj hrun
    exact h.1
  | cons e' es ih =>
    obtain ⟨s', hs', hrest⟩ := M.run_cons_eq_some_iff.1 hrun
    exact ih (h.2 s' hs') hrest

/-- A run that ends in a bad state was not good all along. -/
theorem not_always_of_run {P : σ → Prop} {s t : σ} {es : List ε} (hrun : M.run s es = some t)
    (hbad : ¬ P t) : ¬ M.Always P s es :=
  fun h ↦ hbad (h.last M hrun)

/-! ### Invariants -/

/-- **The invariant rule.** What holds at the start and survives every step holds along every
run. -/
theorem always_of_inductive {P : σ → Prop} (hstep : ∀ s e s', P s → M.step s e = some s' → P s')
    {s : σ} (hs : P s) (es : List ε) : M.Always P s es := by
  induction es generalizing s with
  | nil => exact hs
  | cons e es ih => exact ⟨hs, fun s' hs' ↦ ih (hstep s e s' hs hs')⟩

/-- What is a fact about any state holds along every run. -/
theorem always_of_forall {P : σ → Prop} (hP : ∀ s, P s) (s : σ) (es : List ε) : M.Always P s es :=
  M.always_of_inductive (fun _ _ s' _ _ ↦ hP s') (hP s) es

theorem Reaches.of_inductive {P : σ → Prop} (hstep : ∀ s e s', P s → M.step s e = some s' → P s')
    {s t : σ} (hs : P s) (h : M.Reaches s t) : P t := by
  obtain ⟨es, hes⟩ := h
  exact (M.always_of_inductive hstep hs es).last M hes

/-- What every step from a good state satisfies, if steps keep states good. -/
theorem eachStep_of_inductive {J : σ → Prop} {Q : σ → ε → σ → Prop}
    (hstep : ∀ s e s', J s → M.step s e = some s' → Q s e s' ∧ J s')
    {s : σ} (hs : J s) (es : List ε) : M.EachStep Q s es := by
  induction es generalizing s with
  | nil => trivial
  | cons e es ih =>
    intro s' hs'
    obtain ⟨hQ, hJ⟩ := hstep s e s' hs hs'
    exact ⟨hQ, ih hJ⟩

/-- **The guarded rule.** An invariant that survives the steps meeting `C` yields `Q` at every
step of a run whose steps all meet `C`. -/
theorem eachStep_of_guarded {J : σ → Prop} {C Q : σ → ε → σ → Prop}
    (hstep : ∀ s e s', J s → M.step s e = some s' → C s e s' → Q s e s' ∧ J s')
    {s : σ} (hs : J s) {es : List ε} (h : M.EachStep C s es) : M.EachStep Q s es := by
  induction es generalizing s with
  | nil => trivial
  | cons e es ih =>
    intro s' hs'
    obtain ⟨hQ, hJ⟩ := hstep s e s' hs hs' (h s' hs').1
    exact ⟨hQ, ih hJ (h s' hs').2⟩

/-- The guarded rule, read at the states. -/
theorem always_of_guarded {J P : σ → Prop} {C : σ → ε → σ → Prop}
    (hstep : ∀ s e s', J s → M.step s e = some s' → C s e s' → J s') (hP : ∀ s, J s → P s)
    {s : σ} (hs : J s) {es : List ε} (h : M.EachStep C s es) : M.Always P s es := by
  induction es generalizing s with
  | nil => exact hP s hs
  | cons e es ih =>
    exact ⟨hP s hs, fun s' hs' ↦ ih (hstep s e s' hs hs' (h s' hs').1) (h s' hs').2⟩

/-! ### Exactness -/

/-- **Exactness over steps.** If from every good state a step is right exactly when it meets the
guard, and meeting the guard keeps the state good, then the steps of a run are all right exactly
when they all meet the guard. -/
theorem eachStep_iff {J : σ → Prop} {C Q : σ → ε → σ → Prop}
    (hstep : ∀ s e s', J s → M.step s e = some s' → (Q s e s' ↔ C s e s') ∧ (C s e s' → J s'))
    {s : σ} (hs : J s) (es : List ε) : M.EachStep Q s es ↔ M.EachStep C s es := by
  induction es generalizing s with
  | nil => exact Iff.rfl
  | cons e es ih =>
    refine forall_congr' fun s' ↦ forall_congr' fun hs' ↦ ?_
    obtain ⟨hiff, hJ⟩ := hstep s e s' hs hs'
    constructor
    · rintro ⟨hQ, hrest⟩
      exact ⟨hiff.1 hQ, (ih (hJ (hiff.1 hQ))).1 hrest⟩
    · rintro ⟨hC, hrest⟩
      exact ⟨hiff.2 hC, (ih (hJ hC)).2 hrest⟩

/-- **Exactness over what is tried.** If in every good state an event is right exactly when it meets
the guard, and steps keep states good, then the events of a run are all right exactly when they all
meet the guard. -/
theorem eachTried_iff {J : σ → Prop} {C Q : σ → ε → Prop}
    (hstep : ∀ s e s', J s → M.step s e = some s' → J s') (hiff : ∀ s e, J s → (Q s e ↔ C s e))
    {s : σ} (hs : J s) (es : List ε) : M.EachTried Q s es ↔ M.EachTried C s es := by
  induction es generalizing s with
  | nil => exact Iff.rfl
  | cons e es ih =>
    refine and_congr (hiff s e hs) ?_
    exact forall_congr' fun s' ↦ forall_congr' fun hs' ↦ ih (hstep s e s' hs hs')

/-- **Exactness over states.** If good states satisfy `P`, a step that meets the guard keeps the
state good, and a step that leads to `P` meets the guard, then `P` holds along a run exactly when
all its steps meet the guard. -/
theorem always_iff {J P : σ → Prop} {C : σ → ε → σ → Prop} (hP : ∀ s, J s → P s)
    (hstep : ∀ s e s', J s → M.step s e = some s' → (C s e s' → J s') ∧ (P s' → C s e s'))
    {s : σ} (hs : J s) (es : List ε) : M.Always P s es ↔ M.EachStep C s es := by
  constructor
  · intro h
    induction es generalizing s with
    | nil => trivial
    | cons e es ih =>
      intro s' hs'
      obtain ⟨hgood, hguard⟩ := hstep s e s' hs hs'
      have hC : C s e s' := hguard ((h.2 s' hs').head M)
      exact ⟨hC, ih (hgood hC) (h.2 s' hs')⟩
  · exact M.always_of_guarded (fun s e s' hs hs' ↦ (hstep s e s' hs hs').1) hP hs

/-- The same with a side invariant `I` that every step keeps: if from a state satisfying `P` a step
leads to `P` exactly when it meets the guard, then `P` holds along a run exactly when all its steps
meet the guard. -/
theorem always_iff_eachStep {I P : σ → Prop} {C : σ → ε → σ → Prop}
    (hI : ∀ s e s', I s → M.step s e = some s' → I s')
    (hstep : ∀ s e s', I s → P s → M.step s e = some s' → (P s' ↔ C s e s'))
    {s : σ} (hs : I s) (hP : P s) (es : List ε) : M.Always P s es ↔ M.EachStep C s es := by
  refine M.always_iff (fun s (hs : I s ∧ P s) ↦ hs.2) (fun s e s' hs hs' ↦ ?_) ⟨hs, hP⟩ es
  have hiff := hstep s e s' hs.1 hs.2 hs'
  exact ⟨fun hC ↦ ⟨hI s e s' hs.1 hs', hiff.2 hC⟩, hiff.1⟩

/-! ### Machines that stop -/

theorem run_of_stopped {D : σ → Prop} (hdead : ∀ s e, D s → M.step s e = none) {s : σ} (hs : D s)
    (e : ε) (es : List ε) : M.run s (e :: es) = none := by
  rw [run, hdead s e hs]
  rfl

/-- **What stops a machine.** If from a good state an event is refused unless it is possible, and
then leads to a good state if it meets the guard and to one where all is over otherwise, then a run
gets past its last event exactly if every event of it is possible and every event before the last
meets the guard. -/
theorem isSome_run_iff {J D : σ → Prop} {C P Q : σ → ε → Prop}
    (hrefuse : ∀ s e, J s → C s e → ¬ P s e → M.step s e = none)
    (hstep : ∀ s e, J s → C s e → P s e →
      ∃ s', M.step s e = some s' ∧ (Q s e → J s') ∧ (¬ Q s e → D s'))
    (hdead : ∀ s e, D s → M.step s e = none) {s : σ} (hs : J s) {es : List ε} {last : ε}
    (h : M.EachTried C s (es ++ [last])) :
    (M.run s (es ++ [last])).isSome ↔
      M.EachTried P s (es ++ [last]) ∧ M.EachStep (fun s e _ ↦ Q s e) s es := by
  induction es generalizing s with
  | nil =>
    rw [List.nil_append, run_singleton]
    by_cases hP : P s last
    · obtain ⟨s', hs', -⟩ := hstep s last hs h.1 hP
      rw [hs']
      exact iff_of_true rfl ⟨⟨hP, fun _ _ ↦ trivial⟩, trivial⟩
    · rw [hrefuse s last hs h.1 hP]
      exact iff_of_false Bool.false_ne_true fun htried ↦ hP htried.1.1
  | cons e es ih =>
    by_cases hP : P s e
    · obtain ⟨s', hs', hgood, hbad⟩ := hstep s e hs h.1 hP
      have hrun : M.run s (e :: es ++ [last]) = M.run s' (es ++ [last]) := by
        rw [List.cons_append, run, hs', Option.bind_some]
      rw [hrun]
      constructor
      · intro hsome
        by_cases hQ : Q s e
        · obtain ⟨htried, heach⟩ := (ih (hgood hQ) (h.2 s' hs')).1 hsome
          refine ⟨⟨hP, fun t ht ↦ ?_⟩, fun t ht ↦ ?_⟩
          · obtain rfl : s' = t := Option.some.inj (hs'.symm.trans ht)
            exact htried
          · obtain rfl : s' = t := Option.some.inj (hs'.symm.trans ht)
            exact ⟨hQ, heach⟩
        · obtain ⟨e', es', he⟩ := List.exists_cons_of_ne_nil (List.concat_ne_nil last es)
          rw [he, M.run_of_stopped hdead (hbad hQ)] at hsome
          cases hsome
      · rintro ⟨htried, heach⟩
        obtain ⟨hQ, hrest⟩ := heach s' hs'
        exact (ih (hgood hQ) (h.2 s' hs')).2 ⟨htried.2 s' hs', hrest⟩
    · have hrun : M.run s (e :: es ++ [last]) = none := by
        rw [List.cons_append, run, hrefuse s e hs h.1 hP, Option.bind_none]
      rw [hrun]
      exact iff_of_false Bool.false_ne_true fun htried ↦ hP htried.1.1

end Machine
