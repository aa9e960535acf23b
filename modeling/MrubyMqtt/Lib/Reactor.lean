import Mathlib.Data.List.Forall2

/-!
# Reactors: total machines that answer every event

A `Reactor σ ε ο` answers an event with a list of outputs, from a state that the event changes. It
never refuses an event, so two reactors can be fed the same events and their answers compared.

* `outputs_eq_iff` — two reactors answer a sequence alike exactly when at each of its events they
  do, in the states that the events before it lead to.
* `flatten_outputs_eq_iff` — where one of them never answers more than the other, it makes no
  difference that only the concatenation of the answers is seen.
* `after_latch` — a reactor whose state is a flag that is never taken down holds it exactly when one
  of the events so far has raised it.
-/

/-- A machine over states `σ` that answers an event of `ε` with outputs in `ο`. -/
structure Reactor (σ ε ο : Type*) where
  /-- The next state and the answer. -/
  react : σ → ε → σ × List ο

namespace Reactor

variable {σ σ' ε ε' ο : Type*} (R : Reactor σ ε ο) (R' : Reactor σ' ε ο)

/-- The state after a sequence of events. -/
def after (s : σ) (es : List ε) : σ := es.foldl (fun s e ↦ (R.react s e).1) s

/-- The answers to a sequence of events. -/
def outputs : σ → List ε → List (List ο)
  | _, [] => []
  | s, e :: es => (R.react s e).2 :: outputs (R.react s e).1 es

/-- The reactor that is fed what `f` makes of an event. -/
def comap (f : ε' → ε) : Reactor σ ε' ο where
  react s e := R.react s (f e)

/-- The reactor of which only some outputs are seen. -/
def select (keep : ο → Bool) : Reactor σ ε ο where
  react s e := ((R.react s e).1, (R.react s e).2.filter keep)

theorem after_comap (f : ε' → ε) (s : σ) (es : List ε') :
    (R.comap f).after s es = R.after s (es.map f) := by
  rw [after, after, List.foldl_map]
  rfl

theorem outputs_comap (f : ε' → ε) (s : σ) (es : List ε') :
    (R.comap f).outputs s es = R.outputs s (es.map f) := by
  induction es generalizing s with
  | nil => rfl
  | cons e es ih => exact congrArg _ (ih _)

theorem after_select (keep : ο → Bool) (s : σ) (es : List ε) :
    (R.select keep).after s es = R.after s es := rfl

theorem flatten_outputs_select (keep : ο → Bool) (s : σ) (es : List ε) :
    ((R.select keep).outputs s es).flatten = (R.outputs s es).flatten.filter keep := by
  induction es generalizing s with
  | nil => rfl
  | cons e es ih =>
    rw [outputs, outputs, List.flatten_cons, List.flatten_cons, List.filter_append, ih]
    rfl

/-! ### Two reactors on the same events -/

/-- **Answers are compared event by event.** -/
theorem outputs_eq_iff (s : σ) (s' : σ') (es : List ε) :
    R.outputs s es = R'.outputs s' es ↔ ∀ pre e post, es = pre ++ e :: post →
      (R.react (R.after s pre) e).2 = (R'.react (R'.after s' pre) e).2 := by
  induction es generalizing s s' with
  | nil => simp [outputs]
  | cons e es ih =>
    rw [outputs, outputs, List.cons_eq_cons, ih]
    constructor
    · rintro ⟨hhead, hrest⟩ (- | ⟨e', pre⟩) d post hsplit
      · obtain ⟨rfl, -⟩ := List.cons.inj hsplit
        exact hhead
      · obtain ⟨rfl, hrest'⟩ := List.cons.inj hsplit
        exact hrest pre d post hrest'
    · intro h
      refine ⟨h [] e es rfl, fun pre d post hsplit ↦ ?_⟩
      exact h (e :: pre) d post (congrArg _ hsplit)

theorem flatten_sublist {L L' : List (List ο)} (h : List.Forall₂ List.Sublist L L') :
    L.flatten.Sublist L'.flatten := by
  induction h with
  | nil => exact .slnil
  | cons hhead _ ih =>
    rw [List.flatten_cons, List.flatten_cons]
    exact hhead.append ih

/-- Answers of which the ones are parts of the others are the same if their concatenations are. -/
theorem flatten_eq_iff {L L' : List (List ο)} (h : List.Forall₂ List.Sublist L L') :
    L.flatten = L'.flatten ↔ L = L' := by
  refine ⟨fun heq ↦ ?_, congrArg _⟩
  induction h with
  | nil => rfl
  | @cons a a' L L' hhead hrest ih =>
    rw [List.flatten_cons, List.flatten_cons] at heq
    -- Neither the head nor the rest can be shorter, since together they are as long.
    have hlength : a.length = a'.length := by
      have hsum := congrArg List.length heq
      rw [List.length_append, List.length_append] at hsum
      have hhead' := hhead.length_le
      have hrest' := (flatten_sublist hrest).length_le
      omega
    obtain rfl := hhead.eq_of_length hlength
    rw [ih (List.append_cancel_left heq)]

/-- **Comparing what is seen in all**, for a reactor that never answers more than the other. -/
theorem flatten_outputs_eq_iff {s : σ} {s' : σ'} {es : List ε}
    (hle : ∀ pre e post, es = pre ++ e :: post →
      (R.react (R.after s pre) e).2.Sublist (R'.react (R'.after s' pre) e).2) :
    (R.outputs s es).flatten = (R'.outputs s' es).flatten ↔ R.outputs s es = R'.outputs s' es := by
  refine flatten_eq_iff ?_
  induction es generalizing s s' with
  | nil => exact .nil
  | cons e es ih =>
    refine .cons (hle [] e es rfl) (ih fun pre d post hsplit ↦ ?_)
    exact hle (e :: pre) d post (congrArg _ hsplit)

/-- An answer that is given under `p` or under a weaker `q`. -/
theorem answer_eq_iff {p q : Prop} [Decidable p] [Decidable q] {answer : List ο} (hpq : p → q) :
    (if p then answer else []) = (if q then answer else []) ↔ (q → answer ≠ [] → p) := by
  by_cases hp : p
  · rw [if_pos hp, if_pos (hpq hp)]
    exact iff_of_true rfl fun _ _ ↦ hp
  · by_cases hq : q
    · rw [if_neg hp, if_pos hq]
      exact ⟨fun h _ hne ↦ absurd h.symm hne, fun h ↦ (not_imp_comm.1 (h hq) hp).symm⟩
    · rw [if_neg hp, if_neg hq]
      exact iff_of_true rfl fun h ↦ absurd h hq

theorem answer_sublist {p q : Prop} [Decidable p] [Decidable q] {answer : List ο} (hpq : p → q) :
    (if p then answer else []).Sublist (if q then answer else []) := by
  by_cases hp : p
  · rw [if_pos hp, if_pos (hpq hp)]
  · rw [if_neg hp]
    exact List.nil_sublist _

/-! ### Flags -/

/-- **A latch.** A flag that no event takes down is up exactly when an event has put it up. -/
theorem after_latch {R : Reactor Bool ε ο} (hlatch : ∀ e, (R.react true e).1 = true) (b : Bool)
    (es : List ε) : R.after b es = (b || es.any fun e ↦ (R.react false e).1) := by
  induction es generalizing b with
  | nil => simp [after]
  | cons e es ih =>
    show R.after (R.react b e).1 es = _
    rw [ih, List.any_cons]
    cases b with
    | true => rw [hlatch, Bool.true_or, Bool.true_or]
    | false => rw [Bool.false_or]

end Reactor
