import Mathlib.Logic.Function.Basic
import Mathlib.Tactic.SplitIfs

/-!
# What one thread does with its mutexes

A thread's history is a list of `LockOp`s. Which mutexes it holds depends on that history alone: a
mutex that another thread holds is waited for, and then taken. The one thing that can go wrong
without any other thread is a lock of a mutex the thread **holds already**: it never comes back, or
it is refused, by the type of the mutex. `selfLocks` says that a history comes to such a place.

A `guarded` section takes a mutex and releases it. It leaves the thread with what it held before,
and goes wrong only for a thread that holds the mutex.
-/

/-- An operation on a mutex. -/
inductive LockOp (μ : Type*) where
  /-- The mutex is locked. -/
  | lock (m : μ)
  /-- The mutex is unlocked. -/
  | unlock (m : μ)

/-- The types of a mutex that cannot be locked twice. -/
inductive MutexType where
  /-- Locking it again blocks for ever. -/
  | normal
  /-- Locking it again is refused, and so is unlocking it without having locked it. -/
  | errorcheck
deriving DecidableEq, Repr

namespace LockOp

variable {μ : Type*} [DecidableEq μ]

/-- One operation of a thread that holds the mutexes `held`; `none` where it never comes back. -/
def exec (type : MutexType) (held : μ → Bool) : LockOp μ → Option (μ → Bool)
  | .lock m =>
    if held m then
      match type with
      | .normal => none
      | .errorcheck => some held
    else some (Function.update held m true)
  | .unlock m => some (Function.update held m false)

/-- The operation locks a mutex the thread holds already. -/
def relocks (held : μ → Bool) : LockOp μ → Bool
  | .lock m => held m
  | .unlock _ => false

/-- What the thread holds after a history. -/
def execAll (type : MutexType) : (μ → Bool) → List (LockOp μ) → Option (μ → Bool)
  | held, [] => some held
  | held, op :: ops => (op.exec type held).bind fun held ↦ execAll type held ops

/-- The history comes to a lock of a mutex the thread holds already. -/
def selfLocks (type : MutexType) : (μ → Bool) → List (LockOp μ) → Bool
  | _, [] => false
  | held, op :: ops =>
    op.relocks held || (op.exec type held).any fun held ↦ selfLocks type held ops

/-- A section that takes a mutex and releases it. -/
def guarded (m : μ) : List (LockOp μ) := [.lock m, .unlock m]

variable {type : MutexType} {held held' : μ → Bool} {m : μ}

@[simp] theorem execAll_nil : execAll type held [] = some held := rfl

@[simp] theorem selfLocks_nil : selfLocks type held [] = false := rfl

theorem execAll_append (ops ops' : List (LockOp μ)) :
    execAll type held (ops ++ ops') =
      (execAll type held ops).bind fun held ↦ execAll type held ops' := by
  induction ops generalizing held with
  | nil => rfl
  | cons op ops ih =>
    rw [List.cons_append, execAll, execAll]
    rcases op.exec type held with - | held'
    · rfl
    · exact ih

/-- A history is safe if its first part is and leaves the thread so that the second part is. -/
theorem selfLocks_append {ops ops' : List (LockOp μ)} (hops : execAll type held ops = some held') :
    selfLocks type held (ops ++ ops') =
      (selfLocks type held ops || selfLocks type held' ops') := by
  induction ops generalizing held with
  | nil =>
    obtain rfl : held = held' := Option.some.inj hops
    rfl
  | cons op ops ih =>
    rw [execAll] at hops
    rw [List.cons_append, selfLocks, selfLocks]
    rcases hexec : op.exec type held with - | h
    · simp [hexec] at hops
    · rw [hexec, Option.bind_some] at hops
      simp only [Option.any_some, ih hops, Bool.or_assoc]

/-- A free mutex is taken. -/
@[simp] theorem exec_lock (hm : held m = false) :
    exec type held (.lock m) = some (Function.update held m true) := by
  simp [exec, hm]

/-- A section of a free mutex changes nothing. -/
@[simp] theorem execAll_guarded (hm : held m = false) :
    execAll type held (guarded m) = some held := by
  have hback : Function.update (Function.update held m true) m false = held := by
    rw [Function.update_idem, ← hm, Function.update_eq_self]
  rw [guarded, execAll, exec_lock hm, Option.bind_some, execAll, exec, Option.bind_some, hback,
    execAll_nil]

/-- A section goes wrong exactly for a thread that holds the mutex. -/
@[simp] theorem selfLocks_guarded : selfLocks type held (guarded m) = held m := by
  rcases hm : held m with - | -
  · simp [guarded, selfLocks, relocks, hm, exec]
  · simp [guarded, selfLocks, relocks, hm]

/-- What comes behind a section of a free mutex. -/
theorem selfLocks_guarded_append (hm : held m = false) (ops : List (LockOp μ)) :
    selfLocks type held (guarded m ++ ops) = selfLocks type held ops := by
  rw [selfLocks_append (execAll_guarded hm), selfLocks_guarded, hm, Bool.false_or]

/-- A history that begins with a lock of a mutex the thread holds. -/
theorem selfLocks_lock (hm : held m = true) (ops : List (LockOp μ)) :
    selfLocks type held (.lock m :: ops) = true := by
  rw [selfLocks, relocks, hm, Bool.true_or]

/-- A history that takes a free mutex first. -/
theorem selfLocks_lock_of_free (hm : held m = false) (ops : List (LockOp μ)) :
    selfLocks type held (.lock m :: ops) = selfLocks type (Function.update held m true) ops := by
  rw [selfLocks, relocks, hm, Bool.false_or, exec_lock hm, Option.any_some]

/-! ### Neutral histories -/

/-- The history is safe and leaves the thread with the mutexes it held before. -/
structure Neutral (type : MutexType) (held : μ → Bool) (ops : List (LockOp μ)) : Prop where
  /-- What the thread holds in the end. -/
  exec : execAll type held ops = some held
  /-- Nothing is locked twice. -/
  safe : selfLocks type held ops = false

namespace Neutral

variable {ops ops' : List (LockOp μ)}

theorem nil : Neutral type held [] := ⟨rfl, rfl⟩

theorem guarded (hm : held m = false) : Neutral type held (guarded m) :=
  ⟨execAll_guarded hm, selfLocks_guarded.trans hm⟩

theorem append (h : Neutral type held ops) (h' : Neutral type held ops') :
    Neutral type held (ops ++ ops') where
  exec := by rw [execAll_append, h.exec, Option.bind_some, h'.exec]
  safe := by rw [selfLocks_append h.exec, h.safe, h'.safe, Bool.or_false]

theorem ite {p : Prop} [Decidable p] (h : p → Neutral type held ops)
    (h' : ¬ p → Neutral type held ops') : Neutral type held (if p then ops else ops') := by
  split_ifs with hp
  · exact h hp
  · exact h' hp

end Neutral

end LockOp
