import Mathlib

/-!
# Computations that may halt

`Except ε` models code that may halt without looking at the rest of the world, and
`EStateM ε σ` models code that also changes a state, which is kept when it halts. The rules
below execute such code step by step. Nothing in this file refers to a particular program.
-/

namespace NetBmp
namespace Halting

variable {ε σ α β : Type}

@[simp] theorem pure_eq_ok (a : α) : (pure a : Except ε α) = .ok a := rfl

@[simp] theorem ok_bind (a : α) (f : α → Except ε β) : (Except.ok a >>= f) = f a := rfl

@[simp] theorem error_bind (e : ε) (f : α → Except ε β) :
    ((Except.error e : Except ε α) >>= f) = .error e := rfl

theorem bind_eq_error {x : Except ε α} {f : α → Except ε β} {e : ε} (h : (x >>= f) = .error e) :
    x = .error e ∨ ∃ a, x = .ok a ∧ f a = .error e := by
  cases x with
  | error e' => exact Or.inl (by simpa using h)
  | ok a => exact Or.inr ⟨a, rfl, h⟩

theorem bind_eq_ok {x : Except ε α} {f : α → Except ε β} {b : β} (h : (x >>= f) = .ok b) :
    ∃ a, x = .ok a ∧ f a = .ok b := by
  cases x with
  | error e => cases h
  | ok a => exact ⟨a, rfl, h⟩

/-- Run code that does not touch the state. -/
def lift : Except ε α → EStateM ε σ α
  | .ok a => pure a
  | .error e => throw e

@[simp] theorem lift_ok (a : α) : (lift (.ok a) : EStateM ε σ α) = pure a := rfl

@[simp] theorem lift_error (e : ε) : (lift (.error e) : EStateM ε σ α) = throw e := rfl

@[simp] theorem run_throw (e : ε) (s : σ) : (throw e : EStateM ε σ α).run s = .error e s := rfl

theorem run_bind_of_ok {x : EStateM ε σ α} {s t : σ} {a : α} (h : x.run s = .ok a t)
    (f : α → EStateM ε σ β) : (x >>= f).run s = (f a).run t := by
  rw [EStateM.run_bind, h]

theorem run_bind_of_error {x : EStateM ε σ α} {s t : σ} {e : ε} (h : x.run s = .error e t)
    (f : α → EStateM ε σ β) : (x >>= f).run s = .error e t := by
  rw [EStateM.run_bind, h]

/-- The state in which code has come to its end or has halted. -/
def endOf : EStateM.Result ε σ α → σ
  | .ok _ s => s
  | .error _ s => s

/-- What code returns, or the message with which it halts. -/
def outcomeOf : EStateM.Result ε σ α → Except ε α
  | .ok a _ => .ok a
  | .error e _ => .error e

end Halting
end NetBmp
