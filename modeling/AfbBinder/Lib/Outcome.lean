/-!
# Computations that may wait forever or go wrong

A partial postcondition says what holds of the result when there is one, and which
faults cannot happen.
-/

namespace AfbBinder.Lib

universe u v w

/-- The end of a computation: a result, a wait that never ends, or a fault. -/
inductive Outcome (φ : Type u) (α : Type v) where
  | ok (value : α)
  | blocked
  | fault (fault : φ)
deriving DecidableEq, Repr

namespace Outcome

variable {φ : Type u} {α : Type v} {β : Type w}

def bind (outcome : Outcome φ α) (next : α → Outcome φ β) : Outcome φ β :=
  match outcome with
  | .ok value => next value
  | .blocked => .blocked
  | .fault f => .fault f

instance : Monad (Outcome φ) where
  pure := Outcome.ok
  bind := Outcome.bind

@[simp] theorem ok_bind {α β : Type v} (value : α) (next : α → Outcome φ β) :
    (Outcome.ok value >>= next) = next value := rfl

/-- The result meets `post` if there is one; a fault is one of the `allowed`. -/
def Post (allowed : φ → Prop) (post : α → Prop) : Outcome φ α → Prop
  | .ok value => post value
  | .blocked => True
  | .fault f => allowed f

variable {allowed : φ → Prop}

theorem Post.bind {α β : Type v} {post : α → Prop} {post' : β → Prop} {outcome : Outcome φ α}
    {next : α → Outcome φ β} (h : outcome.Post allowed post)
    (hnext : ∀ value, post value → (next value).Post allowed post') :
    (outcome >>= next).Post allowed post' := by
  cases outcome with
  | ok value => exact hnext value h
  | blocked => trivial
  | fault f => exact h

theorem Post.mono {post post' : α → Prop} {outcome : Outcome φ α} (h : outcome.Post allowed post)
    (himp : ∀ value, post value → post' value) : outcome.Post allowed post' := by
  cases outcome with
  | ok value => exact himp value h
  | blocked => trivial
  | fault f => exact h

end Outcome

/-! ## Results or errors -/

section Errors

variable {ε : Type u} {α β : Type v} {x : Except ε α} {f : α → Except ε β}

theorem bind_ok {b : β} : x >>= f = .ok b ↔ ∃ a, x = .ok a ∧ f a = .ok b := by
  cases x with
  | error e => simp [bind, Except.bind]
  | ok a => simp [bind, Except.bind]

@[simp] theorem ok_bind_except (a : α) : (Except.ok a : Except ε α) >>= f = f a := rfl

@[simp] theorem error_bind_except (e : ε) : (Except.error e : Except ε α) >>= f = .error e := rfl

end Errors

end AfbBinder.Lib
