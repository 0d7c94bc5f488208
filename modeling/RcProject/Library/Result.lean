import Mathlib.Tactic.Common

namespace rc_project

/-- The ways in which a step of a C program leaves the behaviour that its
source determines. -/
inductive Fault
  | null_dereference
  | overflow
  | out_of_bounds
  | wild_pointer
  | recursion
  deriving DecidableEq, Repr

/-- The outcome of a C function: a value, or the first fault it runs into. -/
abbrev Result (α : Type) := Except Fault α

namespace Result

variable {α β : Type}

instance [DecidableEq α] : DecidableEq (Result α)
  | .ok a, .ok b => decidable_of_iff (a = b) (by simp)
  | .error e, .error f => decidable_of_iff (e = f) (by simp)
  | .ok _, .error _ => .isFalse (by simp)
  | .error _, .ok _ => .isFalse (by simp)

/-- A sequence of two computations yields a value exactly when both parts do. -/
theorem bind_eq_ok_iff {x : Result α} {f : α → Result β} {y : β} :
    (x >>= f) = .ok y ↔ ∃ a, x = .ok a ∧ f a = .ok y := by
  cases x <;> simp [Bind.bind, Except.bind]

/-- A sequence of two computations fails exactly when the first part does, or the
second one behind it. -/
theorem bind_eq_error_iff {x : Result α} {f : α → Result β} {e : Fault} :
    (x >>= f) = .error e ↔ x = .error e ∨ ∃ a, x = .ok a ∧ f a = .error e := by
  cases x <;> simp [Bind.bind, Except.bind]

/-- Where the second part cannot fail, only the first one can. -/
theorem bind_eq_error_iff_left {x : Result α} {f : α → Result β} {e : Fault}
    (hsilent : ∀ a, x = .ok a → ∃ b, f a = .ok b) : (x >>= f) = .error e ↔ x = .error e := by
  rw [bind_eq_error_iff]
  refine or_iff_left ?_
  rintro ⟨a, hx, hf⟩
  obtain ⟨b, hb⟩ := hsilent a hx
  cases hf.symm.trans hb

@[simp] theorem ok_bind (a : α) (f : α → Result β) : (Except.ok a >>= f) = f a := rfl

@[simp] theorem error_bind (e : Fault) (f : α → Result β) :
    ((Except.error e : Result α) >>= f) = .error e := rfl

@[simp] theorem pure_eq_ok (a : α) : (pure a : Result α) = .ok a := rfl

@[simp] theorem throw_eq_error (e : Fault) : (throw e : Result α) = .error e := rfl

/-- Following a possibly null pointer. -/
def deref : Option Nat → Result Nat
  | none => throw .null_dereference
  | some address => return address

@[simp] theorem deref_some (address : Nat) : deref (some address) = .ok address := rfl

@[simp] theorem deref_none : deref none = .error .null_dereference := rfl

theorem deref_eq_ok_iff {pointer : Option Nat} {address : Nat} :
    deref pointer = .ok address ↔ pointer = some address := by
  cases pointer <;> simp

end Result

end rc_project
