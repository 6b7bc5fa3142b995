import Mathlib.Tactic

/-!
# `AK/Assertions.h`

A function of the kernel that may panic returns an `Option`, and `none` stands for the panic.
-/

namespace AK

/-- `VERIFY(condition)`. -/
def verify (condition : Prop) [Decidable condition] : Option Unit :=
  if condition then some () else none

variable {α : Type} {condition : Prop} [Decidable condition] {a : α}

/-- A computation that starts with `VERIFY` completes only if the condition holds. -/
@[simp]
theorem verify_bind_eq_some {rest : Unit → Option α} :
    (verify condition >>= rest) = some a ↔ condition ∧ rest () = some a := by
  unfold verify
  split <;> simp_all

@[simp]
theorem verify_eq_some {u : Unit} : verify condition = some u ↔ condition := by
  unfold verify
  split <;> simp_all

@[simp]
theorem verify_true [Decidable True] : verify True = some () := if_pos trivial

@[simp]
theorem verify_optionBind_eq_some {rest : Unit → Option α} :
    (verify condition).bind rest = some a ↔ condition ∧ rest () = some a :=
  verify_bind_eq_some

end AK
