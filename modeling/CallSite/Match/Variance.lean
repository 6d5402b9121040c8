/-!
# Variance

In which direction the two types of a match may differ.
-/

namespace CallSite

/-- The direction in which the type of a place may differ from the type of what flows there. -/
inductive Variance
  /-- Not at all. -/
  | invariant
  /-- The place may be the more derived one: a value comes out of it. -/
  | covariant
  /-- The source may be the more derived one: a value goes into the place. -/
  | contravariant
deriving DecidableEq, Repr

/-- The opposite direction. -/
def Variance.inverse : Variance → Variance
  | .invariant => .invariant
  | .covariant => .contravariant
  | .contravariant => .covariant

/-- The opposite of the opposite direction is the direction itself. -/
@[simp]
theorem Variance.inverse_inverse (v : Variance) : v.inverse.inverse = v := by
  cases v <;> rfl

end CallSite
