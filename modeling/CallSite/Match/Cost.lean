import CallSite.Type.Store

/-!
# The cost of a match

A match counts the steps it takes up the hierarchy and the constraints of the parameters it binds.
Both are counted on the path that succeeds only.

* `MatchCost.addBaseStep`, `MatchCost.addInterfaceStep` – a step to a base, to an interface.
* `MatchCost.addConstraints` – a parameter was bound.
* `MatchCost.add` – costs are added counter by counter, and each of the above adds a fixed cost.
-/

namespace CallSite

/-- What a match has counted. -/
structure MatchCost where
  /-- Steps to a base. -/
  totalTypes : Nat := 0
  /-- Steps to a base that is generic. -/
  genericTypes : Nat := 0
  /-- Steps to an interface. -/
  totalInterfaces : Nat := 0
  /-- Steps to an interface that is generic. -/
  genericInterfaces : Nat := 0
  /-- Flags for reference and value types, and class constraints, of bound parameters. -/
  typeConstraints : Nat := 0
  /-- Interface constraints of bound parameters. -/
  interfaceConstraints : Nat := 0
  /-- Flags for default constructors of bound parameters. -/
  constructorConstraints : Nat := 0
deriving DecidableEq, Repr

namespace MatchCost

/-- One where something holds. -/
def one (holds : Bool) : Nat :=
  if holds then 1 else 0

/-- Count a step to a base. -/
def addBaseStep (s : Store) (base : TypeId) (cost : MatchCost) : MatchCost :=
  { cost with
    totalTypes := cost.totalTypes + 1
    genericTypes := cost.genericTypes + one (s.info base).isGeneric }

/-- Count a step to an interface. -/
def addInterfaceStep (s : Store) (interface : TypeId) (cost : MatchCost) : MatchCost :=
  { cost with
    totalInterfaces := cost.totalInterfaces + 1
    genericInterfaces := cost.genericInterfaces + one (s.info interface).isGeneric }

/-- Count the constraints of a parameter that was bound. -/
def addConstraints (s : Store) (p : GenericParameter) (cost : MatchCost) : MatchCost :=
  let interfaces := p.constraints.countP fun c => (s.info c).isInterface
  { cost with
    typeConstraints := cost.typeConstraints + one (p.flags.contains Flags.reference)
      + one (p.flags.contains Flags.nonNullableValue) + (p.constraints.length - interfaces)
    interfaceConstraints := cost.interfaceConstraints + interfaces
    constructorConstraints := cost.constructorConstraints
      + one (p.flags.contains Flags.defaultConstructor) }

/-! ### Adding costs -/

/-- Add two costs, counter by counter. -/
def add (a b : MatchCost) : MatchCost :=
  { totalTypes := a.totalTypes + b.totalTypes
    genericTypes := a.genericTypes + b.genericTypes
    totalInterfaces := a.totalInterfaces + b.totalInterfaces
    genericInterfaces := a.genericInterfaces + b.genericInterfaces
    typeConstraints := a.typeConstraints + b.typeConstraints
    interfaceConstraints := a.interfaceConstraints + b.interfaceConstraints
    constructorConstraints := a.constructorConstraints + b.constructorConstraints }

instance : Add MatchCost := ⟨add⟩

theorem add_def (a b : MatchCost) : a + b = a.add b := rfl

@[simp] theorem add_zero (a : MatchCost) : a + {} = a := rfl

theorem zero_add (a : MatchCost) : {} + a = a := by
  simp only [add_def, add, Nat.zero_add]

theorem add_assoc (a b c : MatchCost) : a + b + c = a + (b + c) := by
  simp only [add_def, add, Nat.add_assoc]

theorem addBaseStep_eq (s : Store) (base : TypeId) (cost : MatchCost) :
    cost.addBaseStep s base = cost + addBaseStep s base {} := by
  simp [add_def, add, addBaseStep]

theorem addInterfaceStep_eq (s : Store) (interface : TypeId) (cost : MatchCost) :
    cost.addInterfaceStep s interface = cost + addInterfaceStep s interface {} := by
  simp [add_def, add, addInterfaceStep]

theorem addConstraints_eq (s : Store) (p : GenericParameter) (cost : MatchCost) :
    cost.addConstraints s p = cost + addConstraints s p {} := by
  simp [add_def, add, addConstraints, Nat.add_assoc]

end MatchCost

end CallSite
