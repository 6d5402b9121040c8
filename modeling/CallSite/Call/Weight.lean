import CallSite.Match.Cost

/-!
# Weights of overloads

Every overload that accepts a call is given a **weight**, a record of counters, and overloads are
ranked by their weights.

* `Criterion`, `Weight.get` – the counters one by one.
* `ranking` – which counters are compared, in which order, and which end of each ranks first.
* `Weight.compare`, `Weight.isBetter` – the lexicographic comparison.
* `Weight.absorb` – add the cost of a match.
-/

namespace CallSite

/-- A counter of a weight. -/
inductive Criterion
  /-- Steps to a base. -/
  | totalTypes
  /-- Steps to a generic base, and open parameters of a type that is no interface. -/
  | genericTypes
  /-- Steps to an interface. -/
  | totalInterfaces
  /-- Steps to a generic interface, and open parameters of an interface type. -/
  | genericInterfaces
  /-- Generic parameters of type and method that were bound. -/
  | genericArguments
  /-- Parameters that the call leaves to their default. -/
  | required
  /-- Parameters that the call supplies. -/
  | specified
  /-- Flags for reference and value types, and class constraints, of bound parameters. -/
  | typeConstraints
  /-- Interface constraints of bound parameters. -/
  | interfaceConstraints
  /-- Flags for default constructors of bound parameters. -/
  | constructorConstraints
  /-- Parameters. -/
  | total
  /-- Arguments whose type is that of the parameter. -/
  | identical
deriving DecidableEq, Repr

/-- The end of a counter that ranks first. -/
inductive Preference
  /-- The smaller count. -/
  | fewer
  /-- The larger count. -/
  | more
deriving DecidableEq, Repr

/-- **The counters that are compared**, those that weigh more before the others. How many arguments
have exactly the type of their parameter is counted and not compared. -/
def ranking : List (Criterion × Preference) :=
  [(.totalTypes, .fewer),
   (.genericTypes, .fewer),
   (.totalInterfaces, .fewer),
   (.genericInterfaces, .fewer),
   (.genericArguments, .more),
   (.required, .fewer),
   (.specified, .more),
   (.typeConstraints, .more),
   (.interfaceConstraints, .more),
   (.constructorConstraints, .more),
   (.total, .more)]

/-- **The weight of an overload** for a call. -/
structure Weight where
  /-- Steps to a base. -/
  totalTypes : Nat := 0
  /-- Steps to a generic base, and open parameters of a type that is no interface. -/
  genericTypes : Nat := 0
  /-- Steps to an interface. -/
  totalInterfaces : Nat := 0
  /-- Steps to a generic interface, and open parameters of an interface type. -/
  genericInterfaces : Nat := 0
  /-- Generic parameters of type and method that were bound. -/
  genericArguments : Nat := 0
  /-- Parameters that the call leaves to their default. -/
  required : Nat := 0
  /-- Parameters that the call supplies. -/
  specified : Nat := 0
  /-- Flags for reference and value types, and class constraints, of bound parameters. -/
  typeConstraints : Nat := 0
  /-- Interface constraints of bound parameters. -/
  interfaceConstraints : Nat := 0
  /-- Flags for default constructors of bound parameters. -/
  constructorConstraints : Nat := 0
  /-- Parameters. -/
  total : Nat := 0
  /-- Arguments whose type is that of the parameter. -/
  identical : Nat := 0
deriving DecidableEq, Repr

namespace Weight

/-- Read a counter. -/
def get (w : Weight) : Criterion → Nat
  | .totalTypes => w.totalTypes
  | .genericTypes => w.genericTypes
  | .totalInterfaces => w.totalInterfaces
  | .genericInterfaces => w.genericInterfaces
  | .genericArguments => w.genericArguments
  | .required => w.required
  | .specified => w.specified
  | .typeConstraints => w.typeConstraints
  | .interfaceConstraints => w.interfaceConstraints
  | .constructorConstraints => w.constructorConstraints
  | .total => w.total
  | .identical => w.identical

/-- Add the cost of a match. -/
def absorb (w : Weight) (cost : MatchCost) : Weight :=
  { w with
    totalTypes := w.totalTypes + cost.totalTypes
    genericTypes := w.genericTypes + cost.genericTypes
    totalInterfaces := w.totalInterfaces + cost.totalInterfaces
    genericInterfaces := w.genericInterfaces + cost.genericInterfaces
    typeConstraints := w.typeConstraints + cost.typeConstraints
    interfaceConstraints := w.interfaceConstraints + cost.interfaceConstraints
    constructorConstraints := w.constructorConstraints + cost.constructorConstraints }

/-- Compare two weights by one counter; the one that ranks first is the lesser. -/
def compareBy (a b : Weight) : Criterion × Preference → Ordering
  | (criterion, .fewer) => Ord.compare (a.get criterion) (b.get criterion)
  | (criterion, .more) => Ord.compare (b.get criterion) (a.get criterion)

/-- **Compare two weights**; the one that ranks first is the lesser. -/
def compare (a b : Weight) : Ordering :=
  ranking.foldr (fun entry rest => (compareBy a b entry).then rest) .eq

/-- One weight ranks before the other. -/
def isBetter (a b : Weight) : Bool :=
  compare a b == .lt

end Weight

end CallSite
