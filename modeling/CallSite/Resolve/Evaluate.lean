import CallSite.Call.Fit
import CallSite.Resolve.Options
import CallSite.Resolve.Query

/-!
# Evaluating a candidate

A candidate is accepted when the method arguments that a query gives satisfy its generic
parameters, the call fits its parameters, its value has the type that is asked for, and every
generic parameter that is inferred ends up with a type.

* `matchAll` – match types one by one against generic parameters.
* `evaluate` – the whole test; an accepted candidate has a fit and the types inferred for it.
-/

namespace CallSite

/-- **Match types one by one** against generic parameters. -/
def matchAll (s : Store) (depth : Nat) (pairs : List (TypeId × TypeId)) (i : Inference) :
    Option Inference :=
  pairs.foldlM (fun i pair => s.matches depth pair.1 .invariant pair.2 i) i

section Candidate

variable (s : Store) (depth : Nat) (names : NameComparison) (query : Query) (member : Member)

/-- The slots for the generic parameters of a method that has no arguments yet. -/
def methodSlots : Slots :=
  match member.methodOwner with
  | some owner => Slots.ofArity owner member.genericParameters.length
  | none => Slots.empty

/-- The method arguments that a query gives satisfy the generic parameters of the candidate. -/
def matchMethodArguments (i : Inference) : Option Inference :=
  if query.methodArguments.isEmpty then some i
  else if member.openMethod.isNone ||
      member.genericParameters.length ≠ query.methodArguments.length then none
  else matchAll s depth (query.methodArguments.zip member.genericParameters) i

/-- The call fits the parameters of the candidate. A field or an event takes no arguments. -/
def fitCall (inferred : Inferred) : Option (Fit × Inferred) :=
  if (member.kind = .field || member.kind = .event) && !query.arguments.isEmpty then none
  else fitParameters s depth names member.parameters query.arguments inferred

/-- The value of the candidate has the type that is asked for. -/
def matchValue (fit : Fit × Inferred) : Option (Fit × Inferred) :=
  match query.valueType with
  | none => some fit
  | some expected => do
    let actual ← member.valueType
    let i ← s.matches depth expected query.variance actual fit.2.start
    return ({ fit.1 with weight := fit.1.weight.absorb i.cost }, i.inferred)

/-- **Evaluate a candidate**, with slots for the parameters of the queried definition; a type that
is no definition has none. -/
def evaluate (typeSlots : Slots) : Option (Fit × Inferred) := do
  let i ← matchMethodArguments s depth query member
    { typeSlots := typeSlots, methodSlots := methodSlots member }
  let (fit, inferred) ← fitCall s depth names query member i.inferred
  let fit := { fit with weight := fit.weight.absorb i.cost }
  let (fit, inferred) ← matchValue s depth query member (fit, inferred)
  if inferred.methodSlots.isComplete && inferred.typeSlots.isComplete then
    let bound := inferred.typeSlots.boundCount + inferred.methodSlots.boundCount
    some ({ fit with weight := { fit.weight with genericArguments := bound } }, inferred)
  else none

end Candidate

end CallSite
