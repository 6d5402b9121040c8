import CallSite.Member.Basic
import CallSite.Type.Define

/-!
# Members under a substitution

* `Member.substitute` – replace generic parameters in every type of a member.
* `Member.close` – give a generic method its arguments.

Where the constraints of an open generic method mention what is replaced, its own generic
parameters have to be made again with other constraints. The store keeps what it made, so that the
same substitution of the same member leads to the same parameters.
-/

namespace CallSite

/-- Some type of a list changes under a substitution. The types behind the first that does are not
looked at. -/
def anyChanges (σ : Substitution) : List TypeId → TypeM Bool
  | [] => return false
  | t :: ts => do
    if (← substitute σ t) = t then anyChanges σ ts else return true

/-- The types that constrain some generic parameters. -/
def Store.constraintsOf (s : Store) (parameters : List TypeId) : List TypeId :=
  parameters.flatMap fun t => ((s.info t).parameter?.map GenericParameter.constraints).getD []

namespace Member

/-- The generic parameters of an open method have constraints that a substitution changes. -/
def constraintsChange (member : Member) (σ : Substitution) : TypeM Bool := do
  anyChanges σ ((← get).constraintsOf member.genericParameters)

/-- Make the generic parameters of an open method again where a substitution changes their
constraints, and replace them by what was made. A substitution that replaces the parameters of the
method itself needs none of this. -/
def rebind (member : Member) (σ : Substitution) : TypeM (Member × Substitution) := do
  match member.openMethod with
  | none => return (member, σ)
  | some token =>
    if σ.methodOwner = some token then
      return (member, σ)
    if ← member.constraintsChange σ then
      let (fresh, copies) ← rebindMethodParameters token member.genericParameters σ
      return (member.withGenericMethod fresh copies, σ.withMethod token copies)
    else return (member, σ)

/-- Replace generic parameters in the type of a parameter. -/
def substituteParameter (σ : Substitution) (p : Parameter) : TypeM Parameter := do
  return { p with type := ← CallSite.substitute σ p.type }

/-- **Replace generic parameters** in every type of a member. -/
def substitute (member : Member) (σ : Substitution) : TypeM Member := do
  let (member, σ) ← member.rebind σ
  let declaringType ← CallSite.substitute σ member.declaringType
  let parameters ← member.parameters.mapM (substituteParameter σ)
  let valueType ← member.valueType.mapM (CallSite.substitute σ)
  let genericArguments ← member.genericArguments.mapM (CallSite.substitute σ)
  return { member with declaringType, parameters, valueType, genericArguments }

/-- **Give a generic method its arguments.** -/
def close (member : Member) (arguments : List TypeId) : TypeM Member := do
  match member.openMethod with
  | none => throw (.notDefinition member.name)
  | some token =>
    if arguments.length ≠ member.genericParameters.length then
      throw (.argumentCount member.name member.genericParameters.length arguments.length)
    let closed ← member.substitute (.forMethod token arguments)
    return { closed with genericArguments := arguments }

end Member

end CallSite
