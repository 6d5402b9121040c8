import CallSite.Type.Basic

/-!
# Substitutions

A **substitution** replaces generic parameters by types. It has a part for the parameters of
one generic definition and a part for those of one generic method; a parameter is replaced by
position, and only when its owner is the one the part was built for.

* `Substitution.forType`, `Substitution.forMethod`, `Substitution.withMethod` – the three ways
  to build one.
* `Substitution.lookup` – what a parameter is replaced by.
-/

namespace CallSite

/-- A replacement of generic parameters by types. -/
structure Substitution where
  /-- The definition whose parameters are replaced. -/
  typeOwner : Option TypeId := none
  /-- The types that replace them, by position. -/
  typeArguments : List TypeId := []
  /-- The method whose parameters are replaced. -/
  methodOwner : Option MethodToken := none
  /-- The types that replace them, by position. -/
  methodArguments : List TypeId := []
deriving DecidableEq, Repr

namespace Substitution

/-- Replace the parameters of a generic definition. -/
def forType (definition : TypeId) (arguments : List TypeId) : Substitution :=
  { typeOwner := some definition, typeArguments := arguments }

/-- Replace the parameters of a generic method. -/
def forMethod (method : MethodToken) (arguments : List TypeId) : Substitution :=
  { methodOwner := some method, methodArguments := arguments }

/-- Replace also the parameters of a generic method, in place of any method named before. -/
def withMethod (σ : Substitution) (method : MethodToken) (arguments : List TypeId) :
    Substitution :=
  { σ with methodOwner := some method, methodArguments := arguments }

/-- The part that replaces the parameters of a definition. -/
def typePart (σ : Substitution) : Substitution :=
  { typeOwner := σ.typeOwner, typeArguments := σ.typeArguments }

/-- Nothing would be replaced. -/
def isEmpty (σ : Substitution) : Bool :=
  σ.typeArguments.isEmpty && σ.methodArguments.isEmpty

/-- **What a parameter is replaced by**, if it is replaced. -/
def lookup (σ : Substitution) (p : GenericParameter) : Option TypeId :=
  match p.owner with
  | .type definition =>
    if σ.typeOwner = some definition then σ.typeArguments[p.position]? else none
  | .method token =>
    if σ.methodOwner = some token then σ.methodArguments[p.position]? else none

end Substitution

end CallSite
