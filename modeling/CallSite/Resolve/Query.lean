import CallSite.Match.Variance
import CallSite.Member.Basic

/-!
# Queries

A **query** says which member of a type is looked for: its kind and name, the mask, the generic
arguments that are given, the call-site arguments, and the type that the value of the member has to
match.
-/

namespace CallSite

/-- **What is looked for on a type.** -/
structure Query where
  /-- The kind of member. -/
  kind : MemberKind
  /-- The name of the member. -/
  name : String
  /-- The mask, if the query has one of its own. -/
  access : Option Access := none
  /-- Arguments for the parameters of the queried definition. -/
  typeArguments : List TypeId := []
  /-- Arguments for the parameters of the method. -/
  methodArguments : List TypeId := []
  /-- The arguments of the call. -/
  arguments : Arguments := {}
  /-- The type that flows into the value of the member, or out of it. -/
  valueType : Option TypeId := none
  /-- How that type may differ from the type of the member. -/
  variance : Variance := .contravariant
deriving DecidableEq, Repr

namespace Query

/-- Look for the constructors. -/
def constructor : Query :=
  { kind := .constructor, name := constructorName }

/-- Ask for a value of the member that a source of this type flows into. -/
def storing (query : Query) (t : TypeId) : Query :=
  { query with valueType := some t, variance := .contravariant }

end Query

end CallSite
